import EnkiNet.Mirror
import EnkiNet.Runs

/-!
# How many bytes a packet sends

Every send function gives `getBytes().data()` and `getBytesWritten()` to the
transport.  A script here is any sequence of `operator<<` and `writeBits` calls
on a fresh packet; a call that throws is part of the script, and the calls after
it go on with the packet it left.

A call of `operator<<` leaves at most as many bytes written as the buffer has.
`writeBits` does not always: it counts the byte behind a field that ends on a
byte boundary as started, but makes no room for it.  `wireOwned_iff` says which
scripts end with a packet whose wire bytes are its own.
-/

namespace EnkiNet

open ByteStore

open Packet

/-! ## Scripts of calls -/

inductive WriteCall
  | scalar (k : Nat) (v : BitVec (8 * k))
  | string (s : StdString)
  | vector (k : Nat) (xs : Sized (BitVec (8 * k)))
  | array (k : Nat) (xs : Sized (BitVec (8 * k)))
  | entityInfo (e : EntityInfo)
  | packet (q : Packet)
  | bits (data : BitVec 32) (width offset : Int) (width_int : IsInt width)
      (offset_int : IsInt offset) (width_pos : 1 ≤ width) (in_range : width + offset ≤ 32)

namespace WriteCall

def perform : WriteCall → PacketM Unit
  | scalar _ v => putScalar v
  | string s => putString s
  | vector _ xs => putVector xs.elems
  | array _ xs => putArray xs.elems
  | entityInfo e => putEntityInfo e
  | packet q => putPacket q
  | bits data width offset .. => writeBits data width offset

/-- One call.  After an exception the caller may go on with the packet; after
undefined behaviour there is no packet to go on with. -/
def step (p : Packet) (c : WriteCall) : Option Packet :=
  match c.perform p with
  | (.ok (), p') => some p'
  | (.error (.undefined _), _) => none
  | (.error _, p') => some p'

/-- The call leaves no more bytes written than the buffer has.  For `writeBits`
that is so when its field ends inside a byte, or when the buffer already has the
byte behind the field; a sum of width and offset below zero throws, and all that
the call does is to fold a whole byte into the byte count. -/
def Fits (p : Packet) : WriteCall → Prop
  | bits _ width offset .. =>
      if width + offset < 0 then p.writeCursor.normalize.byte ≤ p.bytes.length
      else
        0 ≤ offset ∧ offset + p.writeCursor.normalize.fieldWidth width.toNat ≤ 32 ∧
          ((p.writeCursor.normalize.bit + p.writeCursor.normalize.fieldWidth width.toNat) % 8 ≠ 0 ∨
            p.writeCursor.normalize.byte + (p.writeCursor.normalize.bit
              + p.writeCursor.normalize.fieldWidth width.toNat) / 8 ≤ p.bytes.length)
  | _ => True

end WriteCall

/-- The script leaves a packet, and sending it sends bytes of its buffer only. -/
def WireOwned (h : PacketHeader) (script : List WriteCall) : Prop :=
  ∃ p, Runs.run WriteCall.step (ofHeader h) script = some p ∧
    p.bytesWritten ≤ p.bytes.length ∧ p.wire = .ok (p.bytes.take p.bytesWritten)

/-! ## Whole bytes -/

namespace Packet

/-- The operation has no undefined behaviour and leaves a packet whose written
bytes are its own, from every packet that has a header and meets `pre`. -/
def Stores (pre : Packet → Prop) (x : PacketM Unit) : Prop :=
  ∀ p, headerSize ≤ p.bytesWritten → pre p →
    (∀ u, (x p).1 ≠ .error (.undefined u)) ∧
      headerSize ≤ (x p).2.bytesWritten ∧ (x p).2.bytesWritten ≤ (x p).2.bytes.length

/-- The written bytes of the packet are its own. -/
def Owned (p : Packet) : Prop := p.bytesWritten ≤ p.bytes.length

theorem Stores.weaken {x : PacketM Unit} (h : Stores (fun _ => True) x) : Stores Owned x :=
  fun p hp _ => h p hp trivial

theorem Stores.bind {pre : Packet → Prop} {x y : PacketM Unit} (hx : Stores pre x)
    (hy : Stores Owned y) : Stores pre (do x; y) := by
  intro p hp hpre
  obtain ⟨hub, hhead, howned⟩ := hx p hp hpre
  rcases hrun : x p with ⟨e | _, p'⟩
  · rw [Fallible.bind_error hrun]
    rw [hrun] at hub hhead howned
    exact ⟨fun u h => hub u (congrArg Except.error (Except.error.inj h)), hhead, howned⟩
  · rw [Fallible.bind_ok hrun]
    rw [hrun] at hhead howned
    exact hy p' hhead howned

theorem stores_serialize (d : List Byte) : Stores (fun _ => True) (serialize (some d)) := by
  intro p hp _
  obtain ⟨s, hrun, hlen, _⟩ := serialize_ok p d
  rw [hrun]
  refine ⟨by simp, Nat.le_trans hp (Nat.le_add_right _ _), ?_⟩
  have hbyte : (p.withWrite (p.writeCursor.afterBytes d.length) s).bytesWritten
      = p.bytesWritten + d.length := rfl
  rw [hbyte, withWrite_bytes, hlen]
  split <;> omega

/-- The null pointer is rejected, and the packet stays as it was. -/
theorem stores_serialize_option (d : Option (List Byte)) : Stores Owned (serialize d) := by
  cases d with
  | none => exact fun p hp howned => ⟨by simp [serialize], hp, howned⟩
  | some d => exact (stores_serialize d).weaken

theorem stores_putString (s : StdString) : Stores (fun _ => True) (putString s) :=
  (stores_serialize _).bind (stores_serialize_option _)

theorem stores_putVector {k : Nat} (xs : List (BitVec (8 * k))) :
    Stores (fun _ => True) (putVector xs) :=
  (stores_serialize _).bind (stores_serialize_option _)

theorem stores_putEntityInfo (e : EntityInfo) : Stores (fun _ => True) (putEntityInfo e) := by
  refine (stores_serialize _).bind ?_
  refine (stores_serialize _).weaken.bind ?_
  refine (stores_putString _).weaken.bind ?_
  refine (stores_putString _).weaken.bind ?_
  exact (stores_serialize _).weaken

/-! ## Calls of `writeBits` -/

theorem bytesNeeded_nonneg {n : Int} (h : -7 ≤ n) : 0 ≤ bytesNeeded n := by
  by_cases hneg : n < 0
  · rw [bytesNeeded_of_small (by omega)]
    omega
  · have hsign : 0 ≤ n.sign := Int.sign_nonneg_iff.mpr (by omega)
    have hfloat : 0 ≤ floatOfInt n := Int.mul_nonneg hsign (Int.natCast_nonneg _)
    unfold bytesNeeded
    omega

/-- A negative offset that the guard lets through is a negative shift in the first
turn of the first lambda. -/
theorem writeBits_negative_offset (p : Packet) (data : BitVec 32) {n o : Int} (hn : 1 ≤ n)
    (hint : IsInt n) (ho : o < 0) (hno : 0 ≤ n + o ∧ n + o ≤ 32) :
    ∃ p', writeBits data n o p = (.error (.undefined .shiftAmount), p') := by
  have hint' : -2147483648 ≤ n ∧ n < 2147483648 := hint
  have hbit := Cursor.normalize_bit_lt p.writeCursor
  have hcbyte := Cursor.le_normalize_byte p.writeCursor
  have hsum : IsInt (n + o) := by unfold IsInt; omega
  have hguard : ¬ overflowsData n o := by unfold overflowsData; omega
  set c := p.writeCursor.normalize with hc
  have hneed : IsInt (n - ((8 - c.bit : Nat) : Int)) := by unfold IsInt; omega
  have hsize := bytesNeeded_nonneg (n := n - ((8 - c.bit : Nat) : Int)) (by omega)
  obtain ⟨q', hres⟩ : ∃ q', reserveBits (n - ((8 - c.bit : Nat) : Int)) (p.withWrite c p.bytes) =
      (.ok (), q') := by
    unfold reserveBits
    dsimp only
    rw [if_neg (by omega)]
    split
    · exact ⟨_, rfl⟩
    · exact ⟨_, rfl⟩
  have hfirst : ∀ k : Nat, 0 < k → writeBitRun data o k 0 q' =
      (.error (.undefined .shiftAmount), q') := by
    intro k hk
    obtain ⟨k, rfl⟩ : ∃ j, k = j + 1 := ⟨k - 1, by omega⟩
    have hone : writeBit data 0 (((0 : Nat) : Int) + o) q' =
        (.error (.undefined .shiftAmount), q') := by
      unfold writeBit
      rw [if_pos (by omega)]
    rw [writeBitRun, Fallible.bind_error hone]
  refine ⟨q', ?_⟩
  rw [writeBits_eq_with, writeBitsWith_unfold, ← hc, if_neg (not_not_intro hsum), if_neg hguard,
    if_neg (not_not_intro hneed), Fallible.bind_ok hres]
  obtain ⟨turns, hturns⟩ : ∃ turns, n.toNat = turns + 1 := ⟨n.toNat - 1, by omega⟩
  rw [hturns, bitsLoop, if_neg (by omega)]
  have hself : o + (n - n) = o := by omega
  by_cases havail : 8 - c.bit < 8
  · rw [if_pos havail, Fallible.bind_error (hfirst _ (by omega))]
  · rw [if_neg havail, hself]
    by_cases h8 : n / 8 ≥ 1
    · rw [if_pos h8, Fallible.bind_error (hfirst 8 (by omega))]
    · rw [if_neg h8, Fallible.bind_error (hfirst _ (by omega))]

end Packet

/-! ## One call -/

namespace WriteCall

/-- Calls other than `writeBits` always leave the written bytes inside the buffer. -/
theorem step_of_stores {p : Packet} {c : WriteCall} (hp : headerSize ≤ p.bytesWritten)
    (h : Stores (fun _ => True) c.perform) :
    ∃ p', c.step p = some p' ∧ headerSize ≤ p'.bytesWritten ∧ p'.Owned := by
  obtain ⟨hub, hhead, howned⟩ := h p hp trivial
  refine ⟨(c.perform p).2, ?_, hhead, howned⟩
  unfold step
  rcases hrun : c.perform p with ⟨e | _, p'⟩
  · cases e with
    | undefined u =>
        rw [hrun] at hub
        exact absurd rfl (hub u)
    | _ => rfl
  · rfl

/-- A `writeBits` call, by its guard and the sign of its offset. -/
theorem step_bits {p : Packet} (hp : headerSize ≤ p.bytesWritten) (data : BitVec 32)
    {width offset : Int} (hw : IsInt width) (ho : IsInt offset) (hpos : 1 ≤ width)
    (hin : width + offset ≤ 32) :
    (∀ p', step p (bits data width offset hw ho hpos hin) = some p' →
      headerSize ≤ p'.bytesWritten) ∧
    ((∃ p', step p (bits data width offset hw ho hpos hin) = some p' ∧ p'.Owned) ↔
      Fits p (bits data width offset hw ho hpos hin)) := by
  have hw' : -2147483648 ≤ width ∧ width < 2147483648 := hw
  have ho' : -2147483648 ≤ offset ∧ offset < 2147483648 := ho
  have hsum : IsInt (width + offset) := by unfold IsInt; omega
  have hle : p.bytesWritten ≤ p.writeCursor.normalize.byte :=
    Cursor.le_normalize_byte p.writeCursor
  by_cases hguard : width + offset < 0
  · have hrun := writeBitsWith_rejected (fun shift bits _ => writeBitRun data shift bits 0)
      () p hsum
      (Or.inl hguard)
    rw [← writeBits_eq_with] at hrun
    have hstep : step p (bits data width offset hw ho hpos hin)
        = some (p.withWrite p.writeCursor.normalize p.bytes) := by
      simp only [step, perform, hrun]
    simp only [Fits, hstep, if_pos hguard, Option.some.injEq, forall_eq', exists_eq_left']
    exact ⟨Nat.le_trans hp hle, Iff.rfl⟩
  by_cases hneg : offset < 0
  · obtain ⟨p', hrun⟩ := writeBits_negative_offset p data hpos hw hneg ⟨by omega, hin⟩
    have hstep : step p (bits data width offset hw ho hpos hin) = none := by
      simp only [step, perform, hrun]
    simp only [Fits, hstep, if_neg hguard]
    exact ⟨by simp, by simp, fun h => absurd h.1 (by omega)⟩
  obtain ⟨n, rfl⟩ : ∃ n : Nat, width = n := ⟨width.toNat, by omega⟩
  obtain ⟨o, rfl⟩ : ∃ o : Nat, offset = o := ⟨offset.toNat, by omega⟩
  simp only [Fits, if_neg hguard, Int.toNat_natCast]
  by_cases hshift : o + p.writeCursor.normalize.fieldWidth n ≤ 32
  · obtain ⟨s, hrun, hlen, _⟩ := writeBits_ok p data (by omega : 1 ≤ n) (by omega) hshift
      (Nat.le_trans (by decide) hp)
    have hstep : step p (bits data n o hw ho hpos hin)
        = some (p.withWrite (p.writeCursor.afterBits n) s) := by
      simp only [step, perform, hrun]
    simp only [hstep, Option.some.injEq, forall_eq', exists_eq_left', Owned,
      withWrite_bytesWritten, withWrite_bytes]
    refine ⟨Nat.le_trans hp (Cursor.le_afterBits_byte p.writeCursor n), ?_⟩
    simp only [hlen, Cursor.afterBits, Cursor.move, bitsSize]
    have hbit := Cursor.normalize_bit_lt p.writeCursor
    -- a field that is cut at the byte boundary ends on it
    have hcut : p.writeCursor.normalize.fieldWidth n = n ∨
        (p.writeCursor.normalize.bit + p.writeCursor.normalize.fieldWidth n = 8 ∧
          p.writeCursor.normalize.bit + n < 8) := by
      unfold Cursor.fieldWidth
      split <;> omega
    omega
  · obtain ⟨u, p', hrun⟩ := writeBits_undefined p data (by omega : 1 ≤ n) (by omega)
      (Nat.lt_of_not_le hshift)
    have hstep : step p (bits data n o hw ho hpos hin) = none := by
      simp only [step, perform, hrun]
    simp only [hstep]
    exact ⟨by simp, by simp, fun h => absurd h.2.1 (by omega)⟩

/-- **One call.**  The packet it leaves owns its written bytes if and only if the
call fits. -/
theorem step_spec {p : Packet} (hp : headerSize ≤ p.bytesWritten) (c : WriteCall) :
    (∀ p', c.step p = some p' → headerSize ≤ p'.bytesWritten) ∧
      ((∃ p', c.step p = some p' ∧ p'.Owned) ↔ c.Fits p) := by
  have hplain : Stores (fun _ => True) c.perform → (c.Fits p ↔ True) →
      (∀ p', c.step p = some p' → headerSize ≤ p'.bytesWritten) ∧
        ((∃ p', c.step p = some p' ∧ p'.Owned) ↔ c.Fits p) := by
    intro hstores hfits
    obtain ⟨p', hstep, hhead, howned⟩ := step_of_stores hp hstores
    refine ⟨?_, fun _ => hfits.mpr trivial, fun _ => ⟨p', hstep, howned⟩⟩
    intro q hq
    rw [hstep] at hq
    cases hq
    exact hhead
  cases c with
  | scalar k v =>
      refine hplain ?_ Iff.rfl
      rw [perform]
      exact stores_serialize _
  | string s =>
      refine hplain ?_ Iff.rfl
      rw [perform]
      exact stores_putString s
  | vector k xs =>
      refine hplain ?_ Iff.rfl
      rw [perform]
      exact stores_putVector xs.elems
  | array k xs =>
      refine hplain ?_ Iff.rfl
      rw [perform]
      exact (stores_serialize _).bind (stores_serialize_option _)
  | entityInfo e =>
      refine hplain ?_ Iff.rfl
      rw [perform]
      exact stores_putEntityInfo e
  | packet q =>
      refine hplain ?_ Iff.rfl
      rw [perform]
      exact stores_putVector (k := 1) q.bytes
  | bits data width offset hw ho hpos hin => exact step_bits hp data hw ho hpos hin

theorem headerSize_le_of_run {h : PacketHeader} {script : List WriteCall} {p : Packet}
    (hrun : Runs.run step (ofHeader h) script = some p) : headerSize ≤ p.bytesWritten :=
  Runs.run_invariant (fun _ c _ hp hstep => (step_spec hp c).1 _ hstep) hrun (Nat.le_refl _)

end WriteCall

/-! ## Whole scripts -/

/-- **When a script ends with a packet that sends its own bytes.**  Only the last
call matters: exactly when it fits the packet that the calls before it left. -/
theorem wireOwned_iff (h : PacketHeader) (script : List WriteCall) :
    WireOwned h script ↔ script = [] ∨
      ∃ pre c p, script = pre ++ [c] ∧
        Runs.run WriteCall.step (ofHeader h) pre = some p ∧ c.Fits p := by
  have howned : WireOwned h script ↔
      ∃ p, Runs.run WriteCall.step (ofHeader h) script = some p ∧ p.Owned := by
    constructor
    · rintro ⟨p, hrun, hle, _⟩
      exact ⟨p, hrun, hle⟩
    · rintro ⟨p, hrun, hle⟩
      exact ⟨p, hrun, hle, if_pos hle⟩
  rw [howned]
  rcases List.eq_nil_or_concat' script with rfl | ⟨pre, c, rfl⟩
  · refine iff_of_true ⟨ofHeader h, rfl, ?_⟩ (Or.inl rfl)
    simp [Owned, ofHeader]
  constructor
  · rintro ⟨q, hrun, hq⟩
    rw [Runs.run_append] at hrun
    obtain ⟨p, hpre, hlast⟩ := Option.bind_eq_some_iff.mp hrun
    obtain ⟨q', hstep, hnil⟩ := Runs.run_cons_some hlast
    cases hnil
    have hfits := (WriteCall.step_spec (WriteCall.headerSize_le_of_run hpre) c).2.mp ⟨q, hstep, hq⟩
    exact Or.inr ⟨pre, c, p, rfl, hpre, hfits⟩
  · rintro (hnil | ⟨pre', c', p, heq, hpre, hfits⟩)
    · exact absurd hnil (by simp)
    · obtain ⟨rfl, hlast⟩ := List.append_inj' heq rfl
      cases hlast
      obtain ⟨q, hstep, hq⟩ :=
        (WriteCall.step_spec (WriteCall.headerSize_le_of_run hpre) c).2.mpr hfits
      refine ⟨q, ?_, hq⟩
      rw [Runs.run_append_some hpre, Runs.run_cons hstep]
      rfl

/-- One byte's worth of bits on a fresh packet. -/
def oneByteField : List WriteCall :=
  [.bits 255 8 0 (by decide) (by decide) (by decide) (by decide)]

/-- The buffer has nine bytes, and ten are counted as written. -/
theorem oneByteField_not_owned :
    ((Runs.run WriteCall.step (ofHeader {}) oneByteField).map
      fun p => (p.bytesWritten, p.bytes.length)) = some (10, 9) ∧
      ¬ WireOwned {} oneByteField := by
  have hsizes : ((Runs.run WriteCall.step (ofHeader {}) oneByteField).map
      fun p => (p.bytesWritten, p.bytes.length)) = some (10, 9) := by decide +kernel
  refine ⟨hsizes, ?_⟩
  rintro ⟨p, hrun, hle, _⟩
  rw [hrun, Option.map_some, Option.some.injEq, Prod.mk.injEq] at hsizes
  omega

end EnkiNet
