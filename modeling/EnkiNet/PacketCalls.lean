import EnkiNet.Faults
import EnkiNet.Probes

/-!
# Everything a program can do with a packet

A program builds a packet from a header or from received bytes and then calls its
member functions in any order: the stream operators, `writeBits`, `readBits`,
`resetReadPosition`, `clear` and `setHeader`.  A call that throws is part of the
program, and the calls after it go on with the packet it left; behind undefined
behaviour there is nothing to go on with.

`Upright` is what every such program keeps: both cursors are behind the header and
no more than a byte ahead of their byte.
-/

namespace EnkiNet

open ByteStore Packet

/-! ## Values and destinations -/

/-- `data()` of a `std::array`.  Whether it is null for an array without elements is up to
the library. -/
def arrayData {k : Nat} (null : Bool) (xs : List (BitVec (8 * k))) : Option (List Byte) :=
  if xs = [] ∧ null then none else some (xs.flatMap scalarBytes)

/-- What `operator<<` takes. -/
inductive Item
  | scalar (k : Nat) (v : BitVec (8 * k))
  | string (s : StdString)
  | vector (k : Nat) (xs : Sized (BitVec (8 * k)))
  | array (k : Nat) (xs : Sized (BitVec (8 * k))) (null : Bool)
  | packet (q : Packet)

/-- What `operator>>` reads into. -/
inductive Target
  | scalar (k : Nat)
  | string
  | vector (k capacity : Nat)
  | array (k n : Nat) (null : Bool) (memory : Memory)
  | packet

/-- What a call returns. -/
inductive Outcome
  | none
  | scalar (k : Nat) (v : BitVec (8 * k))
  | string (s : StdString)
  | elements (k : Nat) (xs : List (BitVec (8 * k)))
  | packet (q : Packet)
  | bits (v : BitVec 32)
  deriving DecidableEq

/-- `operator<<`. -/
def Item.put : Item → PacketM Unit
  | scalar _ v => putScalar v
  | string s => putString s
  | vector _ xs => putVector xs.elems
  | array _ xs null => do
      putSize xs.elems.length
      serialize (arrayData null xs.elems)
  | packet q => putPacket q

/-- `operator>>(std::array<T, n>&)`. -/
def getArrayInto (k n : Nat) (null : Bool) (memory : Memory) : PacketM (List (BitVec (8 * k))) := do
  let stored ← getSize
  if stored ≤ n then do
    let bytes ← deserialize stored (n = 0 ∧ null)
    return scalarsOf k n (bytes ++ leftOver memory stored (k * n - stored))
  else
    Fallible.fail (.runtimeError "Failed to read std::array from packet, sizes don't match")

/-- `operator>>`. -/
def Target.get : Target → PacketM Outcome
  | scalar k => do
      let v ← getScalar k
      return .scalar k v
  | string => do
      let s ← getString
      return .string s
  | vector k capacity => do
      let xs ← getVector k capacity
      return .elements k xs
  | array k n null memory => do
      let xs ← getArrayInto k n null memory
      return .elements k xs
  | packet => do
      let q ← getPacket
      return .packet q

/-! ## Calls -/

/-- An `EntityInfo` is written and read by five of these. -/
inductive Call
  | put (x : Item)
  | get (t : Target)
  | writeBits (data : BitVec 32) (width offset : Int) (width_int : IsInt width)
      (offset_int : IsInt offset)
  | readBits (width offset : Int) (width_int : IsInt width) (offset_int : IsInt offset)
  | resetReadPosition
  | clear
  | setHeader (h : PacketHeader)

namespace Call

def perform : Call → PacketM Outcome
  | put x => do
      x.put
      return .none
  | get t => t.get
  | writeBits data width offset _ _ => do
      Packet.writeBits data width offset
      return .none
  | readBits width offset _ _ => do
      let v ← Packet.readBits width offset
      return .bits v
  | resetReadPosition => do
      Fallible.modify Packet.resetReadPosition
      return .none
  | clear => do
      Fallible.modify Packet.clear
      return .none
  | setHeader h => do
      Fallible.modify (Packet.setHeader h)
      return .none

/-- One call: the packet that it leaves. -/
def step (p : Packet) (c : Call) : Option Packet :=
  match c.perform p with
  | (.ok _, p') => some p'
  | (.error (.undefined _), _) => none
  | (.error _, p') => some p'

end Call

/-- How a packet is built. -/
inductive Origin
  | header (h : PacketHeader)
  | data (bytes : List Byte) (long : headerSize ≤ bytes.length)

def Origin.packet : Origin → Packet
  | header h => ofHeader h
  | data bytes _ => received bytes

/-- The packet that the constructor makes of received bytes. -/
theorem Origin.ofData_eq {bytes : List Byte} (long : headerSize ≤ bytes.length) :
    ofData bytes = .ok (Origin.data bytes long).packet :=
  Packet.ofData_eq long

/-- The packet is what some program has left. -/
def Packet.Arises (p : Packet) : Prop :=
  ∃ (origin : Origin) (calls : List Call), Runs.run Call.step origin.packet calls = some p

/-! ## Whole bytes -/

namespace Packet

/-- A null pointer is refused before anything is written. -/
theorem serialize_none (p : Packet) : serialize none p =
    (.error (.runtimeError "Failed to serialize data into packet, data is a nullptr"), p) := rfl

/-- `serialize` writes behind the byte cursor or leaves the packet alone. -/
theorem serialize_ends (data : Option (List Byte)) (p : Packet) :
    Fallible.Ends
      (fun _ p' => ∃ d s, data = some d ∧ p' = p.withWrite (p.writeCursor.afterBytes d.length) s)
      (fun e p' => data = none ∧ p' = p ∧ ∀ u, e ≠ .undefined u) (serialize data p) := by
  cases data with
  | none => exact ⟨rfl, rfl, by simp⟩
  | some d =>
      obtain ⟨s, hrun, _, _⟩ := serialize_ok p d
      rw [hrun]
      exact ⟨d, s, rfl, rfl⟩

/-- `deserialize` reads behind the byte cursor or leaves the packet alone. -/
theorem deserialize_ends (size : Nat) (isNull : Bool) (p : Packet) :
    Fallible.Ends
      (fun d p' => d = slice p.bytes p.bytesRead size ∧ p.bytesRead + size ≤ p.bytes.length ∧
        isNull = false ∧ p' = p.withRead (p.readCursor.afterBytes size))
      (fun e p' => (p.bytes.length < p.bytesRead + size ∨ isNull = true) ∧ p' = p ∧
        ∀ u, e ≠ .undefined u) (deserialize size isNull p) := by
  unfold deserialize
  split
  · next hpast => exact ⟨Or.inl hpast, rfl, by simp⟩
  split
  · next hnull => exact ⟨Or.inr hnull, rfl, by simp⟩
  · next hin hnull => exact ⟨rfl, Nat.not_lt.mp hin, by simpa using hnull, rfl⟩

/-- Sizes that do not match throw. -/
theorem catchable_getArrayInto (k n : Nat) (null : Bool) (memory : Memory) :
    Catchable (getArrayInto k n null memory) := by
  refine catchable_getSize.bind fun stored => ?_
  split
  · exact (catchable_deserialize _ _).bind fun _ => Fallible.Faults.pure _
  · exact Fallible.Faults.fail trivial

/-! ## Bits -/

/-- The lambda `write_bits` changes bits only, or its behaviour is undefined. -/
theorem writeBitRun_ends (data : BitVec 32) (shift : Int) (bits i : Nat) (p : Packet) :
    Fallible.Ends (fun _ p' => ∃ s, p' = p.withWrite p.writeCursor s)
      (fun e _ => ∃ u, e = .undefined u) (writeBitRun data shift bits i p) := by
  induction bits generalizing i p with
  | zero => exact ⟨p.bytes, rfl⟩
  | succ bits ih =>
      rw [writeBitRun]
      refine Fallible.Ends.bind ?_
      unfold writeBit
      split
      · exact ⟨_, rfl⟩
      split
      · exact ⟨_, rfl⟩
      · exact ih (i + 1) _

/-- Growing the buffer changes no bit of it. -/
theorem reserveBits_ends (bitsNeeded : Int) (p : Packet) :
    Fallible.Ends (fun _ p' => ∃ s, p' = p.withWrite p.writeCursor s ∧
        p.bytes.length ≤ s.length ∧ ∀ pos, bitAt s pos = bitAt p.bytes pos)
      (fun e p' => e = .lengthError ∧ p' = p) (reserveBits bitsNeeded p) := by
  unfold reserveBits
  dsimp only
  split
  · exact ⟨rfl, rfl⟩
  split
  · refine ⟨_, rfl, ?_, bitAt_resize ?_⟩
    · rw [length_resize]
      omega
    · omega
  · exact ⟨p.bytes, rfl, Nat.le_refl _, fun _ => rfl⟩

/-- Only a size below zero is impossible. -/
theorem reserveBits_of_size {n : Int} {p : Packet}
    (h : 0 ≤ (p.bytesWritten : Int) + bytesNeeded n) :
    ∃ s, reserveBits n p = (.ok (), p.withWrite p.writeCursor s) ∧
      ∀ pos, bitAt s pos = bitAt p.bytes pos := by
  have hends := reserveBits_ends n p
  rcases hrun : reserveBits n p with ⟨e | _, q⟩
  · unfold reserveBits at hrun
    dsimp only at hrun
    rw [if_neg (by omega)] at hrun
    split at hrun <;> cases hrun
  · rw [hrun] at hends
    obtain ⟨s, rfl, _, hbits⟩ := hends
    exact ⟨s, rfl, hbits⟩

/-- A call without bits makes room for none. -/
theorem writeBitsWith_zero {α : Type} (run : Int → Nat → α → PacketM α) (a : α) (p : Packet)
    (hbyte : 1 ≤ p.bytesWritten) :
    ∃ s, writeBitsWith run a 0 0 p = (.ok a, p.withWrite p.writeCursor.normalize s) ∧
      ∀ pos, bitAt s pos = bitAt p.bytes pos := by
  have hbit := Cursor.normalize_bit_lt p.writeCursor
  have hcbyte : 1 ≤ p.writeCursor.normalize.byte :=
    Nat.le_trans hbyte (Cursor.le_normalize_byte p.writeCursor)
  have hsum : IsInt ((0 : Int) + 0) := by decide
  have hguard : ¬ overflowsData (0 : Int) 0 := by decide
  have hneed : IsInt ((0 : Int) - ((8 - p.writeCursor.normalize.bit : Nat) : Int)) :=
    ⟨by omega, by omega⟩
  have hsize := bytesNeeded_of_small
    (n := (0 : Int) - ((8 - p.writeCursor.normalize.bit : Nat) : Int)) (by omega)
  obtain ⟨s, hreserve, hbits⟩ := reserveBits_of_size
    (n := (0 : Int) - ((8 - p.writeCursor.normalize.bit : Nat) : Int))
    (p := p.withWrite p.writeCursor.normalize p.bytes)
    (by rw [hsize, withWrite_bytesWritten]; omega)
  refine ⟨s, ?_, hbits⟩
  rw [writeBitsWith_unfold, if_neg (not_not_intro hsum), if_neg hguard,
    if_neg (not_not_intro hneed), Fallible.bind_ok hreserve, bitsLoop_done _ _ _ (Int.le_refl 0)]
  rfl

/-- The loop of `writeBits` moves the write cursor over the field, whatever happens to the
bits, or its behaviour is undefined. -/
theorem writeLoop_ends (p : Packet) (data : BitVec 32) (n o : Int) {c : Cursor} (hbit : c.bit < 8)
    (s : List Byte) :
    Fallible.Ends (fun _ p' => ∃ k t, p' = p.withWrite (c.move k) t)
      (fun e _ => ∃ u, e = .undefined u)
      (bitsLoop (fun shift bits _ => writeBitRun data shift bits 0) nextWriteByte addWriteBits
        n o n.toNat (8 - c.bit) n () (p.withWrite c s)) := by
  by_cases hn : n ≤ 0
  · rw [bitsLoop_done _ _ _ hn]
    exact ⟨0, s, by rw [Cursor.move_zero hbit]⟩
  obtain ⟨k, rfl⟩ : ∃ k : Nat, n = k := ⟨n.toNat, by omega⟩
  rw [Int.toNat_natCast]
  refine (bitsLoop_ends _ _ _ o hbit (by omega) (fun k _ q => ∃ t, q = p.withWrite (c.move k) t)
    _ ?_ ?_ ⟨s, by rw [Cursor.move_zero hbit]⟩).mono ?_
  · rintro k bits _ _ ⟨t, rfl⟩ hend _
    refine (writeBitRun_ends data _ bits 0 _).mono ?_
    rintro _ _ ⟨t', rfl⟩
    exact ⟨t', by rw [Cursor.move_full hend]; rfl⟩
  · rintro k bits _ _ ⟨t, rfl⟩ hstart _ hlt _
    refine (writeBitRun_ends data _ bits 0 _).mono ?_
    rintro _ _ ⟨t', rfl⟩
    exact ⟨t', by rw [Cursor.move_tail hstart hlt]; rfl⟩
  · rintro _ _ ⟨t, rfl⟩
    exact ⟨_, t, rfl⟩

/-- **Every `writeBits` call** moves the write cursor on, or it throws and has normalized
the cursor, or its behaviour is undefined. -/
theorem writeBits_ends (p : Packet) (data : BitVec 32) (n o : Int) :
    Fallible.Ends
      (fun _ p' => ∃ k s, p' = p.withWrite (p.writeCursor.normalize.move k) s)
      (fun e p' => (∃ u, e = .undefined u) ∨ p' = p.withWrite p.writeCursor.normalize p.bytes)
      (writeBits data n o p) := by
  have hbit := Cursor.normalize_bit_lt p.writeCursor
  rw [writeBits_eq_with, writeBitsWith_unfold]
  split
  · exact Or.inl ⟨_, rfl⟩
  split
  · exact Or.inr rfl
  split
  · exact Or.inl ⟨_, rfl⟩
  refine Fallible.Ends.bind ((reserveBits_ends _ _).imp ?_ ?_)
  · rintro _ _ ⟨s, rfl, _, _⟩
    exact (writeLoop_ends p data n o hbit s).imp (fun _ _ h => h) fun _ _ h => Or.inl h
  · rintro _ _ ⟨_, rfl⟩
    exact Or.inr rfl

/-! ## What every program keeps -/

/-- The cursors are behind the header, and the write cursor is no more than a byte ahead of
its byte. -/
structure Upright (p : Packet) : Prop where
  write_byte : headerSize ≤ p.bytesWritten
  write_bit : p.bitsWritten ≤ 8
  read_byte : headerSize ≤ p.bytesRead

/-- Whatever becomes of the operation, it leaves the packet upright or is undefined. -/
def KeepsUpright {α : Type} (x : PacketM α) : Prop :=
  ∀ p, Upright p → Fallible.Ends (fun _ => Upright)
    (fun e p' => (∃ u, e = .undefined u) ∨ Upright p') (x p)

namespace KeepsUpright

variable {α β : Type}

theorem pure (a : α) : KeepsUpright (pure a : PacketM α) := fun _ hp => hp

/-- Calls one after the other. -/
theorem bind {x : PacketM α} {f : α → PacketM β} (hx : KeepsUpright x)
    (hf : ∀ a, KeepsUpright (f a)) : KeepsUpright (x >>= f) := fun p hp =>
  Fallible.Ends.bind ((hx p hp).mono fun a p' hp' => hf a p' hp')

/-- A read moves only the read cursor, and forwards. -/
theorem of_reading {x : PacketM α} (hx : Reading x) : KeepsUpright x := by
  intro p hp
  obtain ⟨r, c, hrun, _, hc⟩ := hx p p rfl rfl
  have hend : Upright (p.withRead c) := ⟨hp.write_byte, hp.write_bit, Nat.le_trans hp.read_byte hc⟩
  rw [hrun]
  cases r with
  | error e => exact Or.inr hend
  | ok a => exact hend

theorem modify {f : Packet → Packet} (hf : ∀ p, Upright p → Upright (f p)) :
    KeepsUpright (Fallible.modify f) := hf

theorem serialize (data : Option (List Byte)) : KeepsUpright (serialize data) := by
  intro p hp
  refine (serialize_ends data p).imp ?_ ?_
  · rintro _ _ ⟨d, s, _, rfl⟩
    exact ⟨Nat.le_trans hp.write_byte (Nat.le_add_right _ _), Nat.le_refl _, hp.read_byte⟩
  · rintro _ _ ⟨_, rfl, _⟩
    exact Or.inr hp

theorem writeBits (data : BitVec 32) (n o : Int) : KeepsUpright (writeBits data n o) := by
  intro p hp
  have hbyte : p.bytesWritten ≤ p.writeCursor.normalize.byte :=
    Cursor.le_normalize_byte p.writeCursor
  refine (writeBits_ends p data n o).imp ?_ ?_
  · rintro _ _ ⟨k, s, rfl⟩
    refine ⟨?_, Nat.le_of_lt (Nat.mod_lt _ (by decide)), hp.read_byte⟩
    exact Nat.le_trans hp.write_byte (Nat.le_trans hbyte (Nat.le_add_right _ _))
  · rintro _ _ (hu | rfl)
    · exact Or.inl hu
    · exact Or.inr ⟨Nat.le_trans hp.write_byte hbyte,
        Nat.le_of_lt (Cursor.normalize_bit_lt _), hp.read_byte⟩

end KeepsUpright

/-- Every `operator<<` keeps the cursors in place. -/
theorem keepsUpright_put (x : Item) : KeepsUpright x.put := by
  cases x with
  | scalar k v => exact KeepsUpright.serialize (some (scalarBytes v))
  | string s => exact (KeepsUpright.serialize _).bind fun _ => KeepsUpright.serialize _
  | vector k xs => exact (KeepsUpright.serialize _).bind fun _ => KeepsUpright.serialize _
  | array k xs null => exact (KeepsUpright.serialize _).bind fun _ => KeepsUpright.serialize _
  | packet q => exact (KeepsUpright.serialize _).bind fun _ => KeepsUpright.serialize _

theorem reading_getArrayInto (k n : Nat) (null : Bool) (memory : Memory) :
    Reading (getArrayInto k n null memory) := by
  refine reads_getSize.reading.bind fun stored => ?_
  split
  · exact (reads_deserialize _ _).reading.bind fun _ => Reading.pure _
  · exact Reading.fail _

/-- Every `operator>>` reads on. -/
theorem reading_get (t : Target) : Reading t.get := by
  cases t with
  | scalar k => exact (reads_getScalar k).reading.bind fun _ => Reading.pure _
  | string => exact reads_getString.reading.bind fun _ => Reading.pure _
  | vector k capacity => exact (reading_getVector k capacity).bind fun _ => Reading.pure _
  | array k n null memory =>
      exact (reading_getArrayInto k n null memory).bind fun _ => Reading.pure _
  | packet => exact reads_getPacket.reading.bind fun _ => Reading.pure _

/-- **Each call** keeps the packet upright. -/
theorem keepsUpright_perform (c : Call) : KeepsUpright c.perform := by
  cases c with
  | put x => exact (keepsUpright_put x).bind fun _ => KeepsUpright.pure _
  | get t => exact KeepsUpright.of_reading (reading_get t)
  | writeBits data width offset _ _ =>
      exact (KeepsUpright.writeBits data width offset).bind fun _ => KeepsUpright.pure _
  | readBits width offset _ _ =>
      exact KeepsUpright.of_reading ((reading_readBits width offset).bind fun _ => Reading.pure _)
  | resetReadPosition =>
      refine (KeepsUpright.modify ?_).bind fun _ => KeepsUpright.pure _
      exact fun p hp => ⟨hp.write_byte, hp.write_bit, Nat.le_refl _⟩
  | clear =>
      refine (KeepsUpright.modify ?_).bind fun _ => KeepsUpright.pure _
      exact fun p _ => ⟨Nat.le_refl _, Nat.le_refl _, Nat.le_refl _⟩
  | setHeader h =>
      refine (KeepsUpright.modify ?_).bind fun _ => KeepsUpright.pure _
      exact fun p hp => ⟨hp.write_byte, hp.write_bit, hp.read_byte⟩

/-- A step of a program keeps the packet upright. -/
theorem upright_of_step {p p' : Packet} {c : Call} (hp : Upright p) (h : c.step p = some p') :
    Upright p' := by
  have hends := keepsUpright_perform c p hp
  unfold Call.step at h
  rcases hrun : c.perform p with ⟨e | a, q⟩
  · rw [hrun] at h hends
    cases e with
    | undefined u => cases h
    | _ =>
        cases h
        exact hends.resolve_left (by simp)
  · rw [hrun] at h hends
    cases h
    exact hends

/-- A packet starts upright. -/
theorem upright_origin (origin : Origin) : Upright origin.packet := by
  cases origin with
  | header h => exact ⟨Nat.le_refl _, Nat.le_refl _, Nat.le_refl _⟩
  | data bytes long => exact ⟨long, Nat.le_refl _, Nat.le_refl _⟩

/-- **Every packet that arises is upright.** -/
theorem Arises.upright {p : Packet} (h : p.Arises) : Upright p := by
  obtain ⟨origin, calls, hrun⟩ := h
  exact Runs.run_invariant (fun _ _ _ hp hstep => upright_of_step hp hstep) hrun
    (upright_origin origin)

end Packet

end EnkiNet
