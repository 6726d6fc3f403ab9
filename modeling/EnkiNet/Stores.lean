import EnkiNet.PacketCalls

/-!
# What is stored, and where

`serialize` and `writeBits` store bits into the buffer.  A program of calls is run here
next to the list of what it has stored since the buffer was last emptied: the bit, its
value, and the size the buffer had at that moment.

Everything a call stores lies behind the write cursor that it found and in front of the
one it leaves (`Appends`), so that `stores_kept` is an induction over the calls: every
store was inside the buffer and behind the header, no bit is stored twice, every stored bit is
still there, and no bit changes that is not stored.
-/

namespace EnkiNet

open ByteStore Packet

/-- A bit that was stored into the buffer, and the size of the buffer then. -/
structure Store where
  pos : Nat
  value : Bool
  size : Nat
  deriving DecidableEq, Repr

namespace Packet

/-! ## The stores of a call -/

/-- The stores of `serialize`: `memcpy` behind the byte cursor, once the buffer has grown. -/
def serializeStores (data : Option (List Byte)) (p : Packet) : List Store :=
  match data with
  | none => []
  | some d => (List.range (8 * d.length)).map fun k =>
      ⟨8 * p.bytesWritten + k, bitAt d k, (serialize (some d) p).2.bytes.length⟩

/-- The stores of several calls of `serialize`, the last of which may throw. -/
def serializeAllStores : List (Option (List Byte)) → Packet → List Store
  | [], _ => []
  | d :: ds, p =>
      serializeStores d p ++
        match serialize d p with
        | (.ok _, p') => serializeAllStores ds p'
        | (.error _, _) => []

/-- `write_bits`, which also notes what it stores. -/
def noteStores (data : BitVec 32) (shift : Int) (bits : Nat) (stores : List Store) :
    PacketM (List Store) := do
  let p ← Fallible.get
  writeBitRun data shift bits 0
  return stores ++ (List.range bits).map fun (i : Nat) =>
    ⟨8 * (p.bytesWritten - 1) + (i + p.bitsWritten), data.getLsbD ((i : Int) + shift).toNat,
      p.bytes.length⟩

/-- The stores of `writeBits`, which are none if the guard throws. -/
def writeBitsStores (data : BitVec 32) (width offset : Int) (p : Packet) : List Store :=
  match writeBitsWith (noteStores data) [] width offset p with
  | (.ok stores, _) => stores
  | (.error _, _) => []

end Packet

/-- The calls of `serialize` in `operator<<`. -/
def Item.pieces : Item → List (Option (List Byte))
  | scalar _ v => [some (scalarBytes v)]
  | string s => [some (leBytes 8 s.elems.length), some s.elems]
  | vector _ xs => [some (leBytes 8 xs.elems.length), vectorData xs.elems]
  | array _ xs null => [some (leBytes 8 xs.elems.length), arrayData null xs.elems]
  | packet q => [some (leBytes 8 q.bytes.length), vectorData (k := 1) q.bytes]

/-- The calls on a stream: everything but `resetReadPosition` and `setHeader`, and `writeBits`
without an offset. -/
inductive StreamCall
  | put (x : Item)
  | writeBits (data : BitVec 32) (width : Int) (width_int : IsInt width)
  | get (t : Target)
  | readBits (width offset : Int) (width_int : IsInt width) (offset_int : IsInt offset)
  | clear

namespace StreamCall

def call : StreamCall → Call
  | put x => .put x
  | writeBits data width width_int => .writeBits data width 0 width_int isInt_zero
  | get t => .get t
  | readBits width offset width_int offset_int => .readBits width offset width_int offset_int
  | clear => .clear

def stores : StreamCall → Packet → List Store
  | put x, p => serializeAllStores x.pieces p
  | writeBits data width _, p => writeBitsStores data width 0 p
  | _, _ => []

/-- The call is an `operator<<` or a `writeBits`. -/
def Writes : StreamCall → Prop
  | put _ => True
  | writeBits _ _ _ => True
  | _ => False

end StreamCall

/-- A packet, and what was stored into its buffer since it was last emptied. -/
structure Stored where
  packet : Packet
  stores : List Store

namespace Stored

def step (s : Stored) (c : StreamCall) : Option Stored :=
  match c with
  | .clear => some ⟨s.packet.clear, []⟩
  | c => (c.call.step s.packet).map fun p => ⟨p, s.stores ++ c.stores s.packet⟩

end Stored

namespace Packet

/-! ## Stores behind the cursor -/

/-- From `p` to `p'`, the stores lie between the two write cursors and in the buffer, no two of
them at one bit, `p'` has their values, and every other bit is as it was. -/
structure Appends (p : Packet) (stores : List Store) (p' : Packet) : Prop where
  pos_le : p.writeCursor.pos ≤ p'.writeCursor.pos
  stored : ∀ st ∈ stores, p.writeCursor.pos ≤ st.pos ∧ st.pos < p'.writeCursor.pos ∧
    st.pos < 8 * st.size ∧ bitAt p'.bytes st.pos = st.value
  once : (stores.map Store.pos).Nodup
  rest : ∀ pos, pos ∉ stores.map Store.pos → bitAt p'.bytes pos = bitAt p.bytes pos

/-- A call that leaves the bits and the position of the write cursor alone. -/
theorem Appends.of_eq {p p' : Packet} (hpos : p'.writeCursor.pos = p.writeCursor.pos)
    (hbits : ∀ pos, bitAt p'.bytes pos = bitAt p.bytes pos) : Appends p [] p' :=
  ⟨Nat.le_of_eq hpos.symm, by simp, List.nodup_nil, fun pos _ => hbits pos⟩

theorem Appends.refl (p : Packet) : Appends p [] p := Appends.of_eq rfl fun _ => rfl

/-- What lies in front of the cursor is as it was. -/
theorem Appends.old {p p' : Packet} {stores : List Store} (h : Appends p stores p') {pos : Nat}
    (hpos : pos < p.writeCursor.pos) : bitAt p'.bytes pos = bitAt p.bytes pos := by
  apply h.rest
  intro hmem
  obtain ⟨st, hst, rfl⟩ := List.mem_map.mp hmem
  exact absurd (h.stored st hst).1 (Nat.not_le.mpr hpos)

theorem Appends.trans {p q r : Packet} {stores stores' : List Store} (h : Appends p stores q)
    (h' : Appends q stores' r) : Appends p (stores ++ stores') r where
  pos_le := Nat.le_trans h.pos_le h'.pos_le
  stored := by
    intro st hst
    rcases List.mem_append.mp hst with hst | hst
    · obtain ⟨hlow, hhigh, hroom, hvalue⟩ := h.stored st hst
      exact ⟨hlow, Nat.lt_of_lt_of_le hhigh h'.pos_le, hroom, (h'.old hhigh).trans hvalue⟩
    · obtain ⟨hlow, hhigh, hroom, hvalue⟩ := h'.stored st hst
      exact ⟨Nat.le_trans h.pos_le hlow, hhigh, hroom, hvalue⟩
  once := by
    rw [List.map_append]
    refine h.once.append h'.once ?_
    intro pos hfirst hsecond
    obtain ⟨st, hst, rfl⟩ := List.mem_map.mp hfirst
    obtain ⟨st', hst', heq⟩ := List.mem_map.mp hsecond
    have hhigh := (h.stored st hst).2.1
    have hlow := (h'.stored st' hst').1
    omega
  rest := by
    intro pos hpos
    rw [List.map_append, List.mem_append, not_or] at hpos
    exact (h'.rest pos hpos.2).trans (h.rest pos hpos.1)

/-- A field that is stored in one go. -/
theorem appends_field {p p' : Packet} {start len size : Nat} {f : Nat → Bool}
    (hrep : Replaces p.bytes start len f p'.bytes) (hstart : p.writeCursor.pos ≤ start)
    (hend : p'.writeCursor.pos = start + len) (hroom : start + len ≤ 8 * size) :
    Appends p ((List.range len).map fun k => ⟨start + k, f k, size⟩) p' where
  pos_le := by omega
  stored := by
    intro st hst
    obtain ⟨k, hk, rfl⟩ := List.mem_map.mp hst
    have hlt := List.mem_range.mp hk
    exact ⟨by dsimp only; omega, by dsimp only; omega, by dsimp only; omega, hrep.bitAt_field hlt⟩
  once := by
    rw [List.map_map]
    refine List.Nodup.map ?_ List.nodup_range
    intro k k' heq
    exact Nat.add_left_cancel heq
  rest := by
    intro pos hpos
    refine (hrep pos).trans (if_neg fun hin => hpos ?_)
    have hk : start + (pos - start) = pos := by omega
    exact List.mem_map.mpr
      ⟨_, List.mem_map.mpr ⟨pos - start, List.mem_range.mpr (by omega), rfl⟩, hk⟩

/-! ## Whole bytes -/

theorem serialize_appends {p : Packet} (hp : Upright p) (d : List Byte) :
    ∃ p', serialize (some d) p = (.ok (), p') ∧ Appends p (serializeStores (some d) p) p' ∧
      Upright p' := by
  obtain ⟨s, hrun, hlen, hrep⟩ := serialize_ok p d
  have hbyte : 8 ≤ p.bytesWritten := hp.write_byte
  have hbit := hp.write_bit
  have hpos : p.writeCursor.pos = 8 * (p.bytesWritten - 1) + p.bitsWritten := rfl
  have hend : (p.writeCursor.afterBytes d.length).pos =
    8 * (p.bytesWritten + d.length - 1) + 8 := rfl
  have hroom : p.bytesWritten + d.length ≤ s.length := by
    rw [hlen]
    split <;> omega
  have hkeep := KeepsUpright.serialize (some d) p hp
  rw [hrun] at hkeep
  refine ⟨_, hrun, ?_, hkeep⟩
  have hstores : serializeStores (some d) p =
      (List.range (8 * d.length)).map fun k => ⟨8 * p.bytesWritten + k, bitAt d k, s.length⟩ := by
    simp only [serializeStores, hrun, withWrite_bytes]
  rw [hstores]
  refine appends_field hrep (by omega) ?_ (by omega)
  rw [withWrite_writeCursor, hend]
  omega

/-- The calls of `serialize` for one value, up to the first that throws. -/
theorem serializeAll_appends (ds : List (Option (List Byte))) {p : Packet} (hp : Upright p) :
    ∃ r p', Fallible.forEach ds serialize p = (r, p') ∧ (∀ u, r ≠ .error (.undefined u)) ∧
      Appends p (serializeAllStores ds p) p' := by
  induction ds generalizing p with
  | nil => exact ⟨.ok (), p, rfl, by simp, Appends.refl p⟩
  | cons d ds ih =>
      cases d with
      | none =>
          refine ⟨_, p, Fallible.bind_error (serialize_none p) _, by simp, ?_⟩
          exact (Appends.refl p).trans (Appends.refl p)
      | some d =>
          obtain ⟨q, hone, happends, hq⟩ := serialize_appends hp d
          obtain ⟨r, p', hrest, hdefined, hmore⟩ := ih hq
          refine ⟨r, p', (Fallible.bind_ok hone _).trans hrest, hdefined, ?_⟩
          rw [serializeAllStores, hone]
          exact happends.trans hmore

end Packet

theorem Item.put_eq (x : Item) : x.put = Fallible.forEach x.pieces serialize := by
  have hone : ∀ d : Option (List Byte), Fallible.forEach [d] serialize = serialize d :=
    fun d => Fallible.bind_pure_unit (serialize d)
  have htwo : ∀ d e : Option (List Byte), Fallible.forEach [d, e] serialize = (do
      serialize d
      serialize e) := by
    intro d e
    rw [Fallible.forEach, hone]
  cases x with
  | scalar k v => exact (hone (some (scalarBytes v))).symm
  | string s => exact (htwo _ _).symm
  | vector k xs => exact (htwo _ _).symm
  | array k xs null => exact (htwo _ _).symm
  | packet q => exact (htwo _ _).symm

namespace Packet

/-! ## Bits -/

/-- One piece of a field is stored into the current byte. -/
theorem noteStores_ok (data : BitVec 32) (shift bits : Nat) (stores : List Store) (p : Packet)
    (hbyte : p.bitsWritten + bits ≤ 8) (hin : p.bytesWritten - 1 < p.bytes.length)
    (hshift : shift + bits ≤ 32) :
    ∃ s, noteStores data shift bits stores p =
        (.ok (stores ++ (List.range bits).map fun (i : Nat) =>
          ⟨p.writeCursor.pos + i, data.getLsbD (shift + i), p.bytes.length⟩),
          p.withWrite p.writeCursor s) ∧ s.length = p.bytes.length := by
  obtain ⟨s, hrun, hlen, _⟩ := writeBitRun_ok data shift bits 0 p (by omega) hin (by omega)
  refine ⟨s, ?_, hlen⟩
  rw [noteStores, Fallible.bind_get, Fallible.bind_ok hrun, Fallible.pure_apply]
  have hsame : ∀ i : Nat, (⟨8 * (p.bytesWritten - 1) + (i + p.bitsWritten),
      data.getLsbD ((i : Int) + (shift : Int)).toNat, p.bytes.length⟩ : Store) =
        ⟨p.writeCursor.pos + i, data.getLsbD (shift + i), p.bytes.length⟩ := by
    intro i
    have hpos : 8 * (p.bytesWritten - 1) + (i + p.bitsWritten) = p.writeCursor.pos + i := by
      simp only [writeCursor, Cursor.pos]
      omega
    have hbit : ((i : Int) + (shift : Int)).toNat = shift + i := by omega
    rw [hpos, hbit]
  simp only [hsame]
  rfl

/-- **The stores of one `writeBits` call** are its field. -/
theorem writeBitsStores_eq (p : Packet) (data : BitVec 32) {n o : Nat} (hn : 1 ≤ n)
    (hno : n + o ≤ 32) (hw : o + p.writeCursor.normalize.fieldWidth n ≤ 32)
    (hbyte : 1 ≤ p.bytesWritten) :
    writeBitsStores data n o p =
      (List.range (p.writeCursor.normalize.fieldWidth n)).map fun (k : Nat) =>
        ⟨p.writeCursor.pos + k, data.getLsbD (o + k),
          max p.bytes.length (bitsSize p.writeCursor.normalize n)⟩ := by
  obtain ⟨s₀, hlen₀, _, heq⟩ := writeBits_eq_loop p (o := o) hn (by omega) (by omega)
  set c := p.writeCursor.normalize with hc
  have hbit : c.bit < 8 := Cursor.normalize_bit_lt _
  have hcbyte : 1 ≤ c.byte := Nat.le_trans hbyte (Cursor.le_normalize_byte p.writeCursor)
  have hcpos : c.pos = p.writeCursor.pos := Cursor.pos_normalize (c := p.writeCursor) hbyte
  -- the stores of the first `k` bits
  let J : Nat → List Store → Packet → Prop := fun k stores q =>
    (∃ s, q = p.withWrite (c.move k) s ∧ s.length = s₀.length) ∧
      stores = (List.range k).map fun (i : Nat) => ⟨c.pos + i, data.getLsbD (o + i), s₀.length⟩
  have hpiece : ∀ k bits stores q, J k stores q → (c.bit + k) % 8 + bits ≤ 8 → 0 < bits →
      k + bits ≤ c.fieldWidth n →
      ∃ s, noteStores data ((o + k : Nat) : Int) bits stores q =
        (.ok ((List.range (k + bits)).map fun (i : Nat) =>
          ⟨c.pos + i, data.getLsbD (o + i), s₀.length⟩), p.withWrite (c.move k) s) ∧
        s.length = s₀.length := by
    intro k bits stores q hq hfit hpos hwidth
    obtain ⟨⟨s, rfl, hlen⟩, rfl⟩ := hq
    have hroom : (c.move k).byte - 1 < s.length := by
      rw [hlen, hlen₀]
      exact Nat.lt_of_lt_of_le (move_byte_lt_bitsSize hcbyte hpos hwidth) (Nat.le_max_right _ _)
    obtain ⟨t, hrun, htlen⟩ := noteStores_ok data (o + k) bits
      ((List.range k).map fun (i : Nat) => ⟨c.pos + i, data.getLsbD (o + i), s₀.length⟩)
      (p.withWrite (c.move k) s) hfit hroom (by omega)
    refine ⟨t, ?_, htlen.trans hlen⟩
    rw [hrun, withWrite_writeCursor, Cursor.pos_move hcbyte, withWrite_bytes, hlen,
      List.range_add, List.map_append, List.map_map]
    simp only [Function.comp_def, Nat.add_assoc]
    rfl
  have hfull : ∀ k bits stores q, J k stores q → (c.bit + k) % 8 + bits = 8 →
      k + bits ≤ c.fieldWidth n →
      ∃ stores' q', noteStores data ((o + k : Nat) : Int) bits stores q = (.ok stores', q') ∧
        J (k + bits) stores' (nextWriteByte q') := by
    intro k bits stores q hJ hend hwidth
    obtain ⟨s, hrun, hlen⟩ := hpiece k bits stores q hJ (by omega) (by omega) hwidth
    exact ⟨_, _, hrun, ⟨s, by rw [Cursor.move_full hend]; rfl, hlen⟩, rfl⟩
  have htail : ∀ k bits stores q, J k stores q → (c.bit + k) % 8 = 0 → 0 < bits → bits < 8 →
      k + bits = n →
      ∃ stores' q', noteStores data ((o + k : Nat) : Int) bits stores q = (.ok stores', q') ∧
        J (k + bits) stores' (addWriteBits bits q') := by
    intro k bits stores q hJ hstart hpos hlt hend
    obtain ⟨s, hrun, hlen⟩ := hpiece k bits stores q hJ (by omega) hpos
      (Nat.le_trans (Nat.le_of_eq hend) (c.le_fieldWidth n))
    exact ⟨_, _, hrun, ⟨s, by rw [Cursor.move_tail hstart hlt]; rfl, hlen⟩, rfl⟩
  obtain ⟨stores, q, hloop, _, rfl⟩ := bitsLoop_ok (noteStores data) nextWriteByte addWriteBits hbit
    hn J hfull htail (a := []) (p := p.withWrite c s₀)
    ⟨⟨s₀, by rw [Cursor.move_zero hbit], rfl⟩, rfl⟩
  rw [writeBitsStores, heq, hloop, hlen₀, hcpos]

/-- **One `writeBits` call** of any width stores its field, or nothing. -/
theorem writeBits_appends {p : Packet} (hp : Upright p) (data : BitVec 32) {n : Int}
    (hint : IsInt n) :
    ∃ r p', writeBits data n 0 p = (r, p') ∧ (∀ u, r ≠ .error (.undefined u)) ∧
      Appends p (writeBitsStores data n 0 p) p' := by
  have hbyte : 1 ≤ p.bytesWritten := Nat.le_trans (by decide) hp.write_byte
  have hbit := Cursor.normalize_bit_lt p.writeCursor
  have hcpos : 8 * (p.writeCursor.normalize.byte - 1) + p.writeCursor.normalize.bit =
      p.writeCursor.pos := Cursor.pos_normalize hbyte
  rcases Int.lt_trichotomy n 0 with hneg | rfl | hpos
  · have hover : overflowsData n 0 := Or.inl (by omega)
    have hsum : IsInt (n + 0) := by rwa [Int.add_zero]
    rw [writeBits_eq_with, writeBitsStores, writeBitsWith_rejected _ _ p hsum hover,
      writeBitsWith_rejected _ _ p hsum hover]
    exact ⟨_, _, rfl, by simp, Appends.of_eq hcpos fun _ => rfl⟩
  · obtain ⟨s, hrun, hbits⟩ := writeBitsWith_zero
      (fun shift bits _ => writeBitRun data shift bits 0) () p hbyte
    obtain ⟨s', hnotes, _⟩ := writeBitsWith_zero (noteStores data) [] p hbyte
    rw [writeBits_eq_with, writeBitsStores, hrun, hnotes]
    exact ⟨_, _, rfl, by simp, Appends.of_eq hcpos hbits⟩
  by_cases hlarge : 32 < n
  · have hover : overflowsData n 0 := Or.inr (by omega)
    have hsum : IsInt (n + 0) := by rwa [Int.add_zero]
    rw [writeBits_eq_with, writeBitsStores, writeBitsWith_rejected _ _ p hsum hover,
      writeBitsWith_rejected _ _ p hsum hover]
    exact ⟨_, _, rfl, by simp, Appends.of_eq hcpos fun _ => rfl⟩
  obtain ⟨n, rfl⟩ : ∃ k : Nat, n = k := ⟨n.toNat, by omega⟩
  have hwidth : p.writeCursor.normalize.fieldWidth n ≤ 32 ∧
      p.writeCursor.normalize.bit + p.writeCursor.normalize.fieldWidth n ≤
        8 * ((p.writeCursor.normalize.bit + n - 1) / 8 + 1) := by
    unfold Cursor.fieldWidth
    split <;> omega
  obtain ⟨s, hrun, hlen, hrep⟩ := writeBits_ok p data (n := n) (o := 0) (by omega) (by omega)
    (by omega) hbyte
  have hstores := writeBitsStores_eq p data (n := n) (o := 0) (by omega) (by omega) (by omega) hbyte
  refine ⟨_, _, hrun, by simp, ?_⟩
  have hcast : writeBitsStores data n 0 p = writeBitsStores data n ((0 : Nat) : Int) p := rfl
  rw [hcast, hstores, ← hlen]
  refine appends_field hrep (Nat.le_refl _) ?_ ?_
  · rw [withWrite_writeCursor, Cursor.pos_afterBits hbyte]
  · rw [hlen, bitsSize]
    have hcbyte : 1 ≤ p.writeCursor.normalize.byte :=
      Nat.le_trans hbyte (Cursor.le_normalize_byte p.writeCursor)
    omega

end Packet

/-! ## Programs -/

namespace StreamCall

/-- A call that writes leaves a packet, and what it has stored is behind the cursor. -/
theorem writes_appends {p : Packet} (hp : Upright p) {c : StreamCall} (hc : c.Writes) :
    ∃ p', c.call.step p = some p' ∧ Appends p (c.stores p) p' := by
  cases c with
  | put x =>
      obtain ⟨r, p', hrun, hdefined, happends⟩ := serializeAll_appends x.pieces hp
      rw [← x.put_eq] at hrun
      refine ⟨p', ?_, happends⟩
      rcases r with e | _
      · have hperform : (put x).call.perform p = (.error e, p') := Fallible.bind_error hrun _
        cases e with
        | undefined u => exact absurd rfl (hdefined u)
        | _ => simp only [Call.step, hperform]
      · have hperform : (put x).call.perform p = (.ok .none, p') := Fallible.bind_ok hrun _
        simp only [Call.step, hperform]
  | writeBits data width width_int =>
      obtain ⟨r, p', hrun, hdefined, happends⟩ := writeBits_appends hp data width_int
      refine ⟨p', ?_, happends⟩
      rcases r with e | _
      · have hperform : (writeBits data width width_int).call.perform p = (.error e, p') :=
          Fallible.bind_error hrun _
        cases e with
        | undefined u => exact absurd rfl (hdefined u)
        | _ => simp only [Call.step, hperform]
      · have hperform : (writeBits data width width_int).call.perform p = (.ok .none, p') :=
          Fallible.bind_ok hrun _
        simp only [Call.step, hperform]
  | get t => exact hc.elim
  | readBits width offset width_int offset_int => exact hc.elim
  | clear => exact hc.elim

/-- A call that reads stores nothing. -/
theorem reads_appends {p p' : Packet} {c : Call} (hc : Reading c.perform)
    (h : c.step p = some p') : Appends p [] p' := by
  obtain ⟨r, cursor, hrun, _, _⟩ := hc p p rfl rfl
  unfold Call.step at h
  rw [hrun] at h
  rcases r with (_ | _ | _ | _ | _) | _ <;> cases h <;> exact Appends.of_eq rfl fun _ => rfl

end StreamCall

namespace Stored

/-- The stores are those since some packet with a cursor behind the header. -/
structure Kept (s : Stored) : Prop where
  upright : Upright s.packet
  appends : ∃ start, 8 * headerSize ≤ start.writeCursor.pos ∧ Appends start s.stores s.packet

theorem kept_origin (origin : Origin) : Kept ⟨origin.packet, []⟩ := by
  refine ⟨upright_origin origin, origin.packet, ?_, Appends.refl _⟩
  cases origin with
  | header h => exact Nat.le_refl _
  | data bytes long =>
      have hpos : (Origin.data bytes long).packet.writeCursor.pos =
        8 * (bytes.length - 1) + 8 := rfl
      have hlong : 8 ≤ bytes.length := long
      rw [hpos]
      omega

theorem Kept.append {s : Stored} (hs : Kept s) {c : Call} {stores : List Store} {p : Packet}
    (hstep : c.step s.packet = some p) (happends : Appends s.packet stores p) :
    Kept ⟨p, s.stores ++ stores⟩ := by
  obtain ⟨start, hstart, hbefore⟩ := hs.appends
  exact ⟨upright_of_step hs.upright hstep, start, hstart, hbefore.trans happends⟩

/-- A call that writes can always be made. -/
theorem Kept.writes {s : Stored} (hs : Kept s) {c : StreamCall} (hc : c.Writes) :
    ∃ s', s.step c = some s' ∧ Kept s' := by
  obtain ⟨p, hstep, happends⟩ := StreamCall.writes_appends hs.upright hc
  refine ⟨_, ?_, hs.append hstep happends⟩
  cases c with
  | clear => exact hc.elim
  | _ => simp only [step, hstep, Option.map_some]

theorem step_eq {s : Stored} {c : StreamCall} (hclear : c ≠ .clear) :
    s.step c = (c.call.step s.packet).map fun p => ⟨p, s.stores ++ c.stores s.packet⟩ := by
  cases c with
  | clear => exact absurd rfl hclear
  | _ => rfl

/-- What a call changes is what it has stored, and is listed. -/
theorem Kept.lists {s s' : Stored} (hs : Kept s) {c : StreamCall} (hclear : c ≠ .clear)
    (h : s.step c = some s') :
    ∃ p, c.call.step s.packet = some p ∧ s' = ⟨p, s.stores ++ c.stores s.packet⟩ ∧
      Appends s.packet (c.stores s.packet) p := by
  rw [step_eq hclear] at h
  obtain ⟨p, hstep, rfl⟩ := Option.map_eq_some_iff.mp h
  refine ⟨p, hstep, rfl, ?_⟩
  have hwrites : c.Writes → Appends s.packet (c.stores s.packet) p := by
    intro hc
    obtain ⟨q, hq, happends⟩ := StreamCall.writes_appends hs.upright hc
    cases hstep.symm.trans hq
    exact happends
  cases c with
  | put x => exact hwrites trivial
  | writeBits data width width_int => exact hwrites trivial
  | get t => exact StreamCall.reads_appends (c := .get t) (reading_get t) hstep
  | readBits width offset width_int offset_int =>
      exact StreamCall.reads_appends (c := .readBits width offset width_int offset_int)
        ((reading_readBits width offset).bind fun _ => Reading.pure _) hstep
  | clear => exact absurd rfl hclear

theorem Kept.step {s s' : Stored} (hs : Kept s) {c : StreamCall} (h : s.step c = some s') :
    Kept s' := by
  by_cases hclear : c = .clear
  · subst hclear
    cases h
    exact ⟨⟨Nat.le_refl _, Nat.le_refl _, Nat.le_refl _⟩, s.packet.clear, Nat.le_refl _,
      Appends.refl _⟩
  · obtain ⟨p, hstep, rfl, happends⟩ := hs.lists hclear h
    exact hs.append hstep happends

end Stored

/-- **Writes are in bounds and append-only.**  Whatever the program: every bit that it has stored
since the buffer was last emptied was stored into a byte of the buffer behind the header, it
still has the value that was stored, and it was stored once.  These are all the stores: until
the buffer is emptied, a call adds what it has stored to the list, and no other bit of the buffer
changes.  Every further write can be made. -/
theorem stores_kept (origin : Origin) (calls : List StreamCall) {s : Stored}
    (hrun : Runs.run Stored.step ⟨origin.packet, []⟩ calls = some s) :
    (∀ st ∈ s.stores, headerSize ≤ st.pos / 8 ∧ st.pos / 8 < st.size ∧
      bitAt s.packet.bytes st.pos = st.value) ∧
    (s.stores.map Store.pos).Nodup ∧
    (∀ c s', c ≠ .clear → s.step c = some s' → s'.stores = s.stores ++ c.stores s.packet ∧
      ∀ pos, pos ∉ (c.stores s.packet).map Store.pos →
        bitAt s'.packet.bytes pos = bitAt s.packet.bytes pos) ∧
    ∀ c, StreamCall.Writes c → ∃ s', s.step c = some s' := by
  have hkept : Stored.Kept s :=
    Runs.run_invariant (fun _ _ _ hs hstep => hs.step hstep) hrun (Stored.kept_origin origin)
  obtain ⟨start, hstart, happends⟩ := hkept.appends
  refine ⟨?_, happends.once, ?_, ?_⟩
  · intro st hst
    obtain ⟨hlow, _, hroom, hvalue⟩ := happends.stored st hst
    exact ⟨by omega, by omega, hvalue⟩
  · intro c s' hclear hstep
    obtain ⟨p, _, rfl, hchanged⟩ := hkept.lists hclear hstep
    exact ⟨rfl, hchanged.rest⟩
  · intro c hc
    obtain ⟨s', hstep, _⟩ := hkept.writes hc
    exact ⟨s', hstep⟩

/-- A rejected call, a field that ends inside a byte, a clear, and a string. -/
def mixedCalls : List StreamCall :=
  [ .writeBits 1 40 (by decide), .writeBits 5 3 (by decide), .clear,
    .put (.string ⟨[0x68], by decide⟩), .writeBits 5 0 isInt_zero, .writeBits 5 11 (by decide) ]

theorem stores_kept_mixedCalls :
    ∃ s, Runs.run Stored.step ⟨(Origin.header {}).packet, []⟩ mixedCalls = some s ∧
      (∀ st ∈ s.stores, headerSize ≤ st.pos / 8 ∧ st.pos / 8 < st.size ∧
        bitAt s.packet.bytes st.pos = st.value) ∧
      (s.stores.map Store.pos).Nodup ∧
      (∀ c s', c ≠ .clear → s.step c = some s' → s'.stores = s.stores ++ c.stores s.packet ∧
        ∀ pos, pos ∉ (c.stores s.packet).map Store.pos →
          bitAt s'.packet.bytes pos = bitAt s.packet.bytes pos) ∧
      ∀ c, StreamCall.Writes c → ∃ s', s.step c = some s' := by
  have hsome : (Runs.run Stored.step ⟨(Origin.header {}).packet, []⟩ mixedCalls).isSome = true := by
    decide +kernel
  obtain ⟨s, hrun⟩ := Option.isSome_iff_exists.mp hsome
  exact ⟨s, hrun, stores_kept _ _ hrun⟩

end EnkiNet
