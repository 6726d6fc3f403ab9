import EnkiNet.PacketCalls

/-!
# Containers in a packet

A container is written behind its length, so a reader that starts where the writer started
can tell how much to read.  Two containers get this wrong: the length of a `std::array` counts
elements and is read as a number of bytes, and a vector without elements has no storage that
`serialize` would accept.
-/

namespace EnkiNet

open ByteStore Packet

/-! ## Reading back -/

/-- A reader has what was written from `w` to `w'`, and it stands where `w` stood. -/
structure Rereads (w w' r : Packet) : Prop where
  starts : r.readCursor = w.writeCursor
  holds : Holds w' r

/-- **What `put` writes at `w` is read back as `a`**, and whatever is written behind it is what
the next read returns. -/
def RoundTrips {α : Type} (w : Packet) (put : PacketM Unit) (get : PacketM α) (a : α) : Prop :=
  ∀ (β : Type) (write : PacketM Unit) (read : PacketM β) (b : β), Mirrors write read b →
    ∃ w', (do put; write) w = (.ok (), w') ∧
      ∀ r, Rereads w w' r → ∃ s s', get r = (.ok a, s) ∧ read s = (.ok b, s')

/-- The bytes of an array in memory. -/
def memoryOf {k : Nat} (xs : List (BitVec (8 * k))) : Memory := byteAt (xs.flatMap scalarBytes)

/-- `operator<<` and `operator>>` of a vector, whatever vector is read into. -/
def VectorRoundTrips {k : Nat} (w : Packet) (xs : Sized (BitVec (8 * k))) : Prop :=
  ∀ capacity, RoundTrips w (Item.vector k xs).put (getVector k capacity) xs.elems

/-- `operator<<` of an array and `operator>>` into an array of `n` elements, whatever they were:
the elements behind the stored ones stay, and an array that is too short is refused. -/
def ArrayRoundTrips {k : Nat} (w : Packet) (null : Bool) (xs : Sized (BitVec (8 * k)))
    (n : Nat) : Prop :=
  (xs.elems.length ≤ n → ∀ dest : List (BitVec (8 * k)), dest.length = n →
    RoundTrips w (Item.array k xs null).put (getArrayInto k n null (memoryOf dest))
      (xs.elems ++ dest.drop xs.elems.length)) ∧
  (n < xs.elems.length → ∃ w', (Item.array k xs null).put w = (.ok (), w') ∧
    ∀ r, Rereads w w' r → ∀ memory, ∃ e s, getArrayInto k n null memory r = (.error e, s) ∧
      ∀ u, e ≠ .undefined u)

section
variable {α : Type} {w : Packet} {put : PacketM Unit} {get : PacketM α} {a : α}

theorem Packet.MirrorsAt.roundTrips (h : MirrorsAt w put get a) : RoundTrips w put get a := by
  intro β write read b hnext
  obtain ⟨w₁, hput, hw₁, hext, hget⟩ := h
  obtain ⟨w₂, hwrite, _, hext', hread⟩ := hnext w₁ hw₁
  have hrun : (do put; write) w = (.ok (), w₂) := by
    rw [Fallible.bind_ok hput]
    exact hwrite
  refine ⟨w₂, hrun, fun r hr => ?_⟩
  have hfirst := hget r hr.starts (hr.holds.of_extends hext')
  exact ⟨_, _, hfirst, hread _ (withRead_readCursor _ _) (hr.holds.withRead _)⟩

/-- What is read back has been written. -/
theorem RoundTrips.put_ok (h : RoundTrips w put get a) : ∃ w', put w = (.ok (), w') := by
  obtain ⟨w', hrun, _⟩ := h Unit _ _ _ (Mirrors.pure ())
  obtain ⟨_, w₁, hput, _⟩ := Fallible.bind_eq_ok hrun
  exact ⟨w₁, hput⟩

/-- The packet itself has a reader of what was just written. -/
theorem RoundTrips.get_ok (h : RoundTrips w put get a) {w' : Packet} (hput : put w = (.ok (), w'))
    (hw : WellWritten w') : ∃ s, get (w'.withRead w.writeCursor) = (.ok a, s) := by
  obtain ⟨w₁, hrun, hread⟩ := h Unit _ _ _ (Mirrors.pure ())
  rw [Fallible.bind_ok hput] at hrun
  cases hrun
  obtain ⟨s, _, hget, _⟩ := hread _
    ⟨withRead_readCursor _ _, (Holds.refl hw).withRead w.writeCursor⟩
  exact ⟨s, hget⟩

end

/-! ## Vectors -/

theorem Packet.mirrorsAt_vector {w : Packet} (hw : Upright w) {k : Nat}
    {xs : Sized (BitVec (8 * k))} (hne : xs.elems ≠ []) (capacity : Nat) :
    MirrorsAt w (Item.vector k xs).put (getVector k capacity) xs.elems :=
  (mirrorsAt_size hw.write_byte hw.write_bit xs.length_lt).bind (mirrors_elements hne capacity)

/-- **A vector is read back** precisely if it has an element. -/
theorem vector_round_trip_iff {w : Packet} (hw : w.Arises) {k : Nat}
    (xs : Sized (BitVec (8 * k))) : VectorRoundTrips w xs ↔ xs.elems ≠ [] := by
  constructor
  · intro h hnil
    obtain ⟨w', hput⟩ := RoundTrips.put_ok (h 0)
    obtain ⟨_, s, _, hcontent⟩ := Fallible.bind_eq_ok hput
    rw [vectorData, if_pos hnil, serialize_none] at hcontent
    cases hcontent
  · intro hne capacity
    exact (mirrorsAt_vector hw.upright hne capacity).roundTrips

/-- Two numbers, behind the header of a new packet. -/
theorem vector_round_trip_iff_twoNumbers :
    VectorRoundTrips (k := 4) (ofHeader {}) ⟨[1, 2], by decide⟩ ↔
      [1, 2] ≠ ([] : List (BitVec (8 * 4))) :=
  vector_round_trip_iff ⟨.header {}, [], rfl⟩ ⟨[1, 2], by decide⟩

/-- The empty vector cannot even be written. -/
theorem empty_vector_refused : ¬ VectorRoundTrips (k := 4) (ofHeader {}) ⟨[], by decide⟩ := by
  intro h
  obtain ⟨w', hput⟩ := RoundTrips.put_ok (h 0)
  have hthrows : ((Item.vector 4 ⟨[], by decide⟩).put (ofHeader {})).1 = .error (.runtimeError
      "Failed to serialize data into packet, data is a nullptr") := by decide +kernel
  rw [hput] at hthrows
  cases hthrows

/-! ## Arrays -/

section
variable {k : Nat}

theorem length_leftOver (memory : Memory) (start count : Nat) :
    (leftOver memory start count).length = count := by
  simp [leftOver]

/-- What is left of an array is its bytes from there on. -/
theorem leftOver_memoryOf {dest : List (BitVec (8 * k))} {start : Nat} :
    leftOver (memoryOf dest) start (k * dest.length - start) =
      (dest.flatMap scalarBytes).drop start := by
  have hlen := length_flatMap_scalarBytes dest
  apply List.ext_getElem
  · rw [length_leftOver, List.length_drop, hlen]
  · intro i hi _
    rw [length_leftOver] at hi
    simp only [leftOver, memoryOf, byteAt, List.getElem_map, List.getElem_range, List.getElem_drop]
    rw [List.getD_eq_getElem?_getD, List.getElem?_eq_getElem (by omega), Option.getD_some]

theorem flatMap_drop (xs : List (BitVec (8 * k))) (m : Nat) :
    (xs.drop m).flatMap scalarBytes = (xs.flatMap scalarBytes).drop (k * m) := by
  induction xs generalizing m with
  | nil => simp
  | cons x xs ih =>
      cases m with
      | zero => rfl
      | succ m =>
          have hlen : (scalarBytes x).length = k := length_leBytes k x.toNat
          rw [List.drop_succ_cons, ih, List.flatMap_cons, Nat.mul_succ, Nat.add_comm,
            ← List.drop_drop, List.drop_left' hlen]

/-- An array that is not longer than the destination comes back in front of what was there, if
its elements are bytes or if it has none. -/
theorem scalarsOf_memoryOf {xs dest : List (BitVec (8 * k))} (hle : xs.length ≤ dest.length)
    (hbytes : k * xs.length = xs.length) :
    scalarsOf k dest.length (xs.flatMap scalarBytes ++
        leftOver (memoryOf dest) xs.length (k * dest.length - xs.length)) =
      xs ++ dest.drop xs.length := by
  have hlen : (xs ++ dest.drop xs.length).length = dest.length := by
    rw [List.length_append, List.length_drop]
    omega
  have hrest : leftOver (memoryOf dest) xs.length (k * dest.length - xs.length) =
      (dest.drop xs.length).flatMap scalarBytes := by
    rw [leftOver_memoryOf, flatMap_drop, hbytes]
  rw [hrest, ← List.flatMap_append, ← hlen, scalarsOf_flatMap]

end

namespace Packet

variable {k : Nat} {w : Packet} {xs : Sized (BitVec (8 * k))} {null : Bool}

theorem arrayData_some (h : xs.elems = [] → null = false) :
    arrayData null xs.elems = some (xs.elems.flatMap scalarBytes) := by
  rw [arrayData, if_neg]
  intro hempty
  rw [h hempty.1] at hempty
  exact absurd hempty.2 (by decide)

/-- An array that has storage is written, and its length is what is read first. -/
theorem array_written (hw : Upright w) (hdata : xs.elems = [] → null = false) :
    ∃ w', (Item.array k xs null).put w = (.ok (), w') ∧ WellWritten w' ∧
      ∀ r, Rereads w w' r → ∃ s, getSize r = (.ok xs.elems.length, s) := by
  have hcontent := mirrors_serialize (xs.elems.flatMap scalarBytes)
  rw [← arrayData_some hdata] at hcontent
  have hall : MirrorsAt w (Item.array k xs null).put
      (do
        let n ← getSize
        let _ ← deserialize (xs.elems.flatMap scalarBytes).length false
        return n) xs.elems.length :=
    (mirrorsAt_size hw.write_byte hw.write_bit xs.length_lt).bind (hcontent.andThen rfl)
  obtain ⟨w', hput, hw', _, hread⟩ := hall
  refine ⟨w', hput, hw', fun r hr => ?_⟩
  obtain ⟨n, s, hsize, hrest⟩ := Fallible.bind_eq_ok (hread r hr.starts hr.holds)
  obtain ⟨_, _, _, hn⟩ := Fallible.bind_eq_ok hrest
  cases hn
  exact ⟨s, hsize⟩

theorem getArrayInto_eq {n : Nat} (h : n = 0 → null = false) (memory : Memory) :
    getArrayInto k n null memory = getArray k n memory := by
  have hnull : decide (n = 0 ∧ null = true) = false := by
    simpa using h
  rw [getArrayInto, hnull]
  rfl

/-- Where the number of the elements is that of their bytes, an array comes back. -/
theorem mirrorsAt_array (hw : Upright w) (hdata : xs.elems = [] → null = false)
    (hbytes : k * xs.elems.length = xs.elems.length) {dest : List (BitVec (8 * k))}
    (hle : xs.elems.length ≤ dest.length) :
    MirrorsAt w (Item.array k xs null).put (getArrayInto k dest.length null (memoryOf dest))
      (xs.elems ++ dest.drop xs.elems.length) := by
  have hnull : dest.length = 0 → null = false := fun h =>
    hdata (List.length_eq_zero_iff.mp (Nat.le_zero.mp (h ▸ hle)))
  have hcontent := mirrors_serialize (xs.elems.flatMap scalarBytes)
  rw [length_flatMap_scalarBytes, hbytes, ← arrayData_some hdata] at hcontent
  rw [getArrayInto_eq hnull]
  refine (mirrorsAt_size hw.write_byte hw.write_bit xs.length_lt).bind ?_
  rw [if_pos hle]
  exact hcontent.andThen (congrArg _ (scalarsOf_memoryOf hle hbytes))

/-- Of an array of larger elements, the byte behind the first ones is not read: it is what the
destination had there. -/
theorem getArray_unread {n m : Nat} {memory : Memory} {ys : List (BitVec (8 * k))} {r s t : Packet}
    (h : getArray k n memory r = (.ok ys, t)) (hsize : getSize r = (.ok m, s)) (hm : m < k * n) :
    byteAt (ys.flatMap scalarBytes) m = memory m := by
  obtain ⟨stored, bytes, s', hstored, _, hread, hys⟩ := getArray_ok h
  rw [hsize] at hstored
  cases hstored
  have hbytes := length_of_deserialize hread
  have hlen : (bytes ++ leftOver memory m (k * n - m)).length = k * n := by
    rw [List.length_append, hbytes, length_leftOver]
    omega
  rw [hys, flatMap_scalarsOf n hlen, byteAt, List.getD_eq_getElem?_getD,
    List.getElem?_append_right (Nat.le_of_eq hbytes), hbytes, Nat.sub_self, leftOver]
  simp [Nat.sub_pos_of_lt hm]

end Packet

/-- Nothing is written from an array that has no storage. -/
theorem ArrayRoundTrips.has_storage {w : Packet} {k n : Nat} {xs : Sized (BitVec (8 * k))}
    {null : Bool} (h : ArrayRoundTrips w null xs n) (hnil : xs.elems = []) : null = false := by
  by_contra hnull
  have hthrows : arrayData null xs.elems = none := if_pos ⟨hnil, by simpa using hnull⟩
  obtain ⟨w', hput⟩ := RoundTrips.put_ok
    (h.1 (by simp [hnil]) (List.replicate n 0) List.length_replicate)
  obtain ⟨_, s, _, hcontent⟩ := Fallible.bind_eq_ok hput
  rw [hthrows, serialize_none] at hcontent
  cases hcontent

/-- Of longer elements a part stays unread: whatever byte the destination has there, it would
have to be that of the stored array. -/
theorem ArrayRoundTrips.short_elements {w : Packet} (hw : w.Arises) {k n : Nat} (hk : 1 ≤ k)
    {xs : Sized (BitVec (8 * k))} {null : Bool} (h : ArrayRoundTrips w null xs n)
    (hle : xs.elems.length ≤ n) : k = 1 ∨ xs.elems = [] := by
  by_contra hneither
  obtain ⟨hne, hnil⟩ := not_or.mp hneither
  have hpos : 0 < xs.elems.length := List.length_pos_of_ne_nil hnil
  have hlt : xs.elems.length < k * xs.elems.length :=
    (Nat.lt_mul_iff_one_lt_left hpos).mpr (Nat.lt_of_le_of_ne hk (Ne.symm hne))
  obtain ⟨w', hput, hw', hread⟩ := array_written hw.upright h.has_storage
  obtain ⟨t, hsize⟩ := hread _ ⟨withRead_readCursor _ _, (Holds.refl hw').withRead w.writeCursor⟩
  have hevery : ∀ v : Byte, byteAt (xs.elems.flatMap scalarBytes) xs.elems.length = v := by
    intro v
    have hroom : xs.elems.length < k * n := Nat.lt_of_lt_of_le hlt (Nat.mul_le_mul_left k hle)
    have hflat : (scalarsOf k n (List.replicate (k * n) v)).flatMap scalarBytes =
        List.replicate (k * n) v := flatMap_scalarsOf n List.length_replicate
    obtain ⟨s, hget⟩ := RoundTrips.get_ok
      (h.1 hle (scalarsOf k n (List.replicate (k * n) v)) (length_scalarsOf _ _ _)) hput hw'
    rw [getArrayInto_eq fun hn => by omega] at hget
    have hunread := getArray_unread hget hsize hroom
    rw [memoryOf, hflat, List.flatMap_append, byteAt,
      List.getD_append _ _ _ _ (by rwa [length_flatMap_scalarBytes])] at hunread
    rw [byteAt, hunread]
    simp [byteAt, List.getD_eq_getElem?_getD, hroom]
  exact absurd ((hevery 0).symm.trans (hevery 1)) (by decide)

/-- **An array is read back** precisely if its elements are bytes or if it has none, and an array
that is longer than the destination always throws.  An array without elements cannot be
written where the library gives it no storage. -/
theorem array_round_trip_iff {w : Packet} (hw : w.Arises) {k : Nat} (hk : 1 ≤ k)
    (xs : Sized (BitVec (8 * k))) (n : Nat) (null : Bool) :
    ArrayRoundTrips w null xs n ↔
      (xs.elems.length ≤ n → k = 1 ∨ xs.elems = []) ∧ (xs.elems = [] → null = false) := by
  constructor
  · intro h
    exact ⟨h.short_elements hw hk, h.has_storage⟩
  · intro h
    obtain ⟨hfits, hdata⟩ := h
    refine ⟨fun hle dest hdest => ?_, fun hshort => ?_⟩
    · subst hdest
      have hbytes : k * xs.elems.length = xs.elems.length := by
        rcases hfits hle with hone | hnil
        · subst hone
          exact Nat.one_mul _
        · rw [hnil, List.length_nil, Nat.mul_zero]
      exact (mirrorsAt_array hw.upright hdata hbytes hle).roundTrips
    · obtain ⟨w', hput, _, hread⟩ := array_written hw.upright hdata
      refine ⟨w', hput, fun r hr memory => ?_⟩
      obtain ⟨s, hsize⟩ := hread r hr
      refine ⟨.runtimeError "Failed to read std::array from packet, sizes don't match", s, ?_,
        by simp⟩
      rw [getArrayInto, Fallible.bind_ok hsize, if_neg (Nat.not_le.mpr hshort)]
      rfl

/-- Three bytes into an array of five. -/
theorem array_round_trip_iff_threeBytes :
    1 ≤ 1 ∧ (ArrayRoundTrips (k := 1) (ofHeader {}) true ⟨[1, 2, 3], by decide⟩ 5 ↔
      ([1, 2, 3].length ≤ 5 → 1 = 1 ∨ [1, 2, 3] = ([] : List (BitVec (8 * 1)))) ∧
        ([1, 2, 3] = ([] : List (BitVec (8 * 1))) → true = false)) :=
  ⟨Nat.le_refl 1,
    array_round_trip_iff ⟨.header {}, [], rfl⟩ (Nat.le_refl 1) ⟨[1, 2, 3], by decide⟩ 5 true⟩

/-- Of the four bytes of a number, one is read. -/
theorem number_array_cut :
    ¬ ArrayRoundTrips (k := 4) (ofHeader {}) false ⟨[0x01020304], by decide⟩ 1 := by
  intro h
  have hwritten : ∃ w', (Item.array 4 ⟨[0x01020304], by decide⟩ false).put (ofHeader {}) =
      (.ok (), w') ∧ WellWritten w' ∧ ∀ r, Rereads (ofHeader {}) w' r →
        ∃ s, getSize r = (.ok 1, s) := array_written (upright_origin (.header {})) fun _ => rfl
  obtain ⟨w', hput, hw', _⟩ := hwritten
  obtain ⟨s, hget⟩ := RoundTrips.get_ok (h.1 (Nat.le_refl 1) [0] rfl) hput hw'
  have hpacket : ((Item.array 4 ⟨[0x01020304], by decide⟩ false).put (ofHeader {})).2 = w' :=
    congrArg Prod.snd hput
  have hfour : (getArrayInto 4 1 false (memoryOf (k := 4) [0])
      (((Item.array 4 ⟨[0x01020304], by decide⟩ false).put (ofHeader {})).2.withRead
        (ofHeader {}).writeCursor)).1 = .ok [4] := by decide +kernel
  rw [hpacket, hget] at hfour
  exact absurd (Except.ok.inj hfour) (by decide)

end EnkiNet
