import EnkiNet.PacketBits
import EnkiNet.EntityInfo

/-!
# Reads that mirror writes

A read mirrors a write when a reader that stands where the writer stood, over a
buffer that holds what the writer has written, gets the written value and ends
where the writer ended.  The relation is closed under sequencing, so it is proved
once for `serialize`/`deserialize` and once for `writeBits`/`readBits`, and every
composite type inherits it: strings, vectors, nested packets, `EntityInfo`.

What a writer has written is the bits before its write cursor.  They lie inside
the buffer (`WellWritten`), and no later write changes them (`Extends`).
-/

namespace EnkiNet

open ByteStore

namespace Packet

/-! ## Writers and receivers -/

/-- The write cursor is legal, it is behind the header, and every bit before it lies
inside the buffer. -/
structure WellWritten (w : Packet) : Prop where
  headerSize_le : headerSize ≤ w.bytesWritten
  bit_le : w.bitsWritten ≤ 8
  payload_le : 8 * headerSize ≤ w.writeCursor.pos
  stored : w.writeCursor.pos ≤ 8 * w.bytes.length

/-- `w'` is `w` after more writes: nothing that was written has changed. -/
structure Extends (w w' : Packet) : Prop where
  pos_le : w.writeCursor.pos ≤ w'.writeCursor.pos
  length_le : w.bytes.length ≤ w'.bytes.length
  bits_eq : ∀ pos, pos < w.writeCursor.pos → bitAt w'.bytes pos = bitAt w.bytes pos
  readCursor_eq : w'.readCursor = w.readCursor
  header_eq : w'.header = w.header
  info_eq : w'.info = w.info

/-- The buffer of `r` holds everything written to `w` behind the header. -/
structure Holds (w r : Packet) : Prop where
  stored : w.writeCursor.pos ≤ 8 * r.bytes.length
  bits_eq : ∀ pos, 8 * headerSize ≤ pos → pos < w.writeCursor.pos →
    bitAt r.bytes pos = bitAt w.bytes pos

theorem Extends.refl (w : Packet) : Extends w w :=
  ⟨Nat.le_refl _, Nat.le_refl _, fun _ _ => rfl, rfl, rfl, rfl⟩

/-- A buffer only grows. -/
theorem Extends.trans {u v w : Packet} (h : Extends u v) (h' : Extends v w) : Extends u w where
  pos_le := Nat.le_trans h.pos_le h'.pos_le
  length_le := Nat.le_trans h.length_le h'.length_le
  bits_eq pos hpos :=
    (h'.bits_eq pos (Nat.lt_of_lt_of_le hpos h.pos_le)).trans (h.bits_eq pos hpos)
  readCursor_eq := h'.readCursor_eq.trans h.readCursor_eq
  header_eq := h'.header_eq.trans h.header_eq
  info_eq := h'.info_eq.trans h.info_eq

/-- What was written is there. -/
theorem Holds.refl {w : Packet} (h : WellWritten w) : Holds w w := ⟨h.stored, fun _ _ _ => rfl⟩

/-- A receiver of the final packet holds every earlier state of it too. -/
theorem Holds.of_extends {v w r : Packet} (h : Holds w r) (hext : Extends v w) : Holds v r where
  stored := Nat.le_trans hext.pos_le h.stored
  bits_eq pos hpay hpos :=
    (h.bits_eq pos hpay (Nat.lt_of_lt_of_le hpos hext.pos_le)).trans (hext.bits_eq pos hpos)

/-- Where the reader stands changes nothing that was written. -/
theorem Holds.withRead {w r : Packet} (h : Holds w r) (c : Cursor) : Holds w (r.withRead c) :=
  ⟨h.stored, h.bits_eq⟩

/-- A fresh packet holds its header. -/
theorem wellWritten_ofHeader (h : PacketHeader) : WellWritten (ofHeader h) :=
  ⟨Nat.le_refl _, Nat.le_refl _,
    Nat.le_refl _, by simp [ofHeader, writeCursor, Cursor.pos, headerSize]⟩

/-! ## The mirror relation -/

/-- `write` never fails, and `read` gets `a` back wherever `write` has been. -/
def Mirrors {α : Type} (write : PacketM Unit) (read : PacketM α) (a : α) : Prop :=
  ∀ w, WellWritten w → ∃ w', write w = (.ok (), w') ∧ WellWritten w' ∧ Extends w w' ∧
    ∀ r, r.readCursor = w.writeCursor → Holds w' r →
      read r = (.ok a, r.withRead w'.writeCursor)

variable {α β : Type}

/-- `Mirrors` for a writer that is where `w` is. -/
def MirrorsAt (w : Packet) (write : PacketM Unit) (read : PacketM α) (a : α) : Prop :=
  ∃ w', write w = (.ok (), w') ∧ WellWritten w' ∧ Extends w w' ∧
    ∀ r, r.readCursor = w.writeCursor → Holds w' r →
      read r = (.ok a, r.withRead w'.writeCursor)

/-- A mirror at one position followed by a mirror anywhere. -/
theorem MirrorsAt.bind {w : Packet} {write write' : PacketM Unit} {read : PacketM α}
    {read' : α → PacketM β} {a : α} {b : β} (h : MirrorsAt w write read a)
    (h' : Mirrors write' (read' a) b) :
    MirrorsAt w (do write; write') (do let x ← read; read' x) b := by
  obtain ⟨w₁, hwrite, hw₁, hext, hread⟩ := h
  obtain ⟨w₂, hwrite', hw₂, hext', hread'⟩ := h' w₁ hw₁
  refine ⟨w₂, ?_, hw₂, hext.trans hext', ?_⟩
  · rw [Fallible.bind_ok hwrite]
    exact hwrite'
  · intro r hr hholds
    rw [Fallible.bind_ok (hread r hr (hholds.of_extends hext')),
      hread' _ (withRead_readCursor _ _) (hholds.withRead _), withRead_withRead]

/-- What the reader does with the value it got is no concern of the writer. -/
theorem MirrorsAt.andThen {w : Packet} {write : PacketM Unit} {read : PacketM α} {a : α} {b : β}
    (h : MirrorsAt w write read a) {f : α → PacketM β} (hf : f a = pure b) :
    MirrorsAt w write (do let x ← read; f x) b := by
  obtain ⟨w', hwrite, hw', hext, hread⟩ := h
  refine ⟨w', hwrite, hw', hext, ?_⟩
  intro r hr hholds
  rw [Fallible.bind_ok (hread r hr hholds), hf]
  rfl

/-- **Sequencing**: what mirrors part by part mirrors as a whole. -/
theorem Mirrors.bind {write write' : PacketM Unit} {read : PacketM α} {read' : α → PacketM β}
    {a : α} {b : β} (h : Mirrors write read a) (h' : Mirrors write' (read' a) b) :
    Mirrors (do write; write') (do let x ← read; read' x) b := fun w hw =>
  MirrorsAt.bind (h w hw) h'

/-- What is read may be converted afterwards. -/
theorem Mirrors.andThen {write : PacketM Unit} {read : PacketM α} {a : α} {b : β}
    (h : Mirrors write read a) {f : α → PacketM β} (hf : f a = pure b) :
    Mirrors write (do let x ← read; f x) b := fun w hw => MirrorsAt.andThen (h w hw) hf

theorem Mirrors.pure (a : α) : Mirrors (pure ()) (pure a) a := by
  intro w hw
  refine ⟨w, rfl, hw, Extends.refl w, ?_⟩
  intro r hr _
  rw [← hr]
  rfl

/-! ## The two primitive pairs -/

/-- Whole bytes can be written behind the header, whatever was written in front of them. -/
theorem mirrorsAt_serialize {w : Packet} (hhead : headerSize ≤ w.bytesWritten)
    (hbit : w.bitsWritten ≤ 8) (d : List Byte) :
    MirrorsAt w (serialize (some d)) (deserialize d.length false) d := by
  have hlong : 8 ≤ w.bytesWritten := hhead
  have hwpos : w.writeCursor.pos = 8 * (w.bytesWritten - 1) + w.bitsWritten := rfl
  obtain ⟨s, hwrite, hlen, hrep⟩ := serialize_ok w d
  have hroom : w.bytesWritten + d.length ≤ s.length := by
    rw [hlen]
    split <;> omega
  have hpos : (w.writeCursor.afterBytes d.length).pos = 8 * (w.bytesWritten + d.length) := by
    rw [Cursor.pos_afterBytes]
    simp only [writeCursor]
    omega
  refine ⟨_, hwrite, ⟨?_, Nat.le_refl _, ?_, ?_⟩, ⟨?_, ?_, ?_, rfl, rfl, rfl⟩, ?_⟩
  · exact Nat.le_trans hhead (Nat.le_add_right _ _)
  · rw [withWrite_writeCursor, hpos]
    omega
  · rw [withWrite_writeCursor, hpos, withWrite_bytes]
    omega
  · rw [withWrite_writeCursor, hpos]
    omega
  · rw [withWrite_bytes, hlen]
    split <;> omega
  · intro pos hlt
    exact hrep.bitAt_before (by omega)
  · intro r hr hholds
    have hbyte : r.bytesRead = w.bytesWritten := congrArg Cursor.byte hr
    have hstored := hholds.stored
    rw [withWrite_writeCursor, hpos] at hstored
    rw [deserialize_ok r (by omega), hr, hbyte, withWrite_writeCursor]
    have hslice : slice r.bytes w.bytesWritten d.length = d := by
      refine slice_eq_of_bits (by omega) ?_
      intro k hk
      rw [hholds.bits_eq _ (by omega) (by rw [withWrite_writeCursor, hpos]; omega),
        withWrite_bytes, hrep.bitAt_field hk]
    rw [hslice]

/-- Bytes come back from where they were put. -/
theorem mirrors_serialize (d : List Byte) :
    Mirrors (serialize (some d)) (deserialize d.length false) d := fun _ hw =>
  mirrorsAt_serialize hw.headerSize_le hw.bit_le d

/-- One `writeBits` call whose shifts are legal, as a step of the writer. -/
theorem writeBits_extends {w : Packet} (hw : WellWritten w) (v : BitVec 32) {n o : Nat}
    (hn : 1 ≤ n) (hno : n + o ≤ 32) (hfit : o + w.writeCursor.normalize.fieldWidth n ≤ 32) :
    ∃ w', writeBits v n o w = (.ok (), w') ∧ WellWritten w' ∧ Extends w w' ∧
      w'.writeCursor = w.writeCursor.afterBits n ∧
      w'.writeCursor.pos = w.writeCursor.pos + w.writeCursor.normalize.fieldWidth n ∧
      Replaces w.bytes w.writeCursor.pos (w.writeCursor.normalize.fieldWidth n)
        (fun k => v.getLsbD (o + k)) w'.bytes := by
  have hhead : 8 ≤ w.bytesWritten := hw.headerSize_le
  have hbyte : 1 ≤ w.writeCursor.byte := by simp only [writeCursor]; omega
  obtain ⟨s, hwrite, hlen, hrep⟩ := writeBits_ok w v hn hno hfit hbyte
  set c := w.writeCursor.normalize with hc
  have hbit : c.bit < 8 := Cursor.normalize_bit_lt _
  have hpos : (w.writeCursor.afterBits n).pos = w.writeCursor.pos + c.fieldWidth n :=
    Cursor.pos_afterBits hbyte n
  have hcpos : 8 * (c.byte - 1) + c.bit = w.writeCursor.pos := Cursor.pos_normalize hbyte
  have hroom : w.writeCursor.pos + c.fieldWidth n ≤ 8 * s.length := by
    have hsize : c.byte + (c.bit + n - 1) / 8 ≤ s.length := by
      rw [hlen]
      exact Nat.le_max_right _ _
    have hcbyte : 1 ≤ c.byte := Nat.le_trans hbyte (Cursor.le_normalize_byte w.writeCursor)
    unfold Cursor.fieldWidth
    split <;> omega
  refine ⟨_, hwrite, ⟨?_, ?_, ?_, ?_⟩, ⟨?_, ?_, ?_, rfl, rfl, rfl⟩, rfl, hpos, hrep⟩
  · exact Nat.le_trans hhead (Cursor.le_afterBits_byte w.writeCursor n)
  · exact Nat.le_of_lt (Cursor.afterBits_bit_lt w.writeCursor n)
  · rw [withWrite_writeCursor, hpos]
    exact Nat.le_trans hw.payload_le (Nat.le_add_right _ _)
  · rw [withWrite_writeCursor, hpos, withWrite_bytes]
    exact hroom
  · rw [withWrite_writeCursor, hpos]
    exact Nat.le_add_right _ _
  · rw [withWrite_bytes, hlen]
    exact Nat.le_max_left _ _
  · intro pos hlt
    exact hrep.bitAt_before hlt

/-- A value that fits its width comes back unchanged: the bits of it that are
moved beyond the width are zero. -/
theorem mirrors_bits {v : BitVec 32} {n : Nat} (hn : 1 ≤ n) (hle : n ≤ 32)
    (hfits : v.toNat < 2 ^ n) : Mirrors (writeBits v n) (readBits n) v := by
  intro w hw
  have hhead : 8 ≤ w.bytesWritten := hw.headerSize_le
  have hpay := hw.payload_le
  have hbit := Cursor.normalize_bit_lt w.writeCursor
  have hwidth : w.writeCursor.normalize.fieldWidth n ≤ 32 := by
    unfold Cursor.fieldWidth
    split <;> omega
  obtain ⟨w', hwrite, hw', hext, hcur, hpos, hrep⟩ :=
    writeBits_extends hw v (o := 0) hn (by omega) (by omega)
  refine ⟨w', hwrite, hw', hext, ?_⟩
  intro r hr hholds
  have hbyte : r.bytesRead = w.bytesWritten := congrArg Cursor.byte hr
  have hstored := hholds.stored
  rw [hpos] at hstored
  obtain ⟨d, hread, hd⟩ := readBits_ok r (n := n) (o := 0) hn (by omega)
    (by rw [hr]; omega) (by omega) (by rw [hr]; exact hstored)
  have hval : d = v := by
    apply BitVec.eq_of_getLsbD_eq
    intro k hk
    rw [hd k, hr]
    by_cases hin : k < w.writeCursor.normalize.fieldWidth n
    · rw [if_pos (by omega), hholds.bits_eq _ (by omega) (by rw [hpos]; omega)]
      have hfield := hrep.bitAt_field hin
      simpa using hfield
    · rw [if_neg (by omega)]
      have hnk : n ≤ k := Nat.le_trans (Cursor.le_fieldWidth _ n) (Nat.not_lt.mp hin)
      have hlt : v.toNat < 2 ^ k := Nat.lt_of_lt_of_le hfits (Nat.pow_le_pow_right (by omega) hnk)
      exact (Nat.testBit_lt_two_pow hlt).symm
  rw [hcur, ← hr, ← hval]
  exact hread

/-! ## Composite types -/

/-- `operator<<` and `operator>>` of a number. -/
theorem mirrors_scalar {k : Nat} (v : BitVec (8 * k)) : Mirrors (putScalar v) (getScalar k) v := by
  have hlen : (scalarBytes v).length = k := length_leBytes k v.toNat
  have h := mirrors_serialize (scalarBytes v)
  rw [hlen] at h
  have hback : leNat (scalarBytes v) = v.toNat := by
    apply leNat_leBytes_of_lt
    rw [show (256 : Nat) = 2 ^ 8 from rfl, ← pow_mul]
    exact v.isLt
  refine h.andThen ?_
  simp only [hback, BitVec.ofNat_toNat, BitVec.setWidth_eq]

/-- A length prefix, where the reader may still stand on the header. -/
theorem mirrorsAt_size {w : Packet} (hhead : headerSize ≤ w.bytesWritten)
    (hbit : w.bitsWritten ≤ 8) {n : Nat} (hn : n < 2 ^ 64) : MirrorsAt w (putSize n) getSize n := by
  have h := mirrorsAt_serialize hhead hbit (leBytes 8 n)
  rw [length_leBytes] at h
  refine h.andThen ?_
  rw [leNat_leBytes_of_lt (by simpa using hn)]

theorem mirrors_size {n : Nat} (hn : n < 2 ^ 64) : Mirrors (putSize n) getSize n := fun _ hw =>
  mirrorsAt_size hw.headerSize_le hw.bit_le hn

/-- `operator<<` and `operator>>` of a string. -/
theorem mirrors_string (s : StdString) : Mirrors (putString s) getString s := by
  refine Mirrors.bind (mirrors_size s.length_lt) ?_
  exact (mirrors_serialize s.elems).andThen (by rw [dif_pos s.length_lt])

theorem length_flatMap_scalarBytes {k : Nat} (xs : List (BitVec (8 * k))) :
    (xs.flatMap scalarBytes).length = k * xs.length := by
  induction xs with
  | nil => rfl
  | cons x xs ih =>
      rw [List.flatMap_cons, List.length_append, ih, List.length_cons, scalarBytes,
        length_leBytes]
      ring

/-- The elements of a vector are cut out of its bytes again. -/
theorem scalarsOf_flatMap {k : Nat} (xs : List (BitVec (8 * k))) :
    scalarsOf k xs.length (xs.flatMap scalarBytes) = xs := by
  induction xs with
  | nil => rfl
  | cons x xs ih =>
      have hlen : (scalarBytes x).length = k := length_leBytes k x.toNat
      have hback : leNat (scalarBytes x) = x.toNat := by
        apply leNat_leBytes_of_lt
        rw [show (256 : Nat) = 2 ^ 8 from rfl, ← pow_mul]
        exact x.isLt
      have hhead : slice (scalarBytes x ++ xs.flatMap scalarBytes) (k * 0) k = scalarBytes x := by
        have h := slice_append_left (scalarBytes x) (xs.flatMap scalarBytes)
        rwa [hlen] at h
      have htail : ∀ i, slice (scalarBytes x ++ xs.flatMap scalarBytes) (k * (i + 1)) k
          = slice (xs.flatMap scalarBytes) (k * i) k := by
        intro i
        have h := slice_append_right (scalarBytes x) (xs.flatMap scalarBytes) (k * i) k
        rwa [hlen, show k + k * i = k * (i + 1) by ring] at h
      unfold scalarsOf at ih ⊢
      rw [List.length_cons, List.flatMap_cons, List.range_succ_eq_map, List.map_cons,
        List.map_map, hhead, hback]
      simp only [BitVec.ofNat_toNat, BitVec.setWidth_eq, List.cons.injEq, true_and]
      refine Eq.trans ?_ ih
      apply List.map_congr_left
      intro i _
      simp only [Function.comp_apply, Nat.succ_eq_add_one, htail]

/-- The elements of a vector that has some, behind its length. -/
theorem mirrors_elements {k : Nat} {xs : List (BitVec (8 * k))} (hne : xs ≠ []) (capacity : Nat) :
    Mirrors (serialize (vectorData xs))
      (do
        let bytes ← deserialize (k * xs.length) (xs.length = 0 ∧ capacity = 0)
        return scalarsOf k xs.length bytes) xs := by
  have hdata : vectorData xs = some (xs.flatMap scalarBytes) := if_neg hne
  have hnull : decide (xs.length = 0 ∧ capacity = 0) = false := by simp [hne]
  have h := mirrors_serialize (xs.flatMap scalarBytes)
  rw [length_flatMap_scalarBytes] at h
  rw [hdata, hnull]
  exact h.andThen (by rw [scalarsOf_flatMap])

/-- `operator<<` and `operator>>` of a vector with elements. -/
theorem mirrors_vector {k : Nat} {xs : List (BitVec (8 * k))} (hne : xs ≠ [])
    (hlt : xs.length < 2 ^ 64) : Mirrors (putVector xs) (getVector k) xs :=
  (mirrors_size hlt).bind (mirrors_elements hne 0)

/-- What a peer builds from the buffer of a packet. -/
def received (data : List Byte) : Packet where
  bytes := data
  header := .ofBytes data
  bytesWritten := data.length
  bytesRead := headerSize
  bitsWritten := 8
  bitsRead := 8

/-- A packet from a header's length or more of bytes stands at its front. -/
theorem ofData_eq {data : List Byte} (h : headerSize ≤ data.length) :
    ofData data = .ok (received data) := by
  unfold ofData
  rw [if_neg (Nat.not_lt.mpr h)]
  rfl

/-- A packet inside a packet comes back as its bytes, to be read from the front. -/
theorem mirrors_packet {q : Packet} (hhead : headerSize ≤ q.bytes.length)
    (hlt : q.bytes.length < 2 ^ 64) : Mirrors (putPacket q) getPacket (received q.bytes) := by
  have hne : q.bytes ≠ [] := by
    intro h
    simp [h, headerSize] at hhead
  refine (mirrors_vector (k := 1) hne hlt).andThen ?_
  rw [ofData_eq hhead]

/-- The five members of an EntityInfo in the order both operators have. -/
theorem mirrors_entityInfo (e : EntityInfo) : Mirrors (putEntityInfo e) getEntityInfo e := by
  refine Mirrors.bind (mirrors_scalar (k := 4) e.ID.toBitVec) ?_
  refine Mirrors.bind (mirrors_scalar (k := 4) e.ownerID.toBitVec) ?_
  refine Mirrors.bind (mirrors_string e.type) ?_
  refine Mirrors.bind (mirrors_string e.name) ?_
  exact (mirrors_scalar (k := 4) e.parentID.toBitVec).andThen (by cases e; rfl)

end Packet

end EnkiNet
