import EnkiNet.PacketScript

/-!
# The bit layer as a bit stream

The abstract model of the bit layer is a list of bits: a write appends the field
`data[offset .. offset + width)`, a read takes the next `width` bits and places
them at `offset` of its result.  The code is this stream exactly as long as no
call is narrower than the rest of the byte it starts in: such a call takes the
whole rest, because the first turn of the loop does not look at the width.

* `writeCalls_stream`, `readCalls_stream`: calls that fill the byte they start in
  append, and read, exactly the stream;
* `writeCalls_pos`, `readCalls_pos`: any other call moves the cursor too far;
* `exactStream_iff`: the two together.
-/

namespace EnkiNet

open ByteStore Packet

/-! ## Calls and the abstract stream -/

structure BitWrite where
  data : BitVec 32
  width : Nat
  offset : Nat
  width_pos : 1 ≤ width
  in_range : width + offset ≤ 32

structure BitRead where
  width : Nat
  offset : Nat
  width_pos : 1 ≤ width
  in_range : width + offset ≤ 32

/-- The bits of a field, least significant first. -/
def BitWrite.field (c : BitWrite) : List Bool :=
  (List.range c.width).map fun k => c.data.getLsbD (c.offset + k)

def stream (cs : List BitWrite) : List Bool := cs.flatMap BitWrite.field

theorem stream_cons (c : BitWrite) (cs : List BitWrite) :
    stream (c :: cs) = c.field ++ stream cs := rfl

/-- The `int` that has these bits from bit `offset` on, and no others. -/
def placed (bits : List Bool) (offset : Nat) : BitVec 32 :=
  (BitVec.ofBoolListLE bits).setWidth 32 <<< offset

/-- What the calls return on a stream. -/
def fieldsOf : List BitRead → List Bool → List (BitVec 32)
  | [], _ => []
  | c :: cs, bits => placed (bits.take c.width) c.offset :: fieldsOf cs (bits.drop c.width)

def BitWrite.perform (c : BitWrite) : PacketM Unit := writeBits c.data c.width c.offset

def BitRead.perform (c : BitRead) : PacketM (BitVec 32) := readBits c.width c.offset

def writeCalls : List BitWrite → PacketM Unit
  | [] => pure ()
  | c :: cs => do
      c.perform
      writeCalls cs

def readCalls : List BitRead → PacketM (List (BitVec 32))
  | [] => pure []
  | c :: cs => do
      let d ← c.perform
      let ds ← readCalls cs
      return d :: ds

/-- The bits a packet counts as written behind its header. -/
def payload (p : Packet) : List Bool :=
  window p.bytes (8 * headerSize) (p.writeCursor.pos - 8 * headerSize)

/-- **The bit layer is an exact bit stream** on these calls: the payload is the
stream, and on every packet that holds it the reads return its fields one after
the other and end right behind the last of them. -/
def ExactStream (h : PacketHeader) (writes : List BitWrite) (reads : List BitRead) : Prop :=
  ∃ w, writeCalls writes (ofHeader h) = (.ok (), w) ∧ payload w = stream writes ∧
    ∀ r, r.readCursor = (ofHeader h).writeCursor → Holds w r →
      ∃ r', readCalls reads r = (.ok (fieldsOf reads (stream writes)), r') ∧
        r'.readCursor.pos = 8 * headerSize + (reads.map BitRead.width).sum

/-- Every call of a list starts on a byte boundary or is at least as wide as the
rest of the byte it starts in; `start` is the bit position of the first. -/
def FillsBytes : (start : Nat) → (widths : List Nat) → Prop
  | _, [] => True
  | start, n :: ns => (start % 8 = 0 ∨ 8 ≤ start % 8 + n) ∧ FillsBytes (start + n) ns

/-- Only the position inside the byte matters. -/
theorem fillsBytes_add_mul (k start : Nat) (ns : List Nat) :
    FillsBytes (8 * k + start) ns ↔ FillsBytes start ns := by
  induction ns generalizing start with
  | nil => exact Iff.rfl
  | cons n ns ih =>
      have hmod : (8 * k + start) % 8 = start % 8 := by omega
      rw [FillsBytes, FillsBytes, hmod, Nat.add_assoc, ih]

/-! ## Cursors and fields -/

/-- At a cursor that is not behind a packet's first byte, a call takes exactly its
width if and only if it fills the byte it starts in. -/
theorem Cursor.fieldWidth_normalize_iff {c : Cursor} (h : 1 ≤ c.byte) (n : Nat) :
    c.normalize.fieldWidth n = n ↔ c.pos % 8 = 0 ∨ 8 ≤ c.pos % 8 + n := by
  have hbit := Cursor.normalize_bit_lt c
  have hpos : 8 * (c.normalize.byte - 1) + c.normalize.bit = c.pos := Cursor.pos_normalize h
  rw [Cursor.fieldWidth_eq_iff]
  omega

theorem getLsbD_placed {bits : List Bool} {offset : Nat} (h : bits.length + offset ≤ 32) (k : Nat) :
    (placed bits offset).getLsbD k =
      if offset ≤ k ∧ k < offset + bits.length then bits.getD (k - offset) false else false := by
  unfold placed
  rw [BitVec.getLsbD_shiftLeft, BitVec.getLsbD_setWidth, BitVec.getLsbD_ofBoolListLE]
  by_cases hin : offset ≤ k ∧ k < offset + bits.length
  · have hk : k < 32 := by omega
    have hk' : k - offset < 32 := by omega
    rw [if_pos hin]
    simp [hk, hk', hin.1]
  · rw [if_neg hin]
    by_cases hlo : offset ≤ k
    · have hout : bits.length ≤ k - offset := by omega
      simp [List.getD_eq_getElem?_getD, List.getElem?_eq_none hout]
    · simp [hlo]

theorem window_getD {s : List Byte} {start len k : Nat} (hk : k < len) :
    (window s start len).getD k false = bitAt s (start + k) := by
  simp [window, List.getD_eq_getElem?_getD, hk]

/-! ## Writing -/

/-- Calls that fill the byte they start in append their fields to what is already
written.  The induction is on the calls, `writeBits_extends` is its step. -/
theorem writeCalls_stream {cs : List BitWrite} {w : Packet} (hw : WellWritten w)
    (hstart : 8 * headerSize ≤ w.writeCursor.pos)
    (hfill : FillsBytes w.writeCursor.pos (cs.map BitWrite.width)) :
    ∃ w', writeCalls cs w = (.ok (), w') ∧ WellWritten w' ∧ Extends w w' ∧
      payload w' = payload w ++ stream cs := by
  induction cs generalizing w with
  | nil => exact ⟨w, rfl, hw, Extends.refl w, by simp [stream]⟩
  | cons c cs ih =>
      obtain ⟨hfirst, hrest⟩ := hfill
      have hbyte : 1 ≤ w.writeCursor.byte := Nat.le_trans (by decide) hw.headerSize_le
      have hrange := c.in_range
      have hwidth := (Cursor.fieldWidth_normalize_iff hbyte c.width).mpr hfirst
      obtain ⟨w₁, hwrite, hw₁, hext, _, hpos, hrep⟩ :=
        writeBits_extends hw c.data c.width_pos c.in_range (by rw [hwidth]; omega)
      rw [hwidth] at hpos hrep
      have hone : payload w₁ = payload w ++ c.field := by
        have hlen : w₁.writeCursor.pos - 8 * headerSize
            = w.writeCursor.pos - 8 * headerSize + c.width := by omega
        have hend : w.writeCursor.pos
            = 8 * headerSize + (w.writeCursor.pos - 8 * headerSize) := by omega
        rw [hend] at hrep
        rw [payload, hlen, hrep.window_append]
        rfl
      obtain ⟨w', hall, hw', hext', hpay⟩ :=
        ih hw₁ (Nat.le_trans hstart hext.pos_le) (by rw [hpos]; exact hrest)
      refine ⟨w', ?_, hw', hext.trans hext', ?_⟩
      · rw [writeCalls, Fallible.bind_ok (x := BitWrite.perform c) hwrite, hall]
      · rw [hpay, hone, stream_cons, List.append_assoc]

/-- Whatever the calls are, they move the cursor at least by their widths, and by
exactly their widths only if they fill the bytes they start in. -/
theorem writeCalls_pos {cs : List BitWrite} {w w' : Packet} (hbyte : 1 ≤ w.writeCursor.byte)
    (h : writeCalls cs w = (.ok (), w')) :
    w.writeCursor.pos + (cs.map BitWrite.width).sum ≤ w'.writeCursor.pos ∧
      (w'.writeCursor.pos = w.writeCursor.pos + (cs.map BitWrite.width).sum →
        FillsBytes w.writeCursor.pos (cs.map BitWrite.width)) := by
  induction cs generalizing w with
  | nil =>
      cases h
      exact ⟨Nat.le_refl _, fun _ => trivial⟩
  | cons c cs ih =>
      obtain ⟨_, w₁, hone, hrest⟩ := Fallible.bind_eq_ok h
      have hcur := writeBits_cursor c.width_pos c.in_range hone
      have hpos := Cursor.pos_afterBits hbyte c.width
      have hle := Cursor.le_fieldWidth w.writeCursor.normalize c.width
      have hbyte₁ : 1 ≤ w₁.writeCursor.byte := by
        rw [hcur]
        exact Nat.le_trans hbyte (Cursor.le_afterBits_byte _ _)
      obtain ⟨hmono, hexact⟩ := ih hbyte₁ hrest
      rw [hcur, hpos] at hmono hexact
      simp only [List.map_cons, List.sum_cons]
      refine ⟨by omega, ?_⟩
      intro hend
      have hwidth : w.writeCursor.normalize.fieldWidth c.width = c.width := by omega
      rw [hwidth] at hexact
      exact ⟨(Cursor.fieldWidth_normalize_iff hbyte c.width).mp hwidth, hexact (by omega)⟩

theorem length_stream (cs : List BitWrite) :
    (stream cs).length = (cs.map BitWrite.width).sum := by
  induction cs with
  | nil => rfl
  | cons c cs ih => rw [stream_cons, List.length_append, ih]; simp [BitWrite.field]

/-! ## Reading -/

/-- Calls that fill the byte they start in read the next bits of the buffer. -/
theorem readCalls_stream {cs : List BitRead} {r : Packet} (len : Nat)
    (hbyte : 1 ≤ r.readCursor.byte) (hsum : (cs.map BitRead.width).sum ≤ len)
    (hin : r.readCursor.pos + len ≤ 8 * r.bytes.length)
    (hfill : FillsBytes r.readCursor.pos (cs.map BitRead.width)) :
    ∃ r', readCalls cs r = (.ok (fieldsOf cs (window r.bytes r.readCursor.pos len)), r') ∧
      r'.readCursor.pos = r.readCursor.pos + (cs.map BitRead.width).sum := by
  induction cs generalizing r len with
  | nil => exact ⟨r, rfl, rfl⟩
  | cons c cs ih =>
      obtain ⟨hfirst, hrest⟩ := hfill
      simp only [List.map_cons, List.sum_cons] at hsum ⊢
      obtain ⟨more, rfl⟩ : ∃ more, len = c.width + more := ⟨len - c.width, by omega⟩
      have hrange := c.in_range
      have hwidth := (Cursor.fieldWidth_normalize_iff hbyte c.width).mpr hfirst
      obtain ⟨d, hread, hd⟩ := readBits_ok r c.width_pos c.in_range (by rw [hwidth]; omega) hbyte
        (by rw [hwidth]; omega)
      rw [hwidth] at hd
      have hpos : (r.readCursor.afterBits c.width).pos = r.readCursor.pos + c.width := by
        rw [Cursor.pos_afterBits hbyte, hwidth]
      obtain ⟨r', hall, hend⟩ := ih (r := r.withRead (r.readCursor.afterBits c.width)) more
        (Nat.le_trans hbyte (Cursor.le_afterBits_byte _ _)) (by omega)
        (by rw [withRead_readCursor, hpos, withRead_bytes]; omega)
        (by rw [withRead_readCursor, hpos]; exact hrest)
      rw [withRead_readCursor, hpos] at hend
      rw [withRead_readCursor, hpos, withRead_bytes] at hall
      have hvalue : d = placed (window r.bytes r.readCursor.pos c.width) c.offset := by
        apply BitVec.eq_of_getLsbD_eq
        intro k _
        rw [hd k, getLsbD_placed (by rw [length_window]; omega), length_window]
        by_cases hk : c.offset ≤ k ∧ k < c.offset + c.width
        · rw [if_pos hk, if_pos hk, window_getD (by omega)]
        · rw [if_neg hk, if_neg hk]
      have hsplit := window_append r.bytes r.readCursor.pos c.width more
      have htake : (window r.bytes r.readCursor.pos (c.width + more)).take c.width
          = window r.bytes r.readCursor.pos c.width := by
        rw [hsplit, List.take_left' (length_window _ _ _)]
      have hdrop : (window r.bytes r.readCursor.pos (c.width + more)).drop c.width
          = window r.bytes (r.readCursor.pos + c.width) more := by
        rw [hsplit, List.drop_left' (length_window _ _ _)]
      refine ⟨r', ?_, by omega⟩
      rw [readCalls, Fallible.bind_ok (x := BitRead.perform c) hread, Fallible.bind_ok hall,
        fieldsOf, htake, hdrop, hvalue]
      rfl

theorem readCalls_pos {cs : List BitRead} {r r' : Packet} {ds : List (BitVec 32)}
    (hbyte : 1 ≤ r.readCursor.byte) (h : readCalls cs r = (.ok ds, r')) :
    r.readCursor.pos + (cs.map BitRead.width).sum ≤ r'.readCursor.pos ∧
      (r'.readCursor.pos = r.readCursor.pos + (cs.map BitRead.width).sum →
        FillsBytes r.readCursor.pos (cs.map BitRead.width)) := by
  induction cs generalizing r ds with
  | nil =>
      cases h
      exact ⟨Nat.le_refl _, fun _ => trivial⟩
  | cons c cs ih =>
      obtain ⟨_, r₁, hone, hmore⟩ := Fallible.bind_eq_ok h
      obtain ⟨_, r₂, hrest, hend⟩ := Fallible.bind_eq_ok hmore
      cases hend
      have hcur := readBits_cursor c.width_pos hone
      have hpos := Cursor.pos_afterBits hbyte c.width
      have hle := Cursor.le_fieldWidth r.readCursor.normalize c.width
      have hbyte₁ : 1 ≤ r₁.readCursor.byte := by
        rw [hcur]
        exact Nat.le_trans hbyte (Cursor.le_afterBits_byte _ _)
      obtain ⟨hmono, hexact⟩ := ih hbyte₁ hrest
      rw [hcur, hpos] at hmono hexact
      simp only [List.map_cons, List.sum_cons]
      refine ⟨by omega, ?_⟩
      intro hend
      have hwidth : r.readCursor.normalize.fieldWidth c.width = c.width := by omega
      rw [hwidth] at hexact
      exact ⟨(Cursor.fieldWidth_normalize_iff hbyte c.width).mp hwidth, hexact (by omega)⟩

/-! ## The bit layer -/

/-- **When the bit layer is an exact bit stream.**  It is one for exactly the calls
that each start on a byte boundary or fill the byte they start in. -/
theorem exactStream_iff (h : PacketHeader) (writes : List BitWrite) (reads : List BitRead)
    (hsum : (reads.map BitRead.width).sum ≤ (writes.map BitWrite.width).sum) :
    ExactStream h writes reads ↔
      FillsBytes 0 (writes.map BitWrite.width) ∧ FillsBytes 0 (reads.map BitRead.width) := by
  have hfresh : (ofHeader h).writeCursor.pos = 8 * headerSize := rfl
  have hbyte : 1 ≤ (ofHeader h).writeCursor.byte := by
    simp [ofHeader, writeCursor]
  have hstart : ∀ ns, FillsBytes (8 * headerSize) ns ↔ FillsBytes 0 ns :=
    fillsBytes_add_mul headerSize 0
  constructor
  · rintro ⟨w, hwrite, hpay, hreads⟩
    obtain ⟨hmono, hexact⟩ := writeCalls_pos hbyte hwrite
    have hlen : w.writeCursor.pos - 8 * headerSize = (writes.map BitWrite.width).sum := by
      rw [← length_stream, ← hpay, payload, length_window]
    rw [hfresh] at hmono hexact
    have hw := hexact (by omega)
    rw [hstart] at hw
    obtain ⟨w', hall, hw', hext, _⟩ := writeCalls_stream (wellWritten_ofHeader h)
      (Nat.le_refl _) (by rw [hfresh, hstart]; exact hw)
    have hsame : w' = w := by
      rw [hall] at hwrite
      exact congrArg Prod.snd hwrite
    subst hsame
    obtain ⟨r', hread, hend⟩ := hreads w' hext.readCursor_eq (Holds.refl hw')
    have hcur : w'.readCursor.pos = 8 * headerSize := by
      rw [hext.readCursor_eq]
      rfl
    have hrbyte : 1 ≤ w'.readCursor.byte := by
      rw [hext.readCursor_eq]
      exact hbyte
    have hr := (readCalls_pos hrbyte hread).2 (by rw [hend, hcur])
    rw [hcur, hstart] at hr
    exact ⟨hw, hr⟩
  · rintro ⟨hw, hr⟩
    obtain ⟨w, hwrite, hww, hext, hpay⟩ := writeCalls_stream (wellWritten_ofHeader h)
      (Nat.le_refl _) (by rw [hfresh, hstart]; exact hw)
    have hpayload : payload w = stream writes := by
      rw [hpay, payload, hfresh, Nat.sub_self]
      rfl
    refine ⟨w, hwrite, hpayload, ?_⟩
    intro r hcur hholds
    have hlen : w.writeCursor.pos - 8 * headerSize = (writes.map BitWrite.width).sum := by
      rw [← length_stream, ← hpayload, payload, length_window]
    have hpos : r.readCursor.pos = 8 * headerSize := by
      rw [hcur]
      rfl
    have hend : 8 * headerSize ≤ w.writeCursor.pos := hext.pos_le
    have hstored := hholds.stored
    obtain ⟨r', hread, hrpos⟩ := readCalls_stream _ (by rw [hcur]; exact hbyte) hsum
      (by rw [hpos]; omega) (by rw [hpos, hstart]; exact hr)
    have hbits : window r.bytes r.readCursor.pos (writes.map BitWrite.width).sum
        = stream writes := by
      rw [← hpayload, payload, hpos, hlen]
      apply window_congr
      intro k hk
      exact hholds.bits_eq _ (by omega) (by omega)
    rw [hbits] at hread
    exact ⟨r', hread, by rw [hrpos, hpos]⟩

/-- Three bits and five bits, read back as one byte placed at bit 4. -/
theorem exactStream_byte :
    ExactStream {} [⟨5, 3, 0, by decide, by decide⟩, ⟨9, 5, 0, by decide, by decide⟩]
      [⟨8, 4, by decide, by decide⟩] :=
  (exactStream_iff {} _ _ (by decide)).mpr ⟨by simp [FillsBytes], by simp [FillsBytes]⟩

/-- Three fields of one bit each, all of them `1`. -/
def threeOnes : List BitWrite := List.replicate 3 ⟨1, 1, 0, by decide, by decide⟩

/-- The second of the three fields takes the seven bits that are left of the byte, so
the third lands in the next one. -/
theorem threeOnes_not_exact :
    stream threeOnes = [true, true, true] ∧
      window (writeCalls threeOnes (ofHeader {})).2.bytes (8 * headerSize) 3 = [true, true, false] ∧
      ¬ ExactStream {} threeOnes [] := by
  refine ⟨by decide, by decide +kernel, ?_⟩
  rintro ⟨w, hwrite, hpay, _⟩
  have hw : w = (writeCalls threeOnes (ofHeader {})).2 := by rw [hwrite]
  have hne : payload (writeCalls threeOnes (ofHeader {})).2 ≠ stream threeOnes := by decide +kernel
  rw [hw] at hpay
  exact hne hpay

end EnkiNet
