import EnkiNet.Packet

/-!
# What the packet operations do to the bits

A cursor `(byte, bit)` stands `bit` bits into byte `byte - 1`; `pos` is the bit
position it stands for.  The first turn of the bit loop always takes everything
that is left of a started byte, so a call of width `n` moves `fieldWidth n` bits:
`n`, unless the started byte has more than `n` bits left.

* `bitsLoop_ends`: the loop shared by `writeBits` and `readBits` visits the pieces
  of a field in order, whatever the two lambdas do with them;
* `writeBits_ok`, `readBits_ok`: one call writes, or reads, exactly the
  `fieldWidth` bits behind its cursor;
* `serialize_ok`, `deserialize_ok`: the same for whole bytes.
-/

namespace EnkiNet

open ByteStore

/-! ## Cursors -/

structure Cursor where
  byte : Nat
  bit : Nat
  deriving DecidableEq, Repr

namespace Cursor

/-- The bit position a cursor stands for. -/
def pos (c : Cursor) : Nat := 8 * (c.byte - 1) + c.bit

/-- Whole bytes of the bit count folded into the byte count. -/
def normalize (c : Cursor) : Cursor :=
  if c.bit ≥ 8 then ⟨c.byte + c.bit / 8, c.bit % 8⟩ else c

/-- The cursor `k` bits further on. -/
def move (c : Cursor) (k : Nat) : Cursor := ⟨c.byte + (c.bit + k) / 8, (c.bit + k) % 8⟩

/-- The bits that a call of width `n` takes at a normalized cursor. -/
def fieldWidth (c : Cursor) (n : Nat) : Nat :=
  if 0 < c.bit ∧ n < 8 - c.bit then 8 - c.bit else n

/-- The cursor after a bit field of width `n`. -/
def afterBits (c : Cursor) (n : Nat) : Cursor :=
  c.normalize.move (c.normalize.fieldWidth n)

/-- The cursor after `k` whole bytes. -/
def afterBytes (c : Cursor) (k : Nat) : Cursor := ⟨c.byte + k, 8⟩

/-- A normalized cursor is inside its byte. -/
theorem normalize_bit_lt (c : Cursor) : c.normalize.bit < 8 := by
  unfold normalize
  split
  · exact Nat.mod_lt _ (by decide)
  · omega

theorem le_normalize_byte (c : Cursor) : c.byte ≤ c.normalize.byte := by
  unfold normalize
  split
  · exact Nat.le_add_right _ _
  · exact Nat.le_refl _

/-- Normalizing moves the cursor nowhere. -/
theorem pos_normalize {c : Cursor} (h : 1 ≤ c.byte) : c.normalize.pos = c.pos := by
  unfold normalize pos
  split
  · dsimp only
    omega
  · rfl

/-- Moving by so many bits. -/
theorem pos_move {c : Cursor} (h : 1 ≤ c.byte) (k : Nat) : (c.move k).pos = c.pos + k := by
  simp only [pos, move]
  omega

theorem move_zero {c : Cursor} (h : c.bit < 8) : c.move 0 = c := by
  simp [move, Nat.div_eq_of_lt h, Nat.mod_eq_of_lt h]

/-- A piece that completes a byte moves the cursor to the next one. -/
theorem move_full {c : Cursor} {k bits : Nat} (h : (c.bit + k) % 8 + bits = 8) :
    c.move (k + bits) = ⟨(c.move k).byte + 1, 0⟩ := by
  simp only [move, Cursor.mk.injEq]
  omega

/-- A piece that starts at a byte boundary and ends inside the byte. -/
theorem move_tail {c : Cursor} {k bits : Nat} (h : (c.bit + k) % 8 = 0) (hlt : bits < 8) :
    c.move (k + bits) = ⟨(c.move k).byte, (c.move k).bit + bits⟩ := by
  simp only [move, Cursor.mk.injEq]
  omega

theorem le_fieldWidth (c : Cursor) (n : Nat) : n ≤ c.fieldWidth n := by
  unfold fieldWidth
  split <;> omega

/-- The field is as wide as asked for unless it lies within one byte that has been begun. -/
theorem fieldWidth_eq_iff (c : Cursor) (n : Nat) :
    c.fieldWidth n = n ↔ c.bit = 0 ∨ 8 ≤ c.bit + n := by
  unfold fieldWidth
  split <;> omega

/-- The cursor stands behind the field that was used. -/
theorem pos_afterBits {c : Cursor} (h : 1 ≤ c.byte) (n : Nat) :
    (c.afterBits n).pos = c.pos + c.normalize.fieldWidth n := by
  have hn : 1 ≤ c.normalize.byte := Nat.le_trans h c.le_normalize_byte
  rw [afterBits, pos_move hn, pos_normalize h]

/-- Whole bytes begin with the next byte. -/
theorem pos_afterBytes (c : Cursor) (k : Nat) : (c.afterBytes k).pos = 8 * (c.byte + k - 1) + 8 :=
  rfl

/-- Bit fields only move on. -/
theorem le_afterBits_byte (c : Cursor) (n : Nat) : c.byte ≤ (c.afterBits n).byte := by
  have h := c.le_normalize_byte
  simp only [afterBits, move]
  omega

theorem afterBits_bit_lt (c : Cursor) (n : Nat) : (c.afterBits n).bit < 8 :=
  Nat.mod_lt _ (by decide)

end Cursor

namespace Packet

def writeCursor (p : Packet) : Cursor := ⟨p.bytesWritten, p.bitsWritten⟩

def readCursor (p : Packet) : Cursor := ⟨p.bytesRead, p.bitsRead⟩

/-- The packet with another buffer and write cursor. -/
def withWrite (p : Packet) (c : Cursor) (s : List Byte) : Packet :=
  { p with bytes := s, bytesWritten := c.byte, bitsWritten := c.bit }

/-- The packet with another read cursor. -/
def withRead (p : Packet) (c : Cursor) : Packet :=
  { p with bytesRead := c.byte, bitsRead := c.bit }

section
variable (p : Packet) (c d : Cursor) (s t : List Byte)

@[simp] theorem withWrite_bytes : (p.withWrite c s).bytes = s := rfl
@[simp] theorem withWrite_header : (p.withWrite c s).header = p.header := rfl
@[simp] theorem withWrite_info : (p.withWrite c s).info = p.info := rfl
@[simp] theorem withWrite_writeCursor : (p.withWrite c s).writeCursor = c := rfl
@[simp] theorem withWrite_readCursor : (p.withWrite c s).readCursor = p.readCursor := rfl
@[simp] theorem withWrite_bytesWritten : (p.withWrite c s).bytesWritten = c.byte := rfl
@[simp] theorem withWrite_bitsWritten : (p.withWrite c s).bitsWritten = c.bit := rfl
@[simp] theorem withWrite_withWrite : (p.withWrite c s).withWrite d t = p.withWrite d t := rfl
@[simp] theorem withRead_bytes : (p.withRead c).bytes = p.bytes := rfl
@[simp] theorem withRead_header : (p.withRead c).header = p.header := rfl
@[simp] theorem withRead_info : (p.withRead c).info = p.info := rfl
@[simp] theorem withRead_writeCursor : (p.withRead c).writeCursor = p.writeCursor := rfl
@[simp] theorem withRead_readCursor : (p.withRead c).readCursor = c := rfl
@[simp] theorem withRead_bytesRead : (p.withRead c).bytesRead = c.byte := rfl
@[simp] theorem withRead_bitsRead : (p.withRead c).bitsRead = c.bit := rfl
@[simp] theorem withRead_withRead : (p.withRead c).withRead d = p.withRead d := rfl

end

/-- The first line of `writeBits`, on the cursor. -/
theorem normalizeWrite_eq (p : Packet) :
    p.normalizeWrite = p.withWrite p.writeCursor.normalize p.bytes := by
  unfold normalizeWrite Cursor.normalize writeCursor withWrite
  split <;> rfl

/-- The first line of `readBits`, on the cursor. -/
theorem normalizeRead_eq (p : Packet) :
    p.normalizeRead = p.withRead p.readCursor.normalize := by
  unfold normalizeRead Cursor.normalize readCursor withRead
  split <;> rfl

/-! ## Calls up to their loop -/

section
variable {α : Type}

/-- `writeBits` with another lambda for `write_bits`. -/
def writeBitsWith (run : Int → Nat → α → PacketM α) (a : α) (bitsToWrite offset : Int) :
    PacketM α := do
  Fallible.modify normalizeWrite
  fun p =>
    let bitsAvailable := 8 - p.bitsWritten
    let bitsNeeded := bitsToWrite - bitsAvailable
    if ¬ IsInt (bitsToWrite + offset) then (.error (.undefined .signedOverflow), p)
    else if overflowsData bitsToWrite offset then
      (.error (.runtimeError
        "Writing these bits with this offset would cause an overflow of the data passed in"), p)
    else if ¬ IsInt bitsNeeded then (.error (.undefined .signedOverflow), p)
    else
      (do
        reserveBits bitsNeeded
        bitsLoop run nextWriteByte addWriteBits bitsToWrite offset bitsToWrite.toNat bitsAvailable
          bitsToWrite a) p

/-- `readBits` with another lambda for `read_bits`. -/
def readBitsWith (run : Int → Nat → α → PacketM α) (a : α) (bitsToRead offset : Int) :
    PacketM α := do
  Fallible.modify normalizeRead
  fun p =>
    let bitsAvailable := 8 - p.bitsRead
    let bitsNeeded := bitsToRead - bitsAvailable
    if ¬ IsInt bitsNeeded ∨ ¬ IsInt (bitsToRead + offset) then
      (.error (.undefined .signedOverflow), p)
    else if overflowsData bitsToRead offset then
      (.error (.runtimeError
        "Reading these bits with this offset would cause an overflow of the return value"), p)
    else if pastBuffer p bitsNeeded then
      (.error (.runtimeError
        "Tried to read past the packet buffer, not enough bytes written"), p)
    else
      bitsLoop run nextReadByte addReadBits bitsToRead offset bitsToRead.toNat bitsAvailable
        bitsToRead a p

/-- `writeBits` behind its normalization. -/
theorem writeBitsWith_unfold (run : Int → Nat → α → PacketM α) (a : α) (p : Packet) (n o : Int) :
    writeBitsWith run a n o p =
      if ¬ IsInt (n + o) then
        (.error (.undefined .signedOverflow), p.withWrite p.writeCursor.normalize p.bytes)
      else if overflowsData n o then
        (.error (.runtimeError
          "Writing these bits with this offset would cause an overflow of the data passed in"),
          p.withWrite p.writeCursor.normalize p.bytes)
      else if ¬ IsInt (n - ((8 - p.writeCursor.normalize.bit : Nat) : Int)) then
        (.error (.undefined .signedOverflow), p.withWrite p.writeCursor.normalize p.bytes)
      else
        (do
          reserveBits (n - ((8 - p.writeCursor.normalize.bit : Nat) : Int))
          bitsLoop run nextWriteByte addWriteBits n o n.toNat (8 - p.writeCursor.normalize.bit) n a)
          (p.withWrite p.writeCursor.normalize p.bytes) := by
  unfold writeBitsWith
  rw [Fallible.bind_modify, normalizeWrite_eq]
  rfl

/-- What the guard rejects changes the cursor at most. -/
theorem writeBitsWith_rejected (run : Int → Nat → α → PacketM α) (a : α) (p : Packet) {n o : Int}
    (hsum : IsInt (n + o)) (h : overflowsData n o) :
    writeBitsWith run a n o p = (.error (.runtimeError
      "Writing these bits with this offset would cause an overflow of the data passed in"),
      p.withWrite p.writeCursor.normalize p.bytes) := by
  rw [writeBitsWith_unfold, if_neg (not_not_intro hsum), if_pos h]

/-- `readBits` behind its normalization. -/
theorem readBitsWith_unfold (run : Int → Nat → α → PacketM α) (a : α) (p : Packet) (n o : Int) :
    readBitsWith run a n o p =
      if ¬ IsInt (n - ((8 - p.readCursor.normalize.bit : Nat) : Int)) ∨ ¬ IsInt (n + o) then
        (.error (.undefined .signedOverflow), p.withRead p.readCursor.normalize)
      else if overflowsData n o then
        (.error (.runtimeError
          "Reading these bits with this offset would cause an overflow of the return value"),
          p.withRead p.readCursor.normalize)
      else if pastBuffer (p.withRead p.readCursor.normalize)
          (n - ((8 - p.readCursor.normalize.bit : Nat) : Int)) then
        (.error (.runtimeError "Tried to read past the packet buffer, not enough bytes written"),
          p.withRead p.readCursor.normalize)
      else
        bitsLoop run nextReadByte addReadBits n o n.toNat (8 - p.readCursor.normalize.bit) n a
          (p.withRead p.readCursor.normalize) := by
  unfold readBitsWith
  rw [Fallible.bind_modify, normalizeRead_eq]
  rfl

end

/-- `writeBits` is the common loop with the lambda `write_bits`. -/
theorem writeBits_eq_with (data : BitVec 32) (n o : Int) :
    writeBits data n o =
      writeBitsWith (fun shift bits _ => writeBitRun data shift bits 0) () n o := rfl

/-- `readBits` is the common loop with the lambda `read_bits`. -/
theorem readBits_eq_with (n o : Int) :
    readBits n o = readBitsWith (fun shift bits data => readBitRun shift bits 0 data) 0 n o := rfl

/-! ## The bit loop -/

section BitsLoop

variable {α : Type} (run : Int → Nat → α → PacketM α) (nextByte : Packet → Packet)
  (addBits : Nat → Packet → Packet) {n : Nat} (o : Int)

theorem bitsLoop_done {bits offset left : Int} (h : left ≤ 0) (turns avail : Nat) (a : α)
    (p : Packet) :
    bitsLoop run nextByte addBits bits offset turns avail left a p = (.ok a, p) := by
  cases turns with
  | zero => rfl
  | succ turns => rw [bitsLoop, if_pos h]; rfl

/-- From a byte boundary on, the loop takes whole bytes and then a tail.  The
induction is on the turns; `J k` says that the first `k` bits are done. -/
theorem bitsLoop_aligned {c : Cursor} (J : Nat → α → Packet → Prop) (E : Fault → Packet → Prop)
    (hfull : ∀ k bits a p, J k a p → (c.bit + k) % 8 + bits = 8 → k + bits ≤ c.fieldWidth n →
      Fallible.Ends (fun a' p' => J (k + bits) a' (nextByte p')) E (run (o + k) bits a p))
    (htail : ∀ k bits a p, J k a p → (c.bit + k) % 8 = 0 → 0 < bits → bits < 8 → k + bits = n →
      Fallible.Ends (fun a' p' => J (k + bits) a' (addBits bits p')) E (run (o + k) bits a p))
    (turns k left : Nat) {a : α} {p : Packet} (hk : (c.bit + k) % 8 = 0)
    (hleft : k + left = n) (hturns : left ≤ turns) (hJ : J k a p) :
    Fallible.Ends (J n) E (bitsLoop run nextByte addBits n o turns 8 left a p) := by
  induction turns generalizing k left a p with
  | zero =>
      have h0 : k = n := by omega
      rw [h0] at hJ
      exact hJ
  | succ turns ih =>
      have hshift : o + ((n : Int) - (left : Int)) = o + (k : Int) := by omega
      have hn := c.le_fieldWidth n
      by_cases h0 : left = 0
      · have hdone : k = n := by omega
        rw [hdone] at hJ
        rw [bitsLoop_done run nextByte addBits (by omega)]
        exact hJ
      by_cases h8 : 8 ≤ left
      · have hrest : ((left : Int) - 8) = ((left - 8 : Nat) : Int) := by omega
        rw [bitsLoop, if_neg (by omega), if_neg (by omega), if_pos (by omega), hshift]
        refine Fallible.Ends.bind ((hfull k 8 a p hJ (by omega) (by omega)).mono ?_)
        intro a₁ p₁ hJ₁
        rw [Fallible.bind_modify, hrest]
        exact ih (k + 8) (left - 8) (by omega) (by omega) (by omega) hJ₁
      · have hmod : ((left : Int) % 8).toNat = left := by omega
        rw [bitsLoop, if_neg (by omega), if_neg (by omega), if_neg (by omega), hshift, hmod]
        refine Fallible.Ends.bind ((htail k left a p hJ hk (by omega) (by omega) hleft).mono ?_)
        intro a₁ p₁ hJ₁
        rw [hleft] at hJ₁
        rw [Fallible.bind_modify, bitsLoop_done run nextByte addBits (Int.le_refl 0)]
        exact hJ₁

/-- **The loop visits the pieces of a field in order.**  If every piece that
completes a byte and every tail takes `J k` to `J (k + bits)` or fails in `E`, the loop
takes `J 0` to `J (fieldWidth n)` or fails in `E`. -/
theorem bitsLoop_ends {c : Cursor} (hc : c.bit < 8) (hn : 1 ≤ n) (J : Nat → α → Packet → Prop)
    (E : Fault → Packet → Prop)
    (hfull : ∀ k bits a p, J k a p → (c.bit + k) % 8 + bits = 8 → k + bits ≤ c.fieldWidth n →
      Fallible.Ends (fun a' p' => J (k + bits) a' (nextByte p')) E (run (o + k) bits a p))
    (htail : ∀ k bits a p, J k a p → (c.bit + k) % 8 = 0 → 0 < bits → bits < 8 → k + bits = n →
      Fallible.Ends (fun a' p' => J (k + bits) a' (addBits bits p')) E (run (o + k) bits a p))
    {a : α} {p : Packet} (hJ : J 0 a p) :
    Fallible.Ends (J (c.fieldWidth n)) E
      (bitsLoop run nextByte addBits n o n (8 - c.bit) n a p) := by
  by_cases hbit : c.bit = 0
  · have hw : c.fieldWidth n = n := (c.fieldWidth_eq_iff n).mpr (Or.inl hbit)
    rw [hw, hbit]
    exact bitsLoop_aligned run nextByte addBits o J E hfull htail n 0 n (by omega) (Nat.zero_add n)
      (Nat.le_refl n) hJ
  · -- the started byte is always completed, even past the width of the field
    have hfirst : 8 - c.bit ≤ c.fieldWidth n := by
      unfold Cursor.fieldWidth
      split <;> omega
    have hpiece := hfull 0 (8 - c.bit) a p hJ (by omega) (by omega)
    rw [Nat.cast_zero, Int.add_zero, Nat.zero_add] at hpiece
    obtain ⟨turns, rfl⟩ : ∃ turns, n = turns + 1 := ⟨n - 1, by omega⟩
    rw [bitsLoop, if_neg (by omega), if_pos (by omega)]
    refine Fallible.Ends.bind (hpiece.mono ?_)
    intro a₁ p₁ hJ₁
    rw [Fallible.bind_modify]
    by_cases hmore : turns + 1 ≤ 8 - c.bit
    · have hw : c.fieldWidth (turns + 1) = 8 - c.bit := by
        unfold Cursor.fieldWidth
        split <;> omega
      rw [hw, bitsLoop_done run nextByte addBits (by omega)]
      exact hJ₁
    · have hw : c.fieldWidth (turns + 1) = turns + 1 :=
        (c.fieldWidth_eq_iff _).mpr (Or.inr (by omega))
      have hrest : ((turns + 1 : Nat) : Int) - ((8 - c.bit : Nat) : Int)
          = ((turns + 1 - (8 - c.bit) : Nat) : Int) := by omega
      rw [hw, hrest]
      exact bitsLoop_aligned run nextByte addBits o J E hfull htail turns (8 - c.bit)
        (turns + 1 - (8 - c.bit)) (by omega) (by omega) (by omega) hJ₁

/-- The loop over pieces that do not fail. -/
theorem bitsLoop_ok {o : Nat} {c : Cursor} (hc : c.bit < 8) (hn : 1 ≤ n)
    (J : Nat → α → Packet → Prop)
    (hfull : ∀ k bits a p, J k a p → (c.bit + k) % 8 + bits = 8 → k + bits ≤ c.fieldWidth n →
      ∃ a' p', run ((o + k : Nat) : Int) bits a p = (.ok a', p') ∧
        J (k + bits) a' (nextByte p'))
    (htail : ∀ k bits a p, J k a p → (c.bit + k) % 8 = 0 → 0 < bits → bits < 8 → k + bits = n →
      ∃ a' p', run ((o + k : Nat) : Int) bits a p = (.ok a', p') ∧
        J (k + bits) a' (addBits bits p'))
    {a : α} {p : Packet} (hJ : J 0 a p) :
    ∃ a' p', bitsLoop run nextByte addBits n o n (8 - c.bit) n a p = (.ok a', p') ∧
      J (c.fieldWidth n) a' p' := by
  have hends := bitsLoop_ends run nextByte addBits o hc hn J (fun _ _ => False) ?_ ?_ hJ
  · rcases hloop : bitsLoop run nextByte addBits n o n (8 - c.bit) n a p with ⟨e | a', p'⟩
    · rw [hloop] at hends
      exact hends.elim
    · rw [hloop] at hends
      exact ⟨a', p', rfl, hends⟩
  · intro k bits a p hJ hend hwidth
    obtain ⟨a', p', hrun, hJ'⟩ := hfull k bits a p hJ hend hwidth
    rw [Nat.cast_add] at hrun
    rw [hrun]
    exact hJ'
  · intro k bits a p hJ hstart hpos hlt hend
    obtain ⟨a', p', hrun, hJ'⟩ := htail k bits a p hJ hstart hpos hlt hend
    rw [Nat.cast_add] at hrun
    rw [hrun]
    exact hJ'

/-- The loop ends where the width says it does, even if the lambda goes wrong about
the bits: it succeeds only after it has moved the cursor over the whole field. -/
theorem bitsLoop_cursor {cur : Packet → Cursor}
    (hrun : ∀ s b a p a' p', run s b a p = (.ok a', p') → cur p' = cur p)
    (hnext : ∀ p, cur (nextByte p) = ⟨(cur p).byte + 1, 0⟩)
    (hadd : ∀ b p, cur (addBits b p) = ⟨(cur p).byte, (cur p).bit + b⟩)
    {a a' : α} {p p' : Packet} (hn : 1 ≤ n) (hbit : (cur p).bit < 8)
    (h : bitsLoop run nextByte addBits n o n (8 - (cur p).bit) n a p = (.ok a', p')) :
    cur p' = (cur p).move ((cur p).fieldWidth n) := by
  have hpiece : ∀ k bits (a : α) q (next : Packet → Packet), cur q = (cur p).move k →
      (∀ q', cur q' = (cur p).move k → cur (next q') = (cur p).move (k + bits)) →
      Fallible.Ends (fun _ q' => cur (next q') = (cur p).move (k + bits)) (fun _ _ => True)
        (run (o + k) bits a q) := by
    intro k bits a q next hq hnext'
    rcases hone : run (o + k) bits a q with ⟨e | a₁, q'⟩
    · exact trivial
    · exact hnext' q' ((hrun _ _ _ _ _ _ hone).trans hq)
  have hends := bitsLoop_ends run nextByte addBits o hbit hn (fun k _ q => cur q = (cur p).move k)
    (fun _ _ => True) ?_ ?_ (Cursor.move_zero hbit).symm (a := a)
  · rw [h] at hends
    exact hends
  · intro k bits a q hq hend _
    refine hpiece k bits a q nextByte hq ?_
    intro q' hq'
    rw [hnext, hq', Cursor.move_full hend]
  · intro k bits a q hq hstart _ hlt _
    refine hpiece k bits a q (addBits bits) hq ?_
    intro q' hq'
    rw [hadd, hq', Cursor.move_tail hstart hlt]

/-- What goes wrong in a started byte, goes wrong in the whole loop. -/
theorem bitsLoop_error {bits offset left : Int} {turns avail : Nat} {a : α} {p p' : Packet}
    {e : Fault} (havail : avail < 8) (hleft : 0 < left) (hturns : 0 < turns)
    (h : run offset avail a p = (.error e, p')) :
    bitsLoop run nextByte addBits bits offset turns avail left a p = (.error e, p') := by
  obtain ⟨turns, rfl⟩ : ∃ t, turns = t + 1 := ⟨turns - 1, by omega⟩
  rw [bitsLoop, if_neg (by omega), if_pos havail, Fallible.bind_error h]

end BitsLoop

/-! ## Writing bits -/

/-- The lambda `write_bits` replaces the bits of one piece inside the current byte. -/
theorem writeBitRun_ok (data : BitVec 32) (shift : Nat) (bits i : Nat) (p : Packet)
    (hbyte : p.bitsWritten + i + bits ≤ 8) (hin : p.bytesWritten - 1 < p.bytes.length)
    (hshift : shift + i + bits ≤ 32) :
    ∃ s, writeBitRun data shift bits i p = (.ok (), { p with bytes := s }) ∧
      s.length = p.bytes.length ∧
      Replaces p.bytes (p.writeCursor.pos + i) bits (fun k => data.getLsbD (shift + i + k)) s := by
  induction bits generalizing i p with
  | zero => exact ⟨p.bytes, rfl, rfl, Replaces.nil _ _ _⟩
  | succ bits ih =>
      have hpos : p.writeCursor.pos + i = 8 * (p.bytesWritten - 1) + (i + p.bitsWritten) := by
        simp only [writeCursor, Cursor.pos]
        omega
      have hnat : ((i : Int) + (shift : Int)).toNat = shift + i := by omega
      have hone : writeBit data i ((i : Int) + (shift : Int)) p = (.ok (), { p with
          bytes := setBit p.bytes (p.bytesWritten - 1) (i + p.bitsWritten)
            (data.getLsbD (shift + i)) }) := by
        unfold writeBit
        rw [if_neg (by omega), if_neg (by omega), hnat]
      have hset := Replaces.setBit hin (j := i + p.bitsWritten) (by omega)
        (fun k => data.getLsbD (shift + i + k))
      obtain ⟨s, hrun, hlen, hrep⟩ := ih (i + 1) { p with
          bytes := setBit p.bytes (p.bytesWritten - 1) (i + p.bitsWritten)
            (data.getLsbD (shift + i)) } (by simpa using by omega) (by simpa using hin) (by omega)
      refine ⟨s, ?_, by simpa using hlen, ?_⟩
      · rw [writeBitRun, Fallible.bind_ok hone]
        exact hrun
      · rw [← hpos] at hset
        have hrest : Replaces (setBit p.bytes (p.bytesWritten - 1) (i + p.bitsWritten)
            (data.getLsbD (shift + i))) (p.writeCursor.pos + i + 1) bits
            (fun k => data.getLsbD (shift + i + (1 + k))) s := by
          refine Replaces.congr hrep ?_
          intro k _
          congr 1
          omega
        rw [Nat.add_comm bits 1]
        exact hset.append hrest

/-- `floatOfInt` is exact on the numbers a legal call computes. -/
theorem floatOfInt_of_small {n : Int} (h : n.natAbs < 2 ^ 24) : floatOfInt n = n := by
  have hlog : n.natAbs.log2 + 1 - 24 = 0 := by
    by_cases h0 : n.natAbs = 0
    · simp [h0]
    · have := (Nat.log2_lt h0).mpr h
      omega
  unfold floatOfInt
  simp only [hlog, pow_zero, Nat.mod_one, Nat.div_one, Nat.mul_one]
  rw [if_neg (by omega)]
  exact Int.sign_mul_natAbs n

/-- The rounding through a float is exact for widths that occur. -/
theorem bytesNeeded_of_small {n : Int} (h : n.natAbs < 2 ^ 24) : bytesNeeded n = (n + 7) / 8 := by
  rw [bytesNeeded, floatOfInt_of_small h]

/-- The buffer size `writeBits` asks for at a normalized cursor. -/
def bitsSize (c : Cursor) (n : Nat) : Nat := c.byte + (c.bit + n - 1) / 8

/-- A piece of a field starts in a byte that the call has asked for. -/
theorem move_byte_lt_bitsSize {c : Cursor} {n k bits : Nat} (hbyte : 1 ≤ c.byte) (hbits : 0 < bits)
    (hwidth : k + bits ≤ c.fieldWidth n) : (c.move k).byte - 1 < bitsSize c n := by
  have hlast : (c.bit + k) / 8 ≤ (c.bit + n - 1) / 8 := by
    unfold Cursor.fieldWidth at hwidth
    split at hwidth <;> omega
  simp only [Cursor.move, bitsSize]
  omega

/-- The buffer is grown by as many bytes as the field needs. -/
theorem reserveBits_ok {p : Packet} {n : Nat} (hn : 1 ≤ n) (hle : n ≤ 32)
    (hbit : p.bitsWritten < 8) :
    reserveBits ((n : Int) - ((8 - p.bitsWritten : Nat) : Int)) p =
      (.ok (), { p with
        bytes := if p.bytes.length < bitsSize p.writeCursor n
          then resize p.bytes (bitsSize p.writeCursor n) else p.bytes }) := by
  have hneed : bytesNeeded ((n : Int) - ((8 - p.bitsWritten : Nat) : Int))
      = (((p.bitsWritten + n - 1) / 8 : Nat) : Int) := by
    rw [bytesNeeded_of_small (by omega)]
    omega
  unfold reserveBits
  simp only [hneed]
  rw [if_neg (by omega)]
  have hsize : ((p.bytesWritten : Int) + (((p.bitsWritten + n - 1) / 8 : Nat) : Int)).toNat
      = bitsSize p.writeCursor n := by
    simp only [bitsSize, writeCursor]
    omega
  by_cases hgrow : p.bytes.length < bitsSize p.writeCursor n
  · have hgt : (p.bytesWritten : Int) + (((p.bitsWritten + n - 1) / 8 : Nat) : Int)
        > (p.bytes.length : Int) := by omega
    rw [if_pos hgt, if_pos hgrow, hsize]
  · have hgt : ¬ ((p.bytesWritten : Int) + (((p.bitsWritten + n - 1) / 8 : Nat) : Int)
        > (p.bytes.length : Int)) := by omega
    rw [if_neg hgt, if_neg hgrow]

/-- `writeBits` up to its loop, whatever the lambda: the cursor is normalized and the buffer
is as large as the loop needs it. -/
theorem writeBits_eq_loop (p : Packet) {n : Nat} {o : Int} (hn : 1 ≤ n)
    (hno : 0 ≤ n + o ∧ n + o ≤ 32) (hle : n ≤ 32) :
    ∃ s : List Byte, s.length = max p.bytes.length (bitsSize p.writeCursor.normalize n) ∧
      (∀ pos, bitAt s pos = bitAt p.bytes pos) ∧
      ∀ (α : Type) (run : Int → Nat → α → PacketM α) (a : α), writeBitsWith run a n o p =
        bitsLoop run nextWriteByte addWriteBits n o n (8 - p.writeCursor.normalize.bit) n a
          (p.withWrite p.writeCursor.normalize s) := by
  set c := p.writeCursor.normalize with hc
  have hbit : c.bit < 8 := Cursor.normalize_bit_lt _
  have hres := reserveBits_ok (p := p.withWrite c p.bytes) hn hle hbit
  refine ⟨if p.bytes.length < bitsSize c n then resize p.bytes (bitsSize c n) else p.bytes,
    ?_, ?_, ?_⟩
  · split
    · rw [length_resize]; omega
    · omega
  · intro pos
    split
    · exact bitAt_resize (by omega) pos
    · rfl
  · intro α run a
    have hsum : IsInt ((n : Int) + o) := ⟨by omega, by omega⟩
    have hguard : ¬ overflowsData (n : Int) o := by unfold overflowsData; omega
    have hneed : IsInt ((n : Int) - ((8 - c.bit : Nat) : Int)) := ⟨by omega, by omega⟩
    rw [withWrite_bitsWritten] at hres
    rw [writeBitsWith_unfold, ← hc, if_neg (not_not_intro hsum), if_neg hguard,
      if_neg (not_not_intro hneed), Fallible.bind_ok hres, Int.toNat_natCast]
    rfl

/-- **One `writeBits` call.**  It writes the `fieldWidth` bits of `data` from
`offset` on behind the cursor, and nothing else. -/
theorem writeBits_ok (p : Packet) (data : BitVec 32) {n o : Nat} (hn : 1 ≤ n)
    (hno : n + o ≤ 32) (hw : o + p.writeCursor.normalize.fieldWidth n ≤ 32)
    (hbyte : 1 ≤ p.bytesWritten) :
    ∃ s, writeBits data n o p = (.ok (), p.withWrite (p.writeCursor.afterBits n) s) ∧
      s.length = max p.bytes.length (bitsSize p.writeCursor.normalize n) ∧
      Replaces p.bytes p.writeCursor.pos (p.writeCursor.normalize.fieldWidth n)
        (fun k => data.getLsbD (o + k)) s := by
  obtain ⟨s₀, hlen₀, hbits₀, heq⟩ := writeBits_eq_loop p (o := o) hn (by omega) (by omega)
  set c := p.writeCursor.normalize with hc
  have hbit : c.bit < 8 := Cursor.normalize_bit_lt _
  have hcbyte : 1 ≤ c.byte := Nat.le_trans hbyte (Cursor.le_normalize_byte p.writeCursor)
  have hcpos : c.pos = p.writeCursor.pos := Cursor.pos_normalize (c := p.writeCursor) hbyte
  -- the first `k` bits are written and the cursor stands behind them
  let J : Nat → Unit → Packet → Prop := fun k _ q =>
    ∃ s, q = p.withWrite (c.move k) s ∧ s.length = s₀.length ∧
      Replaces s₀ c.pos k (fun j => data.getLsbD (o + j)) s
  have hpiece : ∀ k bits u q, J k u q → (c.bit + k) % 8 + bits ≤ 8 → 0 < bits →
      k + bits ≤ c.fieldWidth n →
      ∃ s, writeBitRun data ((o + k : Nat) : Int) bits 0 q
          = (.ok (), p.withWrite (c.move k) s) ∧ s.length = s₀.length ∧
        Replaces s₀ c.pos (k + bits) (fun j => data.getLsbD (o + j)) s := by
    rintro k bits u q ⟨s, rfl, hlen, hrep⟩ hfit hpos hwidth
    have hroom : (c.move k).byte - 1 < s.length := by
      rw [hlen, hlen₀]
      exact Nat.lt_of_lt_of_le (move_byte_lt_bitsSize hcbyte hpos hwidth) (Nat.le_max_right _ _)
    obtain ⟨t, hrun, htlen, htrep⟩ := writeBitRun_ok data (o + k) bits 0
      (p.withWrite (c.move k) s) (by simpa [Cursor.move] using hfit) hroom (by omega)
    refine ⟨t, hrun, by simpa [hlen] using htlen, hrep.append ?_⟩
    rw [← Cursor.pos_move hcbyte]
    exact Replaces.congr htrep (fun j _ => by simp only [Nat.add_zero, Nat.add_assoc])
  have hfull : ∀ k bits u q, J k u q → (c.bit + k) % 8 + bits = 8 → k + bits ≤ c.fieldWidth n →
      ∃ u' q', writeBitRun data ((o + k : Nat) : Int) bits 0 q = (.ok u', q') ∧
        J (k + bits) u' (nextWriteByte q') := by
    intro k bits u q hJ hend hwidth
    obtain ⟨s, hrun, hlen, hrep⟩ := hpiece k bits u q hJ (by omega) (by omega) hwidth
    refine ⟨(), _, hrun, s, ?_, hlen, hrep⟩
    rw [Cursor.move_full hend]
    rfl
  have htail : ∀ k bits u q, J k u q → (c.bit + k) % 8 = 0 → 0 < bits → bits < 8 →
      k + bits = n → ∃ u' q', writeBitRun data ((o + k : Nat) : Int) bits 0 q = (.ok u', q') ∧
        J (k + bits) u' (addWriteBits bits q') := by
    intro k bits u q hJ hstart hpos hlt hend
    obtain ⟨s, hrun, hlen, hrep⟩ := hpiece k bits u q hJ (by omega) hpos
      (Nat.le_trans (Nat.le_of_eq hend) (c.le_fieldWidth n))
    refine ⟨(), _, hrun, s, ?_, hlen, hrep⟩
    rw [Cursor.move_tail hstart hlt]
    rfl
  obtain ⟨u, q, hloop, s, rfl, hlen, hrep⟩ := bitsLoop_ok
    (fun shift bits _ => writeBitRun data shift bits 0) nextWriteByte addWriteBits hbit hn J
    hfull htail (a := ()) (p := p.withWrite c s₀)
      ⟨s₀, by rw [Cursor.move_zero hbit], rfl, Replaces.nil _ _ _⟩
  refine ⟨s, ?_, hlen.trans hlen₀, ?_⟩
  · rw [writeBits_eq_with, heq, hloop]
    rfl
  · rw [← hcpos]
    exact hrep.of_bits_eq hbits₀

/-- The lambda `write_bits` leaves the cursor to its caller. -/
theorem writeBitRun_cursor {data : BitVec 32} {shift : Int} {bits i : Nat} {p p' : Packet}
    (h : writeBitRun data shift bits i p = (.ok (), p')) : p'.writeCursor = p.writeCursor := by
  induction bits generalizing i p with
  | zero =>
      cases h
      rfl
  | succ bits ih =>
      obtain ⟨_, p₁, hone, hrest⟩ := Fallible.bind_eq_ok h
      rw [ih hrest]
      unfold writeBit at hone
      split at hone
      · cases hone
      · split at hone
        · cases hone
        · cases hone
          rfl

/-- A call that succeeds leaves its cursor behind the `fieldWidth` bits. -/
theorem writeBits_cursor {p p' : Packet} {data : BitVec 32} {n o : Nat} (hn : 1 ≤ n)
    (hno : n + o ≤ 32) (h : writeBits data n o p = (.ok (), p')) :
    p'.writeCursor = p.writeCursor.afterBits n := by
  obtain ⟨s, _, _, heq⟩ := writeBits_eq_loop p (o := o) hn (by omega) (by omega)
  have hbit : (p.withWrite p.writeCursor.normalize s).writeCursor.bit < 8 :=
    Cursor.normalize_bit_lt _
  have hrun : ∀ (shift : Int) (bits : Nat) (_ : Unit) (q : Packet) (_ : Unit) (q' : Packet),
      writeBitRun data shift bits 0 q = (.ok (), q') → q'.writeCursor = q.writeCursor := by
    intro shift bits _ q _ q' h
    exact writeBitRun_cursor h
  rw [writeBits_eq_with, heq] at h
  exact bitsLoop_cursor _ nextWriteByte addWriteBits _ hrun (fun _ => rfl)
    (fun _ _ => rfl) hn hbit h

/-- A run of bits that reaches bit 32 shifts too far, if it stays in the buffer at all. -/
theorem writeBitRun_undefined (data : BitVec 32) {shift : Nat} (bits i : Nat) (hlo : shift + i ≤ 32)
    (hhi : 32 < shift + i + bits) (p : Packet) :
    ∃ u p', writeBitRun data shift bits i p = (.error (.undefined u), p') := by
  induction bits generalizing i p with
  | zero => omega
  | succ bits ih =>
      rcases hone : writeBit data i ((i : Int) + (shift : Int)) p with ⟨e | _, p₁⟩
      · have hu : ∃ u, e = .undefined u := by
          unfold writeBit at hone
          split at hone
          · cases hone
            exact ⟨_, rfl⟩
          · split at hone
            · cases hone
              exact ⟨_, rfl⟩
            · cases hone
        obtain ⟨u, rfl⟩ := hu
        exact ⟨u, p₁, by rw [writeBitRun, Fallible.bind_error hone]⟩
      · have hlt : shift + i ≤ 31 := by
          by_contra hge
          unfold writeBit at hone
          rw [if_pos (by omega)] at hone
          cases hone
        obtain ⟨u, p', hrest⟩ := ih (i + 1) (by omega) (by omega) p₁
        exact ⟨u, p', by rw [writeBitRun, Fallible.bind_ok hone]; exact hrest⟩

/-- A call narrower than the rest of the started byte takes bits of `data` that
`offset` and the width do not reach, and its last shift can be too large. -/
theorem writeBits_undefined (p : Packet) (data : BitVec 32) {n o : Nat} (hn : 1 ≤ n)
    (hno : n + o ≤ 32) (hw : 32 < o + p.writeCursor.normalize.fieldWidth n) :
    ∃ u p', writeBits data n o p = (.error (.undefined u), p') := by
  obtain ⟨s, _, _, heq⟩ := writeBits_eq_loop p (o := o) hn (by omega) (by omega)
  have hbit := Cursor.normalize_bit_lt p.writeCursor
  have hfirst : p.writeCursor.normalize.fieldWidth n = 8 - p.writeCursor.normalize.bit ∧
      0 < p.writeCursor.normalize.bit := by
    unfold Cursor.fieldWidth at hw ⊢
    split at hw
    · next hnarrow => exact ⟨if_pos hnarrow, hnarrow.1⟩
    · omega
  obtain ⟨u, p', hrun⟩ := writeBitRun_undefined data (8 - p.writeCursor.normalize.bit) 0
    (by omega : o + 0 ≤ 32) (by omega) (p.withWrite p.writeCursor.normalize s)
  refine ⟨u, p', ?_⟩
  rw [writeBits_eq_with, heq]
  exact bitsLoop_error _ nextWriteByte addWriteBits (by omega) (by omega) hn hrun

/-! ## Reading bits -/

/-- The lambda `read_bits` reads the bits of one piece out of the current byte. -/
theorem readBitRun_ok (shift bits i : Nat) (data : BitVec 32) (p : Packet)
    (hbyte : p.bitsRead + i + bits ≤ 8) (hin : p.bytesRead - 1 < p.bytes.length)
    (hshift : shift + i + bits ≤ 32) :
    ∃ d, readBitRun shift bits i data p = (.ok d, p) ∧
      ∀ k, d.getLsbD k = if shift + i ≤ k ∧ k < shift + i + bits
        then bitAt p.bytes (p.readCursor.pos + i + (k - (shift + i))) else data.getLsbD k := by
  induction bits generalizing i data with
  | zero => exact ⟨data, rfl, fun k => by rw [if_neg (by omega)]⟩
  | succ bits ih =>
      have hnat : ((i : Int) + (shift : Int)).toNat = shift + i := by omega
      have hone : readBit data i ((i : Int) + (shift : Int)) p =
          (.ok (putBit data (shift + i)
            ((byteAt p.bytes (p.bytesRead - 1)).getLsbD (p.bitsRead + i))), p) := by
        unfold readBit
        rw [if_neg (by omega), if_neg (by omega), hnat]
      obtain ⟨d, hrun, hbits⟩ := ih (i + 1) (putBit data (shift + i)
        ((byteAt p.bytes (p.bytesRead - 1)).getLsbD (p.bitsRead + i))) (by omega) (by omega)
      refine ⟨d, ?_, ?_⟩
      · rw [readBitRun, Fallible.bind_ok hone]
        exact hrun
      · intro k
        rw [hbits k, getLsbD_putBit _ (by omega)]
        have hbyteBit : (byteAt p.bytes (p.bytesRead - 1)).getLsbD (p.bitsRead + i)
            = bitAt p.bytes (p.readCursor.pos + i) := by
          rw [← bitAt_byte _ _ (by omega)]
          simp only [readCursor, Cursor.pos, Nat.add_assoc]
        by_cases hlater : shift + (i + 1) ≤ k ∧ k < shift + (i + 1) + bits
        · have hidx : p.readCursor.pos + (i + 1) + (k - (shift + (i + 1)))
              = p.readCursor.pos + i + (k - (shift + i)) := by omega
          rw [if_pos hlater, if_pos (by omega), hidx]
        · rw [if_neg hlater]
          by_cases hhere : k = shift + i
          · have hidx : p.readCursor.pos + i + (k - (shift + i)) = p.readCursor.pos + i := by omega
            rw [if_pos hhere, if_pos (by omega), hbyteBit, hidx]
          · rw [if_neg hhere, if_neg (by omega)]

/-- The guard of `readBits` allows one byte too many: the last byte of the field may be
the one right behind the buffer. -/
theorem pastBuffer_iff {p : Packet} {n : Nat} (hn : 1 ≤ n) (hle : n ≤ 32) (hbit : p.bitsRead < 8)
    (hbyte : 1 ≤ p.bytesRead) :
    pastBuffer p ((n : Int) - ((8 - p.bitsRead : Nat) : Int)) ↔
      p.bytes.length + 1 < p.bytesRead + (p.bitsRead + n - 1) / 8 := by
  have hbytes : bytesNeeded ((n : Int) - ((8 - p.bitsRead : Nat) : Int))
      = (((p.bitsRead + n - 1) / 8 : Nat) : Int) := by
    rw [bytesNeeded_of_small (by omega)]
    omega
  rw [pastBuffer, hbytes]
  omega

/-- `readBits` up to its loop, when its guard lets the field pass. -/
theorem readBits_eq_loop (p : Packet) {n : Nat} {o : Int} (hn : 1 ≤ n)
    (hno : 0 ≤ n + o ∧ n + o ≤ 32) (hle : n ≤ 32) (hbyte : 1 ≤ p.bytesRead)
    (hin : p.readCursor.normalize.byte + (p.readCursor.normalize.bit + n - 1) / 8
      ≤ p.bytes.length + 1) :
    readBits n o p =
      bitsLoop (fun shift bits data => readBitRun shift bits 0 data) nextReadByte addReadBits
        n o n (8 - p.readCursor.normalize.bit) n 0 (p.withRead p.readCursor.normalize) := by
  set c := p.readCursor.normalize with hc
  have hbit : c.bit < 8 := Cursor.normalize_bit_lt _
  have hcbyte : 1 ≤ c.byte := Nat.le_trans hbyte (Cursor.le_normalize_byte p.readCursor)
  have hsum : IsInt ((n : Int) + o) := ⟨by omega, by omega⟩
  have hguard : ¬ overflowsData (n : Int) o := by unfold overflowsData; omega
  have hneed : IsInt ((n : Int) - ((8 - c.bit : Nat) : Int)) := ⟨by omega, by omega⟩
  have hpast : ¬ pastBuffer (p.withRead c) ((n : Int) - ((8 - c.bit : Nat) : Int)) :=
    mt (pastBuffer_iff (p := p.withRead c) hn hle hbit hcbyte).mp (Nat.not_lt.mpr hin)
  rw [readBits_eq_with, readBitsWith_unfold, ← hc,
    if_neg (not_or.mpr ⟨not_not_intro hneed, not_not_intro hsum⟩), if_neg hguard, if_neg hpast,
    Int.toNat_natCast]

/-- **One `readBits` call.**  It returns the `fieldWidth` bits behind the cursor,
placed at bit `offset`, and moves the cursor behind them. -/
theorem readBits_ok (p : Packet) {n o : Nat} (hn : 1 ≤ n) (hno : n + o ≤ 32)
    (hw : o + p.readCursor.normalize.fieldWidth n ≤ 32) (hbyte : 1 ≤ p.bytesRead)
    (hin : p.readCursor.pos + p.readCursor.normalize.fieldWidth n ≤ 8 * p.bytes.length) :
    ∃ d, readBits n o p = (.ok d, p.withRead (p.readCursor.afterBits n)) ∧
      ∀ k, d.getLsbD k = if o ≤ k ∧ k < o + p.readCursor.normalize.fieldWidth n
        then bitAt p.bytes (p.readCursor.pos + (k - o)) else false := by
  set c := p.readCursor.normalize with hc
  have hle := c.le_fieldWidth n
  have hbit : c.bit < 8 := Cursor.normalize_bit_lt _
  have hcbyte : 1 ≤ c.byte := Nat.le_trans hbyte (Cursor.le_normalize_byte p.readCursor)
  have hcpos : c.pos = p.readCursor.pos := Cursor.pos_normalize (c := p.readCursor) hbyte
  have hend : 8 * (c.byte - 1) + c.bit + c.fieldWidth n ≤ 8 * p.bytes.length := by
    rw [show 8 * (c.byte - 1) + c.bit = c.pos from rfl, hcpos]
    exact hin
  have heq := readBits_eq_loop p (o := o) hn (by omega) (by omega) hbyte (by rw [← hc]; omega)
  -- the first `k` bits are read and the cursor stands behind them
  let J : Nat → BitVec 32 → Packet → Prop := fun k d q =>
    q = p.withRead (c.move k) ∧
      ∀ j, d.getLsbD j = if o ≤ j ∧ j < o + k then bitAt p.bytes (c.pos + (j - o)) else false
  have hpiece : ∀ k bits d q, J k d q → (c.bit + k) % 8 + bits ≤ 8 → 0 < bits →
      k + bits ≤ c.fieldWidth n →
      ∃ d', readBitRun ((o + k : Nat) : Int) bits 0 d q = (.ok d', p.withRead (c.move k)) ∧
        ∀ j, d'.getLsbD j =
          if o ≤ j ∧ j < o + (k + bits) then bitAt p.bytes (c.pos + (j - o)) else false := by
    rintro k bits d q ⟨rfl, hd⟩ hfit hpos hwidth
    have hroom : (c.move k).byte - 1 < p.bytes.length := by
      have hpos' : 8 * (c.byte - 1) + c.bit = p.readCursor.pos := hcpos
      simp only [Cursor.move]
      omega
    obtain ⟨d', hrun, hbits⟩ := readBitRun_ok (o + k) bits 0 d (p.withRead (c.move k))
      (by simpa [Cursor.move] using hfit) hroom (by omega)
    refine ⟨d', hrun, fun j => ?_⟩
    rw [hbits j, hd j, withRead_readCursor, Cursor.pos_move hcbyte, withRead_bytes]
    by_cases hnew : o + k + 0 ≤ j ∧ j < o + k + 0 + bits
    · have hidx : c.pos + k + 0 + (j - (o + k + 0)) = c.pos + (j - o) := by omega
      rw [if_pos hnew, if_pos (by omega), hidx]
    · rw [if_neg hnew]
      by_cases hold : o ≤ j ∧ j < o + k
      · rw [if_pos hold, if_pos (by omega)]
      · rw [if_neg hold, if_neg (by omega)]
  have hfull : ∀ k bits d q, J k d q → (c.bit + k) % 8 + bits = 8 → k + bits ≤ c.fieldWidth n →
      ∃ d' q', readBitRun ((o + k : Nat) : Int) bits 0 d q = (.ok d', q') ∧
        J (k + bits) d' (nextReadByte q') := by
    intro k bits d q hJ hend hwidth
    obtain ⟨d', hrun, hbits⟩ := hpiece k bits d q hJ (by omega) (by omega) hwidth
    refine ⟨d', _, hrun, ?_, hbits⟩
    rw [Cursor.move_full hend]
    rfl
  have htail : ∀ k bits d q, J k d q → (c.bit + k) % 8 = 0 → 0 < bits → bits < 8 →
      k + bits = n → ∃ d' q', readBitRun ((o + k : Nat) : Int) bits 0 d q = (.ok d', q') ∧
        J (k + bits) d' (addReadBits bits q') := by
    intro k bits d q hJ hstart hpos hlt hend
    obtain ⟨d', hrun, hbits⟩ := hpiece k bits d q hJ (by omega) hpos (by omega)
    refine ⟨d', _, hrun, ?_, hbits⟩
    rw [Cursor.move_tail hstart hlt]
    rfl
  obtain ⟨d, q, hloop, rfl, hbits⟩ := bitsLoop_ok
    (fun shift bits data => readBitRun shift bits 0 data) nextReadByte addReadBits hbit hn J
    hfull htail (a := 0) (p := p.withRead c)
    ⟨by rw [Cursor.move_zero hbit], fun j => by rw [if_neg (by omega)]; simp⟩
  refine ⟨d, ?_, ?_⟩
  · rw [heq, hloop]
    rfl
  · rw [← hcpos]
    exact hbits

/-- The lambda `read_bits` changes no packet. -/
theorem readBitRun_packet {shift : Int} {bits i : Nat} {data d : BitVec 32} {p p' : Packet}
    (h : readBitRun shift bits i data p = (.ok d, p')) : p' = p := by
  induction bits generalizing i data p with
  | zero =>
      cases h
      rfl
  | succ bits ih =>
      obtain ⟨_, p₁, hone, hrest⟩ := Fallible.bind_eq_ok h
      rw [ih hrest]
      unfold readBit at hone
      split at hone
      · cases hone
      · split at hone
        · cases hone
        · cases hone
          rfl

/-- A call that succeeds leaves its cursor behind the `fieldWidth` bits. -/
theorem readBits_cursor {p p' : Packet} {n : Nat} {o : Int} {d : BitVec 32} (hn : 1 ≤ n)
    (h : readBits n o p = (.ok d, p')) :
    p'.readCursor = p.readCursor.afterBits n := by
  rw [readBits_eq_with, readBitsWith_unfold] at h
  split at h
  · cases h
  split at h
  · cases h
  split at h
  · cases h
  · rw [Int.toNat_natCast] at h
    have hbit : (p.withRead p.readCursor.normalize).readCursor.bit < 8 :=
      Cursor.normalize_bit_lt _
    have hrun : ∀ (shift : Int) (bits : Nat) (a : BitVec 32) (q : Packet) (a' : BitVec 32)
        (q' : Packet), readBitRun shift bits 0 a q = (.ok a', q') →
        q'.readCursor = q.readCursor := by
      intro shift bits a q a' q' h
      rw [readBitRun_packet h]
    exact bitsLoop_cursor _ nextReadByte addReadBits _ hrun (fun _ => rfl)
      (fun _ _ => rfl) hn hbit h

/-! ## Whole bytes -/

/-- **One `serialize` call.**  It writes the bytes behind the byte cursor, and
nothing else; a full buffer is doubled. -/
theorem serialize_ok (p : Packet) (d : List Byte) :
    ∃ s, serialize (some d) p = (.ok (), p.withWrite (p.writeCursor.afterBytes d.length) s) ∧
      s.length = (if p.bytesWritten + d.length > p.bytes.length
        then (p.bytesWritten + d.length) * 2 else p.bytes.length) ∧
      Replaces p.bytes (8 * p.bytesWritten) (8 * d.length) (bitAt d) s := by
  by_cases hgrow : p.bytesWritten + d.length > p.bytes.length
  · have hroom : p.bytesWritten + d.length
        ≤ (resize p.bytes ((p.bytesWritten + d.length) * 2)).length := by
      rw [length_resize]; omega
    refine ⟨overwrite (resize p.bytes ((p.bytesWritten + d.length) * 2)) p.bytesWritten d,
      ?_, ?_, ?_⟩
    · simp only [serialize, if_pos hgrow]
      rfl
    · rw [length_overwrite hroom, length_resize, if_pos hgrow]
    · exact (Replaces.overwrite hroom).of_bits_eq (bitAt_resize (by omega))
  · refine ⟨overwrite p.bytes p.bytesWritten d, ?_, ?_, ?_⟩
    · simp only [serialize, if_neg hgrow]
      rfl
    · rw [length_overwrite (by omega), if_neg hgrow]
    · exact Replaces.overwrite (by omega)

/-- **One `deserialize` call** whose bytes lie inside the buffer. -/
theorem deserialize_ok (p : Packet) {size : Nat} (hin : p.bytesRead + size ≤ p.bytes.length) :
    deserialize size false p =
      (.ok (slice p.bytes p.bytesRead size), p.withRead (p.readCursor.afterBytes size)) := by
  unfold deserialize
  rw [if_neg (by omega), if_neg (by simp)]
  rfl

/-- As many bytes as were asked for. -/
theorem length_of_deserialize {size : Nat} {isNull : Bool} {p p' : Packet} {d : List Byte}
    (h : deserialize size isNull p = (.ok d, p')) : d.length = size := by
  unfold deserialize at h
  split at h
  · cases h
  split at h
  · cases h
  · next hin _ =>
    cases h
    exact length_slice (Nat.not_lt.mp hin)

end Packet

end EnkiNet
