import Mathlib

/-!
# Byte stores

A byte store is a list of bytes.  It is read and written at byte offsets, as
`memcpy` does, and at bit offsets: bit `pos` of a store is bit `pos % 8` of byte
`pos / 8`, least significant bit first, and every bit past the end reads as
zero.  The bit view is the one in which writes of whole bytes and writes of
single bits compose, so each operation below has one lemma that says what it
does to every bit:

* `bitAt_resize`: growing a store with zero bytes changes no bit;
* `bitAt_overwrite`: copying `d` to offset `i` replaces exactly the bits of `d`;
* `bitAt_setBit`: setting one bit changes exactly that bit;
* `slice_eq_of_bits`: a run of bytes is determined by its bits.

`leBytes` and `leNat` are the little-endian representation of a number.
-/

namespace ByteStore

abbrev Byte := BitVec 8

/-! ## Little-endian numbers -/

/-- The `k` least significant bytes of `n`, least significant first. -/
def leBytes : Nat → Nat → List Byte
  | 0, _ => []
  | k + 1, n => BitVec.ofNat 8 n :: leBytes k (n / 256)

/-- The number whose little-endian bytes these are. -/
def leNat : List Byte → Nat
  | [] => 0
  | b :: bs => b.toNat + 256 * leNat bs

@[simp] theorem length_leBytes (k n : Nat) : (leBytes k n).length = k := by
  induction k generalizing n with
  | zero => rfl
  | succ k ih => simp [leBytes, ih]

/-- `k` bytes hold the numbers below `256 ^ k`. -/
theorem leNat_lt (bs : List Byte) : leNat bs < 256 ^ bs.length := by
  induction bs with
  | nil => simp [leNat]
  | cons b bs ih =>
      have hb : b.toNat < 256 := b.isLt
      simp only [leNat, List.length_cons, pow_succ]
      omega

/-- Reading back `k` little-endian bytes gives the number modulo `256 ^ k`. -/
theorem leNat_leBytes (k n : Nat) : leNat (leBytes k n) = n % 256 ^ k := by
  induction k generalizing n with
  | zero => simp [leBytes, leNat, Nat.mod_one]
  | succ k ih =>
      have hsplit : n % (256 * 256 ^ k) = n % 256 + 256 * (n / 256 % 256 ^ k) :=
        Nat.mod_mul
      simp only [leBytes, leNat, ih, BitVec.toNat_ofNat, pow_succ]
      rw [Nat.mul_comm (256 ^ k) 256, hsplit]
      norm_num

/-- A number that fits comes back from its bytes. -/
theorem leNat_leBytes_of_lt {k n : Nat} (h : n < 256 ^ k) : leNat (leBytes k n) = n := by
  rw [leNat_leBytes, Nat.mod_eq_of_lt h]

/-- Bytes come back from the number that they spell. -/
theorem leBytes_leNat (bs : List Byte) : leBytes bs.length (leNat bs) = bs := by
  induction bs with
  | nil => rfl
  | cons b bs ih =>
      have hb : b.toNat < 256 := b.isLt
      have hhead : BitVec.ofNat 8 (b.toNat + 256 * leNat bs) = b := by
        apply BitVec.eq_of_toNat_eq
        rw [BitVec.toNat_ofNat]
        omega
      have htail : (b.toNat + 256 * leNat bs) / 256 = leNat bs := by omega
      rw [List.length_cons, leNat, leBytes, hhead, htail, ih]

/-! ## Bits of a word -/

/-- Set or clear bit `j` of a word. -/
def putBit {w : Nat} (b : BitVec w) (j : Nat) (v : Bool) : BitVec w :=
  if v then b ||| (BitVec.ofNat w 1 <<< j) else b &&& ~~~(BitVec.ofNat w 1 <<< j)

/-- Setting one bit leaves the others. -/
theorem getLsbD_putBit {w : Nat} (b : BitVec w) {j : Nat} (hj : j < w) (v : Bool) (k : Nat) :
    (putBit b j v).getLsbD k = if k = j then v else b.getLsbD k := by
  have hone : ∀ m : Nat, (BitVec.ofNat w 1).getLsbD m = decide (m = 0) := by
    intro m
    rcases m with _ | m
    · simp [BitVec.getLsbD_ofNat]
      omega
    · simp [BitVec.getLsbD_ofNat, Nat.testBit_succ]
  by_cases hk : k < w
  · unfold putBit
    cases v
    · simp only [Bool.false_eq_true, if_false, BitVec.getLsbD_and, BitVec.getLsbD_not,
        BitVec.getLsbD_shiftLeft, hone, hk, decide_true, Bool.true_and]
      grind
    · simp only [if_true, BitVec.getLsbD_or, BitVec.getLsbD_shiftLeft, hone, hk, decide_true,
        Bool.true_and]
      grind
  · have hne : k ≠ j := by omega
    rw [if_neg hne, BitVec.getLsbD_of_ge _ _ (by omega), BitVec.getLsbD_of_ge _ _ (by omega)]

/-! ## The bit view -/

/-- Byte `i` of a store, zero past its end. -/
def byteAt (s : List Byte) (i : Nat) : Byte := s.getD i 0

/-- Bit `pos` of a store. -/
def bitAt (s : List Byte) (pos : Nat) : Bool := (byteAt s (pos / 8)).getLsbD (pos % 8)

/-- Behind the end the bytes read as zero, as after `resize`. -/
theorem byteAt_of_ge {s : List Byte} {i : Nat} (h : s.length ≤ i) : byteAt s i = 0 := by
  simp [byteAt, List.getD_eq_getElem?_getD, List.getElem?_eq_none h]

/-- Bit `8 * i + j` of the buffer is bit `j` of its byte `i`. -/
theorem bitAt_byte (s : List Byte) (i : Nat) {j : Nat} (hj : j < 8) :
    bitAt s (8 * i + j) = (byteAt s i).getLsbD j := by
  have hdiv : (8 * i + j) / 8 = i := by omega
  have hmod : (8 * i + j) % 8 = j := by omega
  rw [bitAt, hdiv, hmod]

/-- Bytes with equal bits are equal. -/
theorem byteAt_eq_of_bits {s t : List Byte} {i k : Nat}
    (h : ∀ j, j < 8 → bitAt s (8 * i + j) = bitAt t (8 * k + j)) :
    byteAt s i = byteAt t k := by
  apply BitVec.eq_of_getLsbD_eq
  intro j hj
  rw [← bitAt_byte s i hj, ← bitAt_byte t k hj]
  exact h j hj

/-! ## Growing, copying, setting one bit -/

/-- Grow or shrink a store to `n` bytes; new bytes are zero. -/
def resize (s : List Byte) (n : Nat) : List Byte :=
  s.take n ++ List.replicate (n - s.length) 0

@[simp] theorem length_resize (s : List Byte) (n : Nat) : (resize s n).length = n := by
  simp [resize]
  omega

/-- Growing the buffer keeps its bytes. -/
theorem byteAt_resize {s : List Byte} {n : Nat} (h : s.length ≤ n) (i : Nat) :
    byteAt (resize s n) i = byteAt s i := by
  have htake : s.take n = s := List.take_of_length_le h
  by_cases hi : i < s.length
  · simp [byteAt, resize, htake, List.getD_eq_getElem?_getD, List.getElem?_append_left hi]
  · rw [byteAt_of_ge (s := s) (by omega)]
    simp only [byteAt, resize, htake, List.getD_eq_getElem?_getD,
      List.getElem?_append_right (Nat.not_lt.mp hi), List.getElem?_replicate]
    split <;> rfl

theorem bitAt_resize {s : List Byte} {n : Nat} (h : s.length ≤ n) (pos : Nat) :
    bitAt (resize s n) pos = bitAt s pos := by
  rw [bitAt, byteAt_resize h, bitAt]

/-- Copy `d` into the store at byte offset `i`. -/
def overwrite (s : List Byte) (i : Nat) (d : List Byte) : List Byte :=
  s.take i ++ d ++ s.drop (i + d.length)

theorem length_overwrite {s d : List Byte} {i : Nat} (h : i + d.length ≤ s.length) :
    (overwrite s i d).length = s.length := by
  simp [overwrite]
  omega

theorem byteAt_overwrite {s d : List Byte} {i : Nat} (h : i + d.length ≤ s.length) (m : Nat) :
    byteAt (overwrite s i d) m =
      if i ≤ m ∧ m < i + d.length then byteAt d (m - i) else byteAt s m := by
  have hi : (s.take i).length = i := by simp; omega
  simp only [byteAt, overwrite, List.getD_eq_getElem?_getD, List.append_assoc]
  split
  · next hm =>
    rw [List.getElem?_append_right (by omega), hi, List.getElem?_append_left (by omega)]
  · next hm =>
    by_cases hlt : m < i
    · rw [List.getElem?_append_left (by omega), List.getElem?_take_of_lt hlt]
    · rw [List.getElem?_append_right (by omega), hi, List.getElem?_append_right (by omega),
        List.getElem?_drop]
      congr 2
      omega

/-- `memcpy` replaces the bits of its destination and no others. -/
theorem bitAt_overwrite {s d : List Byte} {i : Nat} (h : i + d.length ≤ s.length) (pos : Nat) :
    bitAt (overwrite s i d) pos =
      if 8 * i ≤ pos ∧ pos < 8 * (i + d.length) then bitAt d (pos - 8 * i) else bitAt s pos := by
  simp only [bitAt, byteAt_overwrite h]
  by_cases hin : 8 * i ≤ pos ∧ pos < 8 * (i + d.length)
  · have hbyte : i ≤ pos / 8 ∧ pos / 8 < i + d.length := by omega
    have hdiv : pos / 8 - i = (pos - 8 * i) / 8 := by omega
    have hmod : pos % 8 = (pos - 8 * i) % 8 := by omega
    rw [if_pos hin, if_pos hbyte, hdiv, hmod]
  · have hbyte : ¬ (i ≤ pos / 8 ∧ pos / 8 < i + d.length) := by omega
    rw [if_neg hin, if_neg hbyte]

/-- Set or clear bit `j` of byte `i` of the store. -/
def setBit (s : List Byte) (i j : Nat) (v : Bool) : List Byte :=
  s.set i (putBit (byteAt s i) j v)

@[simp] theorem length_setBit (s : List Byte) (i j : Nat) (v : Bool) :
    (setBit s i j v).length = s.length := by
  simp [setBit]

/-- Setting a bit of one byte is setting one bit of the buffer. -/
theorem bitAt_setBit {s : List Byte} {i j : Nat} (hi : i < s.length) (hj : j < 8) (v : Bool)
    (pos : Nat) :
    bitAt (setBit s i j v) pos = if pos = 8 * i + j then v else bitAt s pos := by
  by_cases hbyte : pos / 8 = i
  · have hget : byteAt (setBit s i j v) (pos / 8) = putBit (byteAt s i) j v := by
      simp [byteAt, setBit, hbyte, hi]
    have hiff : pos % 8 = j ↔ pos = 8 * i + j := by omega
    rw [bitAt, hget, getLsbD_putBit _ hj, bitAt, hbyte]
    simp only [hiff]
  · have hget : byteAt (setBit s i j v) (pos / 8) = byteAt s (pos / 8) := by
      have hne : i ≠ pos / 8 := fun h => hbyte h.symm
      simp [byteAt, setBit, List.getD_eq_getElem?_getD, List.getElem?_set_ne hne]
    have hne : pos ≠ 8 * i + j := by omega
    rw [bitAt, hget, if_neg hne, bitAt]

/-! ## Writing a field -/

/-- `t` is `s` with the `len` bits from `start` on replaced by the bits `f 0`,
`f 1`, ... -/
def Replaces (s : List Byte) (start len : Nat) (f : Nat → Bool) (t : List Byte) : Prop :=
  ∀ pos, bitAt t pos =
    if start ≤ pos ∧ pos < start + len then f (pos - start) else bitAt s pos

/-- Nothing is replaced by a field of no bits. -/
theorem Replaces.nil (s : List Byte) (start : Nat) (f : Nat → Bool) :
    Replaces s start 0 f s := by
  intro pos
  rw [if_neg (by omega)]

/-- Two fields written one behind the other are one field. -/
theorem Replaces.append {s t u : List Byte} {start a b : Nat} {f : Nat → Bool}
    (h : Replaces s start a f t) (h' : Replaces t (start + a) b (fun k => f (a + k)) u) :
    Replaces s start (a + b) f u := by
  intro pos
  rw [h' pos, h pos]
  by_cases hlo : start + a ≤ pos ∧ pos < start + a + b
  · have hk : a + (pos - (start + a)) = pos - start := by omega
    rw [if_pos hlo, if_pos (by omega)]
    exact congrArg f hk
  · rw [if_neg hlo]
    by_cases hin : start ≤ pos ∧ pos < start + a
    · rw [if_pos hin, if_pos (by omega)]
    · rw [if_neg hin, if_neg (by omega)]

theorem Replaces.congr {s t : List Byte} {start len : Nat} {f g : Nat → Bool}
    (h : Replaces s start len f t) (hfg : ∀ k, k < len → f k = g k) :
    Replaces s start len g t := by
  intro pos
  rw [h pos]
  split
  · exact hfg _ (by omega)
  · rfl

/-- Growing the store first changes nothing. -/
theorem Replaces.of_bits_eq {s s' t : List Byte} {start len : Nat} {f : Nat → Bool}
    (hbits : ∀ pos, bitAt s' pos = bitAt s pos) (h : Replaces s' start len f t) :
    Replaces s start len f t := by
  intro pos
  rw [h pos, hbits pos]

/-- One bit is a field of width one. -/
theorem Replaces.setBit {s : List Byte} {i j : Nat} (hi : i < s.length) (hj : j < 8)
    (f : Nat → Bool) : Replaces s (8 * i + j) 1 f (setBit s i j (f 0)) := by
  intro pos
  rw [bitAt_setBit hi hj]
  by_cases hpos : pos = 8 * i + j
  · rw [if_pos hpos, if_pos (by omega)]
    congr 1
    omega
  · rw [if_neg hpos, if_neg (by omega)]

/-- A `memcpy` is a field of whole bytes. -/
theorem Replaces.overwrite {s d : List Byte} {i : Nat} (h : i + d.length ≤ s.length) :
    Replaces s (8 * i) (8 * d.length) (bitAt d) (overwrite s i d) := by
  intro pos
  rw [bitAt_overwrite h, Nat.mul_add]

/-- Inside the field are the new bits. -/
theorem Replaces.bitAt_field {s t : List Byte} {start len : Nat} {f : Nat → Bool}
    (h : Replaces s start len f t) {k : Nat} (hk : k < len) :
    bitAt t (start + k) = f k := by
  rw [h, if_pos (by omega)]
  congr 1
  omega

/-- What was written earlier stands. -/
theorem Replaces.bitAt_before {s t : List Byte} {start len : Nat} {f : Nat → Bool}
    (h : Replaces s start len f t) {pos : Nat} (hpos : pos < start) :
    bitAt t pos = bitAt s pos := by
  rw [h, if_neg (by omega)]

/-! ## Reading runs of bytes and of bits -/

/-- The `k` bytes from offset `i` on. -/
def slice (s : List Byte) (i k : Nat) : List Byte := (s.drop i).take k

theorem length_slice {s : List Byte} {i k : Nat} (h : i + k ≤ s.length) :
    (slice s i k).length = k := by
  simp [slice]
  omega

/-- The first part of what was joined. -/
theorem slice_append_left (d e : List Byte) : slice (d ++ e) 0 d.length = d := by
  simp [slice]

/-- Behind the first part is the second. -/
theorem slice_append_right (d e : List Byte) (i k : Nat) :
    slice (d ++ e) (d.length + i) k = slice e i k := by
  simp [slice, List.drop_append, List.drop_eq_nil_of_le]

/-- A run of bytes inside the store is determined by its bits. -/
theorem slice_eq_of_bits {s d : List Byte} {i : Nat} (h : i + d.length ≤ s.length)
    (hbits : ∀ pos, pos < 8 * d.length → bitAt s (8 * i + pos) = bitAt d pos) :
    slice s i d.length = d := by
  apply List.ext_getElem (length_slice h)
  intro m hm hm'
  have hbyte : byteAt s (i + m) = byteAt d m := by
    apply byteAt_eq_of_bits
    intro j hj
    have hpos : 8 * (i + m) + j = 8 * i + (8 * m + j) := by omega
    rw [hpos]
    exact hbits _ (by omega)
  have hs : i + m < s.length := by omega
  simpa [slice, byteAt, List.getD_eq_getElem?_getD, hs, hm'] using hbyte

/-- The `len` bits from position `start` on. -/
def window (s : List Byte) (start len : Nat) : List Bool :=
  (List.range len).map fun k => bitAt s (start + k)

@[simp] theorem length_window (s : List Byte) (start len : Nat) :
    (window s start len).length = len := by
  simp [window]

/-- A window of bits splits anywhere. -/
theorem window_append (s : List Byte) (start a b : Nat) :
    window s start (a + b) = window s start a ++ window s (start + a) b := by
  simp [window, List.range_add, Function.comp_def, Nat.add_assoc]

/-- A window sees its own bits only. -/
theorem window_congr {s t : List Byte} {start len : Nat}
    (h : ∀ k, k < len → bitAt s (start + k) = bitAt t (start + k)) :
    window s start len = window t start len := by
  apply List.map_congr_left
  intro k hk
  exact h k (List.mem_range.mp hk)

/-- Writing a field right behind a window makes the window longer. -/
theorem Replaces.window_append {s t : List Byte} {start len n : Nat} {f : Nat → Bool}
    (h : Replaces s (start + len) n f t) :
    window t start (len + n) = window s start len ++ (List.range n).map f := by
  have hold : window t start len = window s start len := by
    apply window_congr
    intro k hk
    exact h.bitAt_before (by omega)
  have hnew : window t (start + len) n = (List.range n).map f := by
    apply List.map_congr_left
    intro k hk
    exact h.bitAt_field (List.mem_range.mp hk)
  rw [ByteStore.window_append, hold, hnew]

end ByteStore
