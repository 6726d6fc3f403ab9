import EnkiNet.Mirror
import EnkiNet.Quantizer

/-!
# Compressed floats

`writeCompressedFloat` cuts the interval `[min, max]` into steps of at most
`resolution` and writes the number of the nearest end of a step, in as many bits as
the binary logarithm of the number of steps says.  All arithmetic is exact here.

There is one end more than there are steps.  Where the number of steps is a power of
two, the last end does not fit into these bits, and what is read is `min`.
`compressedFloat_accurate_iff` says for which values that is too far off.
-/

namespace EnkiNet

open Packet

/-! ## The source's arithmetic -/

/-- `std::clamp`. -/
def clamp (x lo hi : ℚ) : ℚ := if x < lo then lo else if hi < x then hi else x

/-- `std::round`, which takes halves away from zero. -/
def stdRound (x : ℚ) : ℤ := if x < 0 then -⌊-x + 1 / 2⌋ else ⌊x + 1 / 2⌋

/-- `static_cast<int>(std::ceil(delta / resolution))`. -/
def maxPossibleValues (min max resolution : ℚ) : ℤ := ⌈(max - min) / resolution⌉

/-- `static_cast<int>(std::ceil(std::log(max_possible_values) / std::log(2)))`. -/
def bitsRequired (maxPossibleValues : ℤ) : ℤ := Nat.clog 2 maxPossibleValues.toNat

/-- The logarithm is the exact one. -/
theorem bitsRequired_eq {n : ℤ} (hn : 1 ≤ n) :
    bitsRequired n = ⌈Real.log n / Real.log 2⌉ := by
  obtain ⟨k, rfl⟩ : ∃ k : ℕ, n = k := ⟨n.toNat, by omega⟩
  have hceil := Real.ceil_logb_natCast (b := 2) (r := (k : ℝ)) (Nat.cast_nonneg k)
  rw [Int.clog_natCast, Real.logb] at hceil
  rw [bitsRequired, Int.toNat_natCast, Int.cast_natCast]
  exact_mod_cast hceil.symm

def finalValue (data min max resolution : ℚ) : ℤ :=
  let normalizedData := clamp ((data - min) / (max - min)) 0 1
  stdRound (normalizedData * maxPossibleValues min max resolution)

namespace Packet

def writeCompressedFloat (data min max resolution : ℚ) : PacketM Unit :=
  writeBits (BitVec.ofInt 32 (finalValue data min max resolution))
    (bitsRequired (maxPossibleValues min max resolution))

def readCompressedFloat (min max resolution : ℚ) : PacketM ℚ := do
  let finalValue ← readBits (bitsRequired (maxPossibleValues min max resolution))
  return (finalValue.toInt : ℚ) / maxPossibleValues min max resolution * (max - min) + min

/-! ## One field on a fresh packet -/

theorem writeBits_zero_ofHeader (h : PacketHeader) (data : BitVec 32) :
    writeBits data 0 0 (ofHeader h) = (.ok (), (ofHeader h).withWrite ⟨9, 0⟩ h.toBytes) := by
  simp [writeBits, Fallible.bind_modify, normalizeWrite, ofHeader, IsInt, overflowsData, withWrite,
    bitsLoop]
  rfl

theorem readBits_zero_ofHeader (h : PacketHeader) (c : Cursor) :
    readBits 0 0 ((ofHeader h).withWrite c h.toBytes) =
      (.ok 0, ((ofHeader h).withWrite c h.toBytes).withRead ⟨9, 0⟩) := by
  have hneed : bytesNeeded (-8) = -1 := by decide
  simp [readBits, Fallible.bind_modify, normalizeRead, ofHeader, IsInt, overflowsData, pastBuffer,
    hneed, withWrite, withRead, bitsLoop]
  rfl

/-- A field on a fresh packet starts at a byte boundary, so that what is read is what
fits into its width. -/
theorem readBits_writeBits_ofHeader (h : PacketHeader) (v : BitVec 32) {n : Nat} (hn : n ≤ 32) :
    ∃ p d r, writeBits v n 0 (ofHeader h) = (.ok (), p) ∧ readBits n 0 p = (.ok d, r) ∧
      d.toNat = v.toNat % 2 ^ n := by
  rcases Nat.eq_zero_or_pos n with rfl | hpos
  · exact ⟨_, _, _, writeBits_zero_ofHeader h v, readBits_zero_ofHeader h _, by simp [Nat.mod_one]⟩
  have hw := wellWritten_ofHeader h
  have hwidth : (ofHeader h).writeCursor.normalize.fieldWidth n = n :=
    (Cursor.fieldWidth_eq_iff _ _).mpr (Or.inl (by decide : (Cursor.normalize ⟨8, 8⟩).bit = 0))
  obtain ⟨p, hwrite, hp, hext, _, hend, hrep⟩ :=
    writeBits_extends hw v (o := 0) hpos (by omega) (by omega)
  rw [hwidth] at hend hrep
  have hcur : p.readCursor = ⟨8, 8⟩ := hext.readCursor_eq
  have hstart : (ofHeader h).writeCursor.pos = 64 := rfl
  have hreadPos : p.readCursor.pos = 64 := by rw [hcur]; rfl
  have hreadWidth : p.readCursor.normalize.fieldWidth n = n := by rw [hcur]; exact hwidth
  have hbyte : p.bytesRead = 8 := congrArg Cursor.byte hcur
  have hstored := hp.stored
  obtain ⟨d, hread, hd⟩ := readBits_ok p (o := 0) hpos (by omega) (by omega) (by omega) (by omega)
  refine ⟨p, d, _, hwrite, hread, ?_⟩
  apply Nat.eq_of_testBit_eq
  intro k
  rw [Nat.testBit_mod_two_pow]
  have hk := hd k
  rw [hreadWidth, hreadPos] at hk
  change d.toNat.testBit k = _ at hk
  rw [hk]
  by_cases hlt : k < n
  · have hfield := hrep.bitAt_field hlt
    rw [hstart, Nat.zero_add] at hfield
    rw [if_pos (by omega), Nat.sub_zero, hfield, decide_eq_true hlt, Bool.true_and]
    rfl
  · rw [if_neg (by omega), decide_eq_false hlt, Bool.false_and]

end Packet

/-! ## Formats -/

/-- The arguments that the writer and the reader of a value agree on. -/
structure FloatFormat where
  min : ℚ
  max : ℚ
  resolution : ℚ
  min_lt_max : min < max
  resolution_pos : 0 < resolution
  values_lt : maxPossibleValues min max resolution < 2 ^ 31

namespace FloatFormat

variable (f : FloatFormat)

/-- The number of steps between `min` and `max`. -/
def values : ℕ := (maxPossibleValues f.min f.max f.resolution).toNat

theorem maxPossibleValues_pos : 0 < maxPossibleValues f.min f.max f.resolution :=
  Int.ceil_pos.mpr (div_pos (sub_pos.mpr f.min_lt_max) f.resolution_pos)

theorem values_eq : maxPossibleValues f.min f.max f.resolution = f.values :=
  (Int.toNat_of_nonneg f.maxPossibleValues_pos.le).symm

theorem values_pos : 0 < f.values := by
  have hpos := f.maxPossibleValues_pos
  have heq := f.values_eq
  omega

def quantizer : Quantizer ℚ where
  lo := f.min
  hi := f.max
  steps := f.values
  lo_lt_hi := f.min_lt_max
  steps_pos := f.values_pos

/-- The number of bits of a value. -/
def bits : ℕ := Nat.clog 2 f.values

theorem bitsRequired_eq : bitsRequired (maxPossibleValues f.min f.max f.resolution) = f.bits := rfl

theorem values_le_pow : f.values ≤ 2 ^ f.bits := Nat.le_pow_clog Nat.one_lt_two _

theorem bits_le : f.bits ≤ 31 := by
  apply Nat.clog_le_of_le_pow
  have hlt := f.values_lt
  rw [f.values_eq] at hlt
  omega

/-- A step is no longer than the resolution. -/
theorem step_le : f.quantizer.step ≤ f.resolution := by
  have hceil : (f.max - f.min) / f.resolution ≤ f.values := by
    have hle := Int.le_ceil ((f.max - f.min) / f.resolution)
    have heq : ⌈(f.max - f.min) / f.resolution⌉ = (f.values : ℤ) := f.values_eq
    rw [heq] at hle
    exact_mod_cast hle
  have hsteps : (0 : ℚ) < f.values := Nat.cast_pos.mpr f.values_pos
  change (f.max - f.min) / (f.values : ℚ) ≤ f.resolution
  rw [div_le_iff₀ hsteps, mul_comm]
  exact (div_le_iff₀ f.resolution_pos).mp hceil

/-- All steps but one fall short of the interval. -/
theorem resolution_mul_lt : f.resolution * (f.values - 1 : ℚ) < f.max - f.min := by
  have hlt : ((f.values : ℤ) - 1 : ℚ) < (f.max - f.min) / f.resolution := by
    have hceil := Int.ceil_lt_add_one ((f.max - f.min) / f.resolution)
    have heq : ⌈(f.max - f.min) / f.resolution⌉ = (f.values : ℤ) := f.values_eq
    rw [heq] at hceil
    linarith
  rw [lt_div_iff₀ f.resolution_pos, mul_comm] at hlt
  exact_mod_cast hlt

/-! ## Writing and reading a value -/

/-- What is written for a value of the interval is its code. -/
theorem finalValue_eq {data : ℚ} (hmin : f.min ≤ data) (hmax : data ≤ f.max) :
    finalValue data f.min f.max f.resolution = f.quantizer.code data := by
  have hwidth : 0 < f.max - f.min := sub_pos.mpr f.min_lt_max
  have hlow : 0 ≤ (data - f.min) / (f.max - f.min) :=
    div_nonneg (sub_nonneg.mpr hmin) hwidth.le
  have hhigh : (data - f.min) / (f.max - f.min) ≤ 1 := by
    rw [div_le_one hwidth]
    linarith
  have hposition := f.quantizer.position_nonneg hmin
  unfold Quantizer.position at hposition
  simp only [finalValue, clamp, if_neg (not_lt.mpr hlow), if_neg (not_lt.mpr hhigh), f.values_eq,
    Int.cast_natCast, stdRound, Quantizer.code, round_eq, Quantizer.position]
  exact if_neg (not_lt.mpr hposition)

/-- **One value on a fresh packet.**  What is read is the point of the code, as far as
its bits have been written. -/
theorem read_written (h : PacketHeader) {data : ℚ} (hmin : f.min ≤ data) (hmax : data ≤ f.max) :
    ∃ p r, writeCompressedFloat data f.min f.max f.resolution (ofHeader h) = (.ok (), p) ∧
      readCompressedFloat f.min f.max f.resolution p =
        (.ok (f.quantizer.value (f.quantizer.code data % 2 ^ f.bits)), r) := by
  have hlow := f.quantizer.code_nonneg hmin
  have hhigh : f.quantizer.code data ≤ (f.values : ℤ) := f.quantizer.code_le hmax
  have hlt := f.values_lt
  have hbits := f.bits_le
  rw [f.values_eq] at hlt
  obtain ⟨c, hc⟩ : ∃ c : ℕ, f.quantizer.code data = c := ⟨_, (Int.toNat_of_nonneg hlow).symm⟩
  rw [hc] at hhigh
  obtain ⟨p, d, r, hwrite, hread, hd⟩ :=
    readBits_writeBits_ofHeader h (BitVec.ofInt 32 (c : ℤ)) (n := f.bits) (by omega)
  have hcode : (BitVec.ofInt 32 (c : ℤ)).toNat = c := by
    rw [BitVec.toNat_ofInt]
    omega
  rw [hcode] at hd
  have hvalue : d.toInt = (c : ℤ) % 2 ^ f.bits := by
    have hle : c % 2 ^ f.bits ≤ c := Nat.mod_le _ _
    rw [BitVec.toInt_eq_toNat_of_lt (by omega), hd]
    push_cast
    rfl
  refine ⟨p, r, ?_, ?_⟩
  · rw [writeCompressedFloat, f.finalValue_eq hmin hmax, hc]
    exact hwrite
  · rw [readCompressedFloat, f.bitsRequired_eq]
    have hread' : readBits (f.bits : ℤ) 0 p = (.ok d, r) := hread
    rw [Fallible.bind_ok hread', hvalue, f.values_eq, hc]
    simp only [Quantizer.value, Fallible.pure_apply, Int.cast_natCast]
    rfl

/-- Writing `data` to a fresh packet and reading it back gives a value of the interval
that is as close as the resolution asks for. -/
def Accurate (data : ℚ) : Prop :=
  ∀ h, ∃ p v r, writeCompressedFloat data f.min f.max f.resolution (ofHeader h) = (.ok (), p) ∧
    readCompressedFloat f.min f.max f.resolution p = (.ok v, r) ∧
    f.min ≤ v ∧ v ≤ f.max ∧ |v - data| ≤ f.resolution / 2

theorem accurate_iff_of_code {data : ℚ} (hmin : f.min ≤ data) (hmax : data ≤ f.max) :
    f.Accurate data ↔
      |f.quantizer.value (f.quantizer.code data % 2 ^ f.bits) - data| ≤ f.resolution / 2 := by
  constructor
  · intro hall
    obtain ⟨p, v, r, hwrite, hread, _, _, hclose⟩ := hall {}
    obtain ⟨p', r', hwrite', hread'⟩ := f.read_written {} hmin hmax
    rw [hwrite] at hwrite'
    cases hwrite'
    rw [hread] at hread'
    cases hread'
    exact hclose
  · intro hclose h
    obtain ⟨p, r, hwrite, hread⟩ := f.read_written h hmin hmax
    have hlow := f.quantizer.code_nonneg hmin
    have hhigh := f.quantizer.code_le hmax
    have hpow : (0 : ℤ) < 2 ^ f.bits := by positivity
    have hmod := Int.emod_nonneg (f.quantizer.code data) hpow.ne'
    have hle : f.quantizer.code data % 2 ^ f.bits ≤ f.quantizer.code data := by
      have hdiv := Int.mul_nonneg hpow.le (Int.ediv_nonneg hlow hpow.le)
      have hsplit := Int.emod_add_mul_ediv (f.quantizer.code data) (2 ^ f.bits)
      omega
    exact ⟨p, _, r, hwrite, hread, f.quantizer.le_value hmod, f.quantizer.value_le
      (hle.trans hhigh),
      hclose⟩

/-- A code that fits into its bits is as accurate as the steps are. -/
theorem accurate_of_lt {data : ℚ} (hmin : f.min ≤ data) (hmax : data ≤ f.max)
    (hfits : f.quantizer.code data < 2 ^ f.bits) : f.Accurate data := by
  have hclose := f.quantizer.abs_value_code_sub_le data
  have hstep := f.step_le
  rw [f.accurate_iff_of_code hmin hmax, Int.emod_eq_of_lt (f.quantizer.code_nonneg hmin) hfits]
  linarith

/-- A code that is one too large is read as `min`. -/
theorem accurate_iff_of_eq {data : ℚ} (hmin : f.min ≤ data) (hmax : data ≤ f.max)
    (hover : f.quantizer.code data = 2 ^ f.bits) :
    f.Accurate data ↔ data - f.min ≤ f.resolution / 2 := by
  have hlo : f.quantizer.value 0 = f.min := f.quantizer.value_zero
  rw [f.accurate_iff_of_code hmin hmax, hover, Int.emod_self, hlo, abs_sub_comm,
    abs_of_nonneg (sub_nonneg.mpr hmin)]

/-- **Accuracy of a compressed float.**  The value read is within half the resolution
unless the number of steps is a power of two and the value is in the upper half of
the last step; if there is one step, such a value may still be near `min`. -/
theorem compressedFloat_accurate_iff {data : ℚ} (hdata : f.min ≤ data ∧ data ≤ f.max) :
    f.Accurate data ↔
      (∀ k : ℕ, f.values ≠ 2 ^ k) ∨ (f.max - f.min) / (2 * f.values) < f.max - data ∨
        f.values = 1 ∧ data - f.min ≤ f.resolution / 2 := by
  obtain ⟨hmin, hmax⟩ := hdata
  have hle : f.quantizer.code data ≤ (f.values : ℤ) := f.quantizer.code_le hmax
  have hpow : (f.values : ℤ) ≤ 2 ^ f.bits := by exact_mod_cast f.values_le_pow
  have hlast : f.quantizer.code data = (f.values : ℤ) ↔
      ¬ (f.max - f.min) / (2 * f.values) < f.max - data := by
    have hhalf : f.quantizer.step / 2 = (f.max - f.min) / (2 * f.values) := by
      unfold Quantizer.step
      rw [div_div, mul_comm]
      rfl
    rw [not_lt, ← hhalf]
    exact f.quantizer.code_eq_steps_iff hmax
  by_cases hpower : ∀ k : ℕ, f.values ≠ 2 ^ k
  · have hne : (f.values : ℤ) ≠ 2 ^ f.bits := by exact_mod_cast hpower f.bits
    exact iff_of_true (f.accurate_of_lt hmin hmax (by omega)) (Or.inl hpower)
  by_cases hupper : (f.max - f.min) / (2 * f.values) < f.max - data
  · have hne := mt hlast.mp (not_not_intro hupper)
    exact iff_of_true (f.accurate_of_lt hmin hmax (by omega)) (Or.inr (Or.inl hupper))
  have hcode := hlast.mpr hupper
  have hbits : f.values = 2 ^ f.bits := by
    push Not at hpower
    obtain ⟨k, hk⟩ := hpower
    rw [bits, hk, Nat.clog_pow _ _ Nat.one_lt_two]
  rw [f.accurate_iff_of_eq hmin hmax (by rw [hcode]; exact_mod_cast hbits)]
  constructor
  · intro hclose
    refine Or.inr (Or.inr ⟨?_, hclose⟩)
    -- from two steps on, the last one is too far from `min`
    by_contra hone
    have hpos := f.values_pos
    have hvalues : (2 : ℚ) ≤ f.values := by exact_mod_cast (by omega : 2 ≤ f.values)
    have hres := f.resolution_pos
    have hwide : f.resolution < f.max - f.min :=
      (le_mul_of_one_le_right hres.le (by linarith)).trans_lt f.resolution_mul_lt
    have hnear : f.max - data ≤ (f.max - f.min) / (2 * f.values) := not_lt.mp hupper
    have hquarter : (f.max - f.min) / (2 * f.values) ≤ (f.max - f.min) / 4 := by
      apply div_le_div_of_nonneg_left (sub_nonneg.mpr f.min_lt_max.le) (by norm_num) (by linarith)
    linarith
  · rintro (hnot | hnot | ⟨_, hclose⟩)
    · exact absurd hnot hpower
    · exact absurd hnot hupper
    · exact hclose

/-- The whole numbers from 0 to 3. -/
def threeSteps : FloatFormat := ⟨0, 3, 1, by norm_num, by norm_num, by norm_num [maxPossibleValues]⟩

theorem compressedFloat_accurate_iff_threeSteps :
    threeSteps.Accurate 3 ↔
      (∀ k : ℕ, threeSteps.values ≠ 2 ^ k) ∨
        (threeSteps.max - threeSteps.min) / (2 * threeSteps.values) < threeSteps.max - 3 ∨
        threeSteps.values = 1 ∧ 3 - threeSteps.min ≤ threeSteps.resolution / 2 :=
  threeSteps.compressedFloat_accurate_iff ⟨by norm_num [threeSteps], by norm_num [threeSteps]⟩

/-- The whole numbers from 0 to 4. -/
def fourSteps : FloatFormat := ⟨0, 4, 1, by norm_num, by norm_num, by norm_num [maxPossibleValues]⟩

/-- The 4 is written in two bits and read as 0. -/
theorem four_not_accurate :
    fourSteps.min ≤ 4 ∧ (4 : ℚ) ≤ fourSteps.max ∧ ¬ fourSteps.Accurate 4 := by
  have hvalues : fourSteps.values = 4 := by decide +kernel
  have hbits : fourSteps.bits = 2 := by
    rw [bits, hvalues]
    exact Nat.clog_pow 2 2 Nat.one_lt_two
  have hcode : fourSteps.quantizer.code 4 = 2 ^ fourSteps.bits := by
    have hposition : fourSteps.quantizer.position 4 = (4 : ℕ) := by
      change ((4 : ℚ) - 0) / (4 - 0) * (fourSteps.values : ℚ) = _
      rw [hvalues]
      norm_num
    rw [Quantizer.code, hposition, round_natCast, hbits]
    norm_num
  have hmin : fourSteps.min ≤ 4 := by norm_num [fourSteps]
  have hmax : (4 : ℚ) ≤ fourSteps.max := by norm_num [fourSteps]
  refine ⟨hmin, hmax, ?_⟩
  rw [fourSteps.accurate_iff_of_eq hmin hmax hcode]
  norm_num [fourSteps]

end FloatFormat

end EnkiNet
