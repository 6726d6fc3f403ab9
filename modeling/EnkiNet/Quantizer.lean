import Mathlib

/-!
# Uniform quantization

An interval is cut into steps of one length, and a point of it is coded by the number
of the nearest end of a step.  The steps have one end more than there are steps, so
the codes run from `0` to `steps`, both included.

`abs_value_code_sub_le` is the accuracy of the code, half a step, and
`code_eq_steps_iff` says which points get the last code.
-/

/-- The interval from `lo` to `hi`, cut into steps. -/
structure Quantizer (K : Type) [Field K] [LinearOrder K] where
  lo : K
  hi : K
  steps : ℕ
  lo_lt_hi : lo < hi
  steps_pos : 0 < steps

namespace Quantizer

variable {K : Type} [Field K] [LinearOrder K]

def step (g : Quantizer K) : K := (g.hi - g.lo) / g.steps

/-- Where a point is, counted in steps. -/
def position (g : Quantizer K) (x : K) : K := (x - g.lo) / (g.hi - g.lo) * g.steps

/-- The point that a code stands for. -/
def value (g : Quantizer K) (c : ℤ) : K := c / g.steps * (g.hi - g.lo) + g.lo

/-- The code of a point. -/
def code [FloorRing K] (g : Quantizer K) (x : K) : ℤ := round (g.position x)

/-- Code 0 stands for the lower end of the range. -/
theorem value_zero (g : Quantizer K) : g.value 0 = g.lo := by
  simp [value]

variable [IsStrictOrderedRing K] (g : Quantizer K) {x : K} {c : ℤ}

theorem steps_cast_pos : (0 : K) < g.steps := Nat.cast_pos.mpr g.steps_pos

theorem width_pos : 0 < g.hi - g.lo := sub_pos.mpr g.lo_lt_hi

theorem step_pos : 0 < g.step := div_pos g.width_pos g.steps_cast_pos

theorem position_mul_step (x : K) : g.position x * g.step = x - g.lo := by
  have hwidth := g.width_pos.ne'
  have hsteps := g.steps_cast_pos.ne'
  unfold position step
  field_simp

/-- A code stands for so many steps above the lower end. -/
theorem value_eq (c : ℤ) : g.value c = c * g.step + g.lo := by
  unfold value step
  ring

/-- The steps fill the range exactly. -/
theorem steps_mul_step : g.steps * g.step = g.hi - g.lo :=
  mul_div_cancel₀ _ g.steps_cast_pos.ne'

/-- The distance from a code's point, counted in steps. -/
theorem value_sub (c : ℤ) (x : K) : g.value c - x = (c - g.position x) * g.step := by
  have hpos := g.position_mul_step x
  rw [g.value_eq, sub_mul, hpos]
  ring

/-- No code stands for less than the lower end. -/
theorem le_value (h : 0 ≤ c) : g.lo ≤ g.value c := by
  have hc : (0 : K) ≤ c * g.step := mul_nonneg (by exact_mod_cast h) g.step_pos.le
  rw [g.value_eq]
  linarith

/-- The codes up to `steps` stand for nothing above the upper end. -/
theorem value_le (h : c ≤ g.steps) : g.value c ≤ g.hi := by
  have hc : (c : K) ≤ g.steps := by exact_mod_cast h
  have hmul : c * g.step ≤ g.steps * g.step := mul_le_mul_of_nonneg_right hc g.step_pos.le
  rw [g.steps_mul_step] at hmul
  rw [g.value_eq]
  linarith

theorem position_nonneg (h : g.lo ≤ x) : 0 ≤ g.position x :=
  mul_nonneg (div_nonneg (sub_nonneg.mpr h) g.width_pos.le) g.steps_cast_pos.le

theorem position_le (h : x ≤ g.hi) : g.position x ≤ g.steps := by
  have hratio : (x - g.lo) / (g.hi - g.lo) ≤ 1 := by
    rw [div_le_one g.width_pos]
    linarith
  exact mul_le_of_le_one_left g.steps_cast_pos.le hratio

variable [FloorRing K]

/-- **The accuracy of a code** is half a step. -/
theorem abs_value_code_sub_le (x : K) : |g.value (g.code x) - x| ≤ g.step / 2 := by
  have hround : |(g.code x : K) - g.position x| ≤ 1 / 2 := by
    rw [abs_sub_comm]
    exact abs_sub_round _
  calc |g.value (g.code x) - x|
      = |(g.code x : K) - g.position x| * g.step := by
        rw [g.value_sub, abs_mul, abs_of_pos g.step_pos]
    _ ≤ 1 / 2 * g.step := mul_le_mul_of_nonneg_right hround g.step_pos.le
    _ = g.step / 2 := by ring

/-- A value of the range has a code from 0 on. -/
theorem code_nonneg (h : g.lo ≤ x) : 0 ≤ g.code x := by
  have hpos := g.position_nonneg h
  rw [code, round_eq]
  exact Int.floor_nonneg.mpr (by linarith)

/-- A value of the range has a code up to `steps`. -/
theorem code_le (h : x ≤ g.hi) : g.code x ≤ g.steps := by
  have hpos := g.position_le h
  have hlt : ⌊g.position x + 1 / 2⌋ < (g.steps : ℤ) + 1 := by
    rw [Int.floor_lt]
    push_cast
    linarith
  rw [code, round_eq]
  omega

/-- **The last code** belongs to the points in the upper half of the last step. -/
theorem code_eq_steps_iff (h : x ≤ g.hi) : g.code x = g.steps ↔ g.hi - x ≤ g.step / 2 := by
  have hle := g.code_le h
  have hfloor : (g.steps : ℤ) ≤ g.code x ↔ (g.steps : K) ≤ g.position x + 1 / 2 := by
    rw [code, round_eq, Int.le_floor, Int.cast_natCast]
  have hdist : (g.steps - g.position x) * g.step = g.hi - x := by
    rw [sub_mul, g.steps_mul_step, g.position_mul_step]
    ring
  have hhalf : g.steps - g.position x ≤ 1 / 2 ↔ g.hi - x ≤ g.step / 2 := by
    rw [← hdist, div_eq_mul_one_div g.step, mul_comm g.step]
    exact (mul_le_mul_iff_left₀ g.step_pos).symm
  rw [← hhalf]
  constructor
  · intro heq
    have hbound := hfloor.mp heq.ge
    linarith
  · intro hclose
    exact le_antisymm hle (hfloor.mpr (by linarith))

end Quantizer
