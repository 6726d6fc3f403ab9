import Mathlib

/-!
# Lines of parents

Everything has at most one parent, and nothing is asked of parents: a line of them may go
round.  A sweep drops what has a parent that is not there.

`sweep_iterate` says what sweeps do after one element has been dropped from a set in which all
parents were there: `n` of them drop what descends from it in at most `n` steps, and nothing else.
-/

namespace Ancestry

variable {α : Type*} (parent : α → Option α) (root : α)

/-- The line of parents comes to the root in at most `n` steps. -/
def Within : Nat → α → Prop
  | 0, a => a = root
  | n + 1, a => Within n a ∨ ∃ b, parent a = some b ∧ Within n b

/-- The line of parents comes to the root. -/
def Descends (a : α) : Prop := ∃ n, Within parent root n a

/-- All parents are there. -/
def Closed (A : Set α) : Prop := ∀ a ∈ A, ∀ b, parent a = some b → b ∈ A

/-- What has no parent, or one that is there. -/
def sweep (A : Set α) : Set α := {a | a ∈ A ∧ ∀ b, parent a = some b → b ∈ A}

variable {parent root} {A : Set α}

theorem Within.mono {m n : Nat} {a : α} (h : Within parent root m a) (hle : m ≤ n) :
    Within parent root n a := by
  induction hle with
  | refl => exact h
  | step _ ih => exact Or.inl ih

/-- The root is dropped, then everything whose parent has been dropped, and so on. -/
theorem sweep_iterate (hclosed : Closed parent A) (n : Nat) :
    (sweep parent)^[n] (A \ {root}) = {a | a ∈ A ∧ ¬ Within parent root n a} := by
  induction n with
  | zero => rfl
  | succ n ih =>
      rw [Function.iterate_succ_apply', ih]
      ext a
      constructor
      · intro h
        obtain ⟨⟨ha, hnot⟩, hparent⟩ := h
        refine ⟨ha, fun hwithin => ?_⟩
        rcases hwithin with hwithin | ⟨b, hb, hwithin⟩
        · exact hnot hwithin
        · exact (hparent b hb).2 hwithin
      · intro h
        obtain ⟨ha, hnot⟩ := h
        refine ⟨⟨ha, fun hwithin => hnot (Or.inl hwithin)⟩, fun b hb => ?_⟩
        exact ⟨hclosed a ha b hb, fun hwithin => hnot (Or.inr ⟨b, hb, hwithin⟩)⟩

/-- Finitely many lines have a longest one. -/
theorem exists_height (hfinite : A.Finite) (root : α) :
    ∃ height, ∀ a ∈ A, Descends parent root a → Within parent root height a := by
  induction A, hfinite using Set.Finite.induction_on with
  | empty => exact ⟨0, fun a ha => absurd ha (Set.notMem_empty a)⟩
  | @insert a A _ _ ih =>
      obtain ⟨height, hheight⟩ := ih
      by_cases hdescends : Descends parent root a
      · obtain ⟨n, hn⟩ := hdescends
        refine ⟨max height n, fun b hb hdescends => ?_⟩
        rcases hb with rfl | hb
        · exact hn.mono (Nat.le_max_right height n)
        · exact (hheight b hb hdescends).mono (Nat.le_max_left height n)
      · refine ⟨height, fun b hb hdescends' => ?_⟩
        rcases hb with rfl | hb
        · exact absurd hdescends' hdescends
        · exact hheight b hb hdescends'

end Ancestry
