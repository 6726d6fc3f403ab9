import Mathlib

/-!
# Walks over a vector that changes meanwhile

A vector has its elements in a buffer, and a loop over it holds an iterator to an element and
one to the end.  What the body of the loop does to the vector can leave both of them stale: an
element is erased and those behind it move up, or the vector is full and its elements move
to a larger buffer.  `intact` counts the elements that a walk can still rely on, from the front.

`walk` is the loop.  A walk whose body never leaves an element of the vector out of place goes
to the end (`walk_invariant`), and a body that does is the last.
-/

/-- A vector that a loop walks over. -/
structure Walked (α : Type) where
  elems : List α
  capacity : Nat
  /-- So many elements, from the front, are where they were when the walk began. -/
  intact : Nat
  deriving DecidableEq, Repr

namespace Walked

variable {α : Type}

/-- The walk begins. -/
def start (elems : List α) (capacity : Nat) : Walked α := ⟨elems, capacity, elems.length⟩

/-- `push_back`; the elements of a full vector move to a buffer of the capacity that `grow`
gives. -/
def push (grow : Nat → Nat) (v : Walked α) (a : α) : Walked α :=
  if v.elems.length < v.capacity then { v with elems := v.elems ++ [a] }
  else ⟨v.elems ++ [a], grow v.capacity, 0⟩

/-- The first element of which `p` holds is erased; what stands behind it moves up. -/
def eraseFirst (p : α → Bool) (v : Walked α) : Walked α :=
  { v with
    elems := v.elems.eraseP p
    intact := min v.intact (v.elems.findIdx p) }

/-- `clear`, or `= {}`. -/
def clear (v : Walked α) : Walked α := { v with elems := [], intact := 0 }

/-- The element at a place, through an iterator of the walk. -/
def read (v : Walked α) (i : Nat) : Option α := if i < v.intact then v.elems[i]? else none

/-- `n` elements are where they were. -/
structure Whole (n : Nat) (v : Walked α) : Prop where
  le_intact : n ≤ v.intact
  le_length : n ≤ v.elems.length

/-- At the start of the walk nothing has moved. -/
theorem whole_start (elems : List α) (capacity : Nat) : (start elems capacity).Whole elems.length :=
  ⟨Nat.le_refl _, Nat.le_refl _⟩

variable {n : Nat} {v : Walked α}

/-- As long as the storage is the old one, the walk reads what is stored now. -/
theorem read_of_whole (h : v.Whole n) {i : Nat} (hi : i < n) : v.read i = v.elems[i]? :=
  if_pos (Nat.lt_of_lt_of_le hi h.le_intact)

/-! ## Changes -/

/-- A new element comes last. -/
theorem elems_push (grow : Nat → Nat) (v : Walked α) (a : α) :
    (v.push grow a).elems = v.elems ++ [a] := by
  rw [push]
  split
  · rfl
  · rfl

/-- The walk survives a new element precisely if there is room for it. -/
theorem le_intact_push_iff (grow : Nat → Nat) (hn : 0 < n) (h : v.Whole n) (a : α) :
    n ≤ (v.push grow a).intact ↔ v.elems.length < v.capacity := by
  rw [push]
  by_cases hroom : v.elems.length < v.capacity
  · rw [if_pos hroom]
    exact iff_of_true h.le_intact hroom
  · rw [if_neg hroom]
    exact iff_of_false (Nat.not_le.mpr hn) hroom

/-- Then all that it has to read is where it was. -/
theorem Whole.push (h : v.Whole n) (grow : Nat → Nat) (a : α)
    (hintact : n ≤ (v.push grow a).intact) : (v.push grow a).Whole n := by
  refine ⟨hintact, ?_⟩
  rw [elems_push, List.length_append]
  exact Nat.le_trans h.le_length (Nat.le_add_right _ _)

/-- The elements that the walk reads do not change. -/
theorem take_push (grow : Nat → Nat) (h : v.Whole n) (a : α) :
    (v.push grow a).elems.take n = v.elems.take n := by
  rw [elems_push, List.take_append_of_le_length h.le_length]

/-- Where none of the first `n` elements goes, the others stand behind them. -/
theorem elems_eraseFirst {p : α → Bool} (hp : ∀ a ∈ v.elems.take n, p a = false) :
    (v.eraseFirst p).elems = v.elems.take n ++ (v.elems.drop n).eraseP p := by
  have hnot : ∀ a ∈ v.elems.take n, ¬ p a = true := fun a ha => by
    rw [hp a ha]
    exact Bool.false_ne_true
  rw [← List.eraseP_append_right _ hnot, List.take_append_drop]
  rfl

/-- Nor do they if what is erased lies behind them. -/
theorem take_eraseFirst {p : α → Bool} (h : v.Whole n) (hp : ∀ a ∈ v.elems.take n, p a = false) :
    (v.eraseFirst p).elems.take n = v.elems.take n := by
  have hlength : (v.elems.take n).length = n := List.length_take_of_le h.le_length
  rw [elems_eraseFirst hp]
  exact List.take_left' hlength

/-- The walk survives an erasure precisely if nothing that it reads is erased. -/
theorem le_intact_eraseFirst_iff {p : α → Bool} (h : v.Whole n) :
    n ≤ (v.eraseFirst p).intact ↔ ∀ a ∈ v.elems.take n, p a = false := by
  have hlength : (v.elems.take n).length = n := List.length_take_of_le h.le_length
  constructor
  · intro hintact a ha
    have hfirst : n ≤ v.elems.findIdx p := Nat.le_trans hintact (Nat.min_le_right _ _)
    obtain ⟨i, hi, rfl⟩ := List.mem_take_iff_getElem.mp ha
    exact List.not_of_lt_findIdx (Nat.lt_of_lt_of_le (by omega) hfirst)
  · intro hp
    refine Nat.le_min.mpr ⟨h.le_intact, ?_⟩
    have hnone : (v.elems.take n).findIdx p = n :=
      (List.findIdx_eq_length_of_false hp).trans hlength
    have hprefix := (List.take_prefix n v.elems).findIdx_le (p := p)
    rwa [hnone] at hprefix

theorem Whole.eraseFirst {p : α → Bool} (h : v.Whole n)
    (hintact : n ≤ (v.eraseFirst p).intact) : (v.eraseFirst p).Whole n := by
  refine ⟨hintact, ?_⟩
  have hlength : (v.elems.take n).length = n := List.length_take_of_le h.le_length
  rw [elems_eraseFirst ((le_intact_eraseFirst_iff h).mp hintact), List.length_append, hlength]
  exact Nat.le_add_right _ _

/-! An element that is out of place does not come back. -/

/-- Storage that has moved does not come back. -/
theorem intact_push_le (grow : Nat → Nat) (v : Walked α) (a : α) :
    (v.push grow a).intact ≤ v.intact := by
  rw [push]
  split
  · exact Nat.le_refl _
  · exact Nat.zero_le _

/-- Neither does an erased place. -/
theorem intact_eraseFirst_le (p : α → Bool) (v : Walked α) :
    (v.eraseFirst p).intact ≤ v.intact := Nat.min_le_left _ _

/-! ## Walks -/

section
variable {σ : Type}

/-- `for (auto& a : v)`.  `body i` is the body of the loop, with its iterator at `i`; it has no
result where it uses a stale iterator.  The end is `left` places ahead. -/
def walk (vector : σ → Walked α) (body : Nat → σ → Option σ) : (left i : Nat) → σ → Option σ
  | 0, _, s => some s
  | left + 1, i, s =>
      (body i s).bind fun s' =>
        if i + left + 1 ≤ (vector s').intact then walk vector body left (i + 1) s' else none

variable {vector : σ → Walked α} {body : Nat → σ → Option σ}

/-- The first turn of the loop, and the rest of it. -/
theorem walk_succ_eq_some {left i : Nat} {s t : σ}
    (h : walk vector body (left + 1) i s = some t) :
    ∃ s', body i s = some s' ∧ i + left + 1 ≤ (vector s').intact ∧
      walk vector body left (i + 1) s' = some t := by
  obtain ⟨s', hbody, htail⟩ := Option.bind_eq_some_iff.mp h
  split at htail
  · next hintact => exact ⟨s', hbody, hintact, htail⟩
  · cases htail

/-- **The rule for walks.** -/
theorem walk_invariant (Inv : Nat → σ → Prop) {n : Nat}
    (hintact : ∀ i s, Inv i s → n ≤ (vector s).intact)
    (hbody : ∀ i s, i < n → Inv i s → ∃ s', body i s = some s' ∧ Inv (i + 1) s') {left i : Nat}
    (hn : i + left = n) {s : σ} (hs : Inv i s) :
    ∃ t, walk vector body left i s = some t ∧ Inv n t := by
  induction left generalizing i s with
  | zero =>
      refine ⟨s, rfl, ?_⟩
      rw [← hn]
      exact hs
  | succ left ih =>
      obtain ⟨s', hrun, hs'⟩ := hbody i s (by omega) hs
      obtain ⟨t, hwalk, ht⟩ := ih (by omega) hs'
      refine ⟨t, ?_, ht⟩
      have hgood : i + left + 1 ≤ (vector s').intact := by
        have hle := hintact (i + 1) s' hs'
        omega
      rw [walk, hrun, Option.bind_some, if_pos hgood]
      exact hwalk

end

end Walked
