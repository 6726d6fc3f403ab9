import Mathlib

/-!
# Stateful programs that can fail

A program is a function from a state to a result or a fault and the state it
leaves.  The state is returned next to a fault too, since what was done before
the fault is not undone.

`Moves P M x` is the program logic: from every state in `P`, if `x` succeeds, it has made moves of
`M` only and ends in `P`.  It is closed under sequencing, branching and loops, so a claim about a
program of any size is a claim about the moves that its primitive steps make.  `Returns x s` says
that `x` succeeds at all, `Ends Q E` how a run has ended, with a result or with a fault, `Faults E
x` that the faults `x` ends in are all of `E`, and `Avoids e x` that `e` is not among them.
-/

/-- A program over the state `σ` with results in `α` and faults in `ε`. -/
abbrev Fallible (ε σ α : Type) : Type := σ → Except ε α × σ

namespace Fallible

variable {ε σ α β ι : Type}

instance : Monad (Fallible ε σ) where
  pure a := fun s => (.ok a, s)
  bind x f := fun s =>
    match x s with
    | (.ok a, s') => f a s'
    | (.error e, s') => (.error e, s')

def fail (e : ε) : Fallible ε σ α := fun s => (.error e, s)

def modify (f : σ → σ) : Fallible ε σ Unit := fun s => (.ok (), f s)

/-- The current state. -/
def get : Fallible ε σ σ := fun s => (.ok s, s)

/-- A loop over the elements of a container. -/
def forEach : List ι → (ι → Fallible ε σ Unit) → Fallible ε σ Unit
  | [], _ => pure ()
  | i :: is, f => do
      f i
      forEach is f

/-! ## Running -/

theorem pure_apply (a : α) (s : σ) : (pure a : Fallible ε σ α) s = (.ok a, s) := rfl

/-- Behind a success the rest runs on the state that it left. -/
theorem bind_ok {x : Fallible ε σ α} {s s' : σ} {a : α} (h : x s = (.ok a, s'))
    (f : α → Fallible ε σ β) : (x >>= f) s = f a s' := by
  change (match x s with
    | (.ok a, s') => f a s'
    | (.error e, s') => (.error e, s')) = f a s'
  rw [h]

/-- Behind a fault nothing runs. -/
theorem bind_error {x : Fallible ε σ α} {s s' : σ} {e : ε} (h : x s = (.error e, s'))
    (f : α → Fallible ε σ β) : (x >>= f) s = (.error e, s') := by
  change (match x s with
    | (.ok a, s') => f a s'
    | (.error e, s') => (.error e, s')) = (.error e, s')
  rw [h]

theorem bind_modify (g : σ → σ) (f : Unit → Fallible ε σ β) (s : σ) :
    (modify g >>= f) s = f () (g s) := rfl

/-- Sequences can be regrouped. -/
theorem bind_assoc (x : Fallible ε σ α) (f : α → Fallible ε σ β) {γ : Type}
    (g : β → Fallible ε σ γ) : ((x >>= f) >>= g) = (x >>= fun a => f a >>= g) := by
  funext s
  rcases hx : x s with ⟨e | a, s'⟩
  · rw [bind_error hx, bind_error (bind_error hx f)]
  · rw [bind_ok hx]
    rcases hf : f a s' with ⟨e | b, s''⟩
    · rw [bind_error hf, bind_error ((bind_ok hx f).trans hf)]
    · rw [bind_ok hf, bind_ok ((bind_ok hx f).trans hf)]

/-- What is made of a result does not fail. -/
theorem bind_pure_error {x : Fallible ε σ α} {g : α → β} {s t : σ} {e : ε}
    (h : (do let a ← x; return g a) s = (.error e, t)) : x s = (.error e, t) := by
  rcases hx : x s with ⟨e' | a, s'⟩
  · rw [bind_error hx] at h
    cases h
    rfl
  · rw [bind_ok hx] at h
    cases h

/-- Discarding the unit result changes nothing. -/
theorem bind_pure_unit (x : Fallible ε σ Unit) : (do x; pure ()) = x := by
  funext s
  rcases hx : x s with ⟨e | _, s'⟩
  · rw [bind_error hx]
  · rw [bind_ok hx]
    rfl

theorem bind_get (f : σ → Fallible ε σ β) (s : σ) : (get >>= f) s = f s s := rfl

/-- A sequence that succeeds is a first part that succeeds and a second part
that succeeds on what the first one left. -/
theorem bind_eq_ok {x : Fallible ε σ α} {f : α → Fallible ε σ β} {s t : σ} {b : β}
    (h : (x >>= f) s = (.ok b, t)) :
    ∃ a s', x s = (.ok a, s') ∧ f a s' = (.ok b, t) := by
  rcases hx : x s with ⟨_ | a, s'⟩
  · rw [bind_error hx] at h
    cases h
  · exact ⟨a, s', rfl, by rwa [bind_ok hx] at h⟩

/-! ## Outcomes -/

section
variable {Q R : α → σ → Prop} {E F : ε → σ → Prop} {Q' : β → σ → Prop}

/-- A run has ended with a result and a state in `Q`, or with a fault and a state in `E`. -/
def Ends (Q : α → σ → Prop) (E : ε → σ → Prop) : Except ε α × σ → Prop
  | (.ok a, s) => Q a s
  | (.error e, s) => E e s

/-- Both ends of a run can be weakened. -/
theorem Ends.imp {r : Except ε α × σ} (h : Ends Q E r) (hQ : ∀ a s, Q a s → R a s)
    (hE : ∀ e s, E e s → F e s) : Ends R F r := by
  rcases r with ⟨e | a, s⟩
  · exact hE e s h
  · exact hQ a s h

theorem Ends.mono {r : Except ε α × σ} (h : Ends Q E r) (hQ : ∀ a s, Q a s → R a s) :
    Ends R E r :=
  h.imp hQ fun _ _ he => he

/-- A sequence ends well if its first part ends where the second part ends well. -/
theorem Ends.bind {x : Fallible ε σ α} {f : α → Fallible ε σ β} {s : σ}
    (h : Ends (fun a t => Ends Q' E (f a t)) E (x s)) : Ends Q' E ((x >>= f) s) := by
  rcases hx : x s with ⟨e | a, t⟩
  · rw [bind_error hx]
    rw [hx] at h
    exact h
  · rw [bind_ok hx]
    rw [hx] at h
    exact h

end

/-- Programs that do the same one after the other. -/
theorem bind_congr {x y : Fallible ε σ α} {f g : α → Fallible ε σ β} {s : σ} (hx : x s = y s)
    (hfg : ∀ a s', y s = (.ok a, s') → f a s' = g a s') : (x >>= f) s = (y >>= g) s := by
  cases hy : y s with
  | mk result s' =>
      cases result with
      | error e => rw [bind_error hy, bind_error (hx.trans hy)]
      | ok a => rw [bind_ok hy, bind_ok (hx.trans hy), hfg a s' hy]

/-! ## Returning -/

/-- From this state the program succeeds. -/
def Returns (x : Fallible ε σ α) (s : σ) : Prop := ∃ a s', x s = (.ok a, s')

/-- A result has been returned. -/
theorem returns_pure (a : α) (s : σ) : Returns (pure a : Fallible ε σ α) s := ⟨a, s, rfl⟩

/-- A fault is not a return. -/
theorem not_returns_fail (e : ε) (s : σ) : ¬ Returns (fail e : Fallible ε σ α) s := by
  rintro ⟨a, s', h⟩
  cases h

theorem returns_modify (f : σ → σ) (s : σ) : Returns (modify f : Fallible ε σ Unit) s :=
  ⟨(), f s, rfl⟩

/-- A sequence returns if its first part does and its second part does from there. -/
theorem returns_bind {x : Fallible ε σ α} {f : α → Fallible ε σ β} {s : σ} :
    Returns (x >>= f) s ↔ ∃ a s', x s = (.ok a, s') ∧ Returns (f a) s' := by
  constructor
  · rintro ⟨b, t, h⟩
    obtain ⟨a, s', hx, hf⟩ := bind_eq_ok h
    exact ⟨a, s', hx, b, t, hf⟩
  · rintro ⟨a, s', hx, b, t, hf⟩
    exact ⟨b, t, (bind_ok hx f).trans hf⟩

theorem returns_bind_ok {x : Fallible ε σ α} {s s' : σ} {a : α} (h : x s = (.ok a, s'))
    (f : α → Fallible ε σ β) : Returns (x >>= f) s ↔ Returns (f a) s' := by
  rw [Returns, Returns, bind_ok h]

/-- The state that is read is the one the rest runs on. -/
theorem returns_bind_get (f : σ → Fallible ε σ β) (s : σ) :
    Returns (get >>= f) s ↔ Returns (f s) s := Iff.rfl

theorem returns_bind_modify (g : σ → σ) (f : Unit → Fallible ε σ β) (s : σ) :
    Returns (modify g >>= f) s ↔ Returns (f ()) (g s) := Iff.rfl

/-- A loop returns if every round does, where `Q` is all that a round depends on. -/
theorem returns_forEach {Q : σ → Prop} {P : ι → Prop} {is : List ι} {f : ι → Fallible ε σ Unit}
    (hround : ∀ i ∈ is, ∀ s, Q s → (Returns (f i) s ↔ P i))
    (hkeep : ∀ i ∈ is, ∀ s s', Q s → f i s = (.ok (), s') → Q s') {s : σ} (hs : Q s) :
    Returns (forEach is f) s ↔ ∀ i ∈ is, P i := by
  induction is generalizing s with
  | nil => exact iff_of_true (returns_pure () s) (by simp)
  | cons i is ih =>
      have hround' := fun j hj => hround j (List.mem_cons_of_mem i hj)
      have hkeep' := fun j hj => hkeep j (List.mem_cons_of_mem i hj)
      rw [forEach, returns_bind, List.forall_mem_cons, ← hround i List.mem_cons_self s hs]
      constructor
      · rintro ⟨⟨⟩, t, hone, hrest⟩
        have ht := hkeep i List.mem_cons_self s t hs hone
        exact ⟨⟨(), t, hone⟩, (ih hround' hkeep' ht).mp hrest⟩
      · rintro ⟨⟨⟨⟩, t, hone⟩, hrest⟩
        have ht := hkeep i List.mem_cons_self s t hs hone
        exact ⟨(), t, hone, (ih hround' hkeep' ht).mpr hrest⟩

/-! ## Faults that do not occur -/

/-- The program does not end in this fault, from whatever state it starts. -/
def Avoids (e : ε) (x : Fallible ε σ α) : Prop := ∀ s, (x s).1 ≠ .error e

section
variable {e : ε}

theorem Avoids.pure (a : α) : Avoids e (pure a : Fallible ε σ α) := fun _ h => by cases h

theorem Avoids.modify (f : σ → σ) : Avoids e (modify f : Fallible ε σ Unit) := fun _ h => by cases h

/-- A different fault is not this one. -/
theorem Avoids.fail {e' : ε} (h : e' ≠ e) : Avoids e (fail e' : Fallible ε σ α) := fun _ hrun =>
  h (Except.error.inj hrun)

/-- A sequence avoids a fault if its parts do where they are run. -/
theorem error_bind_ne {x : Fallible ε σ α} {f : α → Fallible ε σ β} {s : σ}
    (hx : (x s).1 ≠ .error e) (hf : ∀ a s', x s = (.ok a, s') → (f a s').1 ≠ .error e) :
    ((x >>= f) s).1 ≠ .error e := by
  rcases hrun : x s with ⟨e' | a, s'⟩
  · rw [bind_error hrun]
    rw [hrun] at hx
    exact fun h => hx (congrArg Except.error (Except.error.inj h))
  · rw [bind_ok hrun]
    exact hf a s' hrun

/-- A sequence of programs that avoid a fault avoids it. -/
theorem Avoids.bind {x : Fallible ε σ α} {f : α → Fallible ε σ β} (hx : Avoids e x)
    (hf : ∀ a, Avoids e (f a)) : Avoids e (x >>= f) := fun s =>
  error_bind_ne (hx s) fun a s' _ => hf a s'

theorem Avoids.get {f : σ → Fallible ε σ β} (hf : ∀ s, Avoids e (f s)) : Avoids e (get >>= f) :=
  fun s => hf s s

/-- Each branch can use its condition. -/
theorem Avoids.ite {c : Prop} [Decidable c] {x y : Fallible ε σ α} (hx : c → Avoids e x)
    (hy : ¬ c → Avoids e y) : Avoids e (if c then x else y) := by
  split
  · next h => exact hx h
  · next h => exact hy h

/-- A loop avoids a fault if every round does, where `Q` is all that a round depends on. -/
theorem forEach_ne_error {Q : σ → Prop} {is : List ι} {f : ι → Fallible ε σ Unit}
    (hround : ∀ i ∈ is, ∀ s, Q s → (f i s).1 ≠ .error e)
    (hkeep : ∀ i ∈ is, ∀ s s', Q s → f i s = (.ok (), s') → Q s') {s : σ} (hs : Q s) :
    (forEach is f s).1 ≠ .error e := by
  induction is generalizing s with
  | nil =>
      intro h
      cases h
  | cons i is ih =>
      refine error_bind_ne (hround i List.mem_cons_self s hs) fun _ t hone => ?_
      exact ih (fun j hj => hround j (List.mem_cons_of_mem i hj))
        (fun j hj => hkeep j (List.mem_cons_of_mem i hj)) (hkeep i List.mem_cons_self s t hs hone)

/-- A loop avoids what all its rounds avoid. -/
theorem Avoids.forEach {is : List ι} {f : ι → Fallible ε σ Unit} (h : ∀ i ∈ is, Avoids e (f i)) :
    Avoids e (forEach is f) := fun _ =>
  forEach_ne_error (Q := fun _ => True) (fun i hi s _ => h i hi s) (fun _ _ _ _ _ _ => trivial)
    trivial

/-- A program that returns ends in no fault. -/
theorem Returns.ne_error {x : Fallible ε σ α} {s : σ} (h : Returns x s) : (x s).1 ≠ .error e := by
  obtain ⟨a, s', hrun⟩ := h
  rw [hrun]
  intro herror
  cases herror

end

/-! ## Faults that occur -/

/-- Every fault that the program ends in is one of these, from whatever state it starts. -/
def Faults (E : ε → Prop) (x : Fallible ε σ α) : Prop := ∀ s e t, x s = (.error e, t) → E e

section
variable {E F : ε → Prop}

theorem Faults.pure (a : α) : Faults E (pure a : Fallible ε σ α) := by
  intro s e t h
  cases h

theorem Faults.fail {e : ε} (he : E e) : Faults E (fail e : Fallible ε σ α) := by
  intro s e' t h
  cases h
  exact he

theorem Faults.modify (f : σ → σ) : Faults E (modify f : Fallible ε σ Unit) := by
  intro s e t h
  cases h

/-- The faults of a sequence are those of its parts. -/
theorem Faults.bind {x : Fallible ε σ α} {f : α → Fallible ε σ β} (hx : Faults E x)
    (hf : ∀ a, Faults E (f a)) : Faults E (x >>= f) := by
  intro s e t h
  rcases hrun : x s with ⟨e' | a, s'⟩
  · rw [bind_error hrun] at h
    cases h
    exact hx s _ _ hrun
  · rw [bind_ok hrun] at h
    exact hf a s' e t h

/-- More faults can be allowed. -/
theorem Faults.mono {x : Fallible ε σ α} (hx : Faults E x) (h : ∀ e, E e → F e) : Faults F x :=
  fun s e t hrun => h e (hx s e t hrun)

/-- A fault that is none of these does not occur. -/
theorem Faults.avoids {x : Fallible ε σ α} {e : ε} (hx : Faults E x) (he : ¬ E e) : Avoids e x := by
  intro s h
  rcases hrun : x s with ⟨result, t⟩
  rw [hrun] at h
  cases h
  exact he (hx s e t hrun)

end

/-! ## Moves -/

open Relation

/-- From every state in `P` the program, if it succeeds, has made moves of `M` only,
and ends in `P`. -/
def Moves (P : σ → Prop) (M : σ → σ → Prop) (x : Fallible ε σ α) : Prop :=
  ∀ s a s', P s → x s = (.ok a, s') → ReflTransGen M s s' ∧ P s'

variable {P : σ → Prop} {M : σ → σ → Prop}

/-- A result is no move. -/
theorem Moves.pure (a : α) : Moves P M (pure a : Fallible ε σ α) := by
  intro s b s' hs h
  cases h
  exact ⟨ReflTransGen.refl, hs⟩

/-- A fault ends the program before any move counts. -/
theorem Moves.fail (e : ε) : Moves P M (fail e : Fallible ε σ α) := by
  intro s b s' _ h
  cases h

/-- A program that is a single move. -/
theorem Moves.single {x : Fallible ε σ α} (h : ∀ s a s', P s → x s = (.ok a, s') → M s s' ∧ P s') :
    Moves P M x := by
  intro s a s' hs hrun
  obtain ⟨hmove, hend⟩ := h s a s' hs hrun
  exact ⟨ReflTransGen.single hmove, hend⟩

/-- A program that does not touch the state makes no move. -/
theorem Moves.of_same {x : Fallible ε σ α} (h : ∀ s a s', x s = (.ok a, s') → s' = s) :
    Moves P M x := by
  intro s a s' hs hrun
  rw [h s a s' hrun]
  exact ⟨ReflTransGen.refl, hs⟩

/-- The moves of a sequence are those of its parts. -/
theorem Moves.bind {x : Fallible ε σ α} {f : α → Fallible ε σ β} (hx : Moves P M x)
    (hf : ∀ a, Moves P M (f a)) : Moves P M (x >>= f) := by
  intro s b t hs hrun
  obtain ⟨a, s', hone, hrest⟩ := bind_eq_ok hrun
  obtain ⟨hmoves, hmid⟩ := hx s a s' hs hone
  obtain ⟨hmore, hend⟩ := hf a s' b t hmid hrest
  exact ⟨hmoves.trans hmore, hend⟩

/-- What is read from the state can be used for the rest of the program. -/
theorem Moves.get {f : σ → Fallible ε σ β}
    (hf : ∀ s b s', P s → f s s = (.ok b, s') → ReflTransGen M s s' ∧ P s') :
    Moves P M (get >>= f) :=
  hf

/-- Each branch can use its condition. -/
theorem Moves.ite {c : Prop} [Decidable c] {x y : Fallible ε σ α} (hx : c → Moves P M x)
    (hy : ¬ c → Moves P M y) : Moves P M (if c then x else y) := by
  split
  · next h => exact hx h
  · next h => exact hy h

/-- The moves of a loop are those of its rounds. -/
theorem Moves.forEach {is : List ι} {f : ι → Fallible ε σ Unit} (h : ∀ i ∈ is, Moves P M (f i)) :
    Moves P M (forEach is f) := by
  induction is with
  | nil => exact Moves.pure ()
  | cons i is ih =>
      exact (h i List.mem_cons_self).bind fun _ =>
        ih fun j hj => h j (List.mem_cons_of_mem i hj)

end Fallible
