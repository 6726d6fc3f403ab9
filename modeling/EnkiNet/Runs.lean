import Mathlib

/-!
# Runs of a partial step function

A system is a step function that takes a state and an event and is undefined
where the event cannot be taken.  A run takes a list of events in order.  Two rules
are the usual ones: what every step preserves, every run preserves
(`run_invariant`), and what every step *that meets a condition on the state
before it* preserves, every run whose steps all meet the condition preserves
(`run_invariant_of_meets`).  `meets_of_good` is for the converse of the latter.
-/

namespace Runs

variable {σ ε : Type}

/-- Take the events in order; `none` as soon as one of them cannot be taken. -/
def run (step : σ → ε → Option σ) : σ → List ε → Option σ
  | s, [] => some s
  | s, e :: es => (step s e).bind fun s' => run step s' es

/-- Every event of the run meets `ok` in the state in which it is taken. -/
def Meets (step : σ → ε → Option σ) (ok : σ → ε → Prop) : σ → List ε → Prop
  | _, [] => True
  | s, e :: es => ok s e ∧ ∀ s', step s e = some s' → Meets step ok s' es

variable {step : σ → ε → Option σ}

/-- Whether a concrete run meets a decidable condition can be computed. -/
instance decidableMeets {ok : σ → ε → Prop} [∀ s e, Decidable (ok s e)] :
    (s : σ) → (es : List ε) → Decidable (Meets step ok s es)
  | _, [] => .isTrue trivial
  | s, e :: es =>
      match h : step s e with
      | none => decidable_of_iff (ok s e) (by simp [Meets, h])
      | some t =>
          have : Decidable (Meets step ok t es) := decidableMeets t es
          decidable_of_iff (ok s e ∧ Meets step ok t es) (by simp [Meets, h])

@[simp] theorem run_nil (s : σ) : run step s [] = some s := rfl

theorem run_cons {s s' : σ} {e : ε} (h : step s e = some s') (es : List ε) :
    run step s (e :: es) = run step s' es := by
  simp [run, h]

/-- Expose the first step of a successful nonempty run. -/
theorem run_cons_some {s t : σ} {e : ε} {es : List ε} (h : run step s (e :: es) = some t) :
    ∃ s', step s e = some s' ∧ run step s' es = some t := by
  simpa [run, Option.bind_eq_some_iff] using h

theorem run_append (s : σ) (es fs : List ε) :
    run step s (es ++ fs) = (run step s es).bind fun s' => run step s' fs := by
  induction es generalizing s with
  | nil => simp
  | cons e es ih =>
      cases h : step s e with
      | none => simp [run, h]
      | some s' => simp [run, h, ih]

theorem run_append_some {s m : σ} {es : List ε} (h : run step s es = some m) (fs : List ε) :
    run step s (es ++ fs) = run step m fs := by
  rw [run_append, h, Option.bind_some]

/-- A condition on the events of a run is one on those of its parts. -/
theorem meets_append {ok : σ → ε → Prop} {s m : σ} {es fs : List ε} (hrun : run step s es = some m)
    (h : Meets step ok s (es ++ fs)) : Meets step ok s es ∧ Meets step ok m fs := by
  induction es generalizing s with
  | nil =>
      cases hrun
      exact ⟨trivial, h⟩
  | cons e es ih =>
      obtain ⟨s', hse, htail⟩ := run_cons_some hrun
      obtain ⟨hhead, hrest⟩ := h
      obtain ⟨_, hm⟩ := ih htail (hrest s' hse)
      refine ⟨⟨hhead, fun s'' hse' => ?_⟩, hm⟩
      rw [hse] at hse'
      cases hse'
      exact (ih htail (hrest s' hse)).1

theorem meets_append_iff {ok : σ → ε → Prop} {s m : σ} {es fs : List ε}
    (hrun : run step s es = some m) :
    Meets step ok s (es ++ fs) ↔ Meets step ok s es ∧ Meets step ok m fs := by
  refine ⟨meets_append hrun, fun h => ?_⟩
  induction es generalizing s with
  | nil =>
      cases hrun
      exact h.2
  | cons e es ih =>
      obtain ⟨s', hse, htail⟩ := run_cons_some hrun
      refine ⟨h.1.1, fun s'' hse' => ?_⟩
      rw [hse] at hse'
      cases hse'
      exact ih htail ⟨h.1.2 s' hse, h.2⟩

/-- Where every event can be taken a run is a fold. -/
theorem run_total (f : σ → ε → σ) (s : σ) (es : List ε) :
    run (fun s e => some (f s e)) s es = some (es.foldl f s) := by
  induction es generalizing s with
  | nil => rfl
  | cons e es ih => exact ih (f s e)

/-- What a concrete run ends in can be computed. -/
theorem exists_of_any {P : σ → Prop} [DecidablePred P] {s : σ} {es : List ε}
    (h : (run step s es).any (fun t => P t) = true) : ∃ t, run step s es = some t ∧ P t := by
  obtain ⟨t, hrun, ht⟩ := (Option.any_eq_true _ _).mp h
  exact ⟨t, hrun, of_decide_eq_true ht⟩

/-- **The invariant rule.** -/
theorem run_invariant {Inv : σ → Prop}
    (hstep : ∀ s e s', Inv s → step s e = some s' → Inv s')
    {s t : σ} {es : List ε} (hrun : run step s es = some t) (hs : Inv s) : Inv t := by
  induction es generalizing s with
  | nil => simpa [← Option.some.inj hrun] using hs
  | cons e es ih =>
      obtain ⟨s', hse, htail⟩ := run_cons_some hrun
      exact ih htail (hstep s e s' hs hse)

/-- **The invariant rule for runs whose steps meet a condition.** -/
theorem run_invariant_of_meets {Inv : σ → Prop} {ok : σ → ε → Prop}
    (hstep : ∀ s e s', Inv s → ok s e → step s e = some s' → Inv s')
    {s t : σ} {es : List ε} (hmeets : Meets step ok s es) (hrun : run step s es = some t)
    (hs : Inv s) : Inv t := by
  induction es generalizing s with
  | nil => simpa [← Option.some.inj hrun] using hs
  | cons e es ih =>
      obtain ⟨s', hse, htail⟩ := run_cons_some hrun
      exact ih (hmeets.2 s' hse) htail (hstep s e s' hs hmeets.1 hse)

theorem meets_of_forall {ok : σ → ε → Prop} (h : ∀ s e, ok s e) (s : σ) (es : List ε) :
    Meets step ok s es := by
  induction es generalizing s with
  | nil => trivial
  | cons e es ih => exact ⟨h s e, fun s' _ => ih s'⟩

/-- Two conditions that are the same under an invariant, for steps that meet a third, are met by
the same runs of such steps. -/
theorem meets_congr_of_meets {Inv : σ → Prop} {given ok ok' : σ → ε → Prop}
    (hstep : ∀ s e s', Inv s → step s e = some s' → Inv s')
    (hok : ∀ s e, Inv s → given s e → (ok s e ↔ ok' s e)) {s : σ} (hs : Inv s) {es : List ε}
    (hmeets : Meets step given s es) : Meets step ok s es ↔ Meets step ok' s es := by
  induction es generalizing s with
  | nil => exact Iff.rfl
  | cons e es ih =>
      refine and_congr (hok s e hs hmeets.1) (forall_congr' fun s' => ?_)
      constructor
      · intro h hse
        exact (ih (hstep s e s' hs hse) (hmeets.2 s' hse)).mp (h hse)
      · intro h hse
        exact (ih (hstep s e s' hs hse) (hmeets.2 s' hse)).mpr (h hse)

/-- Two conditions that are the same under an invariant are met by the same runs. -/
theorem meets_congr {Inv : σ → Prop} {ok ok' : σ → ε → Prop}
    (hstep : ∀ s e s', Inv s → step s e = some s' → Inv s')
    (hok : ∀ s e, Inv s → (ok s e ↔ ok' s e)) {s : σ} (hs : Inv s) (es : List ε) :
    Meets step ok s es ↔ Meets step ok' s es := by
  have hall : Meets step (fun _ _ => True) s es := meets_of_forall (fun _ _ => trivial) s es
  exact meets_congr_of_meets hstep (fun s e hs _ => hok s e hs) hs hall

/-- **The converse rule.**  Where a step that does not meet the condition leads to no
good end, the steps of a run with a good end meet it. -/
theorem meets_of_good (Good : σ → Prop) {ok : σ → ε → Prop}
    (hstep : ∀ s e s' es t, step s e = some s' → run step s' es = some t → Good t → ok s e)
    {s t : σ} {es : List ε} (hrun : run step s es = some t) (ht : Good t) : Meets step ok s es := by
  induction es generalizing s with
  | nil => trivial
  | cons e es ih =>
      obtain ⟨s', hse, htail⟩ := run_cons_some hrun
      refine ⟨hstep s e s' es t hse htail ht, ?_⟩
      intro s'' hse'
      rw [hse] at hse'
      cases hse'
      exact ih htail

/-! ## Conditions on every state -/

/-- Every state of the run is good, the first one included. -/
def Always (step : σ → ε → Option σ) (Good : σ → Prop) : σ → List ε → Prop
  | s, [] => Good s
  | s, e :: es => Good s ∧ ∀ s', step s e = some s' → Always step Good s' es

theorem Always.head {Good : σ → Prop} {s : σ} {es : List ε} (h : Always step Good s es) :
    Good s := by
  cases es with
  | nil => exact h
  | cons e es => exact h.1

theorem Always.of_run {Good : σ → Prop} {s t : σ} {es : List ε} (h : Always step Good s es)
    (hrun : run step s es = some t) : Good t := by
  induction es generalizing s with
  | nil =>
      cases hrun
      exact h
  | cons e es ih =>
      obtain ⟨s', hse, htail⟩ := run_cons_some hrun
      exact ih (h.2 s' hse) htail

/-- What an invariant gives holds of every state. -/
theorem always_of_invariant {Inv Good : σ → Prop}
    (hstep : ∀ s e s', Inv s → step s e = some s' → Inv s') (hgood : ∀ s, Inv s → Good s) {s : σ}
    (hs : Inv s) (es : List ε) : Always step Good s es := by
  induction es generalizing s with
  | nil => exact hgood s hs
  | cons e es ih => exact ⟨hgood s hs, fun s' hse => ih (hstep s e s' hs hse)⟩

/-- **The rule for conditions on every state.**  Where the condition on a step is what keeps the
states good, it is met by the steps of exactly the runs through good states.  The invariant is
one of the good states only. -/
theorem always_iff_meets (Inv : σ → Prop) {Good : σ → Prop} {ok : σ → ε → Prop}
    (hinv : ∀ s e s', Inv s → Good s' → step s e = some s' → Inv s')
    (hok : ∀ s e s', Inv s → Good s → step s e = some s' → (Good s' ↔ ok s e))
    {s t : σ} {es : List ε} (hrun : run step s es = some t) (hs : Inv s) (hgood : Good s) :
    Always step Good s es ↔ Meets step ok s es := by
  induction es generalizing s with
  | nil => exact iff_of_true hgood trivial
  | cons e es ih =>
      obtain ⟨s', hse, htail⟩ := run_cons_some hrun
      have hnext : Good s' → Inv s' := fun hgood' => hinv s e s' hs hgood' hse
      have hiff : Good s' ↔ ok s e := hok s e s' hs hgood hse
      constructor
      · intro h
        have hrest : Always step Good s' es := h.2 s' hse
        refine ⟨hiff.mp hrest.head, fun s'' hse' => ?_⟩
        rw [hse] at hse'
        cases hse'
        exact (ih htail (hnext hrest.head) hrest.head).mp hrest
      · intro h
        have hgood' : Good s' := hiff.mpr h.1
        refine ⟨hgood, fun s'' hse' => ?_⟩
        rw [hse] at hse'
        cases hse'
        exact (ih htail (hnext hgood') hgood').mpr (h.2 s' hse)

/-- **The rule for what is lost for good.**  Where each step keeps a property exactly if it meets a
condition and can never bring it back, so does each run. -/
theorem lasts_iff_meets (Inv : σ → Prop) {P : σ → Prop} {ok : σ → ε → Prop}
    (hinv : ∀ s e s', Inv s → step s e = some s' → Inv s')
    (hok : ∀ s e s', Inv s → step s e = some s' → (P s' ↔ P s ∧ ok s e))
    {s t : σ} {es : List ε} (hrun : run step s es = some t) (hs : Inv s) :
    P t ↔ P s ∧ Meets step ok s es := by
  induction es generalizing s with
  | nil =>
      cases hrun
      exact (and_iff_left trivial).symm
  | cons e es ih =>
      obtain ⟨s', hse, htail⟩ := run_cons_some hrun
      rw [ih htail (hinv s e s' hs hse), hok s e s' hs hse, and_assoc]
      refine and_congr_right fun _ => and_congr_right fun _ => ?_
      constructor
      · intro h s'' hse'
        rw [hse] at hse'
        cases hse'
        exact h
      · exact fun h => h s' hse

/-! ## Runs with results -/

section
variable {τ ρ : Type}

/-- Take the events in order, and write down the results. -/
def logged (step : σ → ε → Option (σ × ρ)) : σ → List ε → Option (σ × List ρ)
  | s, [] => some (s, [])
  | s, e :: es =>
      (step s e).bind fun after =>
        (logged step after.1 es).map fun rest => (rest.1, after.2 :: rest.2)

/-- What every step preserves, every run with results preserves.  The invariant may speak of the
events that are still to come. -/
theorem logged_invariant {step : σ → ε → Option (σ × ρ)} (Inv : σ → List ε → Prop)
    (hinv : ∀ s e es after, Inv s (e :: es) → step s e = some after → Inv after.1 es) {s : σ}
    {es : List ε} {after : σ × List ρ} (hrun : logged step s es = some after) (hs : Inv s es) :
    Inv after.1 [] := by
  induction es generalizing s after with
  | nil =>
      cases hrun
      exact hs
  | cons e es ih =>
      obtain ⟨next, hse, htail⟩ := Option.bind_eq_some_iff.mp hrun
      obtain ⟨rest, hrest, heq⟩ := Option.map_eq_some_iff.mp htail
      cases heq
      have hend : Inv rest.1 [] := ih hrest (hinv s e es next hs hse)
      exact hend

/-- **The refinement rule.**  Where each step is one of another system through `f`, with the
same result, so is each run. -/
theorem logged_refines {step : σ → ε → Option (σ × ρ)} {step' : τ → ε → Option (τ × ρ)}
    (f : σ → τ) (Inv : σ → List ε → Prop)
    (hstep : ∀ s e es, Inv s (e :: es) → (step s e).map (Prod.map f id) = step' (f s) e)
    (hinv : ∀ s e es after, Inv s (e :: es) → step s e = some after → Inv after.1 es) {s : σ}
    {es : List ε} (hs : Inv s es) :
    (logged step s es).map (Prod.map f id) = logged step' (f s) es := by
  induction es generalizing s with
  | nil => rfl
  | cons e es ih =>
      rw [logged, logged, ← hstep s e es hs]
      cases hse : step s e with
      | none => rfl
      | some after =>
          have hrest := ih (hinv s e es after hs hse)
          have hrest' : logged step' (Prod.map f id after).1 es =
              (logged step after.1 es).map (Prod.map f id) := hrest.symm
          rw [Option.bind_some, Option.map_some, Option.bind_some, hrest', Option.map_map,
            Option.map_map]
          rfl

end

end Runs
