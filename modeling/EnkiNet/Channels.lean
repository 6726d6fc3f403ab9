import EnkiNet.Runs

/-!
# Channels with a protocol for each key

A channel is a queue of messages, each about one key, between a sender and a receiver that
are at different places of the same protocol.  The protocol is a partial step function on
stages, one stage for each key.  `Follows start finish queue` is that the messages in the queue
lead, key by key, from where the receiver is to where the sender is.  The sender's side is
`Follows.push`, the receiver's `Follows.pop`; neither needs to know how long the queue is.

`Runs.collect` is about what a run writes down: where each step moves a measure of the state by
what it writes down, so does a whole run.  `Runs.Station` is about two queues with something
between them that takes from the one and adds to the other.
-/

namespace Channels

variable {κ μ σ : Type} [DecidableEq κ] {advance : σ → μ → Option σ}

/-- The messages about one key, in order. -/
def about (k : κ) (queue : List (κ × μ)) : List μ :=
  queue.filterMap fun (k', m) => if k' = k then some m else none

@[simp] theorem about_nil (k : κ) : about k ([] : List (κ × μ)) = [] := rfl

/-- A queue is told apart key by key. -/
@[simp] theorem about_append (k : κ) (q q' : List (κ × μ)) :
    about k (q ++ q') = about k q ++ about k q' :=
  List.filterMap_append

/-- The first message about its own key. -/
theorem about_cons_self (k : κ) (m : μ) (q : List (κ × μ)) :
    about k ((k, m) :: q) = m :: about k q := by
  simp [about]

/-- The first message is skipped for every other key. -/
theorem about_cons_ne {k k' : κ} (h : k' ≠ k) (m : μ) (q : List (κ × μ)) :
    about k ((k', m) :: q) = about k q := by
  simp [about, h]

/-- A message is in the queue exactly if it is in its key's part. -/
theorem mem_about {k : κ} {m : μ} {q : List (κ × μ)} : m ∈ about k q ↔ (k, m) ∈ q := by
  simp only [about, List.mem_filterMap]
  constructor
  · rintro ⟨⟨k', m'⟩, hmem, hk⟩
    by_cases heq : k' = k
    · subst heq
      simp only [if_true, Option.some.injEq] at hk
      exact hk ▸ hmem
    · simp [heq] at hk
  · intro h
    exact ⟨(k, m), h, if_pos rfl⟩

/-- The queue leads from the receiver's stages to the sender's. -/
def Follows (advance : σ → μ → Option σ) (start finish : κ → σ) (queue : List (κ × μ)) : Prop :=
  ∀ k, Runs.run advance (start k) (about k queue) = some (finish k)

namespace Follows

variable {start mid finish : κ → σ} {q q' : List (κ × μ)}

/-- An empty queue takes no key anywhere. -/
theorem nil (start : κ → σ) : Follows advance start start [] := fun _ => rfl

/-- Two queues, one after the other. -/
theorem append (h : Follows advance start mid q) (h' : Follows advance mid finish q') :
    Follows advance start finish (q ++ q') := by
  intro k
  rw [about_append, Runs.run_append_some (h k)]
  exact h' k

/-- The sender takes one step for a key and sends the message. -/
theorem push (h : Follows advance start finish q) {k : κ} {m : μ} {t : σ}
    (hm : advance (finish k) m = some t) :
    Follows advance start (Function.update finish k t) (q ++ [(k, m)]) := by
  refine h.append (fun k' => ?_)
  by_cases heq : k = k'
  · subst heq
    rw [about_cons_self, Function.update_self, Runs.run_cons hm]
    rfl
  · rw [about_cons_ne heq, Function.update_of_ne (Ne.symm heq)]
    rfl

/-- The receiver can take the step that the first message asks for. -/
theorem pop {k : κ} {m : μ} (h : Follows advance start finish ((k, m) :: q)) :
    ∃ t, advance (start k) m = some t ∧ Follows advance (Function.update start k t) finish q := by
  have hk := h k
  rw [about_cons_self] at hk
  obtain ⟨t, hm, hrest⟩ := Runs.run_cons_some hk
  refine ⟨t, hm, fun k' => ?_⟩
  by_cases heq : k = k'
  · subst heq
    rwa [Function.update_self]
  · have hk' := h k'
    rwa [about_cons_ne heq, ← Function.update_of_ne (Ne.symm heq) t start] at hk'

/-- A prefix of what was sent is itself possible. -/
theorem of_append (h : Follows advance start finish (q ++ q')) (k : κ) :
    ∃ t, Runs.run advance (start k) (about k q) = some t := by
  have hk := h k
  rw [about_append, Runs.run_append, Option.bind_eq_some_iff] at hk
  obtain ⟨t, ht, _⟩ := hk
  exact ⟨t, ht⟩

/-- Only the ends of the walk matter. -/
theorem congr {start' finish' : κ → σ} (h : Follows advance start finish q)
    (hstart : ∀ k, start' k = start k) (hfinish : ∀ k, finish' k = finish k) :
    Follows advance start' finish' q := by
  intro k
  rw [hstart, hfinish]
  exact h k

end Follows

end Channels

namespace Runs

variable {σ ε α : Type} {step : σ → ε → Option σ}

/-- What the steps of a run write down, in order. -/
def collect (step : σ → ε → Option σ) (write : σ → ε → List α) : σ → List ε → List α
  | _, [] => []
  | s, e :: es =>
      write s e ++
        match step s e with
        | none => []
        | some s' => collect step write s' es

/-- What the first step writes comes first. -/
theorem collect_cons {write : σ → ε → List α} {s s' : σ} {e : ε} (h : step s e = some s')
    (es : List ε) : collect step write s (e :: es) = write s e ++ collect step write s' es := by
  simp [collect, h]

/-- What is written may be converted afterwards. -/
theorem collect_map {β : Type} (f : α → β) (write : σ → ε → List α) (s : σ) (es : List ε) :
    collect step (fun s e => (write s e).map f) s es = (collect step write s es).map f := by
  induction es generalizing s with
  | nil => rfl
  | cons e es ih =>
      rw [collect, collect, List.map_append]
      congr 1
      split
      · rfl
      · exact ih _

/-- **The conservation rule.**  Where every step adds what it writes down to a measure of the state,
a run adds what it writes down altogether.  The measure may depend on a history `g` that the
state does not hold. -/
theorem run_collect_history {γ : Type} {Inv : γ → σ → Prop} {ok : σ → ε → Prop}
    (measure : γ → σ → List α) {write : σ → ε → List α}
    (hwrite : ∀ g s e s', Inv g s → ok s e → step s e = some s' →
      ∃ g', Inv g' s' ∧ measure g' s' = measure g s ++ write s e)
    {g : γ} {s t : σ} {es : List ε} (hmeets : Meets step ok s es) (hrun : run step s es = some t)
    (hs : Inv g s) : ∃ g', Inv g' t ∧ measure g' t = measure g s ++ collect step write s es := by
  induction es generalizing g s with
  | nil =>
      cases hrun
      exact ⟨g, hs, (List.append_nil _).symm⟩
  | cons e es ih =>
      obtain ⟨s', hse, htail⟩ := run_cons_some hrun
      obtain ⟨g', hs', hone⟩ := hwrite g s e s' hs hmeets.1 hse
      obtain ⟨g'', ht, hrest⟩ := ih (hmeets.2 s' hse) htail hs'
      exact ⟨g'', ht, by rw [hrest, hone, collect_cons hse, List.append_assoc]⟩

/-- The rule where there is no history. -/
theorem run_collect {Inv : σ → Prop} {ok : σ → ε → Prop} {measure : σ → List α}
    {write : σ → ε → List α}
    (hinv : ∀ s e s', Inv s → ok s e → step s e = some s' → Inv s')
    (hwrite : ∀ s e s', Inv s → ok s e → step s e = some s' → measure s' = measure s ++ write s e)
    {s t : σ} {es : List ε} (hmeets : Meets step ok s es) (hrun : run step s es = some t)
    (hs : Inv s) : measure t = measure s ++ collect step write s es := by
  have hone : ∀ (_ : Unit) s e s', Inv s → ok s e → step s e = some s' →
      ∃ _ : Unit, Inv s' ∧ measure s' = measure s ++ write s e :=
    fun _ s e s' h hok hse => ⟨(), hinv s e s' h hok hse, hwrite s e s' h hok hse⟩
  obtain ⟨_, _, hall⟩ := run_collect_history (g := ()) (fun _ => measure) hone hmeets hrun hs
  exact hall

/-! ### A station between two queues -/

/-- A station takes from a queue that a sender adds to, and adds to a queue that a receiver takes
from. -/
structure Station (σ ε α β : Type) where
  incoming : σ → List α
  outgoing : σ → List β
  /-- What the sender adds in a step. -/
  posted : σ → ε → List α
  /-- What the receiver takes in a step. -/
  got : σ → ε → List β

namespace Station

variable {β : Type}

/-- What the station takes and what it makes of it are related. -/
def Passes (P : Station σ ε α β) (R : List α → List β → Prop) (s s' : σ) (posted : List α)
    (got : List β) : Prop :=
  ∃ taken sent, R taken sent ∧ P.incoming s ++ posted = taken ++ P.incoming s' ∧
    got ++ P.outgoing s' = P.outgoing s ++ sent

variable {P : Station σ ε α β} {R : List α → List β → Prop} {s t u : σ}

/-- Nothing happens on the way: what has been posted is behind, what was got is in front. -/
theorem Passes.of_still (hnil : R [] []) {posted : List α} {got : List β}
    (hin : P.incoming t = P.incoming s ++ posted) (hout : got ++ P.outgoing t = P.outgoing s) :
    P.Passes R s t posted got :=
  ⟨[], [], hnil, hin.symm, by rw [hout, List.append_nil]⟩

/-- Two stretches of a run. -/
theorem Passes.trans {posted posted' : List α} {got got' : List β}
    (happend : ∀ a b a' b', R a b → R a' b' → R (a ++ a') (b ++ b'))
    (h : P.Passes R s t posted got) (h' : P.Passes R t u posted' got') :
    P.Passes R s u (posted ++ posted') (got ++ got') := by
  obtain ⟨taken, sent, hR, hin, hout⟩ := h
  obtain ⟨taken', sent', hR', hin', hout'⟩ := h'
  refine ⟨taken ++ taken', sent ++ sent', happend _ _ _ _ hR hR', ?_, ?_⟩
  · calc P.incoming s ++ (posted ++ posted')
        = taken ++ P.incoming t ++ posted' := by rw [← List.append_assoc, hin]
      _ = taken ++ taken' ++ P.incoming u := by rw [List.append_assoc, hin', List.append_assoc]
  · calc got ++ got' ++ P.outgoing u
        = got ++ (P.outgoing t ++ sent') := by rw [List.append_assoc, hout']
      _ = P.outgoing s ++ (sent ++ sent') := by rw [← List.append_assoc, hout, List.append_assoc]

/-- **The rule for stations.**  What every step of a run relates, the run relates as a whole. -/
theorem passes_of_run {Inv : σ → Prop} {ok : σ → ε → Prop} (hnil : R [] [])
    (happend : ∀ a b a' b', R a b → R a' b' → R (a ++ a') (b ++ b'))
    (hinv : ∀ s e s', Inv s → ok s e → step s e = some s' → Inv s')
    (hpasses : ∀ s e s', Inv s → ok s e → step s e = some s' →
      P.Passes R s s' (P.posted s e) (P.got s e))
    {s t : σ} {es : List ε} (hmeets : Meets step ok s es) (hrun : run step s es = some t)
    (hs : Inv s) : P.Passes R s t (collect step P.posted s es) (collect step P.got s es) := by
  induction es generalizing s with
  | nil =>
      cases hrun
      exact .of_still hnil (List.append_nil _).symm rfl
  | cons e es ih =>
      obtain ⟨s', hse, htail⟩ := run_cons_some hrun
      have hone := hpasses s e s' hs hmeets.1 hse
      have hrest := ih (hmeets.2 s' hse) htail (hinv s e s' hs hmeets.1 hse)
      rw [collect_cons hse, collect_cons hse]
      exact hone.trans happend hrest

end Station

end Runs
