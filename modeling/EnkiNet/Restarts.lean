import EnkiNet.NetworkManager

/-!
# Stopping and starting again

What a step can do to the objects of a network manager and to the handlers is said once
(`step_change`).

* `stop_exposes`: what the game can see does not tell when a stop is safe, since the network thread
  may be about to use the object;
* `heard_iff_running`: networking is enabled once, for the objects that are there, so the scenegraph
  does not hear a server or a client that is started again;
* `role_of_careful`: the kinds of processes that there are otherwise are those of `Role`.
-/

namespace EnkiNet

namespace NetworkManager

section
variable {s s' : NetworkManager}

/-! ## What a stop can meet -/

/-- Perhaps something has been used that was not there; nothing else has happened. -/
structure Marked (s t : NetworkManager) : Prop where
  eq : t = { s with violations := t.violations }
  violations : s.violations ≤ t.violations

theorem Marked.refl (s : NetworkManager) : Marked s s := ⟨rfl, le_refl _⟩

/-- Marks add up. -/
theorem Marked.trans {u : NetworkManager} (h : Marked s s') (h' : Marked s' u) : Marked s u := by
  refine ⟨?_, h.violations.trans h'.violations⟩
  rw [h'.eq, h.eq]

/-- A misuse is a mark. -/
theorem violate_marked (s : NetworkManager) : Marked s s.violate := ⟨rfl, Nat.le_succ _⟩

/-- Touching an object does nothing but perhaps leave a mark. -/
theorem touch_marked (object : Nat) (e : Option Endpoint) (s : NetworkManager) :
    Marked s (s.touch object e) := by
  rw [touch]
  split
  · exact .refl s
  · exact violate_marked s

/-- Sending through the server does not replace it. -/
theorem serverSends_marked (s : NetworkManager) : Marked s s.serverSends := by
  rw [serverSends]
  split
  · exact violate_marked s
  · exact touch_marked _ _ s
  · exact .refl s

/-- Sending through the client does not replace it. -/
theorem clientSends_marked (s : NetworkManager) : Marked s s.clientSends := by
  rw [clientSends]
  split
  · exact violate_marked s
  · exact touch_marked _ _ s
  · exact .refl s

/-- Announcing an entity does not replace the server. -/
theorem announce_marked (s : NetworkManager) : Marked s s.announce := by
  rw [announce]
  split
  · split
    · exact serverSends_marked s
    · split
      · exact clientSends_marked s
      · exact .refl s
  · exact .refl s

/-- Calling a procedure replaces neither object. -/
theorem callRPC_marked (s : NetworkManager) (connected : Bool) :
    Marked s (s.callRPC connected) := by
  rw [callRPC]
  split
  · exact .refl s
  · split
    · exact clientSends_marked s
    · exact .refl s

/-- `update` replaces neither object. -/
theorem update_marked (s : NetworkManager) (answers due others connected sends : Bool) :
    Marked s (s.update answers due others connected sends) := by
  have hserved : Marked s (if s.ServerHeard ∧ answers then s.serverSends else s) := by
    split
    · exact serverSends_marked s
    · exact .refl s
  rw [update]
  generalize (if s.ServerHeard ∧ answers then s.serverSends else s) = served at hserved ⊢
  split
  · exact hserved.trans (clientSends_marked _)
  · exact hserved

/-- The thread has moved. -/
structure Later (s t : NetworkManager) : Prop where
  eq : t = { s with thread := t.thread, violations := t.violations }
  violations : s.violations ≤ t.violations

theorem Later.refl (s : NetworkManager) : Later s s := ⟨rfl, le_refl _⟩

/-- Object numbers only grow. -/
theorem Later.trans {u : NetworkManager} (h : Later s s') (h' : Later s' u) : Later s u := by
  refine ⟨?_, h.violations.trans h'.violations⟩
  rw [h'.eq, h.eq]

/-- A mark is no new object, whatever the thread does. -/
theorem Marked.later (h : Marked s s') (thread : NetworkThread) :
    Later s { s' with thread := thread } := by
  refine ⟨?_, h.violations⟩
  rw [h.eq]

/-- The thread makes no objects. -/
theorem runThreadedNetwork_later (h : s.runThreadedNetwork = some s') : Later s s' := by
  rw [runThreadedNetwork] at h
  cases hthread : s.thread with
  | loop | checkServer | checkClient =>
      rw [hthread] at h
      cases h
      exact (Marked.refl s).later _
  | callServer | callClient =>
      simp only [hthread] at h
      split at h
      · cases h
        exact (violate_marked s).later _
      · cases h
        exact (Marked.refl s).later _
  | inServer object | inClient object =>
      rw [hthread] at h
      cases h
      exact (touch_marked _ _ s).later _
  | stopped =>
      rw [hthread] at h
      cases h

def Event.stopsClient : Event → Bool
  | .call .stopClient | .call .stopHost | .destroy => true
  | _ => false

/-- What can become of one of the two pointers. -/
def Replaced (next next' : Nat) (stops : Prop) (e e' : Option Endpoint) : Prop :=
  (stops ∧ e' = none) ∨
    (¬ stops ∧ (e' = e ∨ e = none ∧ ∃ x, e' = some x ∧ next ≤ x.object ∧ x.object < next'))

/-- What a step can do to the objects and the handlers. -/
structure Change (s : NetworkManager) (e : Event) (t : NetworkManager) : Prop where
  server : Replaced s.next t.next e.stopsServer s.server t.server
  client : Replaced s.next t.next e.stopsClient s.client t.client
  next : s.next ≤ t.next
  handlers : (t.serverHandler = s.serverHandler ∧ t.clientHandler = s.clientHandler) ∨
    ¬ s.networkReady ∧ t.serverHandler = s.server.map Endpoint.object ∧
      t.clientHandler = s.client.map Endpoint.object
  ready : s.networkReady → t.networkReady
  thread : t.thread = .stopped → s.thread = .stopped ∨ s.exitThread
  exit : s.exitThread → t.exitThread

theorem Replaced.same {next next' : Nat} {stops : Prop} {e : Option Endpoint} (h : ¬ stops) :
    Replaced next next' stops e e :=
  Or.inr ⟨h, Or.inl rfl⟩

theorem Replaced.stopped {next next' : Nat} {stops : Prop} {e : Option Endpoint} (h : stops) :
    Replaced next next' stops e none :=
  Or.inl ⟨h, rfl⟩

/-- Only an empty pointer is given a new object. -/
theorem Replaced.started {next next' object : Nat} {stops : Prop} {e partner : _}
    (h : ¬ stops) (he : e = none) (hold : next ≤ object) (hnew : object < next') :
    Replaced next next' stops e (some ⟨object, partner⟩) :=
  Or.inr ⟨h, Or.inr ⟨he, _, rfl, hold, hnew⟩⟩

/-- A call that leaves marks only has stopped nothing. -/
theorem Marked.change (h : Marked s s') {e : Event} (hserver : ¬ e.stopsServer)
    (hclient : ¬ e.stopsClient) : Change s e s' := by
  rw [h.eq]
  exact ⟨.same hserver, .same hclient, le_refl _, Or.inl ⟨rfl, rfl⟩, id, Or.inl, id⟩

/-- The thread ends for `exit_thread` only. -/
theorem exitThread_of_stopped (h : s.runThreadedNetwork = some s')
    (hstopped : s'.thread = .stopped) :
    s.exitThread := by
  rw [runThreadedNetwork] at h
  cases hthread : s.thread with
  | loop =>
      rw [hthread] at h
      cases h
      by_contra hexit
      simp [hexit] at hstopped
  | checkServer =>
      rw [hthread] at h
      cases h
      cases hserver : s.server <;> simp [hserver] at hstopped
  | checkClient =>
      rw [hthread] at h
      cases h
      cases hclient : s.client <;> simp [hclient] at hstopped
  | callServer | callClient =>
      simp only [hthread] at h
      split at h
      · cases h
        cases hstopped
      · cases h
        cases hstopped
  | inServer object | inClient object =>
      rw [hthread] at h
      cases h
      cases hstopped
  | stopped =>
      rw [hthread] at h
      cases h

/-- **What each step can do**, read backwards. -/
theorem step_change {e : Event} (h : s.step e = some s') : Change s e s' := by
  have hno : ¬ false = true := Bool.false_ne_true
  cases e with
  | thread =>
      have hlater := runThreadedNetwork_later h
      refine ⟨?_, ?_, ?_, ?_, ?_, fun hstopped => ?_, ?_⟩
      · rw [hlater.eq]
        exact .same hno
      · rw [hlater.eq]
        exact .same hno
      · rw [hlater.eq]
      · rw [hlater.eq]
        exact Or.inl ⟨rfl, rfl⟩
      · rw [hlater.eq]
        exact id
      · exact Or.inr (exitThread_of_stopped h hstopped)
      · rw [hlater.eq]
        exact id
  | listen =>
      rw [step] at h
      split at h
      · cases h
        exact ⟨.same hno, .same hno, le_refl _, Or.inl ⟨rfl, rfl⟩, id, Or.inl, id⟩
      · cases h
  | exit =>
      rw [step] at h
      split at h
      · cases h
      · cases h
        exact ⟨.same hno, .same hno, le_refl _, Or.inl ⟨rfl, rfl⟩, id, Or.inl, fun _ => rfl⟩
  | destroy =>
      rw [step] at h
      split at h
      · cases h
        exact ⟨.stopped rfl, .stopped rfl, le_refl _, Or.inl ⟨rfl, rfl⟩, id, Or.inl, id⟩
      · cases h
  | call c =>
      rw [step] at h
      split at h
      · cases h
      cases c with
      | startHost =>
          rw [call] at h
          split at h
          · next hnone =>
            cases h
            exact ⟨.started hno hnone.1 (le_refl _) (by simp [startHost]),
              .started hno hnone.2 (Nat.le_succ _) (by simp [startHost]), by simp [startHost],
              Or.inl ⟨rfl, rfl⟩, id, Or.inl, id⟩
          · cases h
      | startServer =>
          rw [call] at h
          split at h
          · next hnone =>
            cases h
            exact ⟨.started hno hnone (le_refl _) (Nat.lt_succ_self _), .same hno, Nat.le_succ _,
              Or.inl ⟨rfl, rfl⟩, id, Or.inl, id⟩
          · cases h
      | startClient =>
          rw [call] at h
          split at h
          · next hnone =>
            cases h
            exact ⟨.same hno, .started hno hnone.2 (le_refl _) (Nat.lt_succ_self _), Nat.le_succ _,
              Or.inl ⟨rfl, rfl⟩, id, Or.inl, id⟩
          · cases h
      | stopServer =>
          cases h
          exact ⟨.stopped rfl, .same hno, le_refl _, Or.inl ⟨rfl, rfl⟩, id, Or.inl, id⟩
      | stopClient =>
          cases h
          exact ⟨.same hno, .stopped rfl, le_refl _, Or.inl ⟨rfl, rfl⟩, id, Or.inl, id⟩
      | stopHost =>
          cases h
          exact ⟨.stopped rfl, .stopped rfl, le_refl _, Or.inl ⟨rfl, rfl⟩, id, Or.inl, id⟩
      | enableNetworking =>
          cases h
          rw [enableNetworking]
          split
          · exact (Marked.refl s).change hno hno
          · next hready =>
            split
            · exact (Marked.refl s).change hno hno
            · exact ⟨.same hno, .same hno, le_refl _, Or.inr ⟨hready, rfl, rfl⟩, fun _ => rfl,
                Or.inl, id⟩
      | announce =>
          cases h
          exact (announce_marked s).change hno hno
      | callRPC connected =>
          cases h
          exact (callRPC_marked s connected).change hno hno
      | update answers due others connected sends =>
          cases h
          exact (update_marked s answers due others connected sends).change hno hno

/-- The network thread gets from one state to the other while the game does nothing. -/
def Reaches (s t : NetworkManager) : Prop :=
  Later s t ∧ ∃ k, Runs.run step s (List.replicate k .thread) = some t

theorem Reaches.refl (s : NetworkManager) : Reaches s s := ⟨.refl s, 0, rfl⟩

/-- Steps of the thread compose. -/
theorem Reaches.trans {u : NetworkManager} (h : Reaches s s') (h' : Reaches s' u) :
    Reaches s u := by
  obtain ⟨k, hk⟩ := h.2
  obtain ⟨j, hj⟩ := h'.2
  refine ⟨h.1.trans h'.1, k + j, ?_⟩
  rw [List.replicate_add, Runs.run_append_some hk, hj]

theorem Reaches.single (h : s.runThreadedNetwork = some s') : Reaches s s' := by
  refine ⟨runThreadedNetwork_later h, 1, ?_⟩
  change (s.runThreadedNetwork).bind some = some s'
  rw [h]
  rfl

/-- How many steps there can be before the thread is back at its loop. -/
def turnsLeft : NetworkThread → Nat
  | .loop => 0
  | .inClient _ => 1
  | .callClient => 2
  | .checkClient => 3
  | .inServer _ => 4
  | .callServer => 5
  | .checkServer => 6
  | .stopped => 7

/-- By induction on the steps that are left. -/
theorem reaches_loop (h : s.thread ≠ .stopped) : ∃ t, Reaches s t ∧ t.thread = .loop := by
  induction hn : turnsLeft s.thread using Nat.strong_induction_on generalizing s with
  | _ n ih =>
      by_cases hloop : s.thread = .loop
      · exact ⟨s, .refl s, hloop⟩
      obtain ⟨s', hstep, hthread, hless⟩ : ∃ s', s.runThreadedNetwork = some s' ∧
          s'.thread ≠ .stopped ∧ turnsLeft s'.thread < turnsLeft s.thread := by
        rw [runThreadedNetwork]
        cases hat : s.thread with
        | loop => exact absurd hat hloop
        | stopped => exact absurd hat h
        | checkServer =>
            refine ⟨_, rfl, ?_⟩
            cases s.server <;> simp [turnsLeft]
        | checkClient =>
            refine ⟨_, rfl, ?_⟩
            cases s.client <;> simp [turnsLeft]
        | callServer =>
            cases hserver : s.server with
            | none => exact ⟨_, rfl, by simp [turnsLeft]⟩
            | some server => exact ⟨_, rfl, by simp [turnsLeft]⟩
        | callClient =>
            cases hclient : s.client with
            | none => exact ⟨_, rfl, by simp [turnsLeft]⟩
            | some client => exact ⟨_, rfl, by simp [turnsLeft]⟩
        | inServer object => exact ⟨_, rfl, by simp [turnsLeft]⟩
        | inClient object => exact ⟨_, rfl, by simp [turnsLeft]⟩
      obtain ⟨t, ht, hend⟩ := ih _ (hn ▸ hless) hthread rfl
      exact ⟨t, (Reaches.single hstep).trans ht, hend⟩

/-- A thread that runs comes round to its check of the server. -/
theorem reaches_checkServer (h : s.thread ≠ .stopped) (hexit : s.exitThread = false) :
    ∃ t, Reaches s t ∧ t.thread = .checkServer := by
  obtain ⟨t, ht, hloop⟩ := reaches_loop h
  have hstays : t.exitThread = false := by rw [ht.1.eq, hexit]
  have hstep : t.runThreadedNetwork = some { t with thread := .checkServer } := by
    rw [runThreadedNetwork, hloop, hstays]
    rfl
  exact ⟨_, ht.trans (.single hstep), rfl⟩

/-- Where there is a server the thread comes to call it. -/
theorem reaches_callServer {server : Endpoint} (h : s.thread ≠ .stopped)
    (hexit : s.exitThread = false) (hserver : s.server = some server) :
    ∃ t, Reaches s t ∧ t.thread = .callServer := by
  obtain ⟨t, ht, hcheck⟩ := reaches_checkServer h hexit
  have hthere : t.server = some server := by rw [ht.1.eq, hserver]
  have hstep : t.runThreadedNetwork = some { t with thread := .callServer } := by
    rw [runThreadedNetwork, hcheck, hthere]
    rfl
  exact ⟨_, ht.trans (.single hstep), rfl⟩

/-- The thread comes to the client after it has dealt with the server, if there is one. -/
theorem reaches_checkClient (h : s.thread ≠ .stopped) (hexit : s.exitThread = false) :
    ∃ t, Reaches s t ∧ t.thread = .checkClient := by
  cases hserver : s.server with
  | none =>
      obtain ⟨t, ht, hcheck⟩ := reaches_checkServer h hexit
      have hnone : t.server = none := by rw [ht.1.eq, hserver]
      have hstep : t.runThreadedNetwork = some { t with thread := .checkClient } := by
        rw [runThreadedNetwork, hcheck, hnone]
        rfl
      exact ⟨_, ht.trans (.single hstep), rfl⟩
  | some server =>
      obtain ⟨t, ht, hcall⟩ := reaches_callServer h hexit hserver
      have hthere : t.server = some server := by rw [ht.1.eq, hserver]
      have hstep : t.runThreadedNetwork = some { t with thread := .inServer server.object } := by
        simp only [runThreadedNetwork, hcall, hthere]
      have hback : ({ t with thread := .inServer server.object } :
          NetworkManager).runThreadedNetwork = some { t with thread := .checkClient } := by
        have halive : t.server.map Endpoint.object = some server.object := by
          rw [hthere, Option.map_some]
        change some { ({ t with thread := .inServer server.object } : NetworkManager).touch
          server.object t.server with thread := .checkClient } = _
        rw [touch_of_alive halive]
      exact ⟨_, (ht.trans (.single hstep)).trans (.single hback), rfl⟩

/-- Where there is a client the thread comes to call it. -/
theorem reaches_callClient {client : Endpoint} (h : s.thread ≠ .stopped)
    (hexit : s.exitThread = false) (hclient : s.client = some client) :
    ∃ t, Reaches s t ∧ t.thread = .callClient := by
  obtain ⟨t, ht, hcheck⟩ := reaches_checkClient h hexit
  have hthere : t.client = some client := by rw [ht.1.eq, hclient]
  have hstep : t.runThreadedNetwork = some { t with thread := .callClient } := by
    rw [runThreadedNetwork, hcheck, hthere]
    rfl
  exact ⟨_, ht.trans (.single hstep), rfl⟩

/-- What holds in every run: objects are numbered in the order in which they are made, and the
thread stops only when it is told to. -/
structure Numbered (s : NetworkManager) : Prop where
  server : ∀ server ∈ s.server, server.object < s.next
  client : ∀ client ∈ s.client, client.object < s.next
  serverHandler : ∀ object ∈ s.serverHandler, object < s.next
  clientHandler : ∀ object ∈ s.clientHandler, object < s.next
  thread : s.thread = .stopped → s.exitThread

/-- Every object has a number that has been given out. -/
theorem Replaced.lt {next next' : Nat} {stops : Prop} {e e' : Option Endpoint}
    (h : Replaced next next' stops e e') (hnext : next ≤ next') (he : ∀ x ∈ e, x.object < next) :
    ∀ x ∈ e', x.object < next' := by
  intro x hx
  rcases h with ⟨_, rfl⟩ | ⟨_, rfl | ⟨_, y, rfl, _, hlt⟩⟩
  · cases hx
  · exact (he x hx).trans_le hnext
  · cases hx
    exact hlt

/-- Objects are numbered in the order they are made. -/
theorem Numbered.step {e : Event} (hs : s.Numbered) (hstep : s.step e = some s') :
    s'.Numbered := by
  have h := step_change hstep
  have hobject : ∀ {e : Option Endpoint}, (∀ x ∈ e, x.object < s.next) →
      ∀ object ∈ e.map Endpoint.object, object < s'.next := by
    intro e he object hobject
    obtain ⟨x, hx, rfl⟩ := Option.mem_map.mp hobject
    exact (he x hx).trans_le h.next
  refine ⟨h.server.lt h.next hs.server, h.client.lt h.next hs.client, ?_, ?_, fun hstopped => ?_⟩
  · rcases h.handlers with ⟨heq, _⟩ | ⟨_, heq, _⟩
    · exact fun object hmem => (hs.serverHandler object (heq ▸ hmem)).trans_le h.next
    · rw [heq]
      exact hobject hs.server
  · rcases h.handlers with ⟨_, heq⟩ | ⟨_, _, heq⟩
    · exact fun object hmem => (hs.clientHandler object (heq ▸ hmem)).trans_le h.next
    · rw [heq]
      exact hobject hs.client
  · exact h.exit ((h.thread hstopped).elim hs.thread id)

/-- In every run the objects have numbers that have been given out. -/
theorem numbered_of_run {es : List Event} (hrun : Runs.run step {} es = some s) : s.Numbered :=
  Runs.run_invariant (fun _ _ _ hs hstep => hs.step hstep) hrun
    ⟨fun _ h => (by cases h), fun _ h => (by cases h), fun _ h => (by cases h),
      fun _ h => (by cases h), fun h => (by cases h)⟩

/-- **No stop is safe.**  Whatever the game knows, the network thread may be where a stop of the
server, or of the client, takes away the object that the thread uses in its next step. -/
theorem stop_exposes (es : List Event) (s : NetworkManager) (hrun : Runs.run step {} es = some s)
    (hexit : s.exitThread = false) :
    (s.server.isSome → ∃ k u t, Runs.run step s
      (List.replicate k .thread ++ [.call .stopServer]) = some u ∧ u.step .thread = some t ∧
        u.violations < t.violations) ∧
    (s.client.isSome → ∃ k u t, Runs.run step s
      (List.replicate k .thread ++ [.call .stopClient]) = some u ∧ u.step .thread = some t ∧
        u.violations < t.violations) := by
  have hthread : s.thread ≠ .stopped := by
    intro hstopped
    rw [(numbered_of_run hrun).thread hstopped] at hexit
    cases hexit
  constructor
  · intro hserver
    obtain ⟨server, hserver⟩ := Option.isSome_iff_exists.mp hserver
    obtain ⟨u, ⟨hlater, k, hk⟩, hcall⟩ := reaches_callServer hthread hexit hserver
    have hstays : u.exitThread = false := by rw [hlater.eq, hexit]
    refine ⟨k, u.stopServer, { u.stopServer.violate with thread := .checkClient }, ?_, ?_,
      Nat.lt_succ_self _⟩
    · rw [Runs.run_append_some hk]
      simp [Runs.run, step, call, hstays]
    · simp [step, runThreadedNetwork, stopServer, hcall]
  · intro hclient
    obtain ⟨client, hclient⟩ := Option.isSome_iff_exists.mp hclient
    obtain ⟨u, ⟨hlater, k, hk⟩, hcall⟩ := reaches_callClient hthread hexit hclient
    have hstays : u.exitThread = false := by rw [hlater.eq, hexit]
    refine ⟨k, u.stopClient, { u.stopClient.violate with thread := .loop }, ?_, ?_,
      Nat.lt_succ_self _⟩
    · rw [Runs.run_append_some hk]
      simp [Runs.run, step, call, hstays]
    · simp [step, runThreadedNetwork, stopClient, hcall]

/-- The game plays alone on a listen server. -/
theorem stop_exposes_hosting :
    ∃ s, Runs.run step {} [.call .startHost] = some s ∧
      ((s.server.isSome → ∃ k u t, Runs.run step s
        (List.replicate k .thread ++ [.call .stopServer]) = some u ∧ u.step .thread = some t ∧
          u.violations < t.violations) ∧
      (s.client.isSome → ∃ k u t, Runs.run step s
        (List.replicate k .thread ++ [.call .stopClient]) = some u ∧ u.step .thread = some t ∧
          u.violations < t.violations)) ∧
      s.server.isSome ∧ s.client.isSome := by
  have hrun : ∃ s, Runs.run step {} [.call .startHost] = some s ∧
      s.exitThread = false ∧ s.server.isSome ∧ s.client.isSome := Runs.exists_of_any (by decide)
  obtain ⟨s, hs, hexit, hboth⟩ := hrun
  exact ⟨s, hs, stop_exposes _ s hs hexit, hboth⟩

/-! ## Starting again -/

/-- A pointer after one step, against the object that has a handler. -/
theorem Replaced.heard_iff {next next' object : Nat} {stops : Prop} {e e' : Option Endpoint}
    (h : Replaced next next' stops e e') (hold : object < next) :
    (∃ x ∈ e', object = x.object) ↔ (∃ x ∈ e, object = x.object) ∧ ¬ stops := by
  rcases h with ⟨hstops, rfl⟩ | ⟨hstops, rfl | ⟨rfl, y, rfl, hnew, _⟩⟩
  · simp [hstops]
  · simp [hstops]
  · have hne : object ≠ y.object := by omega
    simp [hne]

/-- One step loses the server's thread exactly if it stops the server. -/
theorem ServerHeard.step_iff {e : Event} (hs : s.Numbered) (hready : s.networkReady)
    (hstep : s.step e = some s') : s'.ServerHeard ↔ s.ServerHeard ∧ ¬ e.stopsServer := by
  have h := step_change hstep
  have hsame : s'.serverHandler = s.serverHandler :=
    h.handlers.elim And.left fun hnot => absurd hready hnot.1
  rw [ServerHeard, ServerHeard, hsame]
  cases hhandler : s.serverHandler with
  | none => simp
  | some object =>
      simp only [Option.some.injEq]
      exact h.server.heard_iff (hs.serverHandler object hhandler)

/-- One step loses the client's thread exactly if it stops the client. -/
theorem ClientHeard.step_iff {e : Event} (hs : s.Numbered) (hready : s.networkReady)
    (hstep : s.step e = some s') : s'.ClientHeard ↔ s.ClientHeard ∧ ¬ e.stopsClient := by
  have h := step_change hstep
  have hsame : s'.clientHandler = s.clientHandler :=
    h.handlers.elim And.right fun hnot => absurd hready hnot.1
  rw [ClientHeard, ClientHeard, hsame]
  cases hhandler : s.clientHandler with
  | none => simp
  | some object =>
      simp only [Option.some.injEq]
      exact h.client.heard_iff (hs.clientHandler object hhandler)

/-- **Networking is enabled once.**  From then on the scenegraph hears a server, or a client, as
long as it is not stopped, and never again one that is started in its place. -/
theorem heard_iff_running (before es : List Event) (s t : NetworkManager)
    (hbefore : Runs.run step {} before = some s) (hready : s.networkReady)
    (hrun : Runs.run step s es = some t) :
    (t.ServerHeard ↔ s.ServerHeard ∧ Runs.Meets step (fun _ e => ¬ e.stopsServer) s es) ∧
      (t.ClientHeard ↔ s.ClientHeard ∧ Runs.Meets step (fun _ e => ¬ e.stopsClient) s es) := by
  have hs : s.Numbered ∧ s.networkReady := ⟨numbered_of_run hbefore, hready⟩
  have hinv : ∀ s e s', (s.Numbered ∧ s.networkReady = true) → step s e = some s' →
      s'.Numbered ∧ s'.networkReady = true := fun s e s' hs hstep =>
    ⟨hs.1.step hstep, (step_change hstep).ready hs.2⟩
  exact ⟨Runs.lasts_iff_meets _ hinv (fun _ _ _ hs hstep => ServerHeard.step_iff hs.1 hs.2 hstep)
      hrun hs,
    Runs.lasts_iff_meets _ hinv (fun _ _ _ hs hstep => ClientHeard.step_iff hs.1 hs.2 hstep)
      hrun hs⟩

/-- A listen server is stopped and another one is started. -/
def restarting : List Event :=
  [.call .stopHost, .call .startHost, .call .enableNetworking]

/-- A server that is stopped and started again is heard no more. -/
theorem heard_iff_running_restarting :
    ∃ s t, Runs.run step {} [.call .startHost, .call .enableNetworking] = some s ∧
      Runs.run step s restarting = some t ∧
      ((t.ServerHeard ↔ s.ServerHeard ∧
          Runs.Meets step (fun _ e => ¬ e.stopsServer) s restarting) ∧
        (t.ClientHeard ↔ s.ClientHeard ∧
          Runs.Meets step (fun _ e => ¬ e.stopsClient) s restarting)) ∧
      s.ServerHeard ∧ t.server.isSome ∧ ¬ t.ServerHeard := by
  have hrun : ∃ s, Runs.run step {} [.call .startHost, .call .enableNetworking] = some s ∧
      s.networkReady ∧ s.ServerHeard ∧ (Runs.run step s restarting).any
        (fun t => t.server.isSome ∧ ¬ t.ServerHeard) := Runs.exists_of_any (by decide)
  obtain ⟨s, hs, hready, hheard, hany⟩ := hrun
  obtain ⟨t, ht, hsome, hnot⟩ := Runs.exists_of_any hany
  exact ⟨s, t, hs, ht, heard_iff_running _ restarting s t hs hready ht, hheard, hsome, hnot⟩

/-! ## The kinds of processes -/

/-- What kind of process the pointers make this one. -/
def role (s : NetworkManager) : Option Role :=
  match s.server, s.client with
  | some { partner := some _, .. }, some { partner := some _, .. } => some .host
  | some { partner := none, .. }, none => some .server
  | none, some { partner := none, .. } => some .client
  | _, _ => none

/-- No server is started beside a client, which only `startHost` and `startClient` assert. -/
def StartsAlone (s : NetworkManager) : Event → Prop
  | .call .startServer => s.client = none
  | _ => True

/-- Only the halves of a listen server share a process. -/
structure Apart (s : NetworkManager) : Prop where
  server : ∀ server ∈ s.server, server.partner = none → s.client = none
  client : ∀ client ∈ s.client, client.partner = none → s.server = none

/-- Only the pointers matter. -/
theorem Apart.of_eq (hs : s.Apart) (hserver : s'.server = s.server)
    (hclient : s'.client = s.client) :
    s'.Apart := by
  refine ⟨?_, ?_⟩
  · rw [hserver, hclient]
    exact hs.server
  · rw [hserver, hclient]
    exact hs.client

/-- A start that is alone keeps server and client apart. -/
theorem Apart.step (hs : s.Apart) (hsound : s.Sound) {e : Event} (halone : s.StartsAlone e)
    (hstep : s.step e = some s') : s'.Apart := by
  cases e with
  | thread =>
      have hlater := runThreadedNetwork_later hstep
      exact hs.of_eq (by rw [hlater.eq]) (by rw [hlater.eq])
  | listen =>
      rw [NetworkManager.step] at hstep
      split at hstep
      · cases hstep
        exact hs.of_eq rfl rfl
      · cases hstep
  | exit =>
      rw [NetworkManager.step] at hstep
      split at hstep
      · cases hstep
      · cases hstep
        exact hs.of_eq rfl rfl
  | destroy =>
      rw [NetworkManager.step] at hstep
      split at hstep
      · cases hstep
        exact ⟨fun _ h => (by cases h), fun _ h => (by cases h)⟩
      · cases hstep
  | call c =>
      rw [NetworkManager.step] at hstep
      split at hstep
      · cases hstep
      cases c with
      | startHost =>
          rw [call] at hstep
          split at hstep
          · cases hstep
            refine ⟨fun _ h hnone => ?_, fun _ h hnone => ?_⟩
            · cases h
              cases hnone
            · cases h
              cases hnone
          · cases hstep
      | startServer =>
          have hclient : s.client = none := halone
          rw [call] at hstep
          split at hstep
          · cases hstep
            refine ⟨fun _ _ _ => hclient, fun client h _ => ?_⟩
            have hthere : s.client = some client := h
            rw [hclient] at hthere
            cases hthere
          · cases hstep
      | startClient =>
          rw [call] at hstep
          split at hstep
          · next hnone =>
            cases hstep
            refine ⟨fun server h _ => ?_, fun _ _ _ => hnone.1⟩
            have hthere : s.server = some server := h
            rw [hnone.1] at hthere
            cases hthere
          · cases hstep
      | stopServer =>
          cases hstep
          exact ⟨fun _ h => (by cases h), fun _ _ _ => rfl⟩
      | stopClient =>
          cases hstep
          exact ⟨fun _ _ _ => rfl, fun _ h => (by cases h)⟩
      | stopHost =>
          cases hstep
          exact ⟨fun _ _ _ => rfl, fun _ h => (by cases h)⟩
      | enableNetworking =>
          cases hstep
          rw [enableNetworking]
          split
          · exact hs
          · split
            · exact hs
            · exact hs.of_eq rfl rfl
      | announce =>
          cases hstep
          rwa [hsound.announce_eq]
      | callRPC connected =>
          cases hstep
          rwa [hsound.callRPC_eq]
      | update answers due others connected sends =>
          cases hstep
          rwa [hsound.update_eq]

/-- What the tests of the two pointers say in a process of each kind. -/
theorem role_eq (hs : s.Apart) (hsound : s.Sound) (h : s.server.isSome ∨ s.client.isSome) :
    ∃ role, s.role = some role ∧ (s.server.isSome ↔ role ≠ .client) ∧
      (s.client.isSome ↔ role ≠ .server) := by
  cases hserver : s.server with
  | none =>
      cases hclient : s.client with
      | none => simp [hserver, hclient] at h
      | some client =>
          obtain ⟨object, partner⟩ := client
          cases partner with
          | none => exact ⟨.client, by rw [role, hserver, hclient], by simp, by simp⟩
          | some server =>
              have hthere := hsound.clientPartner _ hclient _ rfl
              rw [hserver] at hthere
              cases hthere
  | some server =>
      obtain ⟨object, partner⟩ := server
      cases partner with
      | none =>
          have hclient := hs.server _ hserver rfl
          exact ⟨.server, by rw [role, hserver, hclient], by simp, by simp [hclient]⟩
      | some client =>
          have hthere := hsound.serverPartner _ hserver _ rfl
          obtain ⟨⟨object', partner'⟩, hclient, _⟩ := Option.map_eq_some_iff.mp hthere
          cases partner' with
          | none =>
              have hnone := hs.client _ hclient rfl
              rw [hserver] at hnone
              cases hnone
          | some server => exact ⟨.host, by rw [role, hserver, hclient], by simp, by simp [hclient]⟩

/-- **The kinds of processes.**  Where each step is careful and no server is started beside a
client, what runs makes the process a listen server, a dedicated server or a remote client, and a
test of one of the pointers is a test of that. -/
theorem role_of_careful (es : List Event) (t : NetworkManager)
    (hmeets : Runs.Meets step (fun s e => s.Careful e ∧ s.StartsAlone e) {} es)
    (hrun : Runs.run step {} es = some t) (h : t.server.isSome ∨ t.client.isSome) :
    ∃ role, t.role = some role ∧ (t.server.isSome ↔ role ≠ .client) ∧
      (t.client.isSome ↔ role ≠ .server) := by
  have hstart : Apart {} ∧ Sound {} :=
    ⟨⟨fun _ h => (by cases h), fun _ h => (by cases h)⟩, sound_start⟩
  have hone : ∀ s e s', (s.Apart ∧ s.Sound) → (s.Careful e ∧ s.StartsAlone e) →
      step s e = some s' → s'.Apart ∧ s'.Sound := fun s e s' hs hok hstep =>
    ⟨hs.1.step hs.2 hok.2 hstep, (hs.2.step_iff hstep).mpr hok.1⟩
  have hend : t.Apart ∧ t.Sound := Runs.run_invariant_of_meets hone hmeets hrun hstart
  exact role_eq hend.1 hend.2 h

end

end NetworkManager

end EnkiNet
