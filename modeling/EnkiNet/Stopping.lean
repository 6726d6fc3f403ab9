import EnkiNet.ClientObjects

/-!
# Stopping a server

`stop_listening` deletes the objects whose connection is still in the event queue, and then those
that are connected.  An object is never both, and each is in one of the two once; what is in
neither has been deleted by the consumer, or is in its hands.
-/

namespace EnkiNet

open ByteStore Packet Channels

namespace EnetServer

variable {s s' : EnetServer} {client : Nat} {id : ClientID}


/-- The objects whose connection is still among the events. -/
def unborn (events : List (Nat × EventType)) : List Nat :=
  events.filterMap fun (client, type) => if type = .connect then some client else none

theorem mem_unborn {events : List (Nat × EventType)} :
    client ∈ unborn events ↔ (client, .connect) ∈ events := by
  simp only [unborn, List.mem_filterMap]
  constructor
  · rintro ⟨⟨c, type⟩, hmem, hc⟩
    obtain ⟨rfl, hc⟩ := Option.ite_none_right_eq_some.mp hc
    cases hc
    exact hmem
  · intro hmem
    exact ⟨(client, .connect), hmem, if_pos rfl⟩

theorem unborn_append (events events' : List (Nat × EventType)) :
    unborn (events ++ events') = unborn events ++ unborn events' :=
  List.filterMap_append

/-- Each object connects once, and the consumer does not know it before. -/
theorem nodup_unborn {start finish : Nat → Stage} {events : List (Nat × EventType)}
    (h : Follows Stage.advance start finish events) :
    (unborn events).Nodup ∧ ∀ c ∈ unborn events, start c = .fresh := by
  induction events generalizing start with
  | nil => exact ⟨List.nodup_nil, by simp [unborn]⟩
  | cons e rest ih =>
      obtain ⟨client, type⟩ := e
      obtain ⟨t, ht, hrest⟩ := h.pop
      obtain ⟨hnodup, hfresh⟩ := ih hrest
      have hne : t ≠ .fresh := by
        rintro rfl
        cases hs : start client <;> cases type <;> rw [hs] at ht <;> cases ht
      have hlater : ∀ c ∈ unborn rest, c ≠ client ∧ start c = .fresh := by
        intro c hc
        have hupdate := hfresh c hc
        by_cases heq : c = client
        · subst heq
          rw [Function.update_self] at hupdate
          exact absurd hupdate hne
        · rw [Function.update_of_ne heq] at hupdate
          exact ⟨heq, hupdate⟩
      by_cases htype : type = .connect
      · subst htype
        have hcons : unborn ((client, .connect) :: rest) = client :: unborn rest :=
          List.filterMap_cons_some (if_pos rfl)
        rw [hcons]
        refine ⟨List.nodup_cons.mpr ⟨fun hmem => (hlater client hmem).1 rfl, hnodup⟩, ?_⟩
        intro c hc
        rcases List.mem_cons.mp hc with rfl | hc
        · exact (advance_connect ht).1
        · exact (hlater c hc).2
      · have hcons : unborn ((client, type) :: rest) = unborn rest :=
          List.filterMap_cons_none (if_neg htype)
        rw [hcons]
        exact ⟨hnodup, fun c hc => (hlater c hc).2⟩

/-- An object that the worker has made and the consumer does not know. -/
theorem mem_unborn_of_fresh {start finish : Nat → Stage} {events : List (Nat × EventType)}
    (h : Follows Stage.advance start finish events) (hstart : start client = .fresh)
    (hfinish : finish client ≠ .fresh) : client ∈ unborn events := by
  have hrun := h client
  rw [hstart] at hrun
  rcases hms : about client events with _ | ⟨m, ms⟩
  · rw [hms] at hrun
    exact absurd (Option.some.inj hrun).symm hfinish
  · rw [hms] at hrun
    obtain ⟨t, hm, _⟩ := Runs.run_cons_some hrun
    have hconnect : m = .connect := by
      cases m
      · rfl
      · cases hm
      · cases hm
    rw [mem_unborn, ← mem_about, hms, hconnect]
    exact List.mem_cons_self

/-- A loop that deletes objects which are there. -/
theorem foldl_deleteClient (cs : List Nat) (hnodup : cs.Nodup)
    (halive : ∀ c ∈ cs, ∃ id, s.getID c = some id) :
    ∃ clients, cs.foldl deleteClient s = { s with clients := clients } ∧
      ∀ c, ({ s with clients := clients } : EnetServer).getID c =
        if c ∈ cs then none else s.getID c := by
  induction cs generalizing s with
  | nil => exact ⟨s.clients, rfl, by simp⟩
  | cons c cs ih =>
      obtain ⟨id, hid⟩ := halive c List.mem_cons_self
      obtain ⟨hnotin, hnodup'⟩ := List.nodup_cons.mp hnodup
      have hget : ∀ c', ({ s with clients := s.clients.set c none } : EnetServer).getID c' =
          if c' = c then none else s.getID c' := by
        intro c'
        by_cases hc : c' = c
        · subst hc
          have hlt := (List.getElem?_eq_some_iff.mp (getID_eq_some.mp hid)).1
          simp [getID, hlt]
        · simp [getID, List.getElem?_set_ne (Ne.symm hc), hc]
      have halive' : ∀ c' ∈ cs, ∃ id,
          ({ s with clients := s.clients.set c none } : EnetServer).getID c' = some id := by
        intro c' hc'
        have hne : c' ≠ c := by
          rintro rfl
          exact hnotin hc'
        rw [hget, if_neg hne]
        exact halive c' (List.mem_cons_of_mem _ hc')
      obtain ⟨clients, hloop, hafter⟩ := ih hnodup' halive'
      refine ⟨clients, ?_, fun c' => ?_⟩
      · rw [List.foldl_cons, deleteClient_of_alive hid, hloop]
      · have hafter' := hafter c'
        rw [hget] at hafter'
        refine hafter'.trans ?_
        by_cases hmem : c' ∈ cs
        · simp [hmem]
        · by_cases hc : c' = c
          · simp [hc]
          · simp [hmem, hc]

theorem foldl_destroyUnhandledEventData (events : List (Nat × EventType)) :
    events.foldl destroyUnhandledEventData s = (unborn events).foldl deleteClient s := by
  induction events generalizing s with
  | nil => rfl
  | cons e rest ih =>
      obtain ⟨client, type⟩ := e
      cases type <;> exact ih

theorem sending_destroyPackets (qps : List QueuedPacket) :
    Sending s (qps.foldl (fun s qp => s.destroyPacket qp.packet) s) := by
  induction qps generalizing s with
  | nil => exact .refl s
  | cons qp qps ih => exact (sending_destroyPacket qp.packet).trans ih

/-- The last two loops of `stop_listening`. -/
theorem stop_objects {stage : Nat → Stage}
    (hfollows : Follows Stage.advance s.consumerStage stage s.ahead)
    (hmade : ∀ c, stage c = .fresh ↔ s.clients.length ≤ c) (hnodup : s.connectedClients.Nodup)
    (halive : ∀ c ∈ s.connectedClients, ∃ id, s.getID c = some id)
    (hevents : ∀ c type, (c, type) ∈ s.ahead → ∃ id, s.getID c = some id) :
    ∃ clients,
      (s.eventQueue.foldl destroyUnhandledEventData s).connectedClients.foldl deleteClient
        { s.eventQueue.foldl destroyUnhandledEventData s with eventQueue := [] } =
          { s with clients := clients, eventQueue := [] } ∧
      ∀ c, (∃ id, ({ s with clients := clients } : EnetServer).getID c = some id) ↔
        (c, .connect) ∈ s.eventQueueCopy := by
  obtain ⟨hunborn, hfresh⟩ := nodup_unborn hfollows
  have hparts : unborn s.ahead = unborn s.eventQueueCopy ++ unborn s.eventQueue :=
    unborn_append _ _
  rw [hparts] at hunborn hfresh
  obtain ⟨_, hqueue, hdisjoint⟩ := List.nodup_append.mp hunborn
  have hnotlisted : ∀ c ∈ unborn s.eventQueueCopy ++ unborn s.eventQueue,
      c ∉ s.connectedClients := fun c hc => (consumerStage_eq_fresh (hfresh c hc)).1
  obtain ⟨clients₁, hloop₁, hafter₁⟩ := foldl_deleteClient (unborn s.eventQueue) hqueue
    fun c hc => hevents c .connect (List.mem_append_right _ (mem_unborn.mp hc))
  have halive₁ : ∀ c ∈ s.connectedClients, ∃ id,
      ({ s with clients := clients₁, eventQueue := [] } : EnetServer).getID c = some id := by
    intro c hc
    have hne : c ∉ unborn s.eventQueue := fun hmem => hnotlisted c (List.mem_append_right _ hmem) hc
    obtain ⟨id, hid⟩ := halive c hc
    exact ⟨id, ((hafter₁ c).trans (if_neg hne)).trans hid⟩
  obtain ⟨clients₂, hloop₂, hafter₂⟩ := foldl_deleteClient s.connectedClients hnodup halive₁
  refine ⟨clients₂, ?_, fun c => ?_⟩
  · rw [foldl_destroyUnhandledEventData, hloop₁]
    exact hloop₂
  · have hend : ({ s with clients := clients₂ } : EnetServer).getID c =
        if c ∈ s.connectedClients then none else
          if c ∈ unborn s.eventQueue then none else s.getID c := by
      have h₁ := hafter₁ c
      have h₂ := hafter₂ c
      refine h₂.trans ?_
      congr 1
    rw [hend]
    constructor
    · rintro ⟨id, hid⟩
      obtain ⟨hlisted, hid⟩ := Option.ite_none_left_eq_some.mp hid
      obtain ⟨hqueued, hid⟩ := Option.ite_none_left_eq_some.mp hid
      have hstage : s.consumerStage c = .fresh := by
        rw [consumerStage_of_alive hid, if_neg hlisted]
      have hlt := (List.getElem?_eq_some_iff.mp (getID_eq_some.mp hid)).1
      have hmem := mem_unborn_of_fresh hfollows hstage (fun h => absurd ((hmade c).mp h) (by omega))
      rw [hparts] at hmem
      exact mem_unborn.mp ((List.mem_append.mp hmem).resolve_right hqueued)
    · intro hmem
      have hcopy := mem_unborn.mpr hmem
      have hlisted := hnotlisted c (List.mem_append_left _ hcopy)
      have hqueued : c ∉ unborn s.eventQueue := fun h => hdisjoint c hcopy c h rfl
      rw [if_neg hlisted, if_neg hqueued]
      exact hevents c .connect (List.mem_append_left _ hmem)

theorem stop_of_lifelines (h : Lifelines s) :
    (∀ v ∈ s.stopListening.violations, v ≠ .deletedClient) ∧
      (∀ c, (∃ id, s.stopListening.getID c = some id) ↔ (c, .connect) ∈ s.eventQueueCopy) ∧
      s.stopListening.connectedClients = [] ∧ s.stopListening.eventQueue = [] ∧
      s.stopListening.packetQueue = [] := by
  obtain ⟨stage, hstage, hfollows⟩ := h.follows
  have hsending := sending_destroyPackets (s := s.disconnectAllPeers) s.packetQueue
  obtain ⟨new, hnew, hall⟩ := hsending.violations
  generalize ht : s.packetQueue.foldl (fun s qp => s.destroyPacket qp.packet) s.disconnectAllPeers =
    t at hsending hnew
  have hclients : t.clients = s.clients := by rw [hsending.eq]; rfl
  have hconnected : t.connectedClients = s.connectedClients := by rw [hsending.eq]; rfl
  have hcopy : t.eventQueueCopy = s.eventQueueCopy := by rw [hsending.eq]; rfl
  have hqueue : t.eventQueue = s.eventQueue := by rw [hsending.eq]; rfl
  have hconsumer : ({ t with packetQueue := [] } : EnetServer).consumerStage = s.consumerStage := by
    funext c
    rw [consumerStage, consumerStage, hclients, hconnected]
  have hahead : ({ t with packetQueue := [] } : EnetServer).ahead = s.ahead := by
    rw [ahead, ahead, hcopy, hqueue]
  have hfollows' : Follows Stage.advance ({ t with packetQueue := [] } : EnetServer).consumerStage
      stage ({ t with packetQueue := [] } : EnetServer).ahead := by
    rw [hconsumer, hahead]
    exact hfollows
  obtain ⟨clients, hloops, hafter⟩ := stop_objects hfollows'
    (by rw [hclients]; exact hstage.fresh) (by rw [hconnected]; exact h.nodup)
    (fun c hc => by
      obtain ⟨id, hid⟩ := h.alive c (hconnected ▸ hc)
      exact ⟨id, (getID_congr hclients).trans hid⟩)
    (fun c type hmem => by
      obtain ⟨id, hid⟩ := h.alive_of_event (hahead ▸ hmem)
      exact ⟨id, (getID_congr hclients).trans hid⟩)
  have hstop : s.stopListening =
      { t with packetQueue := [], clients := clients, eventQueue := [], connectedClients :=
        [] } := by
    simp only [stopListening]
    rw [show s.disconnectAllPeers.packetQueue = s.packetQueue from rfl, ht]
    exact congrArg (fun u : EnetServer => { u with connectedClients := [] }) hloops
  rw [hstop]
  refine ⟨?_, ?_, rfl, rfl, rfl⟩
  · rw [hnew]
    intro v hv
    rcases List.mem_append.mp hv with hv | hv
    · rcases h.violations v hv with rfl | rfl | rfl
      · decide
      · decide
      · decide
    · rw [hall v hv]
      decide
  · intro c
    rw [← hcopy]
    exact hafter c

/-- **Stopping deletes each client object once.**  Whatever the threads have done, `stop_listening`
deletes no object that was deleted before and leaves precisely those whose connection
`consume_events` has taken out of the queue but not handled; where no such call is under way nothing
is left, and what the destructor asserts holds. -/
theorem stop_deletes_each_once (kind : ServerKind) (accepts : Nat → UInt8 → List Byte → Bool)
    (es : List Event) (s : EnetServer) (hrun : Runs.run (step kind accepts) {} es = some s) :
    (∀ v ∈ s.stopListening.violations, v ≠ .deletedClient) ∧
      (∀ c, (∃ id, s.stopListening.getID c = some id) ↔ (c, .connect) ∈ s.eventQueueCopy) ∧
      s.stopListening.connectedClients = [] ∧ s.stopListening.eventQueue = [] ∧
      s.stopListening.packetQueue = [] :=
  stop_of_lifelines (lifelines_run hrun)

/-- Three clients, of which `consume_events` has handled the first and is about to handle the
second. -/
def halfConsumed : List Event :=
  [.connect 0 5, .connect 1 5, .takeEvents, .handleEvent 6 7, .connect 2 8]

theorem stop_deletes_each_once_halfConsumed :
    ∃ s, Runs.run (step .host fun _ _ _ => true) {} halfConsumed = some s ∧
      s.stopListening.clients = [none, some 3, none] ∧
      (∀ v ∈ s.stopListening.violations, v ≠ .deletedClient) ∧
      ∃ id, s.stopListening.getID 1 = some id := by
  have hclients : (Runs.run (step .host fun _ _ _ => true) {} halfConsumed).map
      (fun s => (s.stopListening.clients, s.eventQueueCopy)) =
        some ([none, some 3, none], [(1, .connect)]) := by decide +kernel
  obtain ⟨s, hrun, hs⟩ := Option.map_eq_some_iff.mp hclients
  obtain ⟨hclients', hcopy⟩ := Prod.mk.inj hs
  have hstop := stop_deletes_each_once .host (fun _ _ _ => true) halfConsumed s hrun
  exact ⟨s, hrun, hclients', hstop.1,
    (hstop.2.1 1).mpr (by rw [hcopy]; exact List.mem_singleton_self _)⟩

end EnetServer

end EnkiNet
