import EnkiNet.ClientEvents

/-!
# Who owns a client's outgoing packets

A packet of `send_packet` is in the queue until the worker hands it to ENet or destroys it, and ENet
destroys what it has been handed.  `Owned queue s` is that the entries of `queue` are precisely the
packets that nobody else owns; the two loops that empty the queue take it from one entry to the
next.  So no packet is destroyed twice, and when `disconnect` has come to its end each has been
destroyed (`packets_owned`), although `send_packet` can put one into the queue after
`consume_events` has emptied it.

On a connection that is up and stays up ENet is handed all that the game sends, in its order
(`requests_in_order`).
-/

namespace EnkiNet

open ByteStore Packet

namespace EnetClient

variable {s s' : EnetClient}

/-- The packets of the queue are the ones that are neither destroyed nor ENet's. -/
structure Owned (queue : List Nat) (s : EnetClient) : Prop where
  safe : s.misused = false
  nodup : queue.Nodup
  stored : ∀ k ∈ queue, ∃ data, s.packets[k]? = some { data }
  settled : ∀ k p, s.packets[k]? = some p → k ∉ queue → p.destroyed = true ∨ p.referenceCount ≠ 0

/-- ENet has packets only while the worker is there. -/
structure Kept (s : EnetClient) : Prop where
  owned : Owned (s.packetQueue.map Prod.snd) s
  ended : s.worker = .ended → ∀ p ∈ s.packets, p.referenceCount = 0

/-- A client starts with no packets. -/
theorem kept_initial : Kept {} where
  owned := ⟨rfl, List.nodup_nil, by simp, by simp⟩
  ended := by simp

/-- Ownership is about the packets and the misuses only. -/
theorem Owned.of_eq {queue : List Nat} (h : Owned queue s) (hpackets : s'.packets = s.packets)
    (hmisused : s'.misused = s.misused) : Owned queue s' :=
  ⟨hmisused.trans h.safe, h.nodup, hpackets ▸ h.stored, hpackets ▸ h.settled⟩

/-- The first packet of the queue finds another owner, or its end. -/
theorem Owned.set {k : Nat} {queue : List Nat} (h : Owned (k :: queue) s) {p : ENetPacket}
    (hp : p.destroyed = true ∨ p.referenceCount ≠ 0)
    (hpackets : s'.packets = s.packets.set k p) (hmisused : s'.misused = s.misused) :
    Owned queue s' := by
  obtain ⟨hnot, hnodup⟩ := List.nodup_cons.mp h.nodup
  refine ⟨hmisused.trans h.safe, hnodup, fun j hj => ?_, fun j q hq hj => ?_⟩
  · have hne : k ≠ j := by
      rintro rfl
      exact hnot hj
    rw [hpackets, List.getElem?_set_ne hne]
    exact h.stored j (List.mem_cons_of_mem _ hj)
  · rw [hpackets] at hq
    by_cases heq : k = j
    · subst heq
      obtain ⟨hlt, hsame⟩ := List.getElem?_eq_some_iff.mp hq
      rw [List.getElem_set_self] at hsame
      exact hsame ▸ hp
    · rw [List.getElem?_set_ne heq] at hq
      refine h.settled j q hq fun hmem => ?_
      rcases List.mem_cons.mp hmem with rfl | hmem
      · exact heq rfl
      · exact hj hmem

/-- A packet that is still whole is destroyed without misuse. -/
theorem destroyPacket_eq {k : Nat} {data : List Byte} (h : s.packets[k]? = some { data }) :
    s.destroyPacket k =
      { s with packets := s.packets.set k { data, referenceCount := 0, destroyed := true } } := by
  simp only [destroyPacket, h]

/-- Destroying the first packet of a queue leaves the others owned. -/
theorem Owned.destroy {k : Nat} {queue : List Nat} (h : Owned (k :: queue) s) :
    Owned queue (s.destroyPacket k) := by
  obtain ⟨data, hdata⟩ := h.stored k List.mem_cons_self
  rw [destroyPacket_eq hdata]
  exact h.set (Or.inl rfl) rfl rfl

/-- `destroy_all_queued_packets`. -/
theorem Owned.destroyAll {qps : List (UInt8 × Nat)} (h : Owned (qps.map Prod.snd) s) :
    Owned [] (qps.foldl (fun s qp => s.destroyPacket qp.2) s) := by
  induction qps generalizing s with
  | nil => exact h
  | cons qp qps ih => exact ih h.destroy

/-- Sending the first packet of a queue hands it over or destroys it. -/
theorem Owned.send (accepts : UInt8 → List Byte → Bool) {qp : UInt8 × Nat} {queue : List Nat}
    (h : Owned (qp.2 :: queue) s) : Owned queue (s.sendQueuedPacket accepts qp) := by
  obtain ⟨data, hdata⟩ := h.stored qp.2 List.mem_cons_self
  simp only [sendQueuedPacket, hdata]
  split
  · exact h.set (Or.inr (by simp)) rfl rfl
  · exact h.destroy

/-- Sending the whole queue leaves nothing to own. -/
theorem Owned.sendAll (accepts : UInt8 → List Byte → Bool) {qps : List (UInt8 × Nat)}
    (h : Owned (qps.map Prod.snd) s) : Owned [] (qps.foldl (sendQueuedPacket accepts) s) := by
  induction qps generalizing s with
  | nil => exact h
  | cons qp qps ih => exact ih (h.send accepts)

/-- Sending fills no queue. -/
theorem packetQueue_foldl (accepts : UInt8 → List Byte → Bool) (qps : List (UInt8 × Nat))
    (h : s.packetQueue = []) : (qps.foldl (sendQueuedPacket accepts) s).packetQueue = [] := by
  induction qps generalizing s with
  | nil => exact h
  | cons qp qps ih =>
      refine ih ?_
      unfold sendQueuedPacket destroyPacket
      split
      · split
        · exact h
        · split
          · split <;> exact h
          · exact h
      · exact h

/-- With its host, ENet gives up its packets. -/
theorem Owned.endWorker {queue : List Nat} (h : Owned queue s) : Owned queue s.endWorker := by
  refine ⟨h.safe, h.nodup, fun k hk => ?_, fun k p hp hk => ?_⟩
  · obtain ⟨data, hdata⟩ := h.stored k hk
    exact ⟨data, by simp [EnetClient.endWorker, hdata]⟩
  · simp only [EnetClient.endWorker, List.getElem?_map, Option.map_eq_some_iff] at hp
    obtain ⟨q, hq, rfl⟩ := hp
    split
    · exact h.settled k q hq hk
    · exact Or.inl rfl

/-- A worker that ends destroys what it still owns. -/
theorem Kept.endWorker (h : Owned (s.packetQueue.map Prod.snd) s) : Kept s.endWorker where
  owned := h.endWorker
  ended _ p hp := by
    obtain ⟨q, _, rfl⟩ := List.mem_map.mp hp
    split
    · next hzero => exact hzero
    · rfl

/-- The counts of destroyed packets do not matter. -/
theorem referenceCount_destroyPacket (h : ∀ p ∈ s.packets, p.referenceCount = 0) (k : Nat) :
    ∀ p ∈ (s.destroyPacket k).packets, p.referenceCount = 0 := by
  unfold destroyPacket
  split
  · next data n hp =>
    intro p hmem
    rcases List.mem_or_eq_of_mem_set hmem with hmem | rfl
    · exact h p hmem
    · have hsame := h _ (List.mem_of_getElem? hp)
      exact hsame
  · exact h

/-- Destroying raises no reference count. -/
theorem referenceCount_destroyAll (h : ∀ p ∈ s.packets, p.referenceCount = 0)
    (qps : List (UInt8 × Nat)) :
    ∀ p ∈ (qps.foldl (fun s qp => s.destroyPacket qp.2) s).packets, p.referenceCount = 0 := by
  induction qps generalizing s with
  | nil => exact h
  | cons qp qps ih => exact ih (referenceCount_destroyPacket h qp.2)

/-- **What `disconnect` leaves.** -/
theorem Kept.disconnect (h : Kept s) : Kept s.disconnect ∧
    (s.worker = .ended → ∀ p ∈ s.disconnect.packets, p.destroyed = true) := by
  have hbegin : Owned (s.packetQueue.map Prod.snd)
      { s with thread := false, shouldExitThread := true } := h.owned.of_eq rfl rfl
  have hafter := hbegin.destroyAll
  have hworker : s.disconnect.worker = s.worker := by
    rw [disconnect_eq]
  have hcounts : s.worker = .ended → ∀ p ∈ s.disconnect.packets, p.referenceCount = 0 :=
    fun hended => referenceCount_destroyAll
      (s := { s with thread := false, shouldExitThread := true }) (h.ended hended) s.packetQueue
  refine ⟨⟨hafter.of_eq rfl rfl, fun hended => hcounts (hworker ▸ hended)⟩, fun hended p hp => ?_⟩
  obtain ⟨k, hk⟩ := List.mem_iff_getElem?.mp hp
  exact (hafter.settled k p hk (List.not_mem_nil)).resolve_right
    fun hne => hne (hcounts hended p hp)

/-- Only the packets, the queue and the end of the worker matter. -/
theorem Kept.of_eq (h : Kept s) (hpackets : s'.packets = s.packets)
    (hqueue : s'.packetQueue = s.packetQueue) (hmisused : s'.misused = s.misused)
    (hworker : s'.worker = .ended → s.worker = .ended) : Kept s' :=
  ⟨hqueue ▸ h.owned.of_eq hpackets hmisused, fun hended => hpackets ▸ h.ended (hworker hended)⟩

/-- A new packet. -/
theorem Kept.push (h : Kept s) (channel : UInt8) (data : List Byte) :
    Kept { s with
      sending := false
      packets := s.packets ++ [{ data := data }]
      packetQueue := s.packetQueue ++ [(channel, s.packets.length)] } where
  owned := by
    have hold : ∀ k ∈ s.packetQueue.map Prod.snd, k < s.packets.length := by
      intro k hk
      obtain ⟨_, hp⟩ := h.owned.stored k hk
      exact (List.getElem?_eq_some_iff.mp hp).1
    refine ⟨h.owned.safe, ?_, fun k hk => ?_, fun k p hp hk => ?_⟩
    · rw [List.map_append, List.map_singleton]
      refine List.nodup_append.mpr ⟨h.owned.nodup, List.nodup_singleton _, ?_⟩
      intro k hk j hj heq
      rw [List.mem_singleton.mp hj] at heq
      exact absurd (hold k hk) (by omega)
    · rw [List.map_append, List.mem_append] at hk
      rcases hk with hk | hk
      · obtain ⟨d, hd⟩ := h.owned.stored k hk
        exact ⟨d, by rw [List.getElem?_append_left (hold k hk)]; exact hd⟩
      · rw [List.map_singleton, List.mem_singleton] at hk
        subst hk
        exact ⟨data, List.getElem?_concat_length⟩
    · rw [List.map_append, List.mem_append, not_or] at hk
      by_cases hlt : k < s.packets.length
      · rw [List.getElem?_append_left hlt] at hp
        exact h.owned.settled k p hp hk.1
      · have hlt' := (List.getElem?_eq_some_iff.mp hp).1
        rw [List.length_append, List.length_singleton] at hlt'
        exact absurd (List.mem_singleton.mpr (by omega)) hk.2
  ended hended p hp := by
    rcases List.mem_append.mp hp with hp | hp
    · exact h.ended hended p hp
    · rw [List.mem_singleton.mp hp]

section
variable {accepts : UInt8 → List Byte → Bool}

/-- The transport lets go of packets that nobody else owns. -/
theorem Kept.release (h : Kept s) {packet : Nat} (hrelease : s.release packet = some s') :
    Kept s' := by
  unfold EnetClient.release at hrelease
  split at hrelease
  · next data n hp =>
    cases hrelease
    have hnot : packet ∉ s.packetQueue.map Prod.snd := by
      intro hmem
      obtain ⟨d, hd⟩ := h.owned.stored packet hmem
      rw [hp] at hd
      cases hd
    refine ⟨⟨h.owned.safe, h.owned.nodup, fun k hk => ?_, fun k p hk hnotin => ?_⟩,
      fun hended => ?_⟩
    · have hne : packet ≠ k := by
        rintro rfl
        exact hnot hk
      obtain ⟨d, hd⟩ := h.owned.stored k hk
      exact ⟨d, by rw [List.getElem?_set_ne hne]; exact hd⟩
    · by_cases heq : packet = k
      · subst heq
        obtain ⟨hlt, hsame⟩ := List.getElem?_eq_some_iff.mp hk
        rw [List.getElem_set_self] at hsame
        subst hsame
        by_cases hzero : n = 0
        · exact Or.inl (decide_eq_true hzero)
        · exact Or.inr hzero
      · rw [List.getElem?_set_ne heq] at hk
        exact h.owned.settled k p hk hnotin
    · exact absurd (h.ended hended _ (List.mem_of_getElem? hp)) (by simp)
  · cases hrelease

/-! ## The steps and the packets -/

/-- A step that leaves the outgoing packets alone. -/
structure Incoming (e : Event) (s s' : EnetClient) : Prop where
  packets_eq : s'.packets = s.packets
  queue_eq : s'.packetQueue = s.packetQueue
  sent_eq : s'.sent = s.sent
  misused_eq : s'.misused = s.misused
  ended : s'.worker = .ended → s.worker = .ended
  left : s.worker.left = true → s'.worker.left = true
  link_eq : e ≠ .connect → e ≠ .lose → s'.link = s.link
  unasked : ∀ channel data, e ≠ .sendPacket channel data

/-- What a step does with the outgoing packets, if anything. -/
inductive OutgoingStep (accepts : UInt8 → List Byte → Bool) (s : EnetClient) :
    Event → EnetClient → Prop
  | incoming {e : Event} {s' : EnetClient} (h : Incoming e s s') : OutgoingStep accepts s e s'
  | notMade : OutgoingStep accepts s (.start false) s.endWorker
  | ended : OutgoingStep accepts s .destroyHost s.endWorker
  | sent (hworker : s.worker = .running) :
      OutgoingStep accepts s .sendQueuedPackets (s.sendQueuedPackets accepts)
  | released {packet : Nat} {s' : EnetClient} (h : s.release packet = some s') :
      OutgoingStep accepts s (.release packet) s'
  | disconnected (h : s.isDisconnected = some true) :
      OutgoingStep accepts s .finishEvents { s.disconnect with isDisconnected := none }
  | queued (channel : UInt8) (data : List Byte) :
      OutgoingStep accepts s (.sendPacket channel data) { s with
        sending := false
        packets := s.packets ++ [{ data := data }]
        packetQueue := s.packetQueue ++ [(channel, s.packets.length)] }

/-- Where the worker stays and the connection is as it was. -/
theorem Incoming.of_same {e : Event} (hsame : (s'.packets, s'.packetQueue, s'.sent, s'.misused) =
    (s.packets, s.packetQueue, s.sent, s.misused)) (hworker : s'.worker = s.worker)
    (hlink : s'.link = s.link) (hunasked : ∀ channel data, e ≠ .sendPacket channel data) :
    Incoming e s s' := by
  obtain ⟨hpackets, hsame⟩ := Prod.mk.inj hsame
  obtain ⟨hqueue, hsame⟩ := Prod.mk.inj hsame
  obtain ⟨hsent, hmisused⟩ := Prod.mk.inj hsame
  exact ⟨hpackets, hqueue, hsent, hmisused, fun hended => hworker ▸ hended,
    fun hleft => hworker ▸ hleft, fun _ _ => hlink, hunasked⟩

/-- The handlers of `processPackets` send nothing. -/
theorem incoming_handleEvent {sentAt receivedAt : UInt32} {type : EventType}
    {rest : List EventType}
    (h : handleEvent sentAt receivedAt type { s with eventQueueCopy := rest } = some s') :
    Incoming (.handleEvent sentAt receivedAt) s s' := by
  cases type with
  | connect =>
      cases h
      exact .of_same rfl rfl rfl (by simp)
  | disconnect =>
      cases h
      exact .of_same rfl rfl rfl (by simp)
  | receive data =>
      rw [handleEvent] at h
      split at h
      · cases h
        exact .of_same rfl rfl rfl (by simp)
      · cases h

/-- **One step**, as the outgoing packets see it. -/
theorem outgoingStep_of_step {e : Event} (hstep : step accepts s e = some s') :
    OutgoingStep accepts s e s' := by
  cases e with
  | start made =>
      obtain ⟨hworker, hs'⟩ := Option.ite_none_right_eq_some.mp hstep
      cases hs'
      cases made with
      | true => exact .incoming ⟨rfl, rfl, rfl, rfl, by simp, by simp [hworker, Worker.left],
          fun _ _ => rfl, by simp⟩
      | false => exact .notMade
  | connect =>
      obtain ⟨_, hs'⟩ := Option.ite_none_right_eq_some.mp hstep
      cases hs'
      exact .incoming ⟨rfl, rfl, rfl, rfl, fun h => h, fun h => h, fun hne => absurd rfl hne,
        by simp⟩
  | receive data =>
      obtain ⟨_, hs'⟩ := Option.ite_none_right_eq_some.mp hstep
      cases hs'
      exact .incoming (.of_same rfl rfl rfl (by simp))
  | disconnect =>
      obtain ⟨_, hs'⟩ := Option.ite_none_right_eq_some.mp hstep
      cases hs'
      exact .incoming ⟨rfl, rfl, rfl, rfl, by simp, fun _ => rfl, fun _ _ => rfl, by simp⟩
  | lose =>
      obtain ⟨_, hs'⟩ := Option.ite_none_right_eq_some.mp hstep
      cases hs'
      exact .incoming ⟨rfl, rfl, rfl, rfl, fun h => h, fun h => h, fun _ hne => absurd rfl hne,
        by simp⟩
  | noticeExit =>
      obtain ⟨⟨hworker, _⟩, hs'⟩ := Option.ite_none_right_eq_some.mp hstep
      cases hs'
      exact .incoming ⟨rfl, rfl, rfl, rfl, by simp, by simp [hworker, Worker.left],
        fun _ _ => rfl, by simp⟩
  | giveUp =>
      obtain ⟨_, hs'⟩ := Option.ite_none_right_eq_some.mp hstep
      cases hs'
      exact .incoming ⟨rfl, rfl, rfl, rfl, by simp, fun _ => rfl, fun _ _ => rfl, by simp⟩
  | destroyHost =>
      obtain ⟨_, hs'⟩ := Option.ite_none_right_eq_some.mp hstep
      cases hs'
      exact .ended
  | sendQueuedPackets =>
      obtain ⟨hworker, hs'⟩ := Option.ite_none_right_eq_some.mp hstep
      cases hs'
      exact .sent hworker
  | release packet => exact .released hstep
  | takeEvents =>
      obtain ⟨_, hs'⟩ := Option.ite_none_right_eq_some.mp hstep
      cases hs'
      exact .incoming (.of_same rfl rfl rfl (by simp))
  | handleEvent sentAt receivedAt =>
      simp only [step] at hstep
      split at hstep
      · cases hstep
      · exact .incoming (incoming_handleEvent hstep)
  | finishEvents =>
      simp only [step] at hstep
      split at hstep
      · cases hstep
        exact .incoming (.of_same rfl rfl rfl (by simp))
      · next hdisconnected _ =>
        obtain ⟨_, hs'⟩ := Option.ite_none_right_eq_some.mp hstep
        cases hs'
        exact .disconnected hdisconnected
      · cases hstep
  | update =>
      simp only [step] at hstep
      split at hstep
      · cases hstep
      · cases hstep
        exact .incoming (.of_same rfl rfl rfl (by simp))
  | checkThread =>
      obtain ⟨_, hs'⟩ := Option.ite_none_right_eq_some.mp hstep
      cases hs'
      exact .incoming (.of_same rfl rfl rfl (by simp))
  | sendPacket channel data =>
      obtain ⟨_, hs'⟩ := Option.ite_none_right_eq_some.mp hstep
      cases hs'
      exact .queued channel data
  | exit =>
      cases hstep
      exact .incoming (.of_same rfl rfl rfl (by simp))

/-- The worker is not affected by what it sends. -/
theorem outgoing_sendQueuedPackets (s : EnetClient) :
    Outgoing { s with packetQueue := [] } (s.sendQueuedPackets accepts) :=
  outgoing_foldl (fun t qp => outgoing_sendQueuedPacket accepts t qp) s.packetQueue

/-- **One step.** -/
theorem kept_step {e : Event} (h : Kept s) (hstep : step accepts s e = some s') : Kept s' := by
  cases outgoingStep_of_step hstep with
  | incoming hin => exact h.of_eq hin.packets_eq hin.queue_eq hin.misused_eq hin.ended
  | notMade => exact Kept.endWorker h.owned
  | ended => exact Kept.endWorker h.owned
  | sent hworker =>
      have hbegin : Owned (s.packetQueue.map Prod.snd) { s with packetQueue := [] } :=
        h.owned.of_eq rfl rfl
      have hqueue : (s.sendQueuedPackets accepts).packetQueue = [] :=
        packetQueue_foldl accepts s.packetQueue rfl
      refine ⟨?_, fun hended => ?_⟩
      · rw [hqueue]
        exact hbegin.sendAll accepts
      · rw [(outgoing_sendQueuedPackets s).eq] at hended
        exact absurd hended (by rw [show _ = Worker.running from hworker]; decide)
  | released hrelease => exact h.release hrelease
  | disconnected _ => exact h.disconnect.1.of_eq rfl rfl rfl fun hended => hended
  | queued channel data => exact h.push channel data

/-- **Every packet is destroyed once.**  Whatever turns the threads take, no packet is touched after
it has been destroyed, nor does the last `disconnect` touch one; and with it, the worker having
ended, every packet has been destroyed. -/
theorem packets_owned (accepts : UInt8 → List Byte → Bool) (es : List Event) (s : EnetClient)
    (hrun : Runs.run (step accepts) {} es = some s) :
    s.misused = false ∧ s.disconnect.misused = false ∧
      (s.worker = .ended → ∀ p ∈ s.disconnect.packets, p.destroyed = true) := by
  have h := Runs.run_invariant (fun _ _ _ h hstep => kept_step h hstep) hrun kept_initial
  obtain ⟨hdisconnected, hall⟩ := h.disconnect
  exact ⟨h.owned.safe, hdisconnected.owned.safe, hall⟩

/-- A connection that is given up with a packet still queued. -/
theorem packets_owned_oneConnection :
    ∃ s, Runs.run (step fun _ _ => true) {} oneConnection = some s ∧ s.packetQueue.length = 1 ∧
      s.thread = false ∧ ∀ p ∈ s.disconnect.packets, p.destroyed = true := by
  have hended : (Runs.run (step fun _ _ => true) {} oneConnection).map
      (fun s => (s.packetQueue.length, s.thread, s.worker)) = some (1, false, .ended) := by
    decide +kernel
  obtain ⟨s, hrun, hs⟩ := Option.map_eq_some_iff.mp hended
  obtain ⟨hqueue, hs⟩ := Prod.mk.inj hs
  obtain ⟨hthread, hworker⟩ := Prod.mk.inj hs
  exact ⟨s, hrun, hqueue, hthread,
    (packets_owned (fun _ _ => true) oneConnection s hrun).2.2 hworker⟩

/-! ## On a connection that stays up -/

/-- The bytes behind a packet. -/
def dataOf (s : EnetClient) (packet : Nat) : Option (List Byte) :=
  (s.packets[packet]?).map fun p => p.data

/-- What waits in the queue. -/
def waiting (s : EnetClient) : List (List Byte) := s.packetQueue.filterMap fun qp => s.dataOf qp.2

/-- What the game sends with an event of a run. -/
def requested (_ : EnetClient) : Event → List (List Byte)
  | .sendPacket _ data => [data]
  | _ => []

/-- Whenever the queue is sent the connection is up and ENet takes it all, and the disconnection is
not handled. -/
def Serves (accepts : UInt8 → List Byte → Bool) (s : EnetClient) : Event → Prop
  | .sendQueuedPackets => s.link = .connected ∧ ∀ qp ∈ s.packetQueue,
      ∀ data ∈ s.dataOf qp.2, accepts qp.1 data = true
  | .finishEvents => s.isDisconnected ≠ some true
  | _ => True

instance (accepts : UInt8 → List Byte → Bool) (s : EnetClient) :
    (e : Event) → Decidable (s.Serves accepts e)
  | .sendQueuedPackets => inferInstanceAs (Decidable (_ ∧ ∀ qp ∈ s.packetQueue,
      ∀ data ∈ s.dataOf qp.2, accepts qp.1 data = true))
  | .finishEvents => inferInstanceAs (Decidable (_ ≠ _))
  | .start .. => .isTrue trivial
  | .connect => .isTrue trivial
  | .receive .. => .isTrue trivial
  | .disconnect => .isTrue trivial
  | .lose => .isTrue trivial
  | .noticeExit => .isTrue trivial
  | .giveUp => .isTrue trivial
  | .destroyHost => .isTrue trivial
  | .release .. => .isTrue trivial
  | .takeEvents => .isTrue trivial
  | .handleEvent .. => .isTrue trivial
  | .update => .isTrue trivial
  | .checkThread => .isTrue trivial
  | .sendPacket .. => .isTrue trivial
  | .exit => .isTrue trivial

/-- The bytes of a packet stay as they were queued. -/
theorem dataOf_set {k : Nat} {old new : ENetPacket} (hp : s.packets[k]? = some old)
    (hdata : new.data = old.data) (j : Nat) :
    ({ s with packets := s.packets.set k new } : EnetClient).dataOf j = s.dataOf j := by
  by_cases heq : k = j
  · subst heq
    have hlt := (List.getElem?_eq_some_iff.mp hp).1
    rw [dataOf, dataOf, List.getElem?_set_self hlt, hp]
    exact congrArg some hdata
  · simp [dataOf, List.getElem?_set_ne heq]

/-- What the loop hands over. -/
theorem Owned.sent_foldl {qps : List (UInt8 × Nat)} (h : Owned (qps.map Prod.snd) s)
    (hlink : s.link = .connected)
    (haccepts : ∀ qp ∈ qps, ∀ data ∈ s.dataOf qp.2, accepts qp.1 data = true) :
    (qps.foldl (sendQueuedPacket accepts) s).sent =
      s.sent ++ qps.filterMap fun qp => s.dataOf qp.2 := by
  induction qps generalizing s with
  | nil => exact (List.append_nil _).symm
  | cons qp qps ih =>
      obtain ⟨data, hdata⟩ := h.stored qp.2 List.mem_cons_self
      have hof : s.dataOf qp.2 = some data := by simp [dataOf, hdata]
      have htaken := haccepts qp List.mem_cons_self data hof
      have hsend : s.sendQueuedPacket accepts qp = { s with
          packets := s.packets.set qp.2 { data, referenceCount := 1 }
          sent := s.sent ++ [data] } := by
        simp [sendQueuedPacket, hdata, hlink, htaken]
      have hsame : ∀ j, (s.sendQueuedPacket accepts qp).dataOf j = s.dataOf j := by
        intro j
        rw [hsend]
        exact dataOf_set hdata (by rfl) j
      rw [List.foldl_cons, ih (h.send accepts) (by rw [hsend]; exact hlink)
        fun qp' hqp' d hd => haccepts qp' (List.mem_cons_of_mem _ hqp') d
          (by rw [← hsame]; exact hd)]
      have hcons : (qp :: qps).filterMap (fun qp => s.dataOf qp.2) =
          data :: qps.filterMap fun qp => s.dataOf qp.2 := List.filterMap_cons_some hof
      rw [hcons]
      simp only [hsame]
      rw [hsend, List.append_assoc]
      rfl

/-- Destroyed packets keep their bytes in this record. -/
theorem dataOf_endWorker : s.endWorker.dataOf = s.dataOf := by
  funext k
  simp only [dataOf, endWorker, List.getElem?_map, Option.map_map]
  refine congrArg (fun f => Option.map f s.packets[k]?) (funext fun p => ?_)
  simp only [Function.comp_apply]
  split <;> rfl

/-- The end of the worker sends nothing and forgets nothing. -/
theorem outgoing_endWorker : s.endWorker.sent ++ s.endWorker.waiting = s.sent ++ s.waiting := by
  rw [waiting, waiting, dataOf_endWorker]
  rfl

/-! ## What a step leaves alone -/

/-- What was sent stays sent. -/
theorem sent_foldl_prefix (qps : List (UInt8 × Nat)) :
    s.sent <+: (qps.foldl (sendQueuedPacket accepts) s).sent := by
  induction qps generalizing s with
  | nil => exact List.prefix_refl _
  | cons qp qps ih =>
      refine List.IsPrefix.trans ?_ ih
      unfold sendQueuedPacket destroyPacket
      split
      · split
        · exact List.prefix_append _ _
        · split
          · split <;> exact List.prefix_refl _
          · exact List.prefix_refl _
      · exact List.prefix_refl _

/-- Destroying what is queued hands nothing over. -/
theorem sent_disconnect (s : EnetClient) : s.disconnect.sent = s.sent := by
  have hdestroyed : ∀ (qps : List (UInt8 × Nat)) (t : EnetClient),
      (qps.foldl (fun s qp => s.destroyPacket qp.2) t).sent = t.sent := by
    intro qps
    induction qps with
    | nil => exact fun _ => rfl
    | cons qp qps ih =>
        intro t
        rw [List.foldl_cons, ih]
        unfold destroyPacket
        split <;> rfl
  exact hdestroyed s.packetQueue _

/-- What has been handed over stays so, and a worker that has left its loop stays out of it. -/
theorem sent_step {e : Event} (hstep : step accepts s e = some s') :
    s.sent <+: s'.sent ∧ (s.worker.left = true → s'.worker.left = true) ∧
      (e ≠ .connect → e ≠ .lose → s'.link = s.link) := by
  cases outgoingStep_of_step hstep with
  | incoming hin => exact ⟨hin.sent_eq ▸ List.prefix_refl _, hin.left, hin.link_eq⟩
  | notMade => exact ⟨List.prefix_refl _, fun _ => rfl, fun _ _ => rfl⟩
  | ended => exact ⟨List.prefix_refl _, fun _ => rfl, fun _ _ => rfl⟩
  | sent _ =>
      have hopen : Outgoing { s with packetQueue := [] } (s.sendQueuedPackets accepts) :=
        outgoing_sendQueuedPackets s
      have hout := hopen.eq
      have hgrows : s.sent <+: (s.sendQueuedPackets accepts).sent :=
        sent_foldl_prefix (s := { s with packetQueue := [] }) s.packetQueue
      exact ⟨hgrows, fun hleft => by rw [hout]; exact hleft, fun _ _ => by rw [hout]⟩
  | released hrelease =>
      have hsent : s'.sent = s.sent := by
        unfold EnetClient.release at hrelease
        split at hrelease
        · cases hrelease
          rfl
        · cases hrelease
      have hout := (outgoing_release hrelease).eq
      exact ⟨hsent ▸ List.prefix_refl _, fun hleft => by rw [hout]; exact hleft,
        fun _ _ => by rw [hout]⟩
  | disconnected _ =>
      refine ⟨(sent_disconnect s).symm ▸ List.prefix_refl _, fun hleft => ?_, fun _ _ => ?_⟩
      · rw [disconnect_eq]
        exact hleft
      · rw [disconnect_eq]
  | queued _ _ => exact ⟨List.prefix_refl _, fun hleft => hleft, fun _ _ => rfl⟩

/-- A packet that ENet lets go of does not concern those that wait. -/
theorem waiting_release {packet : Nat} (h : s.release packet = some s') :
    s'.sent ++ s'.waiting = s.sent ++ s.waiting := by
  unfold EnetClient.release at h
  split at h
  · next data n hp =>
    cases h
    have hdata : ({ s with packets := s.packets.set packet ⟨data, n, decide (n = 0)⟩ } :
        EnetClient).dataOf = s.dataOf := funext fun k => dataOf_set hp (by rfl) k
    simp only [waiting, hdata]
  · cases h

/-- A packet that the game sends waits behind the others. -/
theorem waiting_push (h : Kept s) (channel : UInt8) (data : List Byte) :
    ({ s with
      sending := false
      packets := s.packets ++ [{ data := data }]
      packetQueue := s.packetQueue ++ [(channel, s.packets.length)] } : EnetClient).waiting =
    s.waiting ++ [data] := by
  have hold : ∀ qp ∈ s.packetQueue, ({ s with
      sending := false
      packets := s.packets ++ [{ data := data }]
      packetQueue := s.packetQueue ++ [(channel, s.packets.length)] } : EnetClient).dataOf qp.2 =
      s.dataOf qp.2 := by
    intro qp hqp
    obtain ⟨_, hp⟩ := h.owned.stored qp.2 (List.mem_map_of_mem hqp)
    have hlt := (List.getElem?_eq_some_iff.mp hp).1
    simp only [dataOf, List.getElem?_append_left hlt]
  rw [waiting, List.filterMap_append, List.filterMap_congr hold]
  simp only [dataOf, List.filterMap_cons, List.getElem?_concat_length, Option.map_some,
    List.filterMap_nil]
  rfl

/-- **One step** adds the request that is made and loses none. -/
theorem requested_step {e : Event} (h : Kept s) (hserves : s.Serves accepts e)
    (hstep : step accepts s e = some s') :
    s'.sent ++ s'.waiting = s.sent ++ s.waiting ++ s.requested e := by
  cases outgoingStep_of_step hstep with
  | incoming hin =>
      have hnone : s.requested e = [] := by
        cases e with
        | sendPacket channel data => exact absurd rfl (hin.unasked channel data)
        | _ => rfl
      simp only [waiting, dataOf, hin.packets_eq, hin.queue_eq, hin.sent_eq, hnone, List.append_nil]
  | notMade => exact outgoing_endWorker.trans (List.append_nil _).symm
  | ended => exact outgoing_endWorker.trans (List.append_nil _).symm
  | sent _ =>
      have hbegin : Owned (s.packetQueue.map Prod.snd) { s with packetQueue := [] } :=
        h.owned.of_eq rfl rfl
      have hsent : (s.sendQueuedPackets accepts).sent = s.sent ++ s.waiting :=
        hbegin.sent_foldl hserves.1 hserves.2
      have hqueue : (s.sendQueuedPackets accepts).packetQueue = [] :=
        packetQueue_foldl accepts s.packetQueue rfl
      rw [waiting, hqueue, List.filterMap_nil, List.append_nil]
      exact hsent.trans (List.append_nil _).symm
  | released hrelease => exact (waiting_release hrelease).trans (List.append_nil _).symm
  | disconnected hdisconnected => exact absurd hdisconnected hserves
  | queued channel data =>
      rw [waiting_push h, requested]
      exact (List.append_assoc _ _ _).symm

/-- **What the game sends reaches ENet.**  In every run in which the queue is sent only while the
connection is up, with ENet taking all of it, what ENet has been handed and what waits is
what the game has sent, each packet once and in order. -/
theorem requests_in_order (accepts : UInt8 → List Byte → Bool) (es : List Event) (s : EnetClient)
    (hserves : Runs.Meets (step accepts) (Serves accepts) {} es)
    (hrun : Runs.run (step accepts) {} es = some s) :
    s.sent ++ s.waiting = Runs.collect (step accepts) requested {} es :=
  Runs.run_collect (fun _ _ _ h _ hstep => kept_step h hstep)
    (fun _ _ _ h hok hstep => requested_step h hok hstep) hserves hrun kept_initial

end

/-- One request on its way to the server. -/
theorem requests_in_order_oneConnection :
    ∃ s, Runs.run (step fun _ _ => true) {} (oneConnection.take 8) = some s ∧
      s.sent = [[5, 0, 0, 0, 0, 0, 0, 0]] := by
  have hwaits : (Runs.run (step fun _ _ => true) {} (oneConnection.take 8)).map waiting =
      some [] := by
    decide +kernel
  obtain ⟨s, hrun, hs⟩ := Option.map_eq_some_iff.mp hwaits
  have hall := requests_in_order (fun _ _ => true) (oneConnection.take 8) s (by decide +kernel) hrun
  rw [hs, List.append_nil] at hall
  exact ⟨s, hrun, hall⟩

end EnetClient

end EnkiNet
