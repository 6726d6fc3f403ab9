import EnkiNet.Stopping

/-!
# The packets that a server shares between peers

`send_packet_to_all_if` makes one ENet packet for all its receivers, and ENet counts the peers that
still need it.  `send_queued_packets_in_thread` destroys a packet whose count is zero after
`enet_peer_send`, that is, when the first of its receivers refuses it, and then goes on to the
next entry with the same packet.  `packets_safe_iff` is the exact condition under which no destroyed
packet is touched: of every packet, a first refusal is the only one.  `stop_listening` destroys the
packets of all entries that are left, so one for several clients it destroys several times
(`stop_destroys_twice_iff`).
-/

namespace EnkiNet

open ByteStore Packet Channels

/-- What has become of a packet while the queue is sent. -/
inductive PacketStatus
  | unsent
  | held
  | destroyed
  deriving DecidableEq, Repr

/-- The next receiver takes the packet, or refuses it. -/
def PacketStatus.advance : PacketStatus → Bool → Option PacketStatus
  | .unsent, taken => some (if taken then .held else .destroyed)
  | .held, _ => some .held
  | .destroyed, _ => none

namespace EnetServer

variable {s s' : EnetServer} {accepts : Nat → UInt8 → List Byte → Bool}

def status (s : EnetServer) (packet : Nat) : PacketStatus :=
  match s.packets[packet]? with
  | some { data := _, referenceCount := 0, destroyed := false } => .unsent
  | some { data := _, referenceCount := _ + 1, destroyed := false } => .held
  | _ => .destroyed

/-- What the receiver of an entry says to its packet; `none` where there is no receiver. -/
def verdict (accepts : Nat → UInt8 → List Byte → Bool) (s : EnetServer) (qp : QueuedPacket) :
    Option Bool :=
  (s.threadPeerMap.lookup qp.clientID).bind fun peer =>
    if (s.peers peer).state = .connected then
      some (((s.packets[qp.packet]?).map fun p => accepts peer qp.channelID p.data).getD false)
    else none

/-- What is said to each packet, in the order of the queue. -/
def verdicts (accepts : Nat → UInt8 → List Byte → Bool) (s : EnetServer)
    (qps : List QueuedPacket) : List (Nat × Bool) :=
  qps.filterMap fun qp => (s.verdict accepts qp).map fun taken => (qp.packet, taken)

/-! ## Sending one entry -/

/-- A packet is unsent, held by the transport or destroyed. -/
theorem status_cases (packet : Nat) :
    (∃ data, s.packets[packet]? = some { data } ∧ s.status packet = .unsent) ∨
      (∃ data n, s.packets[packet]? = some { data, referenceCount := n + 1 } ∧
        s.status packet = .held) ∨
      ((∀ data n, s.packets[packet]? ≠ some { data, referenceCount := n, destroyed := false }) ∧
        s.status packet = .destroyed) := by
  rcases hp : s.packets[packet]? with _ | ⟨data, n, gone⟩
  · exact Or.inr (Or.inr ⟨by simp, by simp [status, hp]⟩)
  · cases gone with
    | true => exact Or.inr (Or.inr ⟨by simp, by simp [status, hp]⟩)
    | false =>
        cases n with
        | zero => exact Or.inl ⟨data, rfl, by simp [status, hp]⟩
        | succ n => exact Or.inr (Or.inl ⟨data, n, rfl, by simp [status, hp]⟩)

/-- Changing one packet changes the status of no other. -/
theorem status_set {packet : Nat} {old new : ENetPacket} (hp : s.packets[packet]? = some old)
    (other : Nat) :
    ({ s with packets := s.packets.set packet new } : EnetServer).status other =
      if other = packet then ({ packets := [new] } : EnetServer).status 0 else s.status other := by
  have hlt := (List.getElem?_eq_some_iff.mp hp).1
  by_cases heq : other = packet
  · subst heq
    simp [status, hlt]
  · simp [status, List.getElem?_set_ne (Ne.symm heq), heq]

/-- What the receivers say depends on neither counts nor the queue. -/
theorem verdict_set {packet : Nat} {old new : ENetPacket} (hp : s.packets[packet]? = some old)
    (hdata : new.data = old.data) (sent : List (Nat × List Byte)) (qp : QueuedPacket) :
    ({ s with packets := s.packets.set packet new, sent := sent } : EnetServer).verdict accepts qp =
      s.verdict accepts qp := by
  have hlt := (List.getElem?_eq_some_iff.mp hp).1
  have hmap : ∀ peer, (((s.packets.set packet new)[qp.packet]?).map fun p =>
      accepts peer qp.channelID p.data) =
        ((s.packets[qp.packet]?).map fun p => accepts peer qp.channelID p.data) := by
    intro peer
    by_cases heq : qp.packet = packet
    · rw [heq, hp]
      simp [hlt, hdata]
    · rw [List.getElem?_set_ne (Ne.symm heq)]
  simp only [verdict, hmap]

/-- **One entry.** -/
theorem sendQueuedPacket_verdict (accepts : Nat → UInt8 → List Byte → Bool) (s : EnetServer)
    (qp : QueuedPacket) :
    (s.verdict accepts qp = none ∧ s.sendQueuedPacket accepts qp = s) ∨
      ∃ taken, s.verdict accepts qp = some taken ∧
        match (s.status qp.packet).advance taken with
        | none => .destroyedPacket ∈ (s.sendQueuedPacket accepts qp).violations
        | some after =>
            (s.sendQueuedPacket accepts qp).violations = s.violations ∧
            (s.sendQueuedPacket accepts qp).verdict accepts = s.verdict accepts ∧
            (s.sendQueuedPacket accepts qp).status =
              Function.update s.status qp.packet after := by
  rcases hlookup : s.threadPeerMap.lookup qp.clientID with _ | peer
  · exact Or.inl ⟨by simp [verdict, hlookup], by simp [sendQueuedPacket, hlookup]⟩
  by_cases hstate : (s.peers peer).state = .connected
  swap
  · exact Or.inl ⟨by simp [verdict, hlookup, hstate], by simp [sendQueuedPacket, hlookup, hstate]⟩
  have hupdate : ∀ {old new : ENetPacket} {after : PacketStatus} (sent : List (Nat × List Byte)),
      s.packets[qp.packet]? = some old → ({ packets := [new] } : EnetServer).status 0 = after →
      ({ s with packets := s.packets.set qp.packet new, sent := sent } : EnetServer).status =
        Function.update s.status qp.packet after := by
    intro old new after sent hp hafter
    funext other
    refine (status_set hp other).trans ?_
    by_cases heq : other = qp.packet
    · rw [if_pos heq, hafter, heq, Function.update_self]
    · rw [if_neg heq, Function.update_of_ne heq]
  refine Or.inr ?_
  rcases status_cases (s := s) qp.packet with ⟨data, hp, hstatus⟩ | ⟨data, n, hp, hstatus⟩ |
    ⟨hp, hstatus⟩
  · have hverdict : s.verdict accepts qp = some (accepts peer qp.channelID data) := by
      simp [verdict, hlookup, hstate, hp]
    refine ⟨_, hverdict, ?_⟩
    rw [hstatus]
    by_cases htaken : accepts peer qp.channelID data
    · have hsend : s.sendQueuedPacket accepts qp = { s with
          packets := s.packets.set qp.packet { data, referenceCount := 1 }
          sent := s.sent ++ [(peer, data)] } := by
        simp [sendQueuedPacket, hlookup, hstate, hp, htaken]
      rw [hsend, htaken]
      exact ⟨rfl, funext fun other => verdict_set hp (by rfl) _ other, hupdate _ hp rfl⟩
    · have hsend : s.sendQueuedPacket accepts qp = { s with
          packets := s.packets.set qp.packet { data, destroyed := true } } := by
        simp [sendQueuedPacket, hlookup, hstate, hp, htaken, destroyPacket]
      rw [hsend, eq_false_of_ne_true htaken]
      exact ⟨rfl, funext fun other => verdict_set hp (by rfl) s.sent other, hupdate s.sent hp rfl⟩
  · have hverdict : s.verdict accepts qp = some (accepts peer qp.channelID data) := by
      simp [verdict, hlookup, hstate, hp]
    refine ⟨_, hverdict, ?_⟩
    rw [hstatus]
    by_cases htaken : accepts peer qp.channelID data
    · have hsend : s.sendQueuedPacket accepts qp = { s with
          packets := s.packets.set qp.packet { data, referenceCount := n + 2 }
          sent := s.sent ++ [(peer, data)] } := by
        simp [sendQueuedPacket, hlookup, hstate, hp, htaken]
      rw [hsend]
      exact ⟨rfl, funext fun other => verdict_set hp (by rfl) _ other, hupdate _ hp rfl⟩
    · have hsend : s.sendQueuedPacket accepts qp = s := by
        simp [sendQueuedPacket, hlookup, hstate, hp, htaken]
      rw [hsend]
      refine ⟨rfl, rfl, ?_⟩
      rw [← hstatus, Function.update_eq_self]
  · have hsend : s.sendQueuedPacket accepts qp = s.violate .destroyedPacket := by
      simp only [sendQueuedPacket, hlookup, if_pos hstate]
    obtain ⟨taken, htaken⟩ : ∃ taken, s.verdict accepts qp = some taken := by
      simp [verdict, hlookup, hstate]
    refine ⟨taken, htaken, ?_⟩
    rw [hstatus, hsend]
    exact List.mem_append_right _ (List.mem_singleton_self _)

/-! ## Sending the queue -/

/-- A misuse is never forgotten. -/
theorem violations_mono_sendQueuedPackets (qps : List QueuedPacket) (v : Violation)
    (h : v ∈ s.violations) : v ∈ (qps.foldl (sendQueuedPacket accepts) s).violations := by
  induction qps generalizing s with
  | nil => exact h
  | cons qp qps ih =>
      obtain ⟨new, hnew, _⟩ := (sending_sendQueuedPacket (s := s) accepts qp).violations
      exact ih (hnew ▸ List.mem_append_left _ h)

/-- No destroyed packet is touched precisely where every packet's receivers can be served in
turn. -/
theorem foldl_sendQueuedPacket_iff (qps : List QueuedPacket) :
    .destroyedPacket ∉ (qps.foldl (sendQueuedPacket accepts) s).violations ↔
      .destroyedPacket ∉ s.violations ∧
        ∀ k, (Runs.run PacketStatus.advance (s.status k)
          (about k (s.verdicts accepts qps))).isSome := by
  induction qps generalizing s with
  | nil => simp [verdicts]
  | cons qp qps ih =>
      rw [List.foldl_cons]
      rcases sendQueuedPacket_verdict accepts s qp with ⟨hnone, hsame⟩ |
        ⟨taken, htaken, hafter⟩
      · have hcons : s.verdicts accepts (qp :: qps) = s.verdicts accepts qps :=
          List.filterMap_cons_none (by rw [hnone]; rfl)
        rw [hsame, ih, hcons]
      · have hcons : s.verdicts accepts (qp :: qps) =
          (qp.packet, taken) :: s.verdicts accepts qps :=
          List.filterMap_cons_some (by rw [htaken]; rfl)
        rw [hcons]
        cases hadvance : (s.status qp.packet).advance taken with
        | none =>
            rw [hadvance] at hafter
            refine iff_of_false (fun h => h (violations_mono_sendQueuedPackets qps _ hafter)) ?_
            rintro ⟨_, hall⟩
            have hstuck := hall qp.packet
            rw [about_cons_self, Runs.run, hadvance] at hstuck
            cases hstuck
        | some after =>
            rw [hadvance] at hafter
            obtain ⟨hviolations, hverdict, hstatus⟩ := hafter
            rw [ih, hviolations, hstatus]
            have hsame : (s.sendQueuedPacket accepts qp).verdicts accepts qps =
                s.verdicts accepts qps := by
              simp only [verdicts, hverdict]
            rw [hsame]
            refine and_congr_right fun _ => forall_congr' fun k => ?_
            by_cases heq : qp.packet = k
            · subst heq
              rw [Function.update_self, about_cons_self, Runs.run_cons hadvance]
            · rw [Function.update_of_ne (Ne.symm heq), about_cons_ne heq]

/-- Of a packet that is refused first there is only one receiver. -/
def Unrefused (accepts : Nat → UInt8 → List Byte → Bool) (s : EnetServer) : Event → Prop
  | .sendQueuedPackets => ∀ k rest,
      about k (s.verdicts accepts s.packetQueue) = false :: rest → rest = []
  | _ => True

instance (accepts : Nat → UInt8 → List Byte → Bool) (s : EnetServer) :
    (e : Event) → Decidable (s.Unrefused accepts e)
  | .sendQueuedPackets =>
      decidable_of_iff (∀ k ∈ (s.verdicts accepts s.packetQueue).map Prod.fst,
        (about k (s.verdicts accepts s.packetQueue)).head? = some false →
          (about k (s.verdicts accepts s.packetQueue)).tail = []) (by
        constructor
        · intro h k rest hfirst
          have hmem : (k, false) ∈ s.verdicts accepts s.packetQueue :=
            mem_about.mp (hfirst ▸ List.mem_cons_self)
          have htail := h k (List.mem_map_of_mem hmem)
          rw [hfirst] at htail
          exact htail rfl
        · intro h k _ hhead
          rcases hall : about k (s.verdicts accepts s.packetQueue) with _ | ⟨taken, rest⟩
          · rfl
          · rw [hall] at hhead
            cases hhead
            exact h k rest hall)
  | .connect .. => .isTrue trivial
  | .receive .. => .isTrue trivial
  | .disconnect .. => .isTrue trivial
  | .lose .. => .isTrue trivial
  | .release .. => .isTrue trivial
  | .takeEvents => .isTrue trivial
  | .handleEvent .. => .isTrue trivial
  | .update => .isTrue trivial
  | .sendPacketTo .. => .isTrue trivial
  | .sendPacketToAllIf .. => .isTrue trivial
  | .localPacket .. => .isTrue trivial

/-- A queued packet is there, and ENet does not know it yet. -/
def Queued (s : EnetServer) : Prop := ∀ qp ∈ s.packetQueue, s.status qp.packet = .unsent

/-- What the transport holds it keeps holding. -/
theorem run_held (taken : List Bool) :
    Runs.run PacketStatus.advance .held taken = some .held := by
  induction taken with
  | nil => rfl
  | cons b taken ih => exact ih

/-- A packet that is refused must not be offered again. -/
theorem run_unsent_iff (taken : List Bool) :
    (Runs.run PacketStatus.advance .unsent taken).isSome ↔
      ∀ rest, taken = false :: rest → rest = [] := by
  rcases taken with _ | ⟨_ | _, rest⟩
  · simp
  · rcases rest with _ | ⟨b, rest⟩
    · simp [Runs.run, PacketStatus.advance]
    · simp [Runs.run, PacketStatus.advance]
  · simp [Runs.run, PacketStatus.advance, run_held]

/-- A packet that is offered was queued. -/
theorem mem_of_about_verdicts {k : Nat} {taken : Bool} {qps : List QueuedPacket}
    (h : taken ∈ about k (s.verdicts accepts qps)) : ∃ qp ∈ qps, qp.packet = k := by
  obtain ⟨qp, hmem, hqp⟩ := List.mem_filterMap.mp (mem_about.mp h)
  obtain ⟨_, _, heq⟩ := Option.map_eq_some_iff.mp hqp
  exact ⟨qp, hmem, congrArg Prod.fst heq⟩

/-- **The queue is sent.** -/
theorem sendQueuedPackets_iff (hqueued : Queued s) :
    .destroyedPacket ∉ (s.sendQueuedPackets accepts).violations ↔
      .destroyedPacket ∉ s.violations ∧ s.Unrefused accepts .sendQueuedPackets := by
  rw [sendQueuedPackets, foldl_sendQueuedPacket_iff]
  refine and_congr_right fun _ => forall_congr' fun k => ?_
  change (Runs.run PacketStatus.advance (s.status k)
    (about k (s.verdicts accepts s.packetQueue))).isSome ↔ _
  rcases hms : about k (s.verdicts accepts s.packetQueue) with _ | ⟨taken, rest⟩
  · simp
  · have htaken : taken ∈ about k (s.verdicts accepts s.packetQueue) := by
      rw [hms]
      exact List.mem_cons_self
    obtain ⟨qp, hmem, rfl⟩ := mem_of_about_verdicts htaken
    rw [hqueued qp hmem, run_unsent_iff]

/-! ## The queue in every run -/

/-- A new packet changes the status of none before it. -/
theorem status_append {k : Nat} (hk : s.status k = .unsent) (new : ENetPacket) :
    ({ s with packets := s.packets ++ [new] } : EnetServer).status k = .unsent := by
  rcases status_cases (s := s) k with ⟨data, hp, _⟩ | ⟨_, _, _, hheld⟩ | ⟨_, hgone⟩
  · have hlt := (List.getElem?_eq_some_iff.mp hp).1
    simp only [status, List.getElem?_append_left hlt, hp]
  · rw [hk] at hheld
    cases hheld
  · rw [hk] at hgone
    cases hgone

/-- A new packet is unsent. -/
theorem status_last (data : List Byte) :
    ({ s with packets := s.packets ++ [{ data := data }] } : EnetServer).status s.packets.length =
      .unsent := by
  simp [status]

/-- Sending to one client queues a packet of its own. -/
theorem Queued.sendPacketTo (h : Queued s) (client : ClientID) (channel : UInt8)
    (data : List Byte) : Queued (s.sendPacketTo client channel data) := by
  intro qp hqp
  rcases List.mem_append.mp hqp with hold | hnew
  · exact status_append (h qp hold) _
  · rw [List.mem_singleton.mp hnew]
    exact status_last data

/-- Sending to many queues one packet many times. -/
theorem Queued.sendPacketToAllIf (h : Queued s) (hlife : Lifelines s)
    (predicate : ClientID → Bool) (channel : UInt8) (data : List Byte) :
    Queued (s.sendPacketToAllIf predicate channel data) := by
  rw [sendPacketToAllIf_eq predicate channel data hlife.alive]
  intro qp hqp
  rcases List.mem_append.mp hqp with hold | hnew
  · exact status_append (h qp hold) _
  · have hsome : (s.targets predicate channel s.packets.length).isEmpty = false := by
      cases htargets : s.targets predicate channel s.packets.length with
      | nil =>
          rw [htargets] at hnew
          cases hnew
      | cons => rfl
    obtain ⟨id, _, rfl⟩ := List.mem_map.mp hnew
    rw [hsome]
    exact status_last data

/-- A packet that the transport lets go of was no longer queued. -/
theorem Queued.release (h : Queued s) {packet : Nat} (hrelease : s.release packet = some s') :
    Queued s' := by
  unfold EnetServer.release at hrelease
  split at hrelease
  · next data n hp =>
    cases hrelease
    intro qp hqp
    have hbefore := h qp hqp
    refine (status_set hp qp.packet).trans ?_
    by_cases heq : qp.packet = packet
    · rw [heq] at hbefore
      simp [status, hp] at hbefore
    · rw [if_neg heq]
      exact hbefore
  · cases hrelease

theorem Queued.of_same (h : Queued s) (hpackets : s'.packets = s.packets)
    (hqueue : s'.packetQueue = s.packetQueue) : Queued s' := by
  intro qp hqp
  rw [hqueue] at hqp
  rw [status, hpackets]
  exact h qp hqp

/-- The first packet for a client is queued as any other. -/
theorem Queued.clientInit (h : Queued s) (kind : ServerKind) (sentAt : UInt32) :
    Queued (s.clientInit kind sentAt).2 := by
  have hnext : Queued s.getNextUID.2 := by
    refine h.of_same ?_ ?_
    · unfold getNextUID
      split <;> rfl
    · unfold getNextUID
      split <;> rfl
  rcases hid : s.getNextUID with ⟨id, t⟩
  rw [hid] at hnext
  simp only [EnetServer.clientInit, hid]
  split
  · exact hnext
  · exact hnext.sendPacketTo id 0 _

/-- The worker empties the queue. -/
theorem sendQueuedPackets_queue : (s.sendQueuedPackets accepts).packetQueue = [] := by
  have hloop : ∀ (qps : List QueuedPacket) (t : EnetServer),
      (qps.foldl (sendQueuedPacket accepts) t).packetQueue = t.packetQueue := by
    intro qps
    induction qps with
    | nil => exact fun _ => rfl
    | cons qp qps ih =>
        intro t
        rw [List.foldl_cons, ih]
        unfold sendQueuedPacket destroyPacket
        split
        · rfl
        · split
          · split
            · split
              · rfl
              · split
                · split <;> rfl
                · rfl
            · rfl
          · rfl
  exact hloop _ _

/-- The consumer touches no packet of the transport. -/
theorem handleEvent_packets {sentAt receivedAt : UInt32} {client : Nat} {id : ClientID}
    {type : EventType} {rest : List (Nat × EventType)}
    (h : Handled sentAt receivedAt client id rest s s' type) :
    s'.packets = s.packets ∧ s'.packetQueue = s.packetQueue ∧ s'.violations = s.violations := by
  cases h with
  | connect hnew hs' =>
      subst hs'
      exact ⟨rfl, rfl, rfl⟩
  | receive data p hmem hp hs' =>
      subst hs'
      exact ⟨rfl, rfl, rfl⟩
  | disconnect hmem hs' =>
      subst hs'
      exact ⟨rfl, rfl, rfl⟩

/-- The game's handlers touch no packet of the transport. -/
theorem onPacketReceived_packets (p : Packet) : (s.onPacketReceived p).packets = s.packets ∧
    (s.onPacketReceived p).packetQueue = s.packetQueue ∧
    (s.onPacketReceived p).violations = s.violations := by
  unfold onPacketReceived
  split
  · exact ⟨rfl, rfl, rfl⟩
  · exact ⟨rfl, rfl, rfl⟩

/-- What the worker does with `_thread_peer_map` concerns no packet. -/
theorem erasePeer_packets (peer client : Nat) : (s.erasePeer peer client).packets = s.packets ∧
    (s.erasePeer peer client).packetQueue = s.packetQueue ∧
    (.destroyedPacket ∈ (s.erasePeer peer client).violations ↔
      .destroyedPacket ∈ s.violations) := by
  unfold erasePeer check
  split
  · exact ⟨rfl, rfl, by simp [violate]⟩
  · split
    · exact ⟨rfl, rfl, by simp [violate]⟩
    · split
      · exact ⟨rfl, rfl, Iff.rfl⟩
      · exact ⟨rfl, rfl, by simp [violate]⟩

/-- What the other steps do to packets, the queue and the violations. -/
theorem step_packets {kind : ServerKind} {e : Event} (hlife : Lifelines s) (hqueued : Queued s)
    (hstep : step kind accepts s e = some s') :
    Queued s' ∧ (e ≠ .sendQueuedPackets →
      (.destroyedPacket ∈ s'.violations ↔ .destroyedPacket ∈ s.violations)) := by
  cases e with
  | connect peer sentAt =>
      obtain ⟨hstate, hs'⟩ := Option.ite_none_right_eq_some.mp hstep
      cases hs'
      rw [handleConnectEvent_eq kind sentAt ((hlife.state_iff peer).mp hstate)]
      refine ⟨(hqueued.clientInit kind sentAt).of_same rfl rfl, fun _ => ?_⟩
      have hsame : (s.clientInit kind sentAt).2.violations = s.violations := by
        rcases hid : s.getNextUID with ⟨id, t⟩
        have hnext := (getNextUID_map (s := s)).2
        rw [hid] at hnext
        simp only [clientInit, hid]
        split
        · exact hnext
        · exact hnext
      change .destroyedPacket ∈ (s.clientInit kind sentAt).2.violations ↔ _
      rw [hsame]
  | receive peer data =>
      obtain ⟨_, hs'⟩ := Option.ite_none_left_eq_some.mp hstep
      cases hs'
      unfold handleReceiveEvent
      split
      · exact ⟨hqueued, fun _ => Iff.rfl⟩
      · exact ⟨hqueued.of_same rfl rfl, fun _ => Iff.rfl⟩
  | disconnect peer =>
      obtain ⟨_, hs'⟩ := Option.ite_none_left_eq_some.mp hstep
      cases hs'
      unfold handleDisconnectEvent
      split
      · exact ⟨hqueued.of_same rfl rfl, fun _ => Iff.rfl⟩
      · next client _ =>
        obtain ⟨hpackets, hqueue, hviolations⟩ := erasePeer_packets (s := s) peer client
        exact ⟨hqueued.of_same hpackets hqueue, fun _ => hviolations⟩
  | lose peer =>
      obtain ⟨_, hs'⟩ := Option.ite_none_left_eq_some.mp hstep
      cases hs'
      exact ⟨hqueued.of_same rfl rfl, fun _ => Iff.rfl⟩
  | sendQueuedPackets =>
      cases hstep
      refine ⟨?_, fun h => absurd rfl h⟩
      intro qp hqp
      rw [sendQueuedPackets_queue] at hqp
      cases hqp
  | release packet =>
      refine ⟨hqueued.release hstep, fun _ => ?_⟩
      change s.release packet = some s' at hstep
      unfold EnetServer.release at hstep
      split at hstep
      · cases hstep
        exact Iff.rfl
      · cases hstep
  | takeEvents =>
      obtain ⟨_, hs'⟩ := Option.ite_none_right_eq_some.mp hstep
      cases hs'
      exact ⟨hqueued.of_same rfl rfl, fun _ => Iff.rfl⟩
  | handleEvent sentAt receivedAt =>
      simp only [step] at hstep
      split at hstep
      · cases hstep
      · next client type rest hcopy =>
        obtain ⟨id, _, hhandled⟩ := handleEvent_cases hlife hcopy hstep
        obtain ⟨hpackets, hqueue, hviolations⟩ := handleEvent_packets hhandled
        exact ⟨hqueued.of_same hpackets hqueue, fun _ => by rw [hviolations]⟩
  | update =>
      simp only [step] at hstep
      split at hstep
      · cases hstep
      · next p rest hreceived =>
        cases hstep
        obtain ⟨hpackets, hqueue, hviolations⟩ := onPacketReceived_packets
          (s := { s with received := rest, emitted := s.emitted ++ [p] }) p
        exact ⟨hqueued.of_same hpackets hqueue, fun _ => by rw [hviolations]⟩
  | sendPacketTo client channel data =>
      cases hstep
      exact ⟨hqueued.sendPacketTo client channel data, fun _ => Iff.rfl⟩
  | sendPacketToAllIf predicate channel data =>
      cases hstep
      refine ⟨hqueued.sendPacketToAllIf hlife predicate channel data, fun _ => ?_⟩
      rw [sendPacketToAllIf_eq predicate channel data hlife.alive]
  | localPacket p sentAt receivedAt =>
      cases kind with
      | host =>
          cases hstep
          obtain ⟨hpackets, hqueue, hviolations⟩ := onPacketReceived_packets (s := s)
            (stampByClientHost sentAt receivedAt p)
          exact ⟨hqueued.of_same hpackets hqueue, fun _ => by rw [hviolations]⟩
      | standard => cases hstep

/-- **When outgoing packets are safe.**  A run touches no destroyed packet in precisely those cases
in which, whenever the queue is sent, a packet that its first connected receiver refuses is for no
other connected receiver. -/
theorem packets_safe_iff (kind : ServerKind) (accepts : Nat → UInt8 → List Byte → Bool)
    (es : List Event) (s : EnetServer) (hrun : Runs.run (step kind accepts) {} es = some s) :
    Runs.Always (step kind accepts) (fun t => .destroyedPacket ∉ t.violations) {} es ↔
      Runs.Meets (step kind accepts) (Unrefused accepts) {} es := by
  refine Runs.always_iff_meets (fun t => Lifelines t ∧ Queued t) ?_ ?_ hrun
    ⟨lifelines_initial, by simp [Queued]⟩ (by simp)
  · intro t e t' ht _ hstep
    exact ⟨lifelines_step ht.1 hstep, (step_packets ht.1 ht.2 hstep).1⟩
  · intro t e t' ht hgood hstep
    by_cases he : e = .sendQueuedPackets
    · subst he
      cases hstep
      rw [sendQueuedPackets_iff ht.2]
      exact and_iff_right hgood
    · have hsame := (step_packets ht.1 ht.2 hstep).2 he
      have hok : Unrefused accepts t e := by
        cases e <;> first | exact absurd rfl he | trivial
      exact iff_of_true (fun h => hgood (hsame.mp h)) hok

/-- Two clients are connected, and a packet for both is in the queue. -/
def sharedPacket : List Event :=
  [.connect 0 5, .connect 1 5, .sendQueuedPackets, .takeEvents, .handleEvent 6 7, .handleEvent 6 7,
    .sendPacketToAllIf (fun _ => true) 0 [6, 0, 0, 0, 0, 0, 0, 0]]

/-- Neither peer takes anything. -/
theorem packets_safe_iff_refused :
    ∃ s, Runs.run (step .standard fun _ _ _ => false) {} (sharedPacket ++ [.sendQueuedPackets]) =
        some s ∧ .destroyedPacket ∈ s.violations ∧
      ¬ Runs.Meets (step .standard fun _ _ _ => false) (Unrefused fun _ _ _ => false) {}
        (sharedPacket ++ [.sendQueuedPackets]) := by
  have hviolations : (Runs.run (step .standard fun _ _ _ => false) {}
      (sharedPacket ++ [.sendQueuedPackets])).map violations = some [.destroyedPacket] := by
    decide +kernel
  obtain ⟨s, hrun, hs⟩ := Option.map_eq_some_iff.mp hviolations
  have hbad : .destroyedPacket ∈ s.violations := by
    rw [hs]
    exact List.mem_singleton_self _
  refine ⟨s, hrun, hbad, fun hmeets => ?_⟩
  have halways := (packets_safe_iff .standard (fun _ _ _ => false) _ s hrun).mpr hmeets
  exact halways.of_run hrun hbad

/-! ## Stopping -/

/-- Destroying a list of packets misuses one exactly if it was destroyed before or comes twice. -/
theorem foldl_destroyPacket_iff (ks : List Nat) :
    .destroyedPacket ∈ (ks.foldl destroyPacket s).violations ↔
      .destroyedPacket ∈ s.violations ∨ (∃ k ∈ ks, s.status k = .destroyed) ∨ ¬ ks.Nodup := by
  induction ks generalizing s with
  | nil => simp
  | cons k ks ih =>
      rw [List.foldl_cons, ih, List.nodup_cons]
      have hdestroy : ∀ {data : List Byte} {n : Nat},
          s.packets[k]? = some { data, referenceCount := n, destroyed := false } →
          (s.destroyPacket k).violations = s.violations ∧
            ∀ j, (s.destroyPacket k).status j = if j = k then .destroyed else s.status j := by
        intro data n hp
        have heq : s.destroyPacket k = { s with
            packets := s.packets.set k { data, referenceCount := n, destroyed := true } } := by
          simp [destroyPacket, hp]
        rw [heq]
        have hgone : ({ packets := [{ data, referenceCount := n, destroyed := true }] } :
            EnetServer).status 0 = .destroyed := by simp [status]
        exact ⟨rfl, fun j => by rw [status_set hp j, hgone]⟩
      have halive : ∀ {data : List Byte} {n : Nat},
          s.packets[k]? = some { data, referenceCount := n, destroyed := false } →
          s.status k ≠ .destroyed →
          ((.destroyedPacket ∈ (s.destroyPacket k).violations ∨
            (∃ j ∈ ks, (s.destroyPacket k).status j = .destroyed) ∨ ¬ ks.Nodup) ↔
          (.destroyedPacket ∈ s.violations ∨ (∃ j ∈ k :: ks, s.status j = .destroyed) ∨
            ¬ (k ∉ ks ∧ ks.Nodup))) := by
        intro data n hp hne
        obtain ⟨hviolations, hstatus⟩ := hdestroy hp
        rw [hviolations]
        refine or_congr_right ?_
        constructor
        · rintro (⟨j, hj, hgone⟩ | hnodup)
          · rw [hstatus] at hgone
            by_cases hjk : j = k
            · exact Or.inr fun h => h.1 (hjk ▸ hj)
            · rw [if_neg hjk] at hgone
              exact Or.inl ⟨j, List.mem_cons_of_mem _ hj, hgone⟩
          · exact Or.inr fun h => hnodup h.2
        · rintro (⟨j, hj, hgone⟩ | hnodup)
          · rcases List.mem_cons.mp hj with rfl | hj
            · exact absurd hgone hne
            · refine Or.inl ⟨j, hj, ?_⟩
              rw [hstatus]
              split
              · rfl
              · exact hgone
          · by_cases hmem : k ∈ ks
            · exact Or.inl ⟨k, hmem, by rw [hstatus, if_pos rfl]⟩
            · exact Or.inr fun h => hnodup ⟨hmem, h⟩
      rcases status_cases (s := s) k with ⟨data, hp, hstatus⟩ | ⟨data, n, hp, hstatus⟩ |
        ⟨hp, hstatus⟩
      · exact halive hp (by rw [hstatus]; decide)
      · exact halive hp (by rw [hstatus]; decide)
      · have heq : s.destroyPacket k = s.violate .destroyedPacket := by
          unfold destroyPacket
          split
          · next data n hpacket => exact absurd hpacket (hp data n)
          · rfl
        rw [heq]
        exact iff_of_true (Or.inl (List.mem_append_right _ (List.mem_singleton_self _)))
          (Or.inr (Or.inl ⟨k, List.mem_cons_self, hstatus⟩))

/-- The loops over client objects concern no packet. -/
theorem violations_deleteClient (client : Nat) :
    .destroyedPacket ∈ (s.deleteClient client).violations ↔ .destroyedPacket ∈ s.violations := by
  unfold deleteClient
  split
  · simp [violate]
  · rfl

/-- Deleting clients destroys no packet. -/
theorem violations_foldl_deleteClient (cs : List Nat) :
    .destroyedPacket ∈ (cs.foldl deleteClient s).violations ↔ .destroyedPacket ∈ s.violations := by
  induction cs generalizing s with
  | nil => rfl
  | cons c cs ih => rw [List.foldl_cons, ih, violations_deleteClient]

/-- **When stopping destroys a packet twice.**  In whatever state a server is stopped, precisely
where two entries of the queue share a packet, unless a destroyed packet had been touched before. -/
theorem stop_destroys_twice_iff (kind : ServerKind) (accepts : Nat → UInt8 → List Byte → Bool)
    (es : List Event) (s : EnetServer) (hrun : Runs.run (step kind accepts) {} es = some s) :
    .destroyedPacket ∈ s.stopListening.violations ↔
      .destroyedPacket ∈ s.violations ∨
        ¬ (s.packetQueue.map fun qp => qp.packet).Nodup := by
  have hone : ∀ (t : EnetServer) (e : Event) (t' : EnetServer), (Lifelines t ∧ Queued t) →
      step kind accepts t e = some t' → Lifelines t' ∧ Queued t' := by
    intro t e t' ht hstep
    exact ⟨lifelines_step ht.1 hstep, (step_packets ht.1 ht.2 hstep).1⟩
  have hqueued := (Runs.run_invariant hone hrun ⟨lifelines_initial, by simp [Queued]⟩).2
  have hloop : s.packetQueue.foldl (fun t qp => t.destroyPacket qp.packet) s.disconnectAllPeers =
      (s.packetQueue.map fun qp => qp.packet).foldl destroyPacket s.disconnectAllPeers :=
    List.foldl_map.symm
  have hstop : .destroyedPacket ∈ s.stopListening.violations ↔ .destroyedPacket ∈
      ((s.packetQueue.map fun qp => qp.packet).foldl destroyPacket
        s.disconnectAllPeers).violations := by
    rw [← hloop]
    simp only [stopListening, foldl_destroyUnhandledEventData]
    rw [violations_foldl_deleteClient]
    exact violations_foldl_deleteClient (s := { s.packetQueue.foldl
      (fun t qp => t.destroyPacket qp.packet) s.disconnectAllPeers with packetQueue := [] }) _
  rw [hstop, foldl_destroyPacket_iff]
  refine or_congr_right ?_
  rw [or_iff_right]
  rintro ⟨k, hk, hgone⟩
  obtain ⟨qp, hqp, rfl⟩ := List.mem_map.mp hk
  have hunsent : s.status qp.packet = .unsent := hqueued qp hqp
  change s.status qp.packet = .destroyed at hgone
  rw [hunsent] at hgone
  cases hgone

/-- One packet for two clients, still in the queue. -/
theorem stop_destroys_twice_iff_shared :
    ∃ s, Runs.run (step .standard fun _ _ _ => true) {} sharedPacket = some s ∧
      .destroyedPacket ∈ s.stopListening.violations := by
  have hqueue : (Runs.run (step .standard fun _ _ _ => true) {} sharedPacket).map
      (fun s => s.packetQueue.map fun qp => qp.packet) = some [2, 2] := by decide +kernel
  obtain ⟨s, hrun, hs⟩ := Option.map_eq_some_iff.mp hqueue
  refine ⟨s, hrun, (stop_destroys_twice_iff .standard (fun _ _ _ => true) _ s hrun).mpr (Or.inr ?_)⟩
  rw [hs]
  decide

end EnetServer

end EnkiNet
