import EnkiNet.ClientObjects

/-!
# The map from ids to peers

`_thread_peer_map` takes the id of a client to its peer, which is how a queued packet finds its
receiver.  The map is right as long as no two clients share an id.  `ids` is the server as
`IdServer` sees it: the ids of connected peers, the events and the packets that will free one, and
the free ids.  Its invariant `Accounted` is carried over step by step, and with it the map is exact
(`peerMap_exact`): both assertions of `handle_disconnect_event_in_thread` hold, and a packet for all
clients names each of them once.
-/

namespace EnkiNet

open ByteStore Packet Channels

namespace EnetServer

variable {s s' : EnetServer} {client : Nat} {id : ClientID}

/-- An event as the lambdas of `processPackets` see it. -/
def transportEvent (s : EnetServer) : Nat × EventType → TransportEvent
  | (client, .connect) => .connected ((s.getID client).getD 0)
  | (client, .receive data) => .received ((s.getID client).getD 0) data
  | (client, .disconnect) => .disconnected ((s.getID client).getD 0)

/-- The server's ids. -/
def ids (s : EnetServer) : IdServer where
  nextUid := s.nextUid
  freeIds := s.freeIds
  events := s.ahead.map s.transportEvent
  packets := s.received
  live := s.threadPeerMap.keys

/-- A connection finds a free id or a counter that has not wrapped around, and no client sends a
packet of type `DISCONNECTED`. -/
def Regular (s : EnetServer) : Event → Prop
  | .connect _ _ => s.freeIds ≠ [] ∨ 2 ≤ s.nextUid.toNat
  | .receive _ data => (PacketHeader.ofBytes data).type ≠ .disconnected
  | .localPacket p _ _ => p.header.type ≠ .disconnected
  | _ => True

instance (s : EnetServer) : (e : Event) → Decidable (s.Regular e)
  | .connect .. => inferInstanceAs (Decidable (_ ∨ _))
  | .receive .. => inferInstanceAs (Decidable (_ ≠ _))
  | .localPacket .. => inferInstanceAs (Decidable (_ ≠ _))
  | .disconnect .. => .isTrue trivial
  | .lose .. => .isTrue trivial
  | .sendQueuedPackets => .isTrue trivial
  | .release .. => .isTrue trivial
  | .takeEvents => .isTrue trivial
  | .handleEvent .. => .isTrue trivial
  | .update => .isTrue trivial
  | .sendPacketTo .. => .isTrue trivial
  | .sendPacketToAllIf .. => .isTrue trivial

/-- A peer has an object with this id. -/
def Serves (s : EnetServer) (peer : Nat) (id : ClientID) : Prop :=
  ∃ c, (s.peers peer).data = some c ∧ s.getID c = some id

structure Mapped (s : EnetServer) : Prop where
  lifelines : Lifelines s
  accounted : IdServer.Accounted s.ids
  lookup : ∀ id peer, s.threadPeerMap.lookup id = some peer ↔ s.Serves peer id
  violations : ∀ v ∈ s.violations, v = .destroyedPacket

/-- A server starts with an empty map. -/
theorem mapped_initial : Mapped {} where
  lifelines := lifelines_initial
  accounted := IdServer.accounted_initial
  lookup id peer := by
    refine iff_of_false (by simp) ?_
    rintro ⟨c, hc, _⟩
    cases hc
  violations := by simp

/-! ## Steps that move no id -/

/-- What the transport has to say of a client depends on its id only. -/
theorem transportEvent_congr {c : Nat} {type : EventType} (h : s'.getID c = s.getID c) :
    s'.transportEvent (c, type) = s.transportEvent (c, type) := by
  cases type <;> simp only [transportEvent, h]

theorem transportEvent_eq (h : s'.clients = s.clients) : s'.transportEvent = s.transportEvent := by
  funext ⟨c, type⟩
  exact transportEvent_congr (getID_congr h)

/-- An event that the worker adds. -/
theorem ids_push (s s' : EnetServer) (client : Nat) (type : EventType)
    (hclients : s'.clients = s.clients)
    (hahead : s'.ahead = s.ahead ++ [(client, type)]) :
    s'.ids.events = s.ids.events ++ [s.transportEvent (client, type)] := by
  simp only [ids, hahead, transportEvent_eq hclients, List.map_append, List.map_cons, List.map_nil]

/-- Sending hands out no id. -/
theorem Sending.ids_eq (h : Sending s s') : s'.ids = s.ids := by
  rw [h.eq]
  rfl

/-- Sending does not touch the map. -/
theorem Mapped.of_sending (h : Mapped s) (hsending : Sending s s') : Mapped s' := by
  obtain ⟨new, hnew, hall⟩ := hsending.violations
  refine ⟨h.lifelines.of_same hsending.same, hsending.ids_eq ▸ h.accounted, ?_, ?_⟩
  · have hmap : s'.threadPeerMap = s.threadPeerMap := by rw [hsending.eq]
    intro id peer
    rw [hmap, h.lookup, Serves, Serves, hsending.same.peers_eq]
    simp only [getID_congr hsending.same.clients_eq]
  · rw [hnew]
    intro v hv
    rcases List.mem_append.mp hv with hv | hv
    · exact h.violations v hv
    · exact hall v hv

/-! ## Connecting -/

/-- `get_next_uid` of the server is that of its ids. -/
theorem ids_getNextUID : s.ids.getNextUID = (s.getNextUID.1, s.getNextUID.2.ids) := by
  unfold getNextUID IdServer.getNextUID
  rcases hfree : s.freeIds with _ | ⟨id, rest⟩
  · simp only [ids, hfree]
    rfl
  · simp only [ids, hfree]
    rfl

/-- A connecting peer is mapped under an id that is free. -/
theorem Mapped.connect (h : Mapped s) {peer : Nat} (hdata : (s.peers peer).data = none)
    (hregular : s.freeIds ≠ [] ∨ 2 ≤ s.nextUid.toNat) (kind : ServerKind) (sentAt : UInt32) :
    Mapped (s.handleConnectEvent kind sentAt peer) := by
  obtain ⟨hid, hsending⟩ := clientInit_sending (s := s) kind sentAt
  have hsame := same_clientInit (s := s) kind sentAt
  obtain ⟨hmap, hviolations⟩ := getNextUID_map (s := s)
  rw [handleConnectEvent_eq kind sentAt hdata, hid]
  generalize hnext : s.getNextUID = next at hsending hmap hviolations
  obtain ⟨id, u⟩ := next
  generalize (s.clientInit kind sentAt).2 = t at hsending hsame
  have hmapped : t.threadPeerMap = s.threadPeerMap := by rw [hsending.eq]; exact hmap
  have hdata' : (t.peers peer).data = none := by rw [hsame.peers_eq]; exact hdata
  have hids : s.ids.getNextUID = (id, t.ids) := by rw [ids_getNextUID, hnext, hsending.ids_eq]
  have haccounted := h.accounted.connect hregular hids
  have hlife := h.lifelines.of_same hsame
  have hlife' := hlife.attach hdata' id
  have hold : ∀ c x, t.getID c = some x → (t.attach id peer).getID c = some x := by
    intro c x hc
    have hstored := getID_eq_some.mp hc
    obtain ⟨hlt, _⟩ := List.getElem?_eq_some_iff.mp hstored
    exact getID_eq_some.mpr ((List.getElem?_append_left hlt).trans hstored)
  have hnew : (t.attach id peer).getID t.clients.length = some id :=
    getID_eq_some.mpr (by simp [attach])
  have hunused : id ∉ t.threadPeerMap.keys := by
    intro hmem
    have hlive := (List.nodup_append.mp haccounted.nodup).1
    exact (List.nodup_append.mp hlive).2.2 id hmem id (List.mem_singleton_self id) rfl
  have hevents : (t.attach id peer).ids.events = t.ids.events ++ [.connected id] := by
    have hahead : (t.attach id peer).ahead = t.ahead ++ [(t.clients.length, .connect)] :=
      (List.append_assoc _ _ _).symm
    simp only [ids, hahead, List.map_append, List.map_cons, List.map_nil]
    congr 1
    · refine List.map_congr_left ?_
      rintro ⟨c, type⟩ hmem
      obtain ⟨x, hx⟩ := hlife.alive_of_event hmem
      exact transportEvent_congr ((hold c x hx).trans hx.symm)
    · simp [transportEvent, hnew]
  have hkeys : (t.attach id peer).ids.live = id :: t.ids.live := by
    change (t.threadPeerMap.insert id peer).keys = _
    rw [AList.keys_insert, List.erase_of_not_mem hunused]
    rfl
  refine ⟨hlife', haccounted.of_perm ?_ rfl ?_, ?_, ?_⟩
  · simp only [IdServer.given, hevents, hkeys]
    exact (List.perm_append_singleton id t.ids.live).symm.append_right _
  · rw [hevents]
    exact haccounted.honest
  · intro x p
    by_cases hx : x = id
    · subst hx
      rw [show (t.attach x peer).threadPeerMap = t.threadPeerMap.insert x peer from rfl,
        AList.lookup_insert]
      constructor
      · intro hp
        cases hp
        exact ⟨t.clients.length, by simp [attach], hnew⟩
      · rintro ⟨c, hc, hget⟩
        by_cases hp : p = peer
        · rw [hp]
        · have hc' : (t.peers p).data = some c := by simpa [attach, hp] using hc
          obtain ⟨y, hy⟩ := hlife.alive_of_attached ⟨p, hc'⟩
          have hxy : y = x := Option.some.inj ((hold c y hy).symm.trans hget)
          rw [hsame.peers_eq] at hc'
          rw [getID_congr hsame.clients_eq, hxy] at hy
          have hmem := (h.lookup x p).mpr ⟨c, hc', hy⟩
          rw [← hmapped] at hmem
          exact absurd (AList.lookup_isSome.mp (by rw [hmem]; rfl)) hunused
    · rw [show (t.attach id peer).threadPeerMap = t.threadPeerMap.insert id peer from rfl,
        AList.lookup_insert_ne hx, hmapped, h.lookup]
      constructor
      · rintro ⟨c, hc, hget⟩
        have hne : p ≠ peer := by
          rintro rfl
          rw [hdata] at hc
          cases hc
        refine ⟨c, by simp [attach, hne, hsame.peers_eq, hc], hold c x ?_⟩
        rw [getID_congr hsame.clients_eq]
        exact hget
      · rintro ⟨c, hc, hget⟩
        by_cases hp : p = peer
        · have hc' : t.clients.length = c := by simpa [attach, hp] using hc
          rw [← hc', hnew] at hget
          exact absurd (Option.some.inj hget).symm hx
        · have hc' : (t.peers p).data = some c := by simpa [attach, hp] using hc
          obtain ⟨y, hy⟩ := hlife.alive_of_attached ⟨p, hc'⟩
          have hxy : y = x := Option.some.inj ((hold c y hy).symm.trans hget)
          rw [hsame.peers_eq] at hc'
          rw [getID_congr hsame.clients_eq, hxy] at hy
          exact ⟨c, hc', hy⟩
  · change ∀ v ∈ t.violations, _
    obtain ⟨new, hnewv, hall⟩ := hsending.violations
    rw [hnewv, hviolations]
    intro v hv
    rcases List.mem_append.mp hv with hv | hv
    · exact h.violations v hv
    · exact hall v hv

/-- A connection takes an id that is not in the map. -/
theorem Mapped.nextUID_unused (h : Mapped s) (hregular : s.freeIds ≠ [] ∨ 2 ≤ s.nextUid.toNat) :
    s.getNextUID.1 ∉ s.threadPeerMap := by
  have haccounted := h.accounted.connect hregular ids_getNextUID
  have hlive := (List.nodup_append.mp haccounted.nodup).1
  intro hmem
  rw [AList.mem_keys, ← (getNextUID_map (s := s)).1] at hmem
  exact (List.nodup_append.mp hlive).2.2 _ hmem _ (List.mem_singleton_self _) rfl

/-! ## The worker's other steps -/

/-- The id of a peer's object is in the map. -/
theorem Mapped.served (h : Mapped s) {peer : Nat} (hdata : (s.peers peer).data = some client) :
    ∃ id, s.getID client = some id ∧ s.threadPeerMap.lookup id = some peer ∧
      id ∈ s.threadPeerMap.keys := by
  obtain ⟨id, hid⟩ := h.lifelines.alive_of_attached ⟨peer, hdata⟩
  have hlookup := (h.lookup id peer).mpr ⟨client, hdata, hid⟩
  exact ⟨id, hid, hlookup, AList.lookup_isSome.mp (by rw [hlookup]; rfl)⟩

/-- A packet that says nothing of a disconnection leaves the map as it is. -/
theorem Mapped.receive (h : Mapped s) {peer : Nat} {data : List Byte}
    (hhonest : (PacketHeader.ofBytes data).type ≠ .disconnected) :
    Mapped (s.handleReceiveEvent peer data) := by
  unfold handleReceiveEvent
  split
  · exact h
  · next client hdata =>
    obtain ⟨id, hid, _, hmem⟩ := h.served hdata
    refine ⟨h.lifelines.receive data hdata, ?_, h.lookup, h.violations⟩
    refine IdServer.step_accounted (e := .data (s.threadPeerMap.keys.idxOf id) data) h.accounted
      hhonest (show IdServer.step .standard _ _ = _ from ?_)
    have hlive : s.ids.live[s.threadPeerMap.keys.idxOf id]? = some id := List.getElem?_idxOf hmem
    have hevents := ids_push s { s with eventQueue := s.eventQueue ++ [(client, .receive data)] }
      client (.receive data) rfl (List.append_assoc _ _ _).symm
    simp only [transportEvent, hid, Option.getD_some] at hevents
    simp only [IdServer.step, hlive, Option.bind_eq_bind, Option.bind_some, ← hevents]
    rfl

/-- The peer of a disconnection is the one in the map. -/
theorem Mapped.handleDisconnectEvent_eq (h : Mapped s) {peer : Nat}
    (hstate : (s.peers peer).state ≠ .disconnected) :
    ∃ client id, (s.peers peer).data = some client ∧ s.getID client = some id ∧
      s.threadPeerMap.lookup id = some peer ∧
      s.handleDisconnectEvent peer = { s with
        threadPeerMap := s.threadPeerMap.erase id
        peers := Function.update s.peers peer {}
        eventQueue := s.eventQueue ++ [(client, .disconnect)] } := by
  obtain ⟨client, hdata⟩ := Option.ne_none_iff_exists'.mp fun hnone =>
    hstate ((h.lifelines.state_iff peer).mpr hnone)
  obtain ⟨id, hid, hlookup, _⟩ := h.served hdata
  exact ⟨client, id, hdata, hid, hlookup, by
    simp [handleDisconnectEvent, hdata, erasePeer, hid, hlookup, check]⟩

/-- A disconnecting peer leaves the map. -/
theorem Mapped.disconnect (h : Mapped s) {peer : Nat}
    (hstate : (s.peers peer).state ≠ .disconnected) : Mapped (s.handleDisconnectEvent peer) := by
  obtain ⟨client, id, hdata, hid, hlookup, herase⟩ := h.handleDisconnectEvent_eq hstate
  have hmem : id ∈ s.threadPeerMap.keys := AList.lookup_isSome.mp (by rw [hlookup]; rfl)
  refine ⟨h.lifelines.handleDisconnectEvent hstate, ?_, ?_, ?_⟩
  · rw [herase]
    refine IdServer.step_accounted (e := .disconnect (s.threadPeerMap.keys.idxOf id)) h.accounted
      trivial (show IdServer.step .standard _ _ = _ from ?_)
    have hlive : s.ids.live[s.threadPeerMap.keys.idxOf id]? = some id := List.getElem?_idxOf hmem
    have hkeys : (s.threadPeerMap.erase id).keys =
        s.threadPeerMap.keys.eraseIdx (s.threadPeerMap.keys.idxOf id) := by
      rw [AList.keys_erase, List.erase_eq_eraseIdx_of_idxOf rfl]
    have hevents := ids_push s { s with
        threadPeerMap := s.threadPeerMap.erase id
        peers := Function.update s.peers peer {}
        eventQueue := s.eventQueue ++ [(client, .disconnect)] } client .disconnect rfl
      (List.append_assoc _ _ _).symm
    simp only [transportEvent, hid, Option.getD_some] at hevents
    have hids : s.ids.live.eraseIdx (s.threadPeerMap.keys.idxOf id) =
        (s.threadPeerMap.erase id).keys := hkeys.symm
    simp only [IdServer.step, hlive, Option.bind_eq_bind, Option.bind_some, ← hevents, hids]
    rfl
  · rw [herase]
    intro x p
    by_cases hx : x = id
    · subst hx
      rw [AList.lookup_erase]
      refine iff_of_false (by simp) ?_
      rintro ⟨c, hc, hget⟩
      by_cases hp : p = peer
      · simp [hp] at hc
      · have hc' : (s.peers p).data = some c := by simpa [hp] using hc
        rw [(h.lookup x p).mpr ⟨c, hc', hget⟩] at hlookup
        exact hp (Option.some.inj hlookup)
    · rw [AList.lookup_erase_ne hx, h.lookup]
      constructor
      · rintro ⟨c, hc, hget⟩
        have hne : p ≠ peer := by
          rintro rfl
          rw [hdata] at hc
          rw [← Option.some.inj hc, hid] at hget
          exact hx (Option.some.inj hget).symm
        exact ⟨c, by simp [hne, hc], hget⟩
      · rintro ⟨c, hc, hget⟩
        by_cases hp : p = peer
        · simp [hp] at hc
        · exact ⟨c, by simpa [hp] using hc, hget⟩
  · rw [herase]
    exact h.violations

/-- A peer that is lost stays in the map until its event is handled. -/
theorem Mapped.lose (h : Mapped s) {peer : Nat} (hstate : (s.peers peer).state ≠ .disconnected) :
    Mapped { s with
      peers := Function.update s.peers peer { s.peers peer with state := .zombie } } := by
  refine ⟨h.lifelines.lose hstate, h.accounted, fun id p => ?_, h.violations⟩
  rw [h.lookup, Serves, Serves]
  by_cases hp : p = peer
  · simp [hp, getID]
  · simp [hp, getID]

/-! ## The consumer's steps -/

/-- The consumer gives an id back only after the peer has left the map. -/
theorem Mapped.handled (h : Mapped s) {sentAt receivedAt : UInt32} {type : EventType}
    {rest : List (Nat × EventType)} (hcopy : s.eventQueueCopy = (client, type) :: rest)
    (hid : s.getID client = some id)
    (hhandled : Handled sentAt receivedAt client id rest s s' type) : Mapped s' := by
  have hlife := h.lifelines.handled hcopy hid hhandled
  have hevents : s.ids.events =
      s.transportEvent (client, type) :: (rest ++ s.eventQueue).map s.transportEvent := by
    simp [ids, ahead, hcopy]
  have hstep : ∀ p, packetOfEvent sentAt receivedAt (s.transportEvent (client, type)) = .ok p →
      IdServer.step .standard s.ids (.consume sentAt receivedAt) =
        some { s.ids with
          events := (rest ++ s.eventQueue).map s.transportEvent
          packets := s.ids.packets ++ [p] } := by
    intro p hp
    simp only [IdServer.step, hevents, hp]
  have haccounted : ∀ t : EnetServer, t.ids = { s.ids with
        events := (rest ++ s.eventQueue).map s.transportEvent
        packets := t.received } →
      (∃ p, packetOfEvent sentAt receivedAt (s.transportEvent (client, type)) = .ok p ∧
        t.received = s.received ++ [p]) → IdServer.Accounted t.ids := by
    rintro t ht ⟨p, hp, hreceived⟩
    rw [hreceived] at ht
    rw [ht]
    exact IdServer.step_accounted (e := .consume sentAt receivedAt) h.accounted trivial (hstep p hp)
  cases hhandled with
  | connect hnew hs' =>
      subst hs'
      refine ⟨hlife, haccounted _ rfl ⟨_, ?_, rfl⟩, h.lookup, h.violations⟩
      simp [transportEvent, hid, packetOfEvent]
  | receive data p hmem hp hs' =>
      subst hs'
      refine ⟨hlife, haccounted _ rfl ⟨p, ?_, rfl⟩, h.lookup, h.violations⟩
      simp [transportEvent, hid, packetOfEvent, hp]
  | disconnect hmem hs' =>
      subst hs'
      have hother : ∀ c, c ≠ client → ({ s with
          eventQueueCopy := rest
          connectedClients := s.connectedClients.erase client
          clients := s.clients.set client none
          received := s.received ++ [onClientDisconnected id sentAt receivedAt] } :
            EnetServer).getID c =
            s.getID c := by
        intro c hc
        simp [getID, List.getElem?_set_ne (Ne.symm hc)]
      have hgone : ({ s with
          eventQueueCopy := rest
          connectedClients := s.connectedClients.erase client
          clients := s.clients.set client none
          received := s.received ++ [onClientDisconnected id sentAt receivedAt] } :
            EnetServer).getID
            client = none := by
        have hlt := (List.getElem?_eq_some_iff.mp (getID_eq_some.mp hid)).1
        simp [getID, hlt]
      refine ⟨hlife, haccounted _ ?_ ⟨_, ?_, rfl⟩, ?_, h.violations⟩
      · simp only [ids, ahead]
        congr 1
        refine List.map_congr_left ?_
        rintro ⟨c, t⟩ hmem'
        refine transportEvent_congr (hother c ?_)
        rintro rfl
        obtain ⟨x, hx⟩ := hlife.alive_of_event hmem'
        rw [hgone] at hx
        cases hx
      · simp [transportEvent, hid, packetOfEvent]
      · intro x p
        rw [h.lookup]
        constructor
        · rintro ⟨c, hc, hget⟩
          have hne : c ≠ client := by
            rintro rfl
            obtain ⟨y, hy⟩ := hlife.alive_of_attached ⟨p, hc⟩
            rw [hgone] at hy
            cases hy
          exact ⟨c, hc, (hother c hne).trans hget⟩
        · rintro ⟨c, hc, hget⟩
          have hne : c ≠ client := by
            rintro rfl
            rw [hgone] at hget
            cases hget
          exact ⟨c, hc, (hother c hne).symm.trans hget⟩

/-- A packet that the game handles leaves the map as it is. -/
theorem Mapped.update (h : Mapped s) {p : Packet} {rest : List Packet}
    (hreceived : s.received = p :: rest) :
    Mapped (onPacketReceived p { s with received := rest, emitted := s.emitted ++ [p] }) := by
  have htaken : SameObjects s { s with received := rest, emitted := s.emitted ++ [p] } :=
    ⟨rfl, rfl, rfl, rfl, [], by simp, by simp⟩
  have hlife := h.lifelines.of_same (htaken.trans (same_onPacketReceived p))
  by_cases hp : p.header.type = .disconnected
  · have hafter : onPacketReceived p { s with received := rest, emitted := s.emitted ++ [p] } =
        { s with
          received := rest
          emitted := s.emitted ++ [p]
          freeIds := s.freeIds ++ [p.info.senderID] } := if_pos hp
    rw [hafter] at hlife ⊢
    refine ⟨hlife, h.accounted.of_perm ?_ rfl h.accounted.honest, h.lookup, h.violations⟩
    have hfreed : IdServer.freedByPacket p = some p.info.senderID := if_pos hp
    simp only [IdServer.given, ids, hreceived, List.filterMap_cons, hfreed]
    refine List.Perm.append_left _ (List.Perm.append_left _ ?_)
    rw [← List.append_assoc]
    exact List.perm_append_comm
  · have hafter : onPacketReceived p { s with received := rest, emitted := s.emitted ++ [p] } =
        { s with received := rest, emitted := s.emitted ++ [p] } := if_neg hp
    rw [hafter] at hlife ⊢
    refine ⟨hlife, h.accounted.of_perm ?_ rfl h.accounted.honest, h.lookup, h.violations⟩
    have hfreed : IdServer.freedByPacket p = none := if_neg hp
    simp only [IdServer.given, ids, hreceived, List.filterMap_cons, hfreed]
    exact List.Perm.refl _

/-! ## Whole runs -/

section
variable {kind : ServerKind} {accepts : Nat → UInt8 → List Byte → Bool}

/-- **One step.** -/
theorem mapped_step {e : Event} (h : Mapped s) (hregular : s.Regular e)
    (hstep : step kind accepts s e = some s') : Mapped s' := by
  cases e with
  | connect peer sentAt =>
      obtain ⟨hstate, hs'⟩ := Option.ite_none_right_eq_some.mp hstep
      cases hs'
      exact h.connect ((h.lifelines.state_iff peer).mp hstate) hregular kind sentAt
  | receive peer data =>
      obtain ⟨_, hs'⟩ := Option.ite_none_left_eq_some.mp hstep
      cases hs'
      exact h.receive hregular
  | disconnect peer =>
      obtain ⟨hstate, hs'⟩ := Option.ite_none_left_eq_some.mp hstep
      cases hs'
      exact h.disconnect hstate
  | lose peer =>
      obtain ⟨hstate, hs'⟩ := Option.ite_none_left_eq_some.mp hstep
      cases hs'
      exact h.lose hstate
  | sendQueuedPackets =>
      cases hstep
      exact h.of_sending (sending_sendQueuedPackets accepts)
  | release packet => exact h.of_sending (sending_release hstep)
  | takeEvents =>
      obtain ⟨hcopy, hs'⟩ := Option.ite_none_right_eq_some.mp hstep
      have hlife := lifelines_step h.lifelines hstep
      cases hs'
      have hids : ({ s with eventQueueCopy := s.eventQueue, eventQueue := [] } : EnetServer).ids =
          s.ids := by
        simp only [ids, ahead, hcopy, List.append_nil, List.nil_append]
        rfl
      exact ⟨hlife, hids ▸ h.accounted, h.lookup, h.violations⟩
  | handleEvent sentAt receivedAt =>
      simp only [step] at hstep
      split at hstep
      · cases hstep
      · next client type rest hcopy =>
        obtain ⟨id, hid, hhandled⟩ := handleEvent_cases h.lifelines hcopy hstep
        exact h.handled hcopy hid hhandled
  | update =>
      simp only [step] at hstep
      split at hstep
      · cases hstep
      · next p rest hreceived =>
        cases hstep
        exact h.update hreceived
  | sendPacketTo client channel data =>
      cases hstep
      exact h.of_sending (sending_sendPacketTo client channel data)
  | sendPacketToAllIf predicate channel data =>
      cases hstep
      rw [sendPacketToAllIf_eq predicate channel data h.lifelines.alive]
      exact h.of_sending ⟨rfl, [], by simp, by simp⟩
  | localPacket p sentAt receivedAt =>
      cases kind with
      | host =>
          cases hstep
          have hkeep : s.onPacketReceived (stampByClientHost sentAt receivedAt p) = s :=
            if_neg hregular
          rw [hkeep]
          exact h
      | standard => cases hstep

/-- **Every run** that is regular keeps the map. -/
theorem mapped_run {es : List Event} (hregular : Runs.Meets (step kind accepts) Regular {} es)
    (hrun : Runs.run (step kind accepts) {} es = some s) : Mapped s :=
  Runs.run_invariant_of_meets (fun _ _ _ h hok hstep => mapped_step h hok hstep) hregular hrun
    mapped_initial

end

/-! ## Distinct ids -/

/-- Two elements with the same image, where images are not repeated. -/
theorem eq_of_nodup_filterMap {α β : Type} {f : α → Option β} {l : List α} {a b : α} {x : β}
    (h : (l.filterMap f).Nodup) (ha : a ∈ l) (hb : b ∈ l) (hfa : f a = some x)
    (hfb : f b = some x) : a = b := by
  have hmem : ∀ {y : α} {l' : List α}, y ∈ l' → f y = some x → x ∈ l'.filterMap f :=
    fun hy hfy => List.mem_filterMap.mpr ⟨_, hy, hfy⟩
  induction l with
  | nil => cases ha
  | cons c rest ih =>
      rcases List.mem_cons.mp ha with rfl | ha'
      · rw [List.filterMap_cons_some hfa] at h
        rcases List.mem_cons.mp hb with rfl | hb'
        · rfl
        · exact absurd (hmem hb' hfb) (List.nodup_cons.mp h).1
      · rcases List.mem_cons.mp hb with rfl | hb'
        · rw [List.filterMap_cons_some hfb] at h
          exact absurd (hmem ha' hfa) (List.nodup_cons.mp h).1
        · exact ih (h.sublist ((List.sublist_cons_self c rest).filterMap f)) ha' hb'

/-- A client is gone only after its disconnection. -/
theorem mem_of_run_gone {ms : List EventType}
    (h : Runs.run Stage.advance .listed ms = some .gone) : .disconnect ∈ ms := by
  induction ms with
  | nil => cases h
  | cons m ms ih =>
      obtain ⟨t, hm, hrest⟩ := Runs.run_cons_some h
      cases m with
      | connect => cases hm
      | receive data =>
          cases hm
          exact List.mem_cons_of_mem _ (ih hrest)
      | disconnect => exact List.mem_cons_self

/-- A client that the consumer lists has a peer, or its disconnection is among the events. -/
theorem Lifelines.attached_or_leaving (h : Lifelines s) (hmem : client ∈ s.connectedClients) :
    s.Attached client ∨ (client, .disconnect) ∈ s.ahead := by
  obtain ⟨stage, hstage, hfollows⟩ := h.follows
  obtain ⟨id, hid⟩ := h.alive client hmem
  have hrun := hfollows client
  rw [consumerStage_of_alive hid, if_pos hmem] at hrun
  cases hend : stage client with
  | fresh =>
      rw [hend] at hrun
      cases (run_to_fresh hrun).2
  | listed => exact Or.inl ((hstage.listed client).mp hend)
  | gone =>
      rw [hend] at hrun
      exact Or.inr (mem_about.mp (mem_of_run_gone hrun))

/-- Two clients that the consumer lists have different ids. -/
theorem Mapped.distinct (h : Mapped s) {c c' : Nat} (hc : c ∈ s.connectedClients)
    (hc' : c' ∈ s.connectedClients) (hid : s.getID c = some id) (hid' : s.getID c' = some id) :
    c = c' := by
  have hlive : ∀ {a : Nat}, s.Attached a → s.getID a = some id → id ∈ s.ids.live := by
    rintro a ⟨peer, hdata⟩ ha
    have hlookup := (h.lookup id peer).mpr ⟨a, hdata, ha⟩
    exact AList.lookup_isSome.mp (by rw [hlookup]; rfl)
  have hevents : s.ids.events.filterMap IdServer.freedByEvent =
      s.ahead.filterMap fun e => IdServer.freedByEvent (s.transportEvent e) := by
    rw [ids, List.filterMap_map]
    rfl
  have hfreed : ∀ {a : Nat}, s.getID a = some id →
      IdServer.freedByEvent (s.transportEvent (a, .disconnect)) = some id := by
    intro a ha
    simp [transportEvent, ha, IdServer.freedByEvent]
  have hleaving : ∀ {a : Nat}, (a, .disconnect) ∈ s.ahead → s.getID a = some id →
      id ∈ s.ids.events.filterMap IdServer.freedByEvent := by
    intro a ha hget
    rw [hevents]
    exact List.mem_filterMap.mpr ⟨_, ha, hfreed hget⟩
  obtain ⟨_, hrest, hdisjoint⟩ := List.nodup_append.mp h.accounted.nodup
  rcases h.lifelines.attached_or_leaving hc with hattached | hleave
  · rcases h.lifelines.attached_or_leaving hc' with hattached' | hleave'
    · obtain ⟨peer, hdata⟩ := hattached
      obtain ⟨peer', hdata'⟩ := hattached'
      have hsame := (h.lookup id peer).mpr ⟨c, hdata, hid⟩
      rw [(h.lookup id peer').mpr ⟨c', hdata', hid'⟩] at hsame
      rw [Option.some.inj hsame, hdata] at hdata'
      exact Option.some.inj hdata'
    · exact absurd rfl (hdisjoint id (hlive hattached hid) id
        (List.mem_append_left _ (hleaving hleave' hid')))
  · rcases h.lifelines.attached_or_leaving hc' with hattached' | hleave'
    · exact absurd rfl (hdisjoint id (hlive hattached' hid') id
        (List.mem_append_left _ (hleaving hleave hid)))
    · have hnodup := (List.nodup_append.mp hrest).1
      rw [hevents] at hnodup
      exact congrArg Prod.fst (eq_of_nodup_filterMap hnodup hleave hleave' (hfreed hid)
        (hfreed hid'))

/-- No two connected clients have one id. -/
theorem Mapped.nodup_ids (h : Mapped s) : (s.connectedClients.filterMap s.getID).Nodup := by
  refine List.pairwise_filterMap.mpr (h.lifelines.nodup.imp_of_mem ?_)
  rintro c c' hc hc' hne id hid id' hid' rfl
  exact hne (h.distinct hc hc' hid hid')

end EnetServer

end EnkiNet
