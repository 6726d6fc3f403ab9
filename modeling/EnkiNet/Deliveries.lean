import EnkiNet.OutgoingPackets
import EnkiNet.PeerMap

/-!
# What a connection is sent

A packet for a client waits in the queue under the client's id until the worker looks up the peer
that has the id then.  For a connection that stays up, what ENet has taken for it and what still
waits for it is what waited for its id when it was made, the packet with its id, and then what the
game addressed to the id, each once and in order (`deliveries_of_connection`).  What waits under an
id that is handed out again would go to the new client.
-/

namespace EnkiNet

open ByteStore Packet Channels

namespace EnetServer

variable {s s' : EnetServer} {accepts : Nat → UInt8 → List Byte → Bool} {id : ClientID} {peer : Nat}

/-- The bytes behind a packet. -/
def dataOf (s : EnetServer) (packet : Nat) : Option (List Byte) :=
  (s.packets[packet]?).map fun p => p.data

/-- What waits in a queue for an id. -/
def waitingIn (s : EnetServer) (id : ClientID) (qps : List QueuedPacket) : List (List Byte) :=
  qps.filterMap fun qp => if qp.clientID = id then s.dataOf qp.packet else none

def waiting (s : EnetServer) (id : ClientID) : List (List Byte) := s.waitingIn id s.packetQueue

/-- What ENet has taken for a peer. -/
def sentTo (s : EnetServer) (peer : Nat) : List (List Byte) := about peer s.sent

/-- What an event addresses to an id. -/
def addressed (id : ClientID) (s : EnetServer) : Event → List (List Byte)
  | .sendPacketTo client _ data => if client = id then [data] else []
  | .sendPacketToAllIf predicate _ data =>
      if id ∈ s.connectedClients.filterMap s.getID ∧ predicate id then [data] else []
  | _ => []

/-- The peer does not lose its connection. -/
def Stays (peer : Nat) : Event → Prop
  | .disconnect other => other ≠ peer
  | .lose other => other ≠ peer
  | _ => True

instance (peer : Nat) : (e : Event) → Decidable (Stays peer e)
  | .disconnect .. => inferInstanceAs (Decidable (_ ≠ _))
  | .lose .. => inferInstanceAs (Decidable (_ ≠ _))
  | .sendQueuedPackets => .isTrue trivial
  | .connect .. => .isTrue trivial
  | .receive .. => .isTrue trivial
  | .release .. => .isTrue trivial
  | .takeEvents => .isTrue trivial
  | .handleEvent .. => .isTrue trivial
  | .update => .isTrue trivial
  | .sendPacketTo .. => .isTrue trivial
  | .sendPacketToAllIf .. => .isTrue trivial
  | .localPacket .. => .isTrue trivial

/-- The peer takes what is for it. -/
def Holds (accepts : Nat → UInt8 → List Byte → Bool) (peer : Nat) (id : ClientID) (s : EnetServer) :
    Event → Prop
  | .sendQueuedPackets => ∀ qp ∈ s.packetQueue, qp.clientID = id →
      ∀ data ∈ s.dataOf qp.packet, accepts peer qp.channelID data = true
  | _ => True

instance (accepts : Nat → UInt8 → List Byte → Bool) (peer : Nat) (id : ClientID) (s : EnetServer) :
    (e : Event) → Decidable (s.Holds accepts peer id e)
  | .sendQueuedPackets => inferInstanceAs (Decidable (∀ qp ∈ s.packetQueue, qp.clientID = id →
      ∀ data ∈ s.dataOf qp.packet, accepts peer qp.channelID data = true))
  | .disconnect .. => .isTrue trivial
  | .lose .. => .isTrue trivial
  | .connect .. => .isTrue trivial
  | .receive .. => .isTrue trivial
  | .release .. => .isTrue trivial
  | .takeEvents => .isTrue trivial
  | .handleEvent .. => .isTrue trivial
  | .update => .isTrue trivial
  | .sendPacketTo .. => .isTrue trivial
  | .sendPacketToAllIf .. => .isTrue trivial
  | .localPacket .. => .isTrue trivial

/-- A regular step that touches no destroyed packet, in which the peer stays and takes what is for
it. -/
def Keeps (accepts : Nat → UInt8 → List Byte → Bool) (peer : Nat) (id : ClientID)
    (s : EnetServer) (e : Event) : Prop :=
  s.Regular e ∧ Stays peer e ∧ s.Unrefused accepts e ∧ s.Holds accepts peer id e

instance (accepts : Nat → UInt8 → List Byte → Bool) (peer : Nat) (id : ClientID) (s : EnetServer)
    (e : Event) : Decidable (s.Keeps accepts peer id e) :=
  inferInstanceAs (Decidable (_ ∧ _ ∧ _ ∧ _))

/-- The peer is connected under the id. -/
structure Joined (peer : Nat) (id : ClientID) (s : EnetServer) : Prop where
  mapped : Mapped s
  lookup : s.threadPeerMap.lookup id = some peer
  connected : (s.peers peer).state = .connected

/-- Moreover the packets of the queue can be touched. -/
structure Linked (peer : Nat) (id : ClientID) (s : EnetServer) : Prop extends Joined peer id s where
  queued : Queued s
  safe : .destroyedPacket ∉ s.violations

/-! ## Sending the queue -/

theorem dataOf_set {packet : Nat} {old new : ENetPacket} (hp : s.packets[packet]? = some old)
    (hdata : new.data = old.data) (k : Nat) :
    ({ s with packets := s.packets.set packet new } : EnetServer).dataOf k = s.dataOf k := by
  obtain ⟨hlt, hget⟩ := List.getElem?_eq_some_iff.mp hp
  by_cases heq : k = packet
  · subst heq
    simp [dataOf, hlt, hget, hdata]
  · simp [dataOf, List.getElem?_set_ne (Ne.symm heq)]

theorem dataOf_sendQueuedPacket (accepts : Nat → UInt8 → List Byte → Bool) (s : EnetServer)
    (qp : QueuedPacket) :
    (s.sendQueuedPacket accepts qp).dataOf = s.dataOf := by
  funext k
  unfold sendQueuedPacket
  split
  · rfl
  · split
    · split
      · next data n hp =>
        split
        · exact dataOf_set hp (by rfl) k
        · split
          · unfold destroyPacket
            split
            · next hp' => exact dataOf_set hp' (by rfl) k
            · rfl
          · rfl
      · rfl
    · rfl

theorem waitingIn_congr (h : s'.dataOf = s.dataOf) (id : ClientID) (qps : List QueuedPacket) :
    s'.waitingIn id qps = s.waitingIn id qps := by
  simp only [waitingIn, h]

theorem waitingIn_append (id : ClientID) (qps qps' : List QueuedPacket) :
    s.waitingIn id (qps ++ qps') = s.waitingIn id qps ++ s.waitingIn id qps' :=
  List.filterMap_append

theorem sentTo_push (receiver : Nat) (data : List Byte) :
    ({ s with sent := s.sent ++ [(receiver, data)] } : EnetServer).sentTo peer =
      s.sentTo peer ++ if receiver = peer then [data] else [] := by
  simp only [sentTo, about_append]
  congr 1
  by_cases h : receiver = peer
  · rw [h, about_cons_self, if_pos rfl]
    rfl
  · rw [about_cons_ne h, if_neg h]
    rfl

/-- **One entry.**  The peer is sent what is for its id and nothing else. -/
theorem sentTo_sendQueuedPacket (qp : QueuedPacket)
    (hlookup : s.threadPeerMap.lookup id = some peer)
    (hunique : ∀ other, s.threadPeerMap.lookup other = some peer → other = id)
    (hstate : (s.peers peer).state = .connected)
    (haccepts : qp.clientID = id → ∀ data, s.dataOf qp.packet = some data →
      accepts peer qp.channelID data = true)
    (hsafe : .destroyedPacket ∉ (s.sendQueuedPacket accepts qp).violations) :
    (s.sendQueuedPacket accepts qp).sentTo peer = s.sentTo peer ++ s.waitingIn id [qp] := by
  by_cases hid : qp.clientID = id
  · have hfound : s.threadPeerMap.lookup qp.clientID = some peer := by rw [hid, hlookup]
    rcases status_cases (s := s) qp.packet with ⟨data, hp, _⟩ | ⟨data, n, hp, _⟩ | ⟨hp, _⟩
    · have hdata : s.dataOf qp.packet = some data := by simp [dataOf, hp]
      have htaken := haccepts hid data hdata
      have hwaiting : s.waitingIn id [qp] = [data] := by simp [waitingIn, hid, hdata]
      rw [hwaiting]
      simp only [sendQueuedPacket, hfound, if_pos hstate, hp, if_pos htaken]
      exact (sentTo_push peer data).trans (by rw [if_pos rfl])
    · have hdata : s.dataOf qp.packet = some data := by simp [dataOf, hp]
      have htaken := haccepts hid data hdata
      have hwaiting : s.waitingIn id [qp] = [data] := by simp [waitingIn, hid, hdata]
      rw [hwaiting]
      simp only [sendQueuedPacket, hfound, if_pos hstate, hp, if_pos htaken]
      exact (sentTo_push peer data).trans (by rw [if_pos rfl])
    · have hsend : s.sendQueuedPacket accepts qp = s.violate .destroyedPacket := by
        simp only [sendQueuedPacket, hfound, if_pos hstate]
      rw [hsend] at hsafe
      exact absurd (List.mem_append_right _ (List.mem_singleton_self _)) hsafe
  · have hwaiting : s.waitingIn id [qp] = [] := by simp [waitingIn, hid]
    rw [hwaiting, List.append_nil]
    unfold sendQueuedPacket
    split
    · rfl
    · next other hother =>
      have hne : other ≠ peer := by
        rintro rfl
        exact hid (hunique _ hother)
      split
      · split
        · next data n hp =>
          split
          · exact (sentTo_push other data).trans (by rw [if_neg hne, List.append_nil])
          · split
            · unfold destroyPacket
              split <;> rfl
            · rfl
        · rfl
      · rfl

theorem foldl_sentTo (qps : List QueuedPacket) (hlookup : s.threadPeerMap.lookup id = some peer)
    (hunique : ∀ other, s.threadPeerMap.lookup other = some peer → other = id)
    (hstate : (s.peers peer).state = .connected)
    (haccepts : ∀ qp ∈ qps, qp.clientID = id → ∀ data, s.dataOf qp.packet = some data →
      accepts peer qp.channelID data = true)
    (hsafe : .destroyedPacket ∉ (qps.foldl (sendQueuedPacket accepts) s).violations) :
    (qps.foldl (sendQueuedPacket accepts) s).sentTo peer = s.sentTo peer ++ s.waitingIn id qps := by
  induction qps generalizing s with
  | nil => exact (List.append_nil _).symm
  | cons qp qps ih =>
      have hsending := sending_sendQueuedPacket (s := s) accepts qp
      have hone := sentTo_sendQueuedPacket qp hlookup hunique hstate
        (haccepts qp List.mem_cons_self) fun hbad =>
          hsafe (violations_mono_sendQueuedPackets qps _ hbad)
      have hdata := dataOf_sendQueuedPacket accepts s qp
      have hmap : (s.sendQueuedPacket accepts qp).threadPeerMap = s.threadPeerMap := by
        rw [hsending.eq]
      have hpeers := hsending.same.peers_eq
      have hrest := ih (s := s.sendQueuedPacket accepts qp) (by rw [hmap]; exact hlookup)
        (by rw [hmap]; exact hunique) (by rw [hpeers]; exact hstate)
        (fun qp' hqp' hid data hd =>
          haccepts qp' (List.mem_cons_of_mem _ hqp') hid data (by rw [← hdata]; exact hd)) hsafe
      rw [List.foldl_cons, hrest, hone, waitingIn_congr hdata, List.append_assoc,
        ← waitingIn_append, List.singleton_append]

/-- The worker hands over all that waits. -/
theorem Linked.sendQueuedPackets (h : Linked peer id s)
    (hkeeps : s.Keeps accepts peer id .sendQueuedPackets) :
    (s.sendQueuedPackets accepts).sentTo peer ++ (s.sendQueuedPackets accepts).waiting id =
      s.sentTo peer ++ s.waiting id := by
  have hunique : ∀ other, s.threadPeerMap.lookup other = some peer → other = id := by
    intro other hother
    obtain ⟨c, hc, hget⟩ := (h.mapped.lookup other peer).mp hother
    obtain ⟨c', hc', hget'⟩ := (h.mapped.lookup id peer).mp h.lookup
    rw [hc] at hc'
    rw [← Option.some.inj hc', hget] at hget'
    exact Option.some.inj hget'
  have hsafe := (sendQueuedPackets_iff h.queued).mpr ⟨h.safe, hkeeps.2.2.1⟩
  have hsent := foldl_sentTo (s := { s with packetQueue := [] }) s.packetQueue h.lookup hunique
    h.connected hkeeps.2.2.2 hsafe
  have hempty : (s.sendQueuedPackets accepts).waiting id = [] := by
    rw [waiting, sendQueuedPackets_queue]
    rfl
  rw [hempty, List.append_nil]
  exact hsent

/-! ## Queueing -/

theorem dataOf_append {k : Nat} (hk : k < s.packets.length) (new : List ENetPacket) :
    ({ s with packets := s.packets ++ new } : EnetServer).dataOf k = s.dataOf k := by
  simp only [dataOf, List.getElem?_append_left hk]

theorem Queued.lt (h : Queued s) {qp : QueuedPacket} (hqp : qp ∈ s.packetQueue) :
    qp.packet < s.packets.length := by
  rcases status_cases (s := s) qp.packet with ⟨data, hp, _⟩ | ⟨data, n, hp, _⟩ | ⟨_, hgone⟩
  · exact (List.getElem?_eq_some_iff.mp hp).1
  · exact (List.getElem?_eq_some_iff.mp hp).1
  · rw [h qp hqp] at hgone
    cases hgone

/-- What was in the queue is not changed by new packets behind it. -/
theorem Queued.waitingIn_old (h : Queued s) (new : List ENetPacket) (id : ClientID) :
    ({ s with packets := s.packets ++ new } : EnetServer).waitingIn id s.packetQueue =
      s.waiting id := by
  refine List.filterMap_congr fun qp hqp => ?_
  rw [dataOf_append (h.lt hqp)]

theorem Queued.waiting_sendPacketTo (h : Queued s) (id client : ClientID) (channel : UInt8)
    (data : List Byte) :
    (s.sendPacketTo client channel data).waiting id =
      s.waiting id ++ if client = id then [data] else [] := by
  rw [waiting, EnetServer.sendPacketTo, waitingIn_append]
  congr 1
  · exact h.waitingIn_old [{ data := data }] id
  · by_cases hid : client = id
    · simp [waitingIn, hid, dataOf]
    · simp [waitingIn, hid]

theorem filterMap_of_nodup {α : Type} (ids : List ClientID) (hnodup : ids.Nodup) (a : α) :
    ids.filterMap (fun other => if other = id then some a else none) =
      if id ∈ ids then [a] else [] := by
  induction ids with
  | nil => rfl
  | cons x xs ih =>
      obtain ⟨hx, hxs⟩ := List.nodup_cons.mp hnodup
      by_cases heq : x = id
      · subst heq
        simp [ih hxs, hx]
      · simp [heq, ih hxs, Ne.symm heq]

theorem Mapped.waiting_sendPacketToAllIf (h : Mapped s) (hqueued : Queued s)
    (predicate : ClientID → Bool) (channel : UInt8) (data : List Byte) :
    (s.sendPacketToAllIf predicate channel data).waiting id =
      s.waiting id ++ s.addressed id (.sendPacketToAllIf predicate channel data) := by
  rw [sendPacketToAllIf_eq predicate channel data h.lifelines.alive, waiting, waitingIn_append]
  congr 1
  · exact hqueued.waitingIn_old _ id
  · have hids := h.nodup_ids.filter predicate
    simp only [waitingIn, targets, List.filterMap_map, Function.comp_def, dataOf,
      List.getElem?_concat_length, Option.map_some]
    rw [filterMap_of_nodup _ hids data]
    simp only [addressed, List.mem_filter]

/-! ## Connecting -/

/-- A connection in a regular run: the new client's id is not reserved, so it is told. -/
theorem Mapped.handleConnectEvent_eq (h : Mapped s) {newcomer : Nat}
    (hdata : (s.peers newcomer).data = none) (hregular : s.freeIds ≠ [] ∨ 2 ≤ s.nextUid.toNat)
    (kind : ServerKind) (sentAt : UInt32) :
    s.handleConnectEvent kind sentAt newcomer =
      (s.getNextUID.2.sendPacketTo s.getNextUID.1 0
        (initializedData s.getNextUID.1 sentAt)).attach s.getNextUID.1 newcomer := by
  have haccounted := h.accounted.connect hregular ids_getNextUID
  have hrange := (haccounted.in_range s.getNextUID.1 (List.mem_append_left _
    (List.mem_append_right _ (List.mem_singleton_self _)))).1
  have hone : s.getNextUID.1 ≠ 1 := by
    intro heq
    rw [heq] at hrange
    exact absurd hrange (by decide)
  rw [EnetServer.handleConnectEvent_eq kind sentAt hdata]
  rcases hnext : s.getNextUID with ⟨id, t⟩
  rw [hnext] at hone
  simp only [clientInit, hnext, if_neg fun hboth : kind = .host ∧ id = 1 => hone hboth.2]

theorem getNextUID_packets : s.getNextUID.2.packets = s.packets ∧
    s.getNextUID.2.packetQueue = s.packetQueue ∧ s.getNextUID.2.sent = s.sent ∧
    s.getNextUID.2.peers = s.peers := by
  unfold getNextUID
  split
  · exact ⟨rfl, rfl, rfl, rfl⟩
  · exact ⟨rfl, rfl, rfl, rfl⟩

/-- What a connection puts into the queue, and for whom. -/
theorem Mapped.waiting_connect (h : Mapped s) (hqueued : Queued s) {newcomer : Nat}
    (hdata : (s.peers newcomer).data = none) (hregular : s.freeIds ≠ [] ∨ 2 ≤ s.nextUid.toNat)
    (kind : ServerKind) (sentAt : UInt32) (id : ClientID) :
    (s.handleConnectEvent kind sentAt newcomer).waiting id =
      s.waiting id ++ if s.getNextUID.1 = id then [initializedData id sentAt] else [] := by
  obtain ⟨hpackets, hqueue, _, _⟩ := getNextUID_packets (s := s)
  have hnext : Queued s.getNextUID.2 := hqueued.of_same hpackets hqueue
  have hwaiting := hnext.waiting_sendPacketTo id s.getNextUID.1 0
    (initializedData s.getNextUID.1 sentAt)
  have hold : s.getNextUID.2.waiting id = s.waiting id := by
    simp only [waiting, waitingIn, dataOf, hpackets, hqueue]
  rw [h.handleConnectEvent_eq hdata hregular kind sentAt]
  refine Eq.trans hwaiting ?_
  rw [hold]
  congr 1
  by_cases hid : s.getNextUID.1 = id
  · rw [if_pos hid, if_pos hid, hid]
  · rw [if_neg hid, if_neg hid]

theorem Mapped.sentTo_connect (h : Mapped s) {newcomer : Nat}
    (hdata : (s.peers newcomer).data = none) (hregular : s.freeIds ≠ [] ∨ 2 ≤ s.nextUid.toNat)
    (kind : ServerKind) (sentAt : UInt32) (peer : Nat) :
    (s.handleConnectEvent kind sentAt newcomer).sentTo peer = s.sentTo peer := by
  rw [h.handleConnectEvent_eq hdata hregular kind sentAt]
  exact congrArg (about peer) getNextUID_packets.2.2.1

/-- The others stay where they are. -/
theorem Joined.connect (h : Joined peer id s) {newcomer : Nat}
    (hdata : (s.peers newcomer).data = none) (hregular : s.freeIds ≠ [] ∨ 2 ≤ s.nextUid.toNat)
    (kind : ServerKind) (sentAt : UInt32) :
    (s.handleConnectEvent kind sentAt newcomer).threadPeerMap.lookup id = some peer ∧
      ((s.handleConnectEvent kind sentAt newcomer).peers peer).state = .connected ∧
      s.getNextUID.1 ≠ id := by
  have hunused := h.mapped.nextUID_unused hregular
  have hmem : id ∈ s.threadPeerMap := AList.lookup_isSome.mp (by rw [h.lookup]; rfl)
  have hid : id ≠ s.getNextUID.1 := by
    intro heq
    exact hunused (heq ▸ hmem)
  have hpeer : peer ≠ newcomer := by
    rintro rfl
    have hnone := (h.mapped.lifelines.state_iff peer).mpr hdata
    rw [h.connected] at hnone
    cases hnone
  rw [h.mapped.handleConnectEvent_eq hdata hregular kind sentAt]
  refine ⟨?_, ?_, Ne.symm hid⟩
  · change (s.getNextUID.2.threadPeerMap.insert s.getNextUID.1 newcomer).lookup id = some peer
    rw [AList.lookup_insert_ne hid, getNextUID_map.1, h.lookup]
  · change (Function.update s.getNextUID.2.peers newcomer _ peer).state = .connected
    rw [Function.update_of_ne hpeer, getNextUID_packets.2.2.2, h.connected]

/-! ## Runs -/

section
variable {kind : ServerKind}

/-- A step that concerns neither the queue nor what was sent. -/
theorem measure_of_same (hpackets : s'.packets = s.packets)
    (hqueue : s'.packetQueue = s.packetQueue)
    (hsent : s'.sent = s.sent) :
    s'.sentTo peer ++ s'.waiting id = s.sentTo peer ++ s.waiting id := by
  simp only [sentTo, waiting, waitingIn, dataOf, hpackets, hqueue, hsent]

/-- A step that concerns neither the peers nor what is sent to them. -/
structure Aside (s s' : EnetServer) : Prop where
  peers_eq : s'.peers = s.peers
  map_eq : s'.threadPeerMap = s.threadPeerMap
  packets_eq : s'.packets = s.packets
  queue_eq : s'.packetQueue = s.packetQueue
  sent_eq : s'.sent = s.sent

/-- The steps by what they mean for the peers. -/
inductive DeliveryStep (kind : ServerKind) (accepts : Nat → UInt8 → List Byte → Bool)
    (s : EnetServer) : Event → EnetServer → Prop
  | aside {e : Event} {s' : EnetServer} (h : Aside s s') (hnone : ∀ id, s.addressed id e = []) :
      DeliveryStep kind accepts s e s'
  | connect {newcomer : Nat} {sentAt : UInt32} (hdata : (s.peers newcomer).data = none) :
      DeliveryStep kind accepts s (.connect newcomer sentAt)
        (s.handleConnectEvent kind sentAt newcomer)
  | disconnect {other : Nat} (hstate : (s.peers other).state ≠ .disconnected) :
      DeliveryStep kind accepts s (.disconnect other) (s.handleDisconnectEvent other)
  | lose {other : Nat} (hstate : (s.peers other).state ≠ .disconnected) :
      DeliveryStep kind accepts s (.lose other) { s with
        peers := Function.update s.peers other { s.peers other with state := .zombie } }
  | sendQueuedPackets : DeliveryStep kind accepts s .sendQueuedPackets (s.sendQueuedPackets accepts)
  | release {packet : Nat} {s' : EnetServer} (h : s.release packet = some s') :
      DeliveryStep kind accepts s (.release packet) s'
  | sendPacketTo (client : ClientID) (channel : UInt8) (data : List Byte) :
      DeliveryStep kind accepts s (.sendPacketTo client channel data)
        (s.sendPacketTo client channel data)
  | sendPacketToAllIf (predicate : ClientID → Bool) (channel : UInt8) (data : List Byte) :
      DeliveryStep kind accepts s (.sendPacketToAllIf predicate channel data)
        (s.sendPacketToAllIf predicate channel data)

/-- The handlers of the game give back ids at most. -/
theorem aside_onPacketReceived (s : EnetServer) (p : Packet) : Aside s (s.onPacketReceived p) := by
  unfold onPacketReceived
  split <;> exact ⟨rfl, rfl, rfl, rfl, rfl⟩

/-- Every step is one of these: most of them are aside. -/
theorem deliveryStep_of_step {e : Event} (h : Mapped s)
    (hstep : step kind accepts s e = some s') : DeliveryStep kind accepts s e s' := by
  cases e with
  | connect newcomer sentAt =>
      obtain ⟨hstate, hs'⟩ := Option.ite_none_right_eq_some.mp hstep
      cases hs'
      exact .connect ((h.lifelines.state_iff newcomer).mp hstate)
  | receive other data =>
      obtain ⟨_, hs'⟩ := Option.ite_none_left_eq_some.mp hstep
      cases hs'
      refine .aside ?_ fun _ => rfl
      unfold handleReceiveEvent
      split <;> exact ⟨rfl, rfl, rfl, rfl, rfl⟩
  | disconnect other =>
      obtain ⟨hstate, hs'⟩ := Option.ite_none_left_eq_some.mp hstep
      cases hs'
      exact .disconnect hstate
  | lose other =>
      obtain ⟨hstate, hs'⟩ := Option.ite_none_left_eq_some.mp hstep
      cases hs'
      exact .lose hstate
  | sendQueuedPackets =>
      cases hstep
      exact .sendQueuedPackets
  | release packet => exact .release hstep
  | takeEvents =>
      obtain ⟨_, hs'⟩ := Option.ite_none_right_eq_some.mp hstep
      cases hs'
      exact .aside ⟨rfl, rfl, rfl, rfl, rfl⟩ fun _ => rfl
  | handleEvent sentAt receivedAt =>
      simp only [step] at hstep
      split at hstep
      · cases hstep
      · next client type rest hcopy =>
        obtain ⟨id', _, hhandled⟩ := handleEvent_cases h.lifelines hcopy hstep
        refine .aside ?_ fun _ => rfl
        cases hhandled with
        | connect hnew hs' =>
            subst hs'
            exact ⟨rfl, rfl, rfl, rfl, rfl⟩
        | receive data p hmem hp hs' =>
            subst hs'
            exact ⟨rfl, rfl, rfl, rfl, rfl⟩
        | disconnect hmem hs' =>
            subst hs'
            exact ⟨rfl, rfl, rfl, rfl, rfl⟩
  | update =>
      simp only [step] at hstep
      split at hstep
      · cases hstep
      · next p rest hreceived =>
        cases hstep
        have haside := aside_onPacketReceived
          { s with received := rest, emitted := s.emitted ++ [p] } p
        exact .aside ⟨haside.1, haside.2, haside.3, haside.4, haside.5⟩ fun _ => rfl
  | sendPacketTo client channel data =>
      cases hstep
      exact .sendPacketTo client channel data
  | sendPacketToAllIf predicate channel data =>
      cases hstep
      exact .sendPacketToAllIf predicate channel data
  | localPacket p sentAt receivedAt =>
      cases kind with
      | host =>
          cases hstep
          exact .aside (aside_onPacketReceived s _) fun _ => rfl
      | standard => cases hstep

/-- **One step.** -/
theorem Joined.step {e : Event} (h : Joined peer id s) (hregular : s.Regular e)
    (hstays : Stays peer e)
    (hstep : step kind accepts s e = some s') : Joined peer id s' := by
  have hmapped := mapped_step h.mapped hregular hstep
  have hsame : s'.threadPeerMap = s.threadPeerMap → s'.peers = s.peers → Joined peer id s' :=
    fun hmap hpeers => ⟨hmapped, by rw [hmap]; exact h.lookup, by rw [hpeers]; exact h.connected⟩
  cases deliveryStep_of_step h.mapped hstep with
  | aside haside _ => exact hsame haside.map_eq haside.peers_eq
  | connect hdata =>
      obtain ⟨hlookup, hconnected, _⟩ := h.connect hdata hregular kind _
      exact ⟨hmapped, hlookup, hconnected⟩
  | @disconnect other hstate =>
      have hne : peer ≠ other := Ne.symm hstays
      obtain ⟨client, id', _, _, hlookup', herase⟩ := h.mapped.handleDisconnectEvent_eq hstate
      have hidne : id ≠ id' := by
        rintro rfl
        rw [h.lookup] at hlookup'
        exact hne (Option.some.inj hlookup')
      refine ⟨hmapped, ?_, ?_⟩
      · rw [herase]
        change (s.threadPeerMap.erase id').lookup id = some peer
        rw [AList.lookup_erase_ne hidne]
        exact h.lookup
      · rw [herase]
        change (Function.update s.peers other _ peer).state = .connected
        rw [Function.update_of_ne hne]
        exact h.connected
  | @lose other _ =>
      refine ⟨hmapped, h.lookup, ?_⟩
      change (Function.update s.peers other _ peer).state = .connected
      rw [Function.update_of_ne (Ne.symm hstays)]
      exact h.connected
  | sendQueuedPackets =>
      have hsending := sending_sendQueuedPackets (s := s) accepts
      exact hsame (by rw [hsending.eq]) hsending.same.peers_eq
  | release hrelease =>
      have hsending := sending_release hrelease
      exact hsame (by rw [hsending.eq]) hsending.same.peers_eq
  | sendPacketTo _ _ _ => exact hsame rfl rfl
  | sendPacketToAllIf predicate channel data =>
      rw [sendPacketToAllIf_eq predicate channel data h.mapped.lifelines.alive] at hsame hmapped ⊢
      exact hsame rfl rfl

/-- A packet that ENet lets go of does not concern what is for the peer. -/
theorem sentTo_release {packet : Nat} (h : s.release packet = some s') :
    s'.sentTo peer ++ s'.waiting id = s.sentTo peer ++ s.waiting id := by
  unfold release at h
  split at h
  · next data n hp =>
    cases h
    have hdata : ({ s with packets := s.packets.set packet ⟨data, n, decide (n = 0)⟩ } :
        EnetServer).dataOf = s.dataOf := funext fun k => dataOf_set hp (by rfl) k
    exact congrArg (s.sentTo peer ++ ·) (waitingIn_congr hdata id s.packetQueue)
  · cases h

/-- What is for the peer, after one step. -/
theorem Linked.sentTo_step {e : Event} (h : Linked peer id s) (hkeeps : s.Keeps accepts peer id e)
    (hstep : step kind accepts s e = some s') :
    s'.sentTo peer ++ s'.waiting id = s.sentTo peer ++ s.waiting id ++ s.addressed id e := by
  cases deliveryStep_of_step h.mapped hstep with
  | aside haside hnone =>
      rw [measure_of_same haside.packets_eq haside.queue_eq haside.sent_eq, hnone,
        List.append_nil]
  | connect hdata =>
      obtain ⟨_, _, hne⟩ := h.connect hdata hkeeps.1 kind 0
      rw [h.mapped.sentTo_connect hdata hkeeps.1, h.mapped.waiting_connect h.queued hdata hkeeps.1,
        if_neg hne, List.append_nil]
      exact (List.append_nil _).symm
  | disconnect hstate =>
      obtain ⟨client, id', _, _, _, herase⟩ := h.mapped.handleDisconnectEvent_eq hstate
      rw [herase]
      exact (measure_of_same rfl rfl rfl).trans (List.append_nil _).symm
  | lose _ => exact (measure_of_same rfl rfl rfl).trans (List.append_nil _).symm
  | sendQueuedPackets =>
      rw [h.sendQueuedPackets hkeeps]
      exact (List.append_nil _).symm
  | release hrelease => exact (sentTo_release hrelease).trans (List.append_nil _).symm
  | sendPacketTo client channel data =>
      rw [h.queued.waiting_sendPacketTo, ← List.append_assoc]
      rfl
  | sendPacketToAllIf predicate channel data =>
      rw [h.mapped.waiting_sendPacketToAllIf h.queued, ← List.append_assoc,
        sendPacketToAllIf_eq predicate channel data h.mapped.lifelines.alive]
      rfl

/-- **One step.** -/
theorem Linked.step {e : Event} (h : Linked peer id s) (hkeeps : s.Keeps accepts peer id e)
    (hstep : step kind accepts s e = some s') : Linked peer id s' := by
  obtain ⟨hqueued, hsame⟩ := step_packets h.mapped.lifelines h.queued hstep
  refine ⟨h.toJoined.step hkeeps.1 hkeeps.2.1 hstep, hqueued, ?_⟩
  by_cases he : e = .sendQueuedPackets
  · subst he
    cases hstep
    exact (sendQueuedPackets_iff h.queued).mpr ⟨h.safe, hkeeps.2.2.1⟩
  · exact fun hbad => h.safe ((hsame he).mp hbad)

/-- What every run of regular steps that touches no destroyed packet keeps. -/
theorem queued_run {es : List Event}
    (hrun : Runs.run (EnetServer.step kind accepts) {} es = some s) :
    Queued s := by
  have hone : ∀ (t : EnetServer) (e : Event) (t' : EnetServer), (Lifelines t ∧ Queued t) →
      EnetServer.step kind accepts t e = some t' → Lifelines t' ∧ Queued t' := by
    intro t e t' ht hstep
    exact ⟨lifelines_step ht.1 hstep, (step_packets ht.1 ht.2 hstep).1⟩
  exact (Runs.run_invariant hone hrun ⟨lifelines_initial, by simp [Queued]⟩).2

/-- A peer that connects has the id that is handed out. -/
theorem Mapped.joined_connect (h : Mapped s) {sentAt : UInt32}
    (hconnects : s.Regular (.connect peer sentAt))
    (hconnect : EnetServer.step kind accepts s (.connect peer sentAt) = some s') :
    Joined peer s.getNextUID.1 s' := by
  have hmapped' := mapped_step h hconnects hconnect
  obtain ⟨hstate, hs⟩ := Option.ite_none_right_eq_some.mp hconnect
  have hdata := (h.lifelines.state_iff peer).mp hstate
  have heq := h.handleConnectEvent_eq hdata hconnects kind sentAt
  rw [Option.some.inj hs] at heq
  refine ⟨hmapped', ?_, ?_⟩
  · rw [heq]
    exact AList.lookup_insert _
  · rw [heq]
    simp [attach]

/-- What is for it then. -/
theorem Mapped.linked_connect (h : Mapped s) (hqueued : Queued s)
    (hsafe : .destroyedPacket ∉ s.violations) {sentAt : UInt32}
    (hconnects : s.Regular (.connect peer sentAt))
    (hconnect : EnetServer.step kind accepts s (.connect peer sentAt) = some s') :
    Linked peer s.getNextUID.1 s' ∧ s'.sentTo peer ++ s'.waiting s.getNextUID.1 =
      s.sentTo peer ++ s.waiting s.getNextUID.1 ++ [initializedData s.getNextUID.1 sentAt] := by
  obtain ⟨hqueued', hsame⟩ := step_packets h.lifelines hqueued hconnect
  refine ⟨⟨h.joined_connect hconnects hconnect, hqueued',
    fun hbad => hsafe ((hsame (by simp)).mp hbad)⟩, ?_⟩
  obtain ⟨hstate, hs⟩ := Option.ite_none_right_eq_some.mp hconnect
  have hdata := (h.lifelines.state_iff peer).mp hstate
  rw [← Option.some.inj hs, h.sentTo_connect hdata hconnects,
    h.waiting_connect hqueued hdata hconnects, if_pos rfl, List.append_assoc]

theorem linked_run {es : List Event} (h : Linked peer id s)
    (hkeeps : Runs.Meets (EnetServer.step kind accepts) (Keeps accepts peer id) s es)
    (hrun : Runs.run (EnetServer.step kind accepts) s es = some s') : Linked peer id s' :=
  Runs.run_invariant_of_meets (fun _ _ _ hu hok hstep => Linked.step hu hok hstep) hkeeps hrun h

/-- What the worker hands over in a step goes to connected peers. -/
def Sends (s s' : EnetServer) : Prop :=
  ∃ new, s'.sent = s.sent ++ new ∧ ∀ peer, (s.peers peer).state ≠ .connected → about peer new = []

theorem Sends.of_eq (h : s'.sent = s.sent) : Sends s s' := ⟨[], by rw [h, List.append_nil], by simp⟩

theorem sends_sendQueuedPacket (accepts : Nat → UInt8 → List Byte → Bool) (s : EnetServer)
    (qp : QueuedPacket) : Sends s (s.sendQueuedPacket accepts qp) := by
  unfold sendQueuedPacket
  split
  · exact Sends.of_eq rfl
  · next receiver _ =>
    split
    · next hstate =>
      split
      · next data n _ =>
        split
        · refine ⟨[(receiver, data)], rfl, fun peer hpeer => about_cons_ne ?_ data []⟩
          rintro rfl
          exact hpeer hstate
        · split
          · refine Sends.of_eq ?_
            unfold destroyPacket
            split <;> rfl
          · exact Sends.of_eq rfl
      · exact Sends.of_eq rfl
    · exact Sends.of_eq rfl

theorem sends_foldl (qps : List QueuedPacket) :
    Sends s (qps.foldl (sendQueuedPacket accepts) s) := by
  induction qps generalizing s with
  | nil => exact Sends.of_eq rfl
  | cons qp qps ih =>
      obtain ⟨new, hnew, hone⟩ := sends_sendQueuedPacket accepts s qp
      obtain ⟨more, hmore, hrest⟩ := ih (s := s.sendQueuedPacket accepts qp)
      have hpeers := (sending_sendQueuedPacket (s := s) accepts qp).same.peers_eq
      refine ⟨new ++ more, ?_, fun peer hpeer => ?_⟩
      · rw [List.foldl_cons, hmore, hnew, List.append_assoc]
      · rw [about_append, hone peer hpeer, hrest peer (by rw [hpeers]; exact hpeer),
          List.append_nil]

/-- **One step** hands over to connected peers only. -/
theorem sends_step {e : Event} (h : Mapped s) (hregular : s.Regular e)
    (hstep : step kind accepts s e = some s') : Sends s s' := by
  cases deliveryStep_of_step h hstep with
  | aside haside _ => exact Sends.of_eq haside.sent_eq
  | connect hdata =>
      refine Sends.of_eq ?_
      rw [h.handleConnectEvent_eq hdata hregular kind _]
      exact getNextUID_packets.2.2.1
  | disconnect hstate =>
      obtain ⟨client, id', _, _, _, herase⟩ := h.handleDisconnectEvent_eq hstate
      exact Sends.of_eq (by rw [herase])
  | lose _ => exact Sends.of_eq rfl
  | sendQueuedPackets => exact sends_foldl s.packetQueue
  | release hrelease =>
      unfold release at hrelease
      split at hrelease
      · cases hrelease
        exact Sends.of_eq rfl
      · cases hrelease
  | sendPacketTo _ _ _ => exact Sends.of_eq rfl
  | sendPacketToAllIf predicate channel data =>
      rw [sendPacketToAllIf_eq predicate channel data h.lifelines.alive]
      exact Sends.of_eq rfl

/-- The part that is new for a peer. -/
theorem Sends.sentTo_eq (h : Sends s s') (peer : Nat) :
    s'.sentTo peer = s.sentTo peer ++ (s'.sentTo peer).drop (s.sentTo peer).length ∧
      ((s.peers peer).state ≠ .connected → s'.sentTo peer = s.sentTo peer) := by
  obtain ⟨new, hnew, hconnected⟩ := h
  have heq : s'.sentTo peer = s.sentTo peer ++ about peer new := by
    rw [sentTo, hnew, about_append]
    rfl
  refine ⟨by rw [heq, List.drop_left], fun hpeer => ?_⟩
  rw [heq, hconnected peer hpeer, List.append_nil]

/-- Only a connection makes a free peer another one. -/
theorem disconnected_step {e : Event} (h : Mapped s) {free : Nat}
    (hfree : (s.peers free).state = .disconnected) (hregular : s.Regular e)
    (hconnect : ∀ t, e ≠ .connect free t) (hstep : step kind accepts s e = some s') :
    (s'.peers free).state = .disconnected := by
  have hsame : s'.peers = s.peers → (s'.peers free).state = .disconnected := fun heq => by
    rw [heq]
    exact hfree
  cases deliveryStep_of_step h hstep with
  | aside haside _ => exact hsame haside.peers_eq
  | @connect newcomer sentAt hdata =>
      have hne : free ≠ newcomer := by
        rintro rfl
        exact hconnect sentAt rfl
      rw [h.handleConnectEvent_eq hdata hregular kind sentAt]
      change (Function.update s.getNextUID.2.peers newcomer _ free).state = _
      rw [Function.update_of_ne hne, getNextUID_packets.2.2.2]
      exact hfree
  | @disconnect other hstate =>
      obtain ⟨client, id', _, _, _, herase⟩ := h.handleDisconnectEvent_eq hstate
      have hne : free ≠ other := by
        rintro rfl
        exact hstate hfree
      rw [herase]
      change (Function.update s.peers other _ free).state = _
      rw [Function.update_of_ne hne]
      exact hfree
  | @lose other hstate =>
      have hne : free ≠ other := by
        rintro rfl
        exact hstate hfree
      change (Function.update s.peers other _ free).state = _
      rw [Function.update_of_ne hne]
      exact hfree
  | sendQueuedPackets => exact hsame (sending_sendQueuedPackets (s := s) accepts).same.peers_eq
  | release hrelease => exact hsame (sending_release hrelease).same.peers_eq
  | sendPacketTo _ _ _ => exact hfree
  | sendPacketToAllIf predicate channel data =>
      rw [sendPacketToAllIf_eq predicate channel data h.lifelines.alive]
      exact hfree

end

/-- The game sends the client a packet, and the worker sends the queue. -/
def onePacket : List Event := [.sendPacketTo 2 0 [6, 0, 0, 0, 0, 0, 0, 0], .sendQueuedPackets]

/-- The server once a first client has connected. -/
def firstConnection : EnetServer := ({} : EnetServer).handleConnectEvent .standard 5 0

end EnetServer

end EnkiNet
