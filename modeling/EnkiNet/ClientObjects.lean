import EnkiNet.EnetServer

/-!
# The client objects of a server

The worker makes a client object, lists it in a peer and passes it on in a `connect` event;
the consumer lists it in `_connected_clients` until it deletes the object on the `disconnect`
event.  Between the two are the events that the consumer has not seen yet.  Seen from the
consumer an object is `fresh`, `listed` or `gone`, and so it is from the worker, which is
ahead: `Lifelines` says that the events in the queues lead from one to the other.

No assumption is made about the ids of clients, which two objects can share.
-/

namespace EnkiNet

open ByteStore Packet Channels

namespace EnetServer

variable {s s' : EnetServer} {client : Nat} {id : ClientID}

/-! ## Operations as equations -/

/-- An object has an id as long as it has not been deleted. -/
theorem getID_eq_some : s.getID client = some id ↔ s.clients[client]? = some (some id) := by
  simp [getID, Option.join_eq_some_iff]

theorem getID_congr (h : s'.clients = s.clients) : s'.getID client = s.getID client := by
  rw [getID, h, getID]

/-- Deleting an object that is there. -/
theorem deleteClient_of_alive (h : s.getID client = some id) :
    s.deleteClient client = { s with clients := s.clients.set client none } := by
  simp [deleteClient, h]

/-- The entries that a packet for all clients makes. -/
def targets (s : EnetServer) (predicate : ClientID → Bool) (channel : UInt8) (packet : Nat) :
    List QueuedPacket :=
  ((s.connectedClients.filterMap s.getID).filter predicate).map fun id => ⟨channel, packet, id⟩

/-- The loop in `send_packet_to_all_if`, where no object has been deleted. -/
theorem foldl_emplaceIf (predicate : ClientID → Bool) (channel : UInt8) (packet : Nat)
    (cs : List Nat) (halive : ∀ c ∈ cs, ∃ id, s.getID c = some id) (queued : Bool) :
    cs.foldl (emplaceIf predicate channel packet) (s, queued) =
      ({ s with packetQueue := s.packetQueue ++
          ((cs.filterMap s.getID).filter predicate).map fun id => ⟨channel, packet, id⟩ },
        queued || !((cs.filterMap s.getID).filter predicate).isEmpty) := by
  induction cs generalizing s queued with
  | nil => simp
  | cons c cs ih =>
      obtain ⟨id, hid⟩ := halive c List.mem_cons_self
      have hrest : ∀ c' ∈ cs, ∃ id', s.getID c' = some id' :=
        fun c' hc' => halive c' (List.mem_cons_of_mem _ hc')
      rw [List.foldl_cons, List.filterMap_cons_some hid]
      by_cases hp : predicate id
      · have hone : emplaceIf predicate channel packet (s, queued) c =
            ({ s with packetQueue := s.packetQueue ++ [⟨channel, packet, id⟩] }, true) := by
          simp [emplaceIf, hid, hp]
        have hsame : ({ s with packetQueue := s.packetQueue ++ [⟨channel, packet, id⟩] } :
            EnetServer).getID = s.getID := rfl
        rw [hone, ih (by rw [hsame]; exact hrest), hsame, List.filter_cons_of_pos hp]
        simp
      · have hone : emplaceIf predicate channel packet (s, queued) c = (s, queued) := by
          simp [emplaceIf, hid, hp]
        rw [hone, ih hrest, List.filter_cons_of_neg hp]

/-- A packet for all is queued for those whom it is for, or destroyed where there are none. -/
theorem sendPacketToAllIf_eq (predicate : ClientID → Bool) (channel : UInt8) (data : List Byte)
    (halive : ∀ c ∈ s.connectedClients, ∃ id, s.getID c = some id) :
    s.sendPacketToAllIf predicate channel data =
      { s with
        packets := s.packets ++
          [{ data := data, destroyed := (s.targets predicate channel s.packets.length).isEmpty }]
        packetQueue := s.packetQueue ++ s.targets predicate channel s.packets.length } := by
  have hfold := foldl_emplaceIf (s := { s with packets := s.packets ++ [{ data := data }] })
    predicate
    channel s.packets.length s.connectedClients halive false
  have hsame : ({ s with packets := s.packets ++ [{ data := data }] } : EnetServer).getID =
      s.getID :=
    rfl
  rw [hsame, Bool.false_or] at hfold
  simp only [sendPacketToAllIf, hfold]
  rcases hnone : (s.connectedClients.filterMap s.getID).filter predicate with _ | ⟨id, ids⟩
  · simp [targets, hnone, destroyPacket]
  · simp [targets, hnone]

/-! ## What sending leaves alone -/

/-- Only packets, their queue and the record of what was sent have changed. -/
structure Sending (s s' : EnetServer) : Prop where
  eq : s' = { s with
    packets := s'.packets
    packetQueue := s'.packetQueue
    sent := s'.sent
    violations := s'.violations }
  violations : ∃ new, s'.violations = s.violations ++ new ∧ ∀ v ∈ new, v = .destroyedPacket

theorem Sending.refl (s : EnetServer) : Sending s s := ⟨rfl, [], by simp, by simp⟩

/-- Two steps on packets are one. -/
theorem Sending.trans {t : EnetServer} (h : Sending s t) (h' : Sending t s') : Sending s s' := by
  obtain ⟨new, hnew, hall⟩ := h.violations
  obtain ⟨new', hnew', hall'⟩ := h'.violations
  refine ⟨?_, new ++ new', by rw [hnew', hnew, List.append_assoc], ?_⟩
  · rw [h'.eq, h.eq]
  · intro v hv
    rcases List.mem_append.mp hv with hv | hv
    · exact hall v hv
    · exact hall' v hv

theorem sending_violate : Sending s (s.violate .destroyedPacket) :=
  ⟨rfl, [.destroyedPacket], rfl, by simp⟩

/-- Destroying a packet touches no client object. -/
theorem sending_destroyPacket (packet : Nat) : Sending s (s.destroyPacket packet) := by
  unfold destroyPacket
  split
  · exact ⟨rfl, [], by simp, by simp⟩
  · exact sending_violate

/-- Neither does handing one over to ENet. -/
theorem sending_sendQueuedPacket (accepts : Nat → UInt8 → List Byte → Bool) (qp : QueuedPacket) :
    Sending s (s.sendQueuedPacket accepts qp) := by
  unfold sendQueuedPacket
  split
  · exact .refl s
  · split
    · split
      · split
        · exact ⟨rfl, [], by simp, by simp⟩
        · split
          · exact sending_destroyPacket qp.packet
          · exact .refl s
      · exact sending_violate
    · exact .refl s

/-- The whole loop of the worker. -/
theorem sending_sendQueuedPackets (accepts : Nat → UInt8 → List Byte → Bool) :
    Sending s (s.sendQueuedPackets accepts) := by
  have hloop : ∀ (qps : List QueuedPacket) (t : EnetServer),
      Sending t (qps.foldl (sendQueuedPacket accepts) t) := by
    intro qps
    induction qps with
    | nil => exact Sending.refl
    | cons qp qps ih => exact fun t => (sending_sendQueuedPacket accepts qp).trans (ih _)
  have hempty : Sending s { s with packetQueue := [] } := ⟨rfl, [], by simp, by simp⟩
  exact hempty.trans (hloop s.packetQueue _)

theorem sending_sendPacketTo (id : ClientID) (channel : UInt8) (data : List Byte) :
    Sending s (s.sendPacketTo id channel data) := ⟨rfl, [], by simp [sendPacketTo], by simp⟩

/-- ENet may let go of a packet at any time. -/
theorem sending_release {packet : Nat} (h : s.release packet = some s') : Sending s s' := by
  unfold release at h
  split at h
  · cases h
    exact ⟨rfl, [], by simp, by simp⟩
  · cases h

/-! ## Lifelines -/

inductive Stage
  | fresh
  | listed
  | gone
  deriving DecidableEq, Repr

/-- The order of the events of one object. -/
def Stage.advance : Stage → EventType → Option Stage
  | .fresh, .connect => some .listed
  | .listed, .receive _ => some .listed
  | .listed, .disconnect => some .gone
  | _, _ => none

/-- Where the consumer is with an object. -/
def consumerStage (s : EnetServer) (client : Nat) : Stage :=
  if s.clients[client]? = some none then .gone
  else if client ∈ s.connectedClients then .listed
  else .fresh

/-- A peer has the object. -/
def Attached (s : EnetServer) (client : Nat) : Prop := ∃ peer, (s.peers peer).data = some client

/-- The events that the consumer has still to handle. -/
def ahead (s : EnetServer) : List (Nat × EventType) := s.eventQueueCopy ++ s.eventQueue

/-- Where the worker is with each object. -/
structure WorkerStage (s : EnetServer) (stage : Nat → Stage) : Prop where
  listed : ∀ c, stage c = .listed ↔ s.Attached c
  fresh : ∀ c, stage c = .fresh ↔ s.clients.length ≤ c

structure Lifelines (s : EnetServer) : Prop where
  follows : ∃ stage, s.WorkerStage stage ∧
    Follows Stage.advance s.consumerStage stage s.ahead
  one_peer : ∀ p q c, (s.peers p).data = some c → (s.peers q).data = some c → p = q
  state_iff : ∀ p, (s.peers p).state = .disconnected ↔ (s.peers p).data = none
  nodup : s.connectedClients.Nodup
  alive : ∀ c ∈ s.connectedClients, ∃ id, s.getID c = some id
  violations : ∀ v ∈ s.violations, v = .notInPeerMap ∨ v = .otherPeerInMap ∨ v = .destroyedPacket

/-- Nothing comes after the end. -/
theorem run_gone {ms : List EventType} {t : Stage} (h : Runs.run Stage.advance .gone ms = some t) :
    ms = [] ∧ t = .gone := by
  cases ms with
  | nil =>
      cases h
      exact ⟨rfl, rfl⟩
  | cons m ms =>
      obtain ⟨_, hm, _⟩ := Runs.run_cons_some h
      cases hm

/-- Nothing leads back to the beginning. -/
theorem run_to_fresh {ms : List EventType} {t : Stage}
    (h : Runs.run Stage.advance t ms = some .fresh) :
    ms = [] ∧ t = .fresh := by
  induction ms generalizing t with
  | nil =>
      cases h
      exact ⟨rfl, rfl⟩
  | cons m ms ih =>
      obtain ⟨t', hm, hrest⟩ := Runs.run_cons_some h
      obtain ⟨_, rfl⟩ := ih hrest
      cases t <;> cases m <;> cases hm

/-- Only a deleted object is gone for the consumer. -/
theorem consumerStage_eq_gone : s.consumerStage client = .gone ↔
    s.clients[client]? = some none := by
  unfold consumerStage
  split
  · simp [*]
  · split <;> simp [*]

theorem consumerStage_eq_listed (h : s.consumerStage client = .listed) :
    client ∈ s.connectedClients ∧ s.clients[client]? ≠ some none := by
  unfold consumerStage at h
  split at h
  · cases h
  · next hne =>
    split at h
    · next hmem => exact ⟨hmem, hne⟩
    · cases h

theorem consumerStage_eq_fresh (h : s.consumerStage client = .fresh) :
    client ∉ s.connectedClients ∧ s.clients[client]? ≠ some none := by
  unfold consumerStage at h
  split at h
  · cases h
  · next hne =>
    split at h
    · cases h
    · next hmem => exact ⟨hmem, hne⟩

/-- One that is there is listed or not. -/
theorem consumerStage_of_alive (hid : s.getID client = some id) :
    s.consumerStage client = if client ∈ s.connectedClients then .listed else .fresh := by
  rw [getID_eq_some] at hid
  simp [consumerStage, hid]

/-- An object that is neither deleted nor yet to be made. -/
theorem exists_getID (hlt : client < s.clients.length) (hne : s.clients[client]? ≠ some none) :
    ∃ id, s.getID client = some id := by
  rw [List.getElem?_eq_getElem hlt] at hne
  obtain ⟨id, hid⟩ := Option.ne_none_iff_exists'.mp fun h => hne (congrArg some h)
  exact ⟨id, getID_eq_some.mpr (by rw [List.getElem?_eq_getElem hlt, hid])⟩

namespace Lifelines

/-- The worker's object has not been deleted. -/
theorem alive_of_attached (h : Lifelines s) (hattached : s.Attached client) :
    ∃ id, s.getID client = some id := by
  obtain ⟨stage, hstage, hfollows⟩ := h.follows
  have hlisted : stage client = .listed := (hstage.listed client).mpr hattached
  refine exists_getID (Nat.not_le.mp fun hle => ?_) fun hgone => ?_
  · rw [(hstage.fresh client).mpr hle] at hlisted
    cases hlisted
  · have hrun := hfollows client
    rw [consumerStage_eq_gone.mpr hgone] at hrun
    have hend : stage client = .gone := (run_gone hrun).2
    rw [hend] at hlisted
    cases hlisted

/-- Every event is about an object that has been made and is not deleted. -/
theorem alive_of_event (h : Lifelines s) {type : EventType} (hmem : (client, type) ∈ s.ahead) :
    ∃ id, s.getID client = some id := by
  obtain ⟨stage, hstage, hfollows⟩ := h.follows
  have hrun := hfollows client
  have habout : type ∈ about client s.ahead := mem_about.mpr hmem
  refine exists_getID (Nat.not_le.mp fun hle => ?_) fun hgone => ?_
  · rw [(hstage.fresh client).mpr hle] at hrun
    rw [(run_to_fresh hrun).1] at habout
    cases habout
  · rw [consumerStage_eq_gone.mpr hgone] at hrun
    rw [(run_gone hrun).1] at habout
    cases habout

end Lifelines

/-- Before the first connection. -/
theorem lifelines_initial : Lifelines {} where
  follows := ⟨fun _ => .fresh,
    ⟨fun c => ⟨fun h => absurd h (by decide), fun ⟨_, h⟩ => absurd h (by simp)⟩, by simp⟩,
    Follows.nil _⟩
  one_peer p q c hp := by cases hp
  state_iff := by simp
  nodup := List.nodup_nil
  alive := by simp
  violations := by simp

/-! ## The worker's steps -/

/-- What none of the worker's and the consumer's own fields notices. -/
structure SameObjects (s s' : EnetServer) : Prop where
  peers_eq : s'.peers = s.peers
  clients_eq : s'.clients = s.clients
  connectedClients_eq : s'.connectedClients = s.connectedClients
  ahead_eq : s'.ahead = s.ahead
  violations : ∃ new, s'.violations = s.violations ++ new ∧
    ∀ v ∈ new, v = .notInPeerMap ∨ v = .otherPeerInMap ∨ v = .destroyedPacket

theorem Sending.same (h : Sending s s') : SameObjects s s' := by
  have heq := h.eq
  obtain ⟨new, hnew, hall⟩ := h.violations
  refine ⟨?_, ?_, ?_, ?_, new, hnew, fun v hv => Or.inr (Or.inr (hall v hv))⟩
  · rw [heq]
  · rw [heq]
  · rw [heq]
  · rw [heq]
    rfl

/-- A step that does not touch the client objects. -/
theorem Lifelines.of_same (h : Lifelines s) (hsame : SameObjects s s') : Lifelines s' := by
  obtain ⟨hpeers, hclients, hconnected, hahead, new, hnew, hall⟩ := hsame
  obtain ⟨stage, hstage, hfollows⟩ := h.follows
  have hget : s'.getID = s.getID := funext fun c => getID_congr hclients
  have hconsumer : s'.consumerStage = s.consumerStage := by
    funext c
    rw [consumerStage, hclients, hconnected, consumerStage]
  refine ⟨⟨stage, ⟨?_, ?_⟩, ?_⟩, ?_, ?_, ?_, ?_, ?_⟩
  · intro c
    rw [hstage.listed, Attached, Attached, hpeers]
  · intro c
    rw [hclients]
    exact hstage.fresh c
  · rw [hconsumer, hahead]
    exact hfollows
  · rw [hpeers]
    exact h.one_peer
  · rw [hpeers]
    exact h.state_iff
  · rw [hconnected]
    exact h.nodup
  · rw [hconnected, hget]
    exact h.alive
  · rw [hnew]
    intro v hv
    rcases List.mem_append.mp hv with hv | hv
    · exact h.violations v hv
    · exact hall v hv

/-- An id is handed out before the object is made. -/
theorem same_getNextUID : SameObjects s s.getNextUID.2 := by
  unfold getNextUID
  split
  · exact ⟨rfl, rfl, rfl, rfl, [], by simp, by simp⟩
  · exact ⟨rfl, rfl, rfl, rfl, [], by simp, by simp⟩

theorem SameObjects.trans {t : EnetServer} (h : SameObjects s t) (h' : SameObjects t s') :
    SameObjects s s' := by
  obtain ⟨new, hnew, hall⟩ := h.violations
  obtain ⟨new', hnew', hall'⟩ := h'.violations
  refine ⟨h'.peers_eq.trans h.peers_eq, h'.clients_eq.trans h.clients_eq,
    h'.connectedClients_eq.trans h.connectedClients_eq, h'.ahead_eq.trans h.ahead_eq, new ++ new',
    by rw [hnew', hnew, List.append_assoc], ?_⟩
  intro v hv
  rcases List.mem_append.mp hv with hv | hv
  · exact hall v hv
  · exact hall' v hv

/-- So is the packet with the id. -/
theorem same_clientInit (kind : ServerKind) (sentAt : UInt32) :
    SameObjects s (s.clientInit kind sentAt).2 := by
  unfold clientInit
  split
  next id t hnext =>
  have hsame : SameObjects s t := by
    have h := same_getNextUID (s := s)
    rwa [hnext] at h
  split
  · exact hsame
  · exact hsame.trans (sending_sendPacketTo id 0 _).same

/-- `client_init` takes an id and sends. -/
theorem clientInit_sending (kind : ServerKind) (sentAt : UInt32) :
    (s.clientInit kind sentAt).1 = s.getNextUID.1 ∧
      Sending s.getNextUID.2 (s.clientInit kind sentAt).2 := by
  rcases hnext : s.getNextUID with ⟨id, t⟩
  simp only [clientInit, hnext]
  split
  · exact ⟨rfl, .refl t⟩
  · exact ⟨rfl, sending_sendPacketTo id 0 _⟩

/-- Taking an id changes nothing about objects and peers. -/
theorem getNextUID_map : s.getNextUID.2.threadPeerMap = s.threadPeerMap ∧
    s.getNextUID.2.violations = s.violations := by
  unfold getNextUID
  split
  · exact ⟨rfl, rfl⟩
  · exact ⟨rfl, rfl⟩

/-- The object that a connection makes. -/
def attach (s : EnetServer) (id : ClientID) (peer : Nat) : EnetServer :=
  { s with
    clients := s.clients ++ [some id]
    peers := Function.update s.peers peer { state := .connected, data := some s.clients.length }
    threadPeerMap := s.threadPeerMap.insert id peer
    eventQueue := s.eventQueue ++ [(s.clients.length, .connect)] }

/-- Where the peer has no object the assertion holds. -/
theorem handleConnectEvent_eq (kind : ServerKind) (sentAt : UInt32) {peer : Nat}
    (hdata : (s.peers peer).data = none) :
    s.handleConnectEvent kind sentAt peer =
      (s.clientInit kind sentAt).2.attach (s.clientInit kind sentAt).1 peer := by
  have hsame := same_clientInit (s := s) kind sentAt
  have hcheck : (((s.clientInit kind sentAt).2).peers peer).data = none := by
    rw [hsame.peers_eq]
    exact hdata
  simp only [handleConnectEvent, check, if_pos hcheck, attach, hsame.clients_eq]

namespace Lifelines

/-- A connection makes an object and an event for it. -/
theorem attach (h : Lifelines s) {peer : Nat} (hdata : (s.peers peer).data = none) (id : ClientID) :
    Lifelines (s.attach id peer) := by
  obtain ⟨stage, hstage, hfollows⟩ := h.follows
  have hfresh : stage s.clients.length = .fresh := (hstage.fresh _).mpr (Nat.le_refl _)
  have hlt : ∀ p c, (s.peers p).data = some c → c < s.clients.length := by
    intro p c hc
    refine Nat.not_le.mp fun hle => ?_
    have hlisted := (hstage.listed c).mpr ⟨p, hc⟩
    rw [(hstage.fresh c).mpr hle] at hlisted
    cases hlisted
  have hget : ∀ (c : Nat) (x : Option ClientID), s.clients[c]? = some x →
      (s.attach id peer).clients[c]? = some x := by
    intro c x hc
    obtain ⟨hc', _⟩ := List.getElem?_eq_some_iff.mp hc
    exact (List.getElem?_append_left hc').trans hc
  have hconsumer : (s.attach id peer).consumerStage = s.consumerStage := by
    funext c
    have hgone : (s.attach id peer).clients[c]? = some none ↔ s.clients[c]? = some none := by
      refine ⟨fun hc => ?_, hget c none⟩
      by_cases hc' : c < s.clients.length
      · exact (List.getElem?_append_left hc').symm.trans hc
      · simp [EnetServer.attach, List.getElem?_append, hc', List.getElem?_singleton] at hc
    simp only [consumerStage, hgone]
    rfl
  have hahead : (s.attach id peer).ahead = s.ahead ++ [(s.clients.length, .connect)] :=
    (List.append_assoc _ _ _).symm
  refine ⟨⟨Function.update stage s.clients.length .listed, ⟨?_, ?_⟩, ?_⟩, ?_, ?_, h.nodup, ?_,
    h.violations⟩
  · intro c
    by_cases hc : c = s.clients.length
    · subst hc
      rw [Function.update_self]
      exact iff_of_true rfl ⟨peer, by simp [EnetServer.attach]⟩
    · rw [Function.update_of_ne hc, hstage.listed]
      constructor
      · rintro ⟨p, hp⟩
        have hne : p ≠ peer := by
          rintro rfl
          rw [hdata] at hp
          cases hp
        exact ⟨p, by simp [EnetServer.attach, hne, hp]⟩
      · rintro ⟨p, hp⟩
        by_cases hpeer : p = peer
        · subst hpeer
          simp [EnetServer.attach] at hp
          exact absurd hp.symm hc
        · exact ⟨p, by simpa [EnetServer.attach, hpeer] using hp⟩
  · intro c
    have hlength : (s.attach id peer).clients.length = s.clients.length + 1 := by
      simp [EnetServer.attach]
    rw [hlength]
    by_cases hc : c = s.clients.length
    · subst hc
      rw [Function.update_self]
      exact iff_of_false (by decide) (by omega)
    · rw [Function.update_of_ne hc, hstage.fresh]
      omega
  · rw [hconsumer, hahead]
    exact hfollows.push (by rw [hfresh]; rfl)
  · intro p q c hp hq
    by_cases hpp : p = peer
    · by_cases hqp : q = peer
      · rw [hpp, hqp]
      · have hc : s.clients.length = c := by simpa [EnetServer.attach, hpp] using hp
        have hold : (s.peers q).data = some c := by simpa [EnetServer.attach, hqp] using hq
        exact absurd (hlt q c hold) (by omega)
    · have hold : (s.peers p).data = some c := by simpa [EnetServer.attach, hpp] using hp
      by_cases hqp : q = peer
      · have hc : s.clients.length = c := by simpa [EnetServer.attach, hqp] using hq
        exact absurd (hlt p c hold) (by omega)
      · exact h.one_peer p q c hold (by simpa [EnetServer.attach, hqp] using hq)
  · intro p
    by_cases hp : p = peer
    · simp [EnetServer.attach, hp]
    · simpa [EnetServer.attach, hp] using h.state_iff p
  · intro c hc
    obtain ⟨id', hid'⟩ := h.alive c hc
    exact ⟨id', getID_eq_some.mpr (hget c _ (getID_eq_some.mp hid'))⟩

/-- A packet is an event of an object that the consumer has not seen the end of. -/
theorem receive (h : Lifelines s) {peer : Nat} (data : List Byte)
    (hdata : (s.peers peer).data = some client) :
    Lifelines { s with eventQueue := s.eventQueue ++ [(client, .receive data)] } := by
  obtain ⟨stage, hstage, hfollows⟩ := h.follows
  have hlisted : stage client = .listed := (hstage.listed client).mpr ⟨peer, hdata⟩
  refine ⟨⟨stage, ⟨hstage.listed, hstage.fresh⟩, ?_⟩, h.one_peer, h.state_iff, h.nodup, h.alive,
    h.violations⟩
  have hpush := hfollows.push (k := client) (m := .receive data) (t := .listed)
    (by rw [hlisted]; rfl)
  rw [← hlisted, Function.update_eq_self, ahead, List.append_assoc] at hpush
  exact hpush

/-- With the last event the peer lets go of its object. -/
theorem detach (h : Lifelines s) {peer : Nat} (hdata : (s.peers peer).data = some client) :
    Lifelines { s with
      peers := Function.update s.peers peer {}
      eventQueue := s.eventQueue ++ [(client, .disconnect)] } := by
  obtain ⟨stage, hstage, hfollows⟩ := h.follows
  have hlisted : stage client = .listed := (hstage.listed client).mpr ⟨peer, hdata⟩
  refine ⟨⟨Function.update stage client .gone, ⟨?_, ?_⟩, ?_⟩, ?_, ?_, h.nodup, h.alive,
    h.violations⟩
  · intro c
    by_cases hc : c = client
    · subst hc
      rw [Function.update_self]
      refine iff_of_false (by decide) ?_
      rintro ⟨p, hp⟩
      by_cases hpeer : p = peer
      · simp [hpeer] at hp
      · exact hpeer (h.one_peer p peer c (by simpa [hpeer] using hp) hdata)
    · rw [Function.update_of_ne hc, hstage.listed]
      constructor
      · rintro ⟨p, hp⟩
        have hne : p ≠ peer := by
          rintro rfl
          rw [hdata] at hp
          exact hc (Option.some.inj hp).symm
        exact ⟨p, by simpa [hne] using hp⟩
      · rintro ⟨p, hp⟩
        by_cases hpeer : p = peer
        · simp [hpeer] at hp
        · exact ⟨p, by simpa [hpeer] using hp⟩
  · intro c
    by_cases hc : c = client
    · subst hc
      rw [Function.update_self, ← hstage.fresh, hlisted]
      exact iff_of_false (by decide) (by decide)
    · rw [Function.update_of_ne hc]
      exact hstage.fresh c
  · have hpush := hfollows.push (k := client) (m := .disconnect) (t := .gone) (by rw [hlisted]; rfl)
    rw [ahead, List.append_assoc] at hpush
    exact hpush
  · intro p q c hp hq
    by_cases hpp : p = peer
    · simp [hpp] at hp
    · by_cases hqp : q = peer
      · simp [hqp] at hq
      · exact h.one_peer p q c (by simpa [hpp] using hp) (by simpa [hqp] using hq)
  · intro p
    by_cases hp : p = peer
    · simp [hp]
    · simpa [hp] using h.state_iff p

/-- A peer that is lost keeps its object until that is reported. -/
theorem lose (h : Lifelines s) {peer : Nat} (hstate : (s.peers peer).state ≠ .disconnected) :
    Lifelines { s with
      peers := Function.update s.peers peer { s.peers peer with state := .zombie } } := by
  obtain ⟨stage, hstage, hfollows⟩ := h.follows
  have hsame : ∀ p, (Function.update s.peers peer { s.peers peer with state := .zombie } p).data =
      (s.peers p).data := by
    intro p
    by_cases hp : p = peer
    · simp [hp]
    · simp [hp]
  refine ⟨⟨stage, ⟨?_, hstage.fresh⟩, hfollows⟩, ?_, ?_, h.nodup, h.alive, h.violations⟩
  · intro c
    simp only [hstage.listed, Attached, hsame]
  · intro p q c hp hq
    rw [hsame] at hp hq
    exact h.one_peer p q c hp hq
  · intro p
    rw [hsame, ← h.state_iff]
    by_cases hp : p = peer
    · simp [hp, hstate]
    · simp [hp]

end Lifelines

theorem same_erasePeer (peer : Nat) (hid : s.getID client = some id) :
    SameObjects s (s.erasePeer peer client) := by
  simp only [erasePeer, hid]
  split
  · exact ⟨rfl, rfl, rfl, rfl, [.notInPeerMap], rfl, by simp⟩
  · unfold check
    split
    · exact ⟨rfl, rfl, rfl, rfl, [], by simp, by simp⟩
    · exact ⟨rfl, rfl, rfl, rfl, [.otherPeerInMap], rfl, by simp⟩

/-- The worker's part of a disconnection. -/
theorem Lifelines.handleDisconnectEvent (h : Lifelines s) {peer : Nat}
    (hstate : (s.peers peer).state ≠ .disconnected) : Lifelines (s.handleDisconnectEvent peer) := by
  obtain ⟨client, hdata⟩ := Option.ne_none_iff_exists'.mp fun hnone =>
    hstate ((h.state_iff peer).mpr hnone)
  obtain ⟨id, hid⟩ := h.alive_of_attached ⟨peer, hdata⟩
  have hsame := same_erasePeer peer hid
  have hdata' : ((s.erasePeer peer client).peers peer).data = some client := by
    rw [hsame.peers_eq]
    exact hdata
  simp only [EnetServer.handleDisconnectEvent, hdata]
  exact (h.of_same hsame).detach hdata'

/-! ## The consumer's steps -/

/-- The next event concerns an object that is there, in a stage in which the event can come. -/
theorem consumerStage_pop {type : EventType} {rest : List (Nat × EventType)}
    (h : Lifelines s) (hcopy : s.eventQueueCopy = (client, type) :: rest) :
    (∃ id, s.getID client = some id) ∧ ∃ t stage, (s.consumerStage client).advance type = some t ∧
      s.WorkerStage stage ∧ Follows Stage.advance (Function.update s.consumerStage client t) stage
        (rest ++ s.eventQueue) := by
  obtain ⟨stage, hstage, hfollows⟩ := h.follows
  have hahead : s.ahead = (client, type) :: (rest ++ s.eventQueue) := by
    rw [ahead, hcopy]
    rfl
  have hmem : (client, type) ∈ s.ahead := by
    rw [hahead]
    exact List.mem_cons_self
  refine ⟨h.alive_of_event hmem, ?_⟩
  rw [hahead] at hfollows
  obtain ⟨t, ht, hrest⟩ := hfollows.pop
  exact ⟨t, stage, ht, hstage, hrest⟩

/-- Only a fresh object can connect. -/
theorem advance_connect {stage t : Stage} (h : stage.advance .connect = some t) :
    stage = .fresh ∧ t = .listed := by
  cases stage <;> cases h
  exact ⟨rfl, rfl⟩

/-- Only a listed one has packets. -/
theorem advance_receive {stage t : Stage} {data : List Byte}
    (h : stage.advance (.receive data) = some t) : stage = .listed ∧ t = .listed := by
  cases stage <;> cases h
  exact ⟨rfl, rfl⟩

/-- Only a listed one can leave. -/
theorem advance_disconnect {stage t : Stage} (h : stage.advance .disconnect = some t) :
    stage = .listed ∧ t = .gone := by
  cases stage <;> cases h
  exact ⟨rfl, rfl⟩

/-- What one turn of `consume_events` does. -/
inductive Handled (sentAt receivedAt : UInt32) (client : Nat) (id : ClientID)
    (rest : List (Nat × EventType)) (s s' : EnetServer) : EventType → Prop
  | connect (hnew : client ∉ s.connectedClients)
      (hs' : s' = { s with
        eventQueueCopy := rest
        connectedClients := s.connectedClients ++ [client]
        received := s.received ++ [onClientConnected id sentAt receivedAt] }) :
      Handled sentAt receivedAt client id rest s s' .connect
  | receive (data : List Byte) (p : Packet) (hmem : client ∈ s.connectedClients)
      (hp : onClientDataReceived id data receivedAt = .ok p)
      (hs' : s' = { s with eventQueueCopy := rest, received := s.received ++ [p] }) :
      Handled sentAt receivedAt client id rest s s' (.receive data)
  | disconnect (hmem : client ∈ s.connectedClients)
      (hs' : s' = { s with
        eventQueueCopy := rest
        connectedClients := s.connectedClients.erase client
        clients := s.clients.set client none
        received := s.received ++ [onClientDisconnected id sentAt receivedAt] }) :
      Handled sentAt receivedAt client id rest s s' .disconnect

/-- **Inversion.**  What one turn of `consume_events` does. -/
theorem handleEvent_cases {sentAt receivedAt : UInt32} {type : EventType}
    {rest : List (Nat × EventType)} (h : Lifelines s)
    (hcopy : s.eventQueueCopy = (client, type) :: rest)
    (hstep : handleEvent sentAt receivedAt client type
    { s with eventQueueCopy := rest } = some s') :
    ∃ id, s.getID client = some id ∧ Handled sentAt receivedAt client id rest s s' type := by
  obtain ⟨⟨id, hid⟩, t, stage, ht, _, _⟩ := consumerStage_pop h hcopy
  have hget : ∀ (copy : List (Nat × EventType)) (cs : List Nat),
      ({ s with eventQueueCopy := copy, connectedClients := cs } : EnetServer).getID client =
        some id := fun _ _ => hid
  refine ⟨id, hid, ?_⟩
  cases type with
  | connect =>
      simp only [handleEvent, hget, Option.some.injEq] at hstep
      exact .connect (consumerStage_eq_fresh (advance_connect ht).1).1 hstep.symm
  | receive data =>
      have hmem := (consumerStage_eq_listed (advance_receive ht).1).1
      simp only [handleEvent] at hstep
      rw [show ({ s with eventQueueCopy := rest } : EnetServer).getID client = some id from hid]
        at hstep
      rcases hp : onClientDataReceived id data receivedAt with e | p
      · simp [hp] at hstep
      · simp only [hp, Option.some.injEq] at hstep
        exact .receive data p hmem hp hstep.symm
  | disconnect =>
      have hmem := (consumerStage_eq_listed (advance_disconnect ht).1).1
      simp only [handleEvent, check, if_pos hmem, hget, Option.some.injEq] at hstep
      rw [deleteClient_of_alive (hget rest _)] at hstep
      exact .disconnect hmem hstep.symm

/-- One turn of `consume_events`. -/
theorem Lifelines.handled {sentAt receivedAt : UInt32} {type : EventType}
    {rest : List (Nat × EventType)} (h : Lifelines s)
    (hcopy : s.eventQueueCopy = (client, type) :: rest) (hid : s.getID client = some id)
    (hhandled : Handled sentAt receivedAt client id rest s s' type) : Lifelines s' := by
  obtain ⟨_, t, stage, ht, hstage, hfollows⟩ := consumerStage_pop h hcopy
  have hstored := getID_eq_some.mp hid
  cases hhandled with
  | connect hnew hs' =>
      obtain ⟨_, rfl⟩ := advance_connect ht
      subst hs'
      refine ⟨⟨stage, ⟨hstage.listed, hstage.fresh⟩, hfollows.congr ?_ fun _ => rfl⟩, h.one_peer,
        h.state_iff, ?_, ?_, h.violations⟩
      · intro c
        by_cases hc : c = client
        · subst hc
          simp [consumerStage, hstored]
        · simp [consumerStage, hc]
      · exact List.nodup_append.mpr ⟨h.nodup, List.nodup_singleton _, by
          rintro c hc c' hc' rfl
          rw [List.mem_singleton] at hc'
          exact hnew (hc' ▸ hc)⟩
      · intro c hc
        rcases List.mem_append.mp hc with hold | hnew
        · exact h.alive c hold
        · rw [List.mem_singleton.mp hnew]
          exact ⟨id, hid⟩
  | receive data p hmem hp hs' =>
      obtain ⟨hlisted, rfl⟩ := advance_receive ht
      subst hs'
      rw [← hlisted, Function.update_eq_self] at hfollows
      exact ⟨⟨stage, ⟨hstage.listed, hstage.fresh⟩, hfollows⟩, h.one_peer, h.state_iff, h.nodup,
        h.alive, h.violations⟩
  | disconnect hmem hs' =>
      obtain ⟨_, rfl⟩ := advance_disconnect ht
      subst hs'
      have hother : ∀ c, c ≠ client → (s.clients.set client none)[c]? = s.clients[c]? := by
        intro c hc
        exact List.getElem?_set_ne (Ne.symm hc)
      refine ⟨⟨stage, ⟨hstage.listed, ?_⟩, hfollows.congr ?_ fun _ => rfl⟩, h.one_peer, h.state_iff,
        h.nodup.erase client, ?_, h.violations⟩
      · intro c
        rw [List.length_set]
        exact hstage.fresh c
      · intro c
        by_cases hc : c = client
        · subst hc
          have hlt : c < s.clients.length := (List.getElem?_eq_some_iff.mp hstored).1
          simp [consumerStage, hlt]
        · simp [consumerStage, Function.update_of_ne hc, hother c hc, List.mem_erase_of_ne hc]
      · intro c hc
        have hne : c ≠ client := by
          rintro rfl
          exact h.nodup.not_mem_erase hc
        obtain ⟨id', hid'⟩ := h.alive c (List.mem_of_mem_erase hc)
        exact ⟨id', getID_eq_some.mpr ((hother c hne).trans (getID_eq_some.mp hid'))⟩

/-! ## Whole runs -/

/-- What the packets' handlers do touches no object. -/
theorem same_onPacketReceived (p : Packet) : SameObjects s (s.onPacketReceived p) := by
  unfold onPacketReceived
  split
  · exact ⟨rfl, rfl, rfl, rfl, [], by simp, by simp⟩
  · exact ⟨rfl, rfl, rfl, rfl, [], by simp, by simp⟩

section
variable {kind : ServerKind} {accepts : Nat → UInt8 → List Byte → Bool}

/-- **One step.** -/
theorem lifelines_step {e : Event} (h : Lifelines s) (hstep : step kind accepts s e = some s') :
    Lifelines s' := by
  cases e with
  | connect peer sentAt =>
      obtain ⟨hstate, hs'⟩ := Option.ite_none_right_eq_some.mp hstep
      cases hs'
      have hdata := (h.state_iff peer).mp hstate
      have hsame := same_clientInit (s := s) kind sentAt
      rw [handleConnectEvent_eq kind sentAt hdata]
      refine (h.of_same hsame).attach ?_ _
      rw [hsame.peers_eq]
      exact hdata
  | receive peer data =>
      obtain ⟨hstate, hs'⟩ := Option.ite_none_left_eq_some.mp hstep
      cases hs'
      unfold handleReceiveEvent
      split
      · exact h
      · next client hdata => exact h.receive data hdata
  | disconnect peer =>
      obtain ⟨hstate, hs'⟩ := Option.ite_none_left_eq_some.mp hstep
      cases hs'
      exact h.handleDisconnectEvent hstate
  | lose peer =>
      obtain ⟨hstate, hs'⟩ := Option.ite_none_left_eq_some.mp hstep
      cases hs'
      exact h.lose hstate
  | sendQueuedPackets =>
      cases hstep
      exact h.of_same (sending_sendQueuedPackets accepts).same
  | release packet => exact h.of_same (sending_release hstep).same
  | takeEvents =>
      obtain ⟨hcopy, hs'⟩ := Option.ite_none_right_eq_some.mp hstep
      cases hs'
      refine h.of_same ⟨rfl, rfl, rfl, ?_, [], by simp, by simp⟩
      simp [ahead, hcopy]
  | handleEvent sentAt receivedAt =>
      simp only [step] at hstep
      split at hstep
      · cases hstep
      · next client type rest hcopy =>
        obtain ⟨id, hid, hhandled⟩ := handleEvent_cases h hcopy hstep
        exact h.handled hcopy hid hhandled
  | update =>
      simp only [step] at hstep
      split at hstep
      · cases hstep
      · next p rest hreceived =>
        cases hstep
        have htaken : SameObjects s { s with received := rest, emitted := s.emitted ++ [p] } :=
          ⟨rfl, rfl, rfl, rfl, [], by simp, by simp⟩
        exact h.of_same (htaken.trans (same_onPacketReceived p))
  | sendPacketTo client channel data =>
      cases hstep
      exact h.of_same (sending_sendPacketTo client channel data).same
  | sendPacketToAllIf predicate channel data =>
      cases hstep
      rw [sendPacketToAllIf_eq predicate channel data h.alive]
      exact h.of_same ⟨rfl, rfl, rfl, rfl, [], by simp, by simp⟩
  | localPacket p sentAt receivedAt =>
      cases kind with
      | host =>
          cases hstep
          exact h.of_same (same_onPacketReceived _)
      | standard => cases hstep

/-- What every run keeps. -/
theorem lifelines_run {es : List Event} (hrun : Runs.run (step kind accepts) {} es = some s) :
    Lifelines s :=
  Runs.run_invariant (fun _ _ _ h hstep => lifelines_step h hstep) hrun lifelines_initial

end

/-- A client connects, sends a packet and goes. -/
def oneVisit : List Event :=
  [.connect 0 5, .takeEvents, .handleEvent 6 7, .receive 0 [5, 0, 0, 0, 0, 0, 0, 0], .disconnect 0,
    .update, .takeEvents, .handleEvent 8 9, .handleEvent 8 9, .update, .update]

end EnetServer

end EnkiNet
