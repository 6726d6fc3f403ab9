import EnkiNet.PeerMap

/-!
# What the handlers see of a client

The handlers of `on_packet_received` know a client by the id that its packets come with.  The id is
given to the next client when the handlers have been told that the last one has gone, so for each
id the packets are a sequence of visits: a `CONNECTED`, the packets of one client, a
`DISCONNECTED`.  `log` is all that the handlers have seen and will see if nothing more happens; it
changes only where the worker adds an event, and the map of peers says who is present at its end.
-/

namespace EnkiNet

open ByteStore Packet Channels

inductive Visit
  | away
  | present
  deriving DecidableEq, Repr

/-- What a packet of this type means for the visits of its sender. -/
def Visit.advance : Visit → PacketType → Option Visit
  | .away, type => if type = .connected then some .present else none
  | .present, type =>
      if type = .connected then none else if type = .disconnected then some .away else some .present

/-- What an entry of the log means for the visits of its sender. -/
def Visit.see (visit : Visit) (seen : PacketType × List Byte) : Option Visit := visit.advance seen.1

namespace EnetServer

variable {s s' : EnetServer} {client : Nat} {id : ClientID}

/-- Who sent a packet, and what the handlers see of it. -/
def packetEntry (p : Packet) : ClientID × PacketType × List Byte := (p.info.senderID, packetView p)

/-- The packet that an event will become. -/
def eventEntry (s : EnetServer) : Nat × EventType → ClientID × PacketType × List Byte
  | (client, type) => ((s.getID client).getD 0, type.view)

def log (s : EnetServer) : List (ClientID × PacketType × List Byte) :=
  (s.emitted ++ s.received).map packetEntry ++ s.ahead.map s.eventEntry

/-- The id of a peer's client. -/
def servedID (s : EnetServer) (peer : Nat) : Option ClientID := (s.peers peer).data.bind s.getID

/-- What an event of a run will let the handlers see. -/
def added (s : EnetServer) : Event → List (ClientID × PacketType × List Byte)
  | .connect _ _ => [(s.getNextUID.1, EventType.connect.view)]
  | .receive peer data => (s.servedID peer).toList.map fun id => (id, (EventType.receive data).view)
  | .disconnect peer => (s.servedID peer).toList.map fun id => (id, EventType.disconnect.view)
  | _ => []

/-- No client sends a packet of type `CONNECTED`. -/
def Event.Honest : Event → Prop
  | .receive _ data => (PacketHeader.ofBytes data).type ≠ .connected
  | _ => True

instance : (e : Event) → Decidable e.Honest
  | .receive .. => inferInstanceAs (Decidable (_ ≠ _))
  | .connect .. => .isTrue trivial
  | .disconnect .. => .isTrue trivial
  | .lose .. => .isTrue trivial
  | .sendQueuedPackets => .isTrue trivial
  | .release .. => .isTrue trivial
  | .takeEvents => .isTrue trivial
  | .handleEvent .. => .isTrue trivial
  | .update => .isTrue trivial
  | .sendPacketTo .. => .isTrue trivial
  | .sendPacketToAllIf .. => .isTrue trivial
  | .localPacket .. => .isTrue trivial

def Truthful (s : EnetServer) (e : Event) : Prop := s.Regular e ∧ e.Honest

instance (s : EnetServer) (e : Event) : Decidable (s.Truthful e) :=
  inferInstanceAs (Decidable (_ ∧ _))

/-- An entry of the log depends on the id of its client only. -/
theorem eventEntry_congr {c : Nat} {type : EventType} (h : s'.getID c = s.getID c) :
    s'.eventEntry (c, type) = s.eventEntry (c, type) := by
  cases type <;> simp only [eventEntry, h]

/-- What the transport reports is entered at the end. -/
theorem log_push (s s' : EnetServer) (client : Nat) (type : EventType)
    (hmade : ∀ c t, (c, t) ∈ s.ahead → s'.getID c = s.getID c)
    (hemitted : s'.emitted = s.emitted) (hreceived : s'.received = s.received)
    (hahead : s'.ahead = s.ahead ++ [(client, type)]) :
    s'.log = s.log ++ [s'.eventEntry (client, type)] := by
  have hold : s.ahead.map s'.eventEntry = s.ahead.map s.eventEntry := by
    refine List.map_congr_left ?_
    rintro ⟨c, t⟩ hmem
    exact eventEntry_congr (hmade c t hmem)
  simp only [log, hemitted, hreceived, hahead, List.map_append, List.map_cons, List.map_nil, hold,
    List.append_assoc]

/-! ## The worker's steps -/

/-- Handing out an id touches no queue. -/
theorem getNextUID_queues : s.getNextUID.2.emitted = s.emitted ∧
    s.getNextUID.2.received = s.received := by
  unfold getNextUID
  split
  · exact ⟨rfl, rfl⟩
  · exact ⟨rfl, rfl⟩

/-- A connection is entered under the id that was handed out. -/
theorem log_connect (h : Mapped s) {peer : Nat} (hdata : (s.peers peer).data = none)
    (kind : ServerKind) (sentAt : UInt32) :
    (s.handleConnectEvent kind sentAt peer).log =
      s.log ++ [(s.getNextUID.1, EventType.connect.view)] := by
  obtain ⟨hid, hsending⟩ := clientInit_sending (s := s) kind sentAt
  have hsame := same_clientInit (s := s) kind sentAt
  obtain ⟨hemitted, hreceived⟩ := getNextUID_queues (s := s)
  rw [handleConnectEvent_eq kind sentAt hdata, hid]
  generalize (s.clientInit kind sentAt).2 = t at hsending hsame
  have hnew : (t.attach s.getNextUID.1 peer).getID t.clients.length = some s.getNextUID.1 :=
    getID_eq_some.mpr (by simp [attach])
  have hlog := log_push s (t.attach s.getNextUID.1 peer) t.clients.length .connect ?_ ?_ ?_ ?_
  · rw [hlog, eventEntry, hnew]
    rfl
  · intro c type hmem
    obtain ⟨x, hx⟩ := h.lifelines.alive_of_event hmem
    have hstored := getID_eq_some.mp hx
    obtain ⟨hlt, _⟩ := List.getElem?_eq_some_iff.mp hstored
    rw [hx, getID_eq_some]
    change (t.clients ++ [some s.getNextUID.1])[c]? = some (some x)
    rw [hsame.clients_eq, List.getElem?_append_left hlt]
    exact hstored
  · change t.emitted = s.emitted
    rw [hsending.eq]
    exact hemitted
  · change t.received = s.received
    rw [hsending.eq]
    exact hreceived
  · change t.eventQueueCopy ++ (t.eventQueue ++ [(t.clients.length, .connect)]) = _
    rw [← List.append_assoc]
    exact congrArg (· ++ _) hsame.ahead_eq

/-- Data are entered under the id of their peer. -/
theorem log_receive (h : Mapped s) (peer : Nat) (data : List Byte) :
    (s.handleReceiveEvent peer data).log = s.log ++
      (s.servedID peer).toList.map fun id => (id, (EventType.receive data).view) := by
  unfold handleReceiveEvent
  rcases hdata : (s.peers peer).data with _ | client
  · simp [servedID, hdata]
  · obtain ⟨id, hid, _, _⟩ := h.served hdata
    have hlog := log_push s { s with eventQueue := s.eventQueue ++ [(client, .receive data)] }
      client
      (.receive data) (fun _ _ _ => rfl) rfl rfl (List.append_assoc _ _ _).symm
    rw [hlog, servedID, hdata, Option.bind_some, hid]
    change _ ++ [((s.getID client).getD 0, _)] = _
    rw [hid]
    rfl

/-- A disconnection is entered under the id of its peer. -/
theorem log_disconnect (h : Mapped s) {peer : Nat} (hstate : (s.peers peer).state ≠ .disconnected) :
    (s.handleDisconnectEvent peer).log = s.log ++
      (s.servedID peer).toList.map fun id => (id, EventType.disconnect.view) := by
  obtain ⟨client, id, hdata, hid, _, herase⟩ := h.handleDisconnectEvent_eq hstate
  rw [herase]
  have hlog := log_push s { s with
      threadPeerMap := s.threadPeerMap.erase id
      peers := Function.update s.peers peer {}
      eventQueue := s.eventQueue ++ [(client, .disconnect)] } client .disconnect
    (fun _ _ _ => rfl) rfl rfl (List.append_assoc _ _ _).symm
  rw [hlog, servedID, hdata, Option.bind_some, hid]
  change _ ++ [((s.getID client).getD 0, _)] = _
  rw [hid]
  rfl

/-! ## The consumer's steps -/

/-- The consumer makes one packet of an event. -/
theorem Handled.packet {sentAt receivedAt : UInt32} {type : EventType}
    {rest : List (Nat × EventType)} (hid : s.getID client = some id)
    (h : Handled sentAt receivedAt client id rest s s' type) :
    ∃ p, s'.received = s.received ++ [p] ∧ packetEntry p = s.eventEntry (client, type) ∧
      s'.emitted = s.emitted ∧ s'.threadPeerMap = s.threadPeerMap ∧
      s'.ahead = rest ++ s.eventQueue := by
  cases h with
  | connect hnew hs' =>
      subst hs'
      exact ⟨_, rfl, by rw [eventEntry, hid]; rfl, rfl, rfl, rfl⟩
  | receive data p hmem hp hs' =>
      subst hs'
      refine ⟨p, rfl, ?_, rfl, rfl, rfl⟩
      simp only [onClientDataReceived, ofData] at hp
      split at hp
      · cases hp
      · cases hp
        rw [eventEntry, hid]
        rfl
  | disconnect hmem hs' =>
      subst hs'
      exact ⟨_, rfl, by rw [eventEntry, hid]; rfl, rfl, rfl, rfl⟩

/-- A deleted object is not among the events that are left. -/
theorem Handled.getID_eq {sentAt receivedAt : UInt32} {type : EventType}
    {rest : List (Nat × EventType)} (hid : s.getID client = some id)
    (h : Handled sentAt receivedAt client id rest s s' type) (hlife : Lifelines s') {c : Nat}
    {t : EventType} (hmem : (c, t) ∈ s'.ahead) : s'.getID c = s.getID c := by
  cases h with
  | connect hnew hs' =>
      subst hs'
      rfl
  | receive data p hmem hp hs' =>
      subst hs'
      rfl
  | disconnect hlisted hs' =>
      obtain ⟨x, hx⟩ := hlife.alive_of_event hmem
      subst hs'
      have hne : c ≠ client := by
        rintro rfl
        have hlt := (List.getElem?_eq_some_iff.mp (getID_eq_some.mp hid)).1
        simp [getID, hlt] at hx
      simp [getID, List.getElem?_set_ne (Ne.symm hne)]

/-- An event that becomes a packet stays where it is in the log. -/
theorem Handled.log_eq {sentAt receivedAt : UInt32} {type : EventType}
    {rest : List (Nat × EventType)} (hlife : Lifelines s')
    (hcopy : s.eventQueueCopy = (client, type) :: rest) (hid : s.getID client = some id)
    (hhandled : Handled sentAt receivedAt client id rest s s' type) : s'.log = s.log := by
  obtain ⟨p, hreceived, hentry, hemitted, hmap, hahead⟩ := hhandled.packet hid
  have hsame : s'.ahead.map s'.eventEntry = s'.ahead.map s.eventEntry := by
    refine List.map_congr_left ?_
    rintro ⟨c, t⟩ hmem
    exact eventEntry_congr (hhandled.getID_eq hid hlife hmem)
  have hbefore : s.ahead = (client, type) :: s'.ahead := by
    rw [hahead, ahead, hcopy]
    rfl
  rw [log, hsame, hreceived, hemitted, log, hbefore, List.map_cons, ← hentry]
  simp only [List.map_append, List.map_cons, List.map_nil, List.append_assoc, List.cons_append,
    List.nil_append]

section
variable {kind : ServerKind} {accepts : Nat → UInt8 → List Byte → Bool}

/-- **One step.**  Only the worker adds to what the handlers will see. -/
theorem log_step {e : Event} (h : Mapped s) (hregular : s.Regular e)
    (hstep : step kind accepts s e = some s') : s'.log = s.log ++ s.added e := by
  have hmapped := mapped_step h hregular hstep
  have hkeep : s'.log = s.log → s.added e = [] → s'.log = s.log ++ s.added e :=
    fun hsame hnone => by rw [hsame, hnone, List.append_nil]
  have hsending : Sending s s' → s'.log = s.log := by
    intro hsending
    rw [hsending.eq]
    rfl
  cases e with
  | connect peer sentAt =>
      obtain ⟨hstate, hs'⟩ := Option.ite_none_right_eq_some.mp hstep
      cases hs'
      exact log_connect h ((h.lifelines.state_iff peer).mp hstate) kind sentAt
  | receive peer data =>
      obtain ⟨_, hs'⟩ := Option.ite_none_left_eq_some.mp hstep
      cases hs'
      exact log_receive h peer data
  | disconnect peer =>
      obtain ⟨hstate, hs'⟩ := Option.ite_none_left_eq_some.mp hstep
      cases hs'
      exact log_disconnect h hstate
  | lose peer =>
      obtain ⟨hstate, hs'⟩ := Option.ite_none_left_eq_some.mp hstep
      cases hs'
      exact hkeep rfl rfl
  | sendQueuedPackets =>
      cases hstep
      exact hkeep (hsending (sending_sendQueuedPackets accepts)) rfl
  | release packet => exact hkeep (hsending (sending_release hstep)) rfl
  | takeEvents =>
      obtain ⟨hcopy, hs'⟩ := Option.ite_none_right_eq_some.mp hstep
      cases hs'
      refine hkeep ?_ rfl
      simp only [log, ahead, hcopy, List.append_nil, List.nil_append]
      rfl
  | handleEvent sentAt receivedAt =>
      simp only [step] at hstep
      split at hstep
      · cases hstep
      · next client type rest hcopy =>
        obtain ⟨id, hid, hhandled⟩ := handleEvent_cases h.lifelines hcopy hstep
        exact hkeep (hhandled.log_eq hmapped.lifelines hcopy hid) rfl
  | update =>
      simp only [step] at hstep
      split at hstep
      · cases hstep
      · next p rest hreceived =>
        cases hstep
        have hlog : ({ s with received := rest, emitted := s.emitted ++ [p] } : EnetServer).log =
            s.log := by
          simp only [log, hreceived, List.append_assoc, List.singleton_append]
          rfl
        refine hkeep ?_ rfl
        rw [← hlog]
        unfold onPacketReceived
        split <;> rfl
  | sendPacketTo client channel data =>
      cases hstep
      exact hkeep (hsending (sending_sendPacketTo client channel data)) rfl
  | sendPacketToAllIf predicate channel data =>
      cases hstep
      refine hkeep ?_ rfl
      rw [sendPacketToAllIf_eq predicate channel data h.lifelines.alive]
      rfl
  | localPacket p sentAt receivedAt =>
      cases kind with
      | host =>
          cases hstep
          exact hkeep (congrArg log (if_neg hregular)) rfl
      | standard => cases hstep

end

/-! ## Visits -/

/-- The handlers' view leads to who is present. -/
structure Visited (s : EnetServer) : Prop where
  mapped : Mapped s
  follows : ∃ visit : ClientID → Visit, (∀ id, visit id = .present ↔ id ∈ s.threadPeerMap) ∧
    Follows Visit.see (fun _ => .away) visit s.log

/-- The log starts empty. -/
theorem visited_initial : Visited {} where
  mapped := mapped_initial
  follows := ⟨fun _ => .away, by simp, Follows.nil _⟩

/-- A step in which the worker adds an event. -/
theorem Visited.push (h : Visited s) (hmapped : Mapped s')
    {entry : ClientID × PacketType × List Byte} (after : Visit) (hlog : s'.log = s.log ++ [entry])
    (hadvance : ∀ before : Visit, (before = .present ↔ entry.1 ∈ s.threadPeerMap) →
      before.see entry.2 = some after)
    (hafter : after = .present ↔ entry.1 ∈ s'.threadPeerMap)
    (hother : ∀ id, id ≠ entry.1 → (id ∈ s'.threadPeerMap ↔ id ∈ s.threadPeerMap)) :
    Visited s' := by
  obtain ⟨visit, hvisit, hfollows⟩ := h.follows
  refine ⟨hmapped, Function.update visit entry.1 after, fun id => ?_, ?_⟩
  · by_cases heq : id = entry.1
    · rw [heq, Function.update_self, hafter]
    · rw [Function.update_of_ne heq, hvisit, hother id heq]
  · rw [hlog]
    exact hfollows.push (hadvance _ (hvisit entry.1))

/-- A step that adds nothing. -/
theorem Visited.of_log (h : Visited s) (hmapped : Mapped s')
    (hmap : s'.threadPeerMap = s.threadPeerMap) (hlog : s'.log = s.log) : Visited s' := by
  obtain ⟨visit, hvisit, hfollows⟩ := h.follows
  exact ⟨hmapped, visit, fun id => by rw [hmap, hvisit], hlog ▸ hfollows⟩

section
variable {kind : ServerKind} {accepts : Nat → UInt8 → List Byte → Bool}

/-- Only connections and disconnections change the map. -/
theorem threadPeerMap_step {e : Event} (h : Mapped s) (hregular : s.Regular e)
    (hconnect : ∀ peer sentAt, e ≠ .connect peer sentAt)
    (hdisconnect : ∀ peer, e ≠ .disconnect peer)
    (hstep : step kind accepts s e = some s') : s'.threadPeerMap = s.threadPeerMap := by
  have hsending : Sending s s' → s'.threadPeerMap = s.threadPeerMap := by
    intro hsending
    rw [hsending.eq]
  cases e with
  | connect peer sentAt => exact absurd rfl (hconnect peer sentAt)
  | receive peer data =>
      obtain ⟨_, hs'⟩ := Option.ite_none_left_eq_some.mp hstep
      cases hs'
      unfold handleReceiveEvent
      split <;> rfl
  | disconnect peer => exact absurd rfl (hdisconnect peer)
  | lose peer =>
      obtain ⟨_, hs'⟩ := Option.ite_none_left_eq_some.mp hstep
      cases hs'
      rfl
  | sendQueuedPackets =>
      cases hstep
      exact hsending (sending_sendQueuedPackets accepts)
  | release packet => exact hsending (sending_release hstep)
  | takeEvents =>
      obtain ⟨_, hs'⟩ := Option.ite_none_right_eq_some.mp hstep
      cases hs'
      rfl
  | handleEvent sentAt receivedAt =>
      simp only [step] at hstep
      split at hstep
      · cases hstep
      · next client type rest hcopy =>
        obtain ⟨id, hid, hhandled⟩ := handleEvent_cases h.lifelines hcopy hstep
        obtain ⟨_, _, _, _, hmap, _⟩ := hhandled.packet hid
        exact hmap
  | update =>
      simp only [step] at hstep
      split at hstep
      · cases hstep
      · cases hstep
        unfold onPacketReceived
        split <;> rfl
  | sendPacketTo client channel data =>
      cases hstep
      exact hsending (sending_sendPacketTo client channel data)
  | sendPacketToAllIf predicate channel data =>
      cases hstep
      rw [sendPacketToAllIf_eq predicate channel data h.lifelines.alive]
  | localPacket p sentAt receivedAt =>
      cases kind with
      | host =>
          cases hstep
          unfold onPacketReceived
          split <;> rfl
      | standard => cases hstep

/-- **One step.** -/
theorem visited_step {e : Event} (h : Visited s) (htruthful : s.Truthful e)
    (hstep : step kind accepts s e = some s') : Visited s' := by
  have hmapped := mapped_step h.mapped htruthful.1 hstep
  have hlog := log_step h.mapped htruthful.1 hstep
  by_cases hconnect : ∃ peer sentAt, e = .connect peer sentAt
  · obtain ⟨peer, sentAt, rfl⟩ := hconnect
    obtain ⟨hstate, hs'⟩ := Option.ite_none_right_eq_some.mp hstep
    have hdata := (h.mapped.lifelines.state_iff peer).mp hstate
    have hunused := h.mapped.nextUID_unused htruthful.1
    have hmap : s'.threadPeerMap = s.threadPeerMap.insert s.getNextUID.1 peer := by
      obtain ⟨hid, hsending⟩ := clientInit_sending (s := s) kind sentAt
      rw [← Option.some.inj hs', handleConnectEvent_eq kind sentAt hdata, hid]
      change (s.clientInit kind sentAt).2.threadPeerMap.insert _ _ = _
      rw [hsending.eq]
      exact congrArg (AList.insert _ _) getNextUID_map.1
    refine h.push hmapped .present hlog ?_ ?_ ?_
    · intro before hbefore
      cases before with
      | away => rfl
      | present => exact absurd (hbefore.mp rfl) hunused
    · rw [hmap]
      exact iff_of_true rfl ((AList.mem_insert _).mpr (Or.inl rfl))
    · intro id hne
      rw [hmap, AList.mem_insert, or_iff_right hne]
  · by_cases hdisconnect : ∃ peer, e = .disconnect peer
    · obtain ⟨peer, rfl⟩ := hdisconnect
      obtain ⟨hstate, hs'⟩ := Option.ite_none_left_eq_some.mp hstep
      obtain ⟨client, id, hdata, hid, hlookup, herase⟩ := h.mapped.handleDisconnectEvent_eq hstate
      have hmem : id ∈ s.threadPeerMap := AList.lookup_isSome.mp (by rw [hlookup]; rfl)
      have hmap : s'.threadPeerMap = s.threadPeerMap.erase id := by
        rw [← Option.some.inj hs', herase]
      rw [added, servedID, hdata, Option.bind_some, hid] at hlog
      refine h.push hmapped .away hlog ?_ ?_ ?_
      · intro before hbefore
        rw [hbefore.mpr hmem]
        rfl
      · rw [hmap]
        refine iff_of_false (by decide) ?_
        rw [AList.mem_erase]
        exact fun hboth => hboth.1 rfl
      · intro x hne
        rw [hmap, AList.mem_erase]
        exact and_iff_right hne
    · have hmap := threadPeerMap_step h.mapped htruthful.1
        (fun peer sentAt heq => hconnect ⟨peer, sentAt, heq⟩)
          (fun peer heq => hdisconnect ⟨peer, heq⟩)
        hstep
      cases e with
      | connect peer sentAt => exact absurd ⟨peer, sentAt, rfl⟩ hconnect
      | disconnect peer => exact absurd ⟨peer, rfl⟩ hdisconnect
      | receive peer data =>
          rcases hdata : (s.peers peer).data with _ | client
          · rw [added, servedID, hdata] at hlog
            exact h.of_log hmapped hmap (hlog.trans (List.append_nil _))
          · obtain ⟨id, hid, hlookup, _⟩ := h.mapped.served hdata
            have hmem : id ∈ s.threadPeerMap := AList.lookup_isSome.mp (by rw [hlookup]; rfl)
            rw [added, servedID, hdata, Option.bind_some, hid] at hlog
            refine h.push hmapped .present hlog ?_ (iff_of_true rfl (by rw [hmap]; exact hmem))
              fun _ _ => by rw [hmap]
            intro before hbefore
            rw [hbefore.mpr hmem]
            exact (if_neg htruthful.2).trans (if_neg htruthful.1)
      | lose _ => exact h.of_log hmapped hmap (hlog.trans (List.append_nil _))
      | sendQueuedPackets => exact h.of_log hmapped hmap (hlog.trans (List.append_nil _))
      | release _ => exact h.of_log hmapped hmap (hlog.trans (List.append_nil _))
      | takeEvents => exact h.of_log hmapped hmap (hlog.trans (List.append_nil _))
      | handleEvent _ _ => exact h.of_log hmapped hmap (hlog.trans (List.append_nil _))
      | update => exact h.of_log hmapped hmap (hlog.trans (List.append_nil _))
      | sendPacketTo _ _ _ => exact h.of_log hmapped hmap (hlog.trans (List.append_nil _))
      | sendPacketToAllIf _ _ _ => exact h.of_log hmapped hmap (hlog.trans (List.append_nil _))
      | localPacket _ _ _ => exact h.of_log hmapped hmap (hlog.trans (List.append_nil _))

/-- The packets with one sender id. -/
theorem about_map_packetEntry (id : ClientID) (ps : List Packet) :
    about id (ps.map packetEntry) = (ps.filter fun p => p.info.senderID = id).map packetView := by
  induction ps with
  | nil => rfl
  | cons p ps ih =>
      by_cases hp : p.info.senderID = id
      · rw [List.map_cons, packetEntry, hp, about_cons_self, ih,
          List.filter_cons_of_pos (by simpa using hp), List.map_cons]
      · rw [List.map_cons, packetEntry, about_cons_ne hp, ih,
          List.filter_cons_of_neg (by simpa using hp)]

/-- The automaton looks at the types only. -/
theorem run_see (visit : Visit) (seen : List (PacketType × List Byte)) :
    Runs.run Visit.see visit seen = Runs.run Visit.advance visit (seen.map Prod.fst) := by
  induction seen generalizing visit with
  | nil => rfl
  | cons entry rest ih => exact congrArg (Option.bind (visit.advance entry.1)) (funext ih)

end

end EnetServer

end EnkiNet
