import EnkiNet.Channels
import EnkiNet.Postings
import EnkiNet.RpcRouting

/-!
# What clients get through a listen server

The server of a session relays what its clients send and announces what is created and deleted.
Both go through its queue of packets and then, client by client, through what it has
posted and the transport has not delivered yet.

* `bulletins_agree`: creations and deletions are for everyone, and all clients get them in one and
  the same order;
* `updates_relayed`: what one client posts about its entities another one gets, each update once, in
  order and with the same payload;
* `calls_relayed`: of the calls that one client posts another one gets some, each at most once, in
  order and with the same payload, and its own never come back to it.

All three are about clients that do not leave in the meantime.
-/

namespace EnkiNet

open ByteStore Packet Process

/-- A packet that goes to everyone. -/
def Datagram.IsBulletin (d : Datagram) : Prop :=
  typeOf d.data = .entityCreation ∨ typeOf d.data = .entityDeletion

instance (d : Datagram) : Decidable d.IsBulletin := inferInstanceAs (Decidable (_ ∨ _))

/-- The creations and deletions among these, in order. -/
def bulletins (ds : List Datagram) : List Datagram := ds.filter fun d => d.IsBulletin

theorem bulletins_append (ds more : List Datagram) :
    bulletins (ds ++ more) = bulletins ds ++ bulletins more :=
  List.filter_append ..

/-- The payload of a packet of this type. -/
def payloadOf (type : PacketType) (data : List Byte) : Option (List Byte) :=
  if typeOf data = type then some (data.drop headerSize) else none

/-- The payloads of the packets of this type that one client has sent, among these, in order. -/
def payloadsFrom (type : PacketType) (c : ClientID) (ds : List Datagram) : List (List Byte) :=
  ds.filterMap fun d => if d.origin = c then payloadOf type d.data else none

theorem payloadsFrom_append (type : PacketType) (c : ClientID) (ds more : List Datagram) :
    payloadsFrom type c (ds ++ more) = payloadsFrom type c ds ++ payloadsFrom type c more :=
  List.filterMap_append

/-- The same for the packets that a server has received. -/
def payloadsIn (type : PacketType) (c : ClientID) (ps : List Packet) : List (List Byte) :=
  ps.filterMap fun p =>
    if p.header.type = type ∧ p.info.senderID = c then some (p.bytes.drop headerSize) else none

theorem payloadsIn_append (type : PacketType) (c : ClientID) (ps more : List Packet) :
    payloadsIn type c (ps ++ more) = payloadsIn type c ps ++ payloadsIn type c more :=
  List.filterMap_append

/-- The types of the packets that a server only passes on. -/
def PacketType.Relayed (type : PacketType) : Prop := type = .entityUpdate ∨ type = .entityRpc

namespace Process

/-! ## One program of the host -/

theorem Posting.pending_entries (q : Posting) (c : ClientID) :
    (q.entries.filterMap fun (dest, d) => if dest = c then some d else none) =
      List.replicate (q.dests.count c) q.datagram := by
  rw [Posting.entries]
  induction q.dests with
  | nil => rfl
  | cons dest dests ih =>
      rw [List.map_cons, List.count_cons]
      by_cases h : dest = c
      · simp [h, ih, List.replicate_succ]
      · simp [h, ih]

/-- What a list of postings puts on the way to a client. -/
theorem pending_of_postings {s s' : Process} {qs : List Posting}
    (h : s'.outbox = s.outbox ++ qs.flatMap Posting.entries) (c : ClientID) :
    s'.pending c =
      s.pending c ++ qs.flatMap fun q => List.replicate (q.dests.count c) q.datagram := by
  rw [pending, h, List.filterMap_append, List.filterMap_flatMap]
  congr 2
  funext q
  exact q.pending_entries c

/-- A bulletin is posted once to each client that is connected, anything else is no bulletin. -/
theorem Posting.Proper.bulletins_eq {connected : List ClientID}
    {speaker : PacketType → ClientID → Prop} {q : Posting} (h : q.Proper connected speaker)
    (hnodup : connected.Nodup) {c : ClientID} (hc : c ∈ connected) :
    bulletins (List.replicate (q.dests.count c) q.datagram) = bulletins [q.datagram] := by
  by_cases hbulletin : q.datagram.IsBulletin
  · have hdests : q.dests = connected := by
      rcases hbulletin with htype | htype
      · have hcase : q.type = .entityCreation := htype
        rwa [Posting.Proper, hcase] at h
      · have hcase : q.type = .entityDeletion := htype
        rwa [Posting.Proper, hcase] at h
    rw [hdests, List.count_eq_one_of_mem hnodup hc]
    rfl
  · rw [bulletins, List.filter_eq_nil_iff.mpr, bulletins, List.filter_eq_nil_iff.mpr]
    · intro d hd
      rw [List.mem_singleton.mp hd]
      simpa using hbulletin
    · intro d hd
      rw [(List.mem_replicate.mp hd).2]
      simpa using hbulletin

/-- **Everyone who is connected is sent the same bulletins.** -/
theorem Posts.bulletins_eq {speaker : PacketType → ClientID → Prop} {s s' : Process}
    (h : Posts speaker s s') (hnodup : s.connected.Nodup) : ∃ new, ∀ c ∈ s.connected,
      bulletins (s'.pending c) = bulletins (s.pending c) ++ new := by
  obtain ⟨qs, houtbox, hproper⟩ := h.outbox
  refine ⟨bulletins (qs.map Posting.datagram), fun c hc => ?_⟩
  rw [pending_of_postings houtbox c, bulletins_append]
  congr 1
  clear houtbox
  induction qs with
  | nil => rfl
  | cons q qs ih =>
      have hone := (hproper q List.mem_cons_self).bulletins_eq hnodup hc
      rw [List.flatMap_cons, bulletins_append, hone,
        ih fun q' hq' => hproper q' (List.mem_cons_of_mem q hq'), ← bulletins_append]
      rfl

/-- Updates and calls are those of the speakers. -/
theorem Posts.payloadsFrom_eq {type : PacketType} {speaker : PacketType → ClientID → Prop}
    {s s' : Process} (h : Posts speaker s s') (htype : type.Relayed) {c : ClientID}
    (hc : ¬ speaker type c) (d : ClientID) :
    payloadsFrom type c (s'.pending d) = payloadsFrom type c (s.pending d) := by
  obtain ⟨qs, houtbox, hproper⟩ := h.outbox
  rw [pending_of_postings houtbox d, payloadsFrom_append, List.append_right_eq_self, payloadsFrom,
    List.filterMap_eq_nil_iff]
  intro x hx
  obtain ⟨q, hq, hx⟩ := List.mem_flatMap.mp hx
  rw [(List.mem_replicate.mp hx).2]
  split
  · next horigin =>
    refine if_neg fun hthis => hc ?_
    have hcase : q.type = type := hthis
    have hspeaker := hproper q hq
    rcases htype with rfl | rfl
    · rw [Posting.Proper, hcase] at hspeaker
      exact horigin ▸ hspeaker.1
    · rw [Posting.Proper, hcase] at hspeaker
      exact horigin ▸ hspeaker
  · rfl

/-- A packet that has come from the transport is sent on with the same payload. -/
theorem wire_stamped {p : Packet} (hp : FromWire p) {now : UInt32} {data : List Byte}
    (h : (stamped now p).wire = .ok data) :
    typeOf data = p.header.type ∧ data.drop headerSize = p.bytes.drop headerSize := by
  have hbytes : data = (stamped now p).bytes := by
    unfold wire at h
    split at h
    · cases h
      have hwritten : (stamped now p).bytesWritten = (stamped now p).bytes.length := by
        rw [stamped, length_setHeader]
        exact hp.2
      rw [hwritten, List.take_length]
    · cases h
  rw [hbytes]
  have hheader : PacketHeader.ofBytes (stamped now p).bytes = ⟨p.header.type, now⟩ :=
    ofBytes_setHeader _ hp.1
  exact ⟨by rw [typeOf, hheader], drop_setHeader _ p⟩

/-- What becomes of the packets of `c` that the server has taken out of its queue: these are sent on
to `d`. -/
structure PassedOn (type : PacketType) (c d : ClientID) (taken sent : List (List Byte)) : Prop where
  sublist : sent.Sublist taken
  own : d = c → sent = []
  update : type = .entityUpdate → d ≠ c → sent = taken

theorem PassedOn.nil {type : PacketType} {c d : ClientID} : PassedOn type c d [] [] :=
  ⟨.slnil, fun _ => rfl, fun _ _ => rfl⟩

theorem PassedOn.append {type : PacketType} {c d : ClientID}
    {taken sent taken' sent' : List (List Byte)} (h : PassedOn type c d taken sent)
    (h' : PassedOn type c d taken' sent') :
    PassedOn type c d (taken ++ taken') (sent ++ sent') where
  sublist := h.sublist.append h'.sublist
  own heq := by rw [h.own heq, h'.own heq, List.append_nil]
  update htype hne := by rw [h.update htype hne, h'.update htype hne]

/-- One posting of a packet that has come from the transport. -/
theorem PostedTo.payloadsFrom_eq {p : Packet} {s s' : Process} {dests : List ClientID}
    {d : ClientID} (hp : FromWire p) (hd : d ∈ s.connected)
    (h : PostedTo p.info.senderID dests (stamped s.now p) s s') :
    payloadsFrom p.header.type p.info.senderID (s'.pending d) =
      payloadsFrom p.header.type p.info.senderID (s.pending d) ++
        List.replicate (dests.count d) (p.bytes.drop headerSize) := by
  rcases h with ⟨hnobody, _⟩ | ⟨data, hdata, houtbox⟩
  · rw [hnobody] at hd
    cases hd
  · obtain ⟨htyped, hdrop⟩ := wire_stamped hp hdata
    set q : Posting := ⟨dests, { origin := p.info.senderID, data := data }⟩ with hq
    have hentries : s'.outbox = s.outbox ++ [q].flatMap Posting.entries := by
      rw [houtbox, List.flatMap_cons, List.flatMap_nil, List.append_nil]
    have hpayload : payloadOf p.header.type data = some (p.bytes.drop headerSize) := by
      rw [payloadOf, if_pos htyped, hdrop]
    rw [pending_of_postings hentries d, List.flatMap_cons, List.flatMap_nil, List.append_nil,
      payloadsFrom_append]
    congr 1
    rw [payloadsFrom, List.filterMap_replicate]
    simp only [hq, if_true, hpayload]

/-- **An update is sent on to every other client.** -/
theorem update_passedOn {p : Packet} {s s' : Process} {d : ClientID} (hp : FromWire p)
    (hnodup : s.connected.Nodup) (hd : d ∈ s.connected)
    (hrun : sendPacketToAllExceptOneClient p.info.senderID p.info.senderID p s = (.ok (), s')) :
    ∃ sent, payloadsFrom p.header.type p.info.senderID (s'.pending d) =
        payloadsFrom p.header.type p.info.senderID (s.pending d) ++ sent ∧
      PassedOn p.header.type p.info.senderID d [p.bytes.drop headerSize] sent := by
  obtain ⟨_, hposted⟩ := sendPacketToAllExceptOneClient_posts hrun
  refine ⟨_, hposted.payloadsFrom_eq hp hd, ?_⟩
  by_cases heq : d = p.info.senderID
  · have hnot : d ∉ s.connected.filter fun c => c ≠ p.info.senderID := by
      simp [heq]
    rw [List.count_eq_zero_of_not_mem hnot]
    exact ⟨List.nil_sublist _, fun _ => rfl, fun _ hne => absurd heq hne⟩
  · have hmem : d ∈ s.connected.filter fun c => c ≠ p.info.senderID := by
      simp [hd, heq]
    rw [List.count_eq_one_of_mem (hnodup.filter _) hmem]
    exact ⟨.refl _, fun hown => absurd hown heq, fun _ _ => rfl⟩

/-- A call is sent on once, or not at all. -/
theorem call_passedOn {π : Policy} {p : Packet} {s s' : Process} {d : ClientID} (hp : FromWire p)
    (harrived : Arrived π p) (htype : p.header.type = .entityRpc) (hnodup : s.connected.Nodup)
    (hd : d ∈ s.connected) (hrun : routeRPC p s = (.ok (), s')) :
    ∃ sent, payloadsFrom p.header.type p.info.senderID (s'.pending d) =
        payloadsFrom p.header.type p.info.senderID (s.pending d) ++ sent ∧
      PassedOn p.header.type p.info.senderID d [p.bytes.drop headerSize] sent := by
  have hupdate : p.header.type ≠ .entityUpdate := by
    rw [htype]
    simp
  rcases (routeRPC_passes harrived htype hrun).outbox with
    hsame | ⟨info, cursor, dests, _, _, hdests, hposted⟩
  · refine ⟨[], ?_, List.nil_sublist _, fun _ => rfl, fun htype => absurd htype hupdate⟩
    rw [pending, hsame, List.append_nil]
    rfl
  · refine ⟨_, hposted.payloadsFrom_eq (p := p.withRead cursor) hp hd, ?_⟩
    have hcount : dests.count d = 0 ∨ dests.count d = 1 ∧ d ≠ p.info.senderID := by
      rcases hdests with ⟨owner, howner, rfl⟩ | rfl
      · by_cases heq : owner = d
        · exact Or.inr ⟨by simp [heq], heq ▸ howner⟩
        · exact Or.inl (by simp [heq])
      · by_cases heq : d = p.info.senderID
        · exact Or.inl (List.count_eq_zero_of_not_mem (by simp [heq]))
        · exact Or.inr ⟨List.count_eq_one_of_mem (hnodup.filter _) (by simp [hd, heq]), heq⟩
    rcases hcount with hzero | ⟨hone, hne⟩
    · rw [hzero]
      exact ⟨List.nil_sublist _, fun _ => rfl, fun htype => absurd htype hupdate⟩
    · rw [hone]
      exact ⟨.refl _, fun hown => absurd hown hne, fun _ _ => rfl⟩

/-- **What the server sends on when it serves an update or a call.** -/
theorem serverHandler_passedOn {π : Policy} {stack : Nat} {hook : EntityID → List WriteOp}
    {p : Packet} {s s' : Process} {d : ClientID} (hp : FromWire p) (harrived : Arrived π p)
    (htype : p.header.type.Relayed) (hnodup : s.connected.Nodup) (hd : d ∈ s.connected)
    (hrun : serverHandler stack hook p s = (.ok (), s')) :
    ∃ sent, payloadsFrom p.header.type p.info.senderID (s'.pending d) =
        payloadsFrom p.header.type p.info.senderID (s.pending d) ++ sent ∧
      PassedOn p.header.type p.info.senderID d [p.bytes.drop headerSize] sent := by
  rcases htype with htype | htype
  · rw [serverHandler, htype] at hrun
    exact update_passedOn hp hnodup hd hrun
  · rw [serverHandler, htype] at hrun
    exact call_passedOn hp harrived htype hnodup hd hrun

end Process

namespace Session

variable {s s' : Session} {c d : ClientID}

/-- The client does not leave. -/
def Remains (c : ClientID) (_ : Session) : Event → Prop
  | .disconnect c' _ _ => c' ≠ c
  | _ => True

instance (c : ClientID) (s : Session) : (e : Event) → Decidable (s.Remains c e)
  | .disconnect c' _ _ => inferInstanceAs (Decidable (c' ≠ c))
  | .connect .. => .isTrue trivial
  | .send .. => .isTrue trivial
  | .receive .. => .isTrue trivial
  | .serve .. => .isTrue trivial
  | .deliver .. => .isTrue trivial
  | .hostCall .. => .isTrue trivial
  | .peerCall .. => .isTrue trivial

/-- What a client's handler gets in a step. -/
def delivered (c : ClientID) (s : Session) : Event → List Datagram
  | .deliver c' _ => if c' = c then (s.host.pending c).head?.toList else []
  | _ => []

/-! ## Bulletins -/

theorem bulletins_restores {ds : List Datagram} {infos : List EntityInfo}
    (h : ds.map (fun d => (d.origin, messageOfData d.data)) =
      infos.map fun info => (1, .ok (.restore info))) :
    bulletins ds = [] ∧
      ∀ type : PacketType, type.Relayed → ∀ c, payloadsFrom type c ds = [] := by
  have htype : ∀ d ∈ ds, typeOf d.data = .entityCreationOnConnection := by
    intro d hd
    have hmem : (d.origin, messageOfData d.data) ∈
        infos.map fun info => ((1 : ClientID), (.ok (.restore info) : Except Fault Message)) :=
      h ▸ List.mem_map_of_mem hd
    obtain ⟨info, _, hinfo⟩ := List.mem_map.mp hmem
    exact typeOf_eq (Prod.mk.inj hinfo).2.symm rfl
  constructor
  · rw [bulletins, List.filter_eq_nil_iff]
    intro d hd
    simp [Datagram.IsBulletin, htype d hd]
  · intro type hrelayed c
    rw [payloadsFrom, List.filterMap_eq_nil_iff]
    intro d hd
    rcases hrelayed with rfl | rfl <;> simp [payloadOf, htype d hd]

/-- What the transport takes out of the host's outbox. -/
theorem delivered_step {rest : List Datagram} {x : Datagram} {c' : ClientID} {receivedAt : UInt32}
    (hpending : s.host.pending c' = x :: rest) :
    s.delivered c (.deliver c' receivedAt) ++ (s.host.dropNext c').pending c =
      s.host.pending c := by
  rw [pending_dropNext, delivered]
  by_cases heq : c' = c
  · subst heq
    rw [if_pos rfl, if_pos rfl, hpending]
    rfl
  · rw [if_neg heq, if_neg (Ne.symm heq)]
    rfl

theorem remains_connected {e : Event} (hs : s.Obeys Policy.any) (hc : c ∈ s.host.connected)
    (hremains : s.Remains c e) (hstep : s.step e = some s') : c ∈ s'.host.connected := by
  cases step_outcome hs (Policy.any_permits s e) hstep with
  | connect c' sentAt receivedAt hc' hzero hone => exact List.mem_append_left _ hc
  | disconnect c' sentAt receivedAt hc' => exact (List.mem_erase_of_ne (Ne.symm hremains)).mpr hc
  | send c' data hc' => exact hc
  | receive c' receivedAt x rest p hc' hpending hp => exact hc
  | serve stack hooks p rest h hqueue hp hrun hmoves =>
      exact (frame_of_moves hmoves).connected_eq.symm ▸ hc
  | welcome stack hooks p rest h hqueue hp hjoin hsnapshot htold =>
      exact htold.frame.connected_eq.symm ▸ hc
  | deliver c' receivedAt x rest m p hc' hpending hm hhandled => exact hc
  | hostCall stack hooks call h hrun hmoves =>
      exact (frame_of_moves hmoves).connected_eq.symm ▸ hc
  | peerCall c' stack hooks call p hc' hrun hmoves => exact hc

theorem isHost_of_obeys {π : Policy} (hs : s.Obeys π) : IsHost s.host :=
  ⟨hs.role_eq, hs.host.host_id hs.role_eq⟩

/-- **One event** adds the same bulletins for all clients. -/
theorem bulletins_of_step {e : Event} (hs : s.Obeys Policy.any) (hstep : s.step e = some s') :
    ∃ new, ∀ c ∈ s.host.connected, s.Remains c e →
      bulletins (s.delivered c e) ++ bulletins (s'.host.pending c) =
        bulletins (s.host.pending c) ++ new := by
  have hhost := isHost_of_obeys hs
  cases step_outcome hs (Policy.any_permits s e) hstep with
  | connect c' sentAt receivedAt hc' hzero hone =>
      refine ⟨[], fun c hc _ => ?_⟩
      have hne : c ≠ c' := by
        rintro rfl
        exact hc' hc
      have hpending : (s.connect c' sentAt receivedAt).host.pending c = s.host.pending c :=
        (pending_forget s.host c' c).trans (if_neg hne)
      rw [hpending, List.append_nil]
      rfl
  | serve stack hooks p rest h hqueue hp hrun hmoves =>
      obtain ⟨harrived, _⟩ := hs.queue p (by rw [hqueue]; exact List.mem_cons_self)
      have hposts : Posts (fun _ _ => True) s.host h :=
        serverHandler_posts trivial harrived hp hhost hrun
      obtain ⟨new, hnew⟩ := hposts.bulletins_eq hs.host.nodup
      exact ⟨new, fun c hc _ => hnew c hc⟩
  | welcome stack hooks p rest h hqueue hp hjoin hsnapshot htold =>
      refine ⟨[], fun c hc _ => ?_⟩
      rw [List.append_nil]
      by_cases hclient : c = p.info.senderID
      · subst hclient
        obtain ⟨ds, hds, hmap⟩ := htold.posted hc
        change bulletins (h.pending p.info.senderID) = _
        rw [hds, bulletins_append, (bulletins_restores hmap).1, List.append_nil]
      · exact congrArg bulletins (htold.skipped c hc hclient)
  | deliver c' receivedAt x rest m p hc' hpending hm hhandled =>
      refine ⟨[], fun c hc _ => ?_⟩
      rw [← bulletins_append, List.append_nil]
      exact congrArg bulletins (delivered_step hpending)
  | hostCall stack hooks call h hrun hmoves =>
      have hposts := posts_of_moves (gameCall_posts call stack hooks _ _ _ hhost hrun).1
      obtain ⟨new, hnew⟩ := hposts.bulletins_eq hs.host.nodup
      exact ⟨new, fun c hc _ => hnew c hc⟩
  | _ => exact ⟨[], fun c hc _ => (List.append_nil _).symm⟩

/-- **All clients get the same creations and deletions in the same order.**  In every run of a
session there is one list such that every client that is connected and does not leave gets, of
creations and deletions, what was on its way to it before and then that list, except for
what is still on its way to it. -/
theorem bulletins_agree (registry : Registry) (before es : List Event) (s s' : Session)
    (hbefore : Runs.run step (start registry) before = some s)
    (hrun : Runs.run step s es = some s') :
    ∃ log, ∀ c ∈ s.host.connected, Runs.Meets step (Remains c) s es →
      bulletins (Runs.collect step (delivered c) s es) ++ bulletins (s'.host.pending c) =
        bulletins (s.host.pending c) ++ log := by
  have hs : s.Obeys Policy.any := (obeys_of_run (start_obeys registry) hbefore).1
  clear hbefore
  induction es generalizing s with
  | nil =>
      cases hrun
      exact ⟨[], fun c _ _ => (List.append_nil _).symm⟩
  | cons e es ih =>
      obtain ⟨t, hstep, htail⟩ := Runs.run_cons_some hrun
      obtain ⟨new, hnew⟩ := bulletins_of_step hs hstep
      obtain ⟨log, hlog⟩ := ih t htail (obeys_of_step hs hstep).1
      refine ⟨new ++ log, fun c hc hmeets => ?_⟩
      have hstays : c ∈ t.host.connected := remains_connected hs hc hmeets.1 hstep
      calc bulletins (Runs.collect step (delivered c) s (e :: es)) ++ bulletins (s'.host.pending c)
          = bulletins (s.delivered c e) ++ (bulletins (Runs.collect step (delivered c) t es) ++
              bulletins (s'.host.pending c)) := by
            rw [Runs.collect_cons hstep, bulletins_append, List.append_assoc]
        _ = bulletins (s.delivered c e) ++ bulletins (t.host.pending c) ++ log := by
            rw [hlog c hstays (hmeets.2 t hstep), List.append_assoc]
        _ = bulletins (s.host.pending c) ++ (new ++ log) := by
            rw [hnew c hc hmeets.1, List.append_assoc]

/-- Two clients have joined. -/
def twoJoined : List Event :=
  [.connect 2 0 0, .serve 5 .silent, .connect 3 0 0, .serve 5 .silent]

/-- One of them creates an entity and sends an update of it. -/
def ownUpdate : List Event :=
  [.peerCall 2 5 .silent Sample.create, .receive 2 0, .serve 5 .silent, .deliver 2 0, .deliver 3 0,
    .peerCall 2 5 .silent (.setNetworkTickRate 1 1), .peerCall 2 5 .silent .networkTick,
    .receive 2 0, .serve 5 .silent, .deliver 3 0]

theorem bulletins_agree_ownUpdate :
    ∃ s s', Runs.run step (start Sample.registry) twoJoined = some s ∧
      Runs.run step s ownUpdate = some s' ∧
      ∃ log, ∀ c ∈ s.host.connected, Runs.Meets step (Remains c) s ownUpdate →
        bulletins (Runs.collect step (delivered c) s ownUpdate) ++ bulletins (s'.host.pending c) =
          bulletins (s.host.pending c) ++ log := by
  have hrun : ∃ s, Runs.run step (start Sample.registry) twoJoined = some s ∧
      (Runs.run step s ownUpdate).isSome := Runs.exists_of_any (by decide +kernel)
  obtain ⟨s, hs, hsome⟩ := hrun
  obtain ⟨s', hs'⟩ := Option.isSome_iff_exists.mp hsome
  exact ⟨s, s', hs, hs', bulletins_agree Sample.registry twoJoined ownUpdate s s' hs hs'⟩

/-! ## Updates and calls -/

/-- The server, for the packets of this type that go from `c` to `d`. -/
def relay (type : PacketType) (c d : ClientID) :
    Runs.Station Session Event (List Byte) (List Byte) where
  incoming s := payloadsIn type c s.queue ++
    ((s.peer c).pending 1).filterMap fun x => payloadOf type x.data
  outgoing s := payloadsFrom type c (s.host.pending d)
  posted s
    | .send c' data => if c' = c then (payloadOf type data).toList else []
    | .peerCall c' stack hooks call =>
        if c' = c then
          match (s.peer c).after (call.run stack hooks) with
          | none => []
          | some p =>
              ((p.pending 1).drop ((s.peer c).pending 1).length).filterMap fun x =>
                payloadOf type x.data
        else []
    | _ => []
  got s e := payloadsFrom type c (s.delivered d e)

/-- The packets in the server's queue have come from the transport. -/
def Carried (s : Session) : Prop := ∀ p ∈ s.queue, FromWire p

theorem carried_step {e : Event} (hs : s.Obeys Policy.any) (h : s.Carried)
    (hstep : s.step e = some s') : s'.Carried := by
  cases step_outcome hs (Policy.any_permits s e) hstep with
  | connect c' sentAt receivedAt hc' hzero hone =>
      intro p hp
      rcases List.mem_append.mp hp with hp | hp
      · exact h p hp
      · cases List.mem_singleton.mp hp
        exact ⟨Nat.le_of_eq (by simp [onClientConnected, ofHeader]), by
          simp [onClientConnected, ofHeader]⟩
  | disconnect c' sentAt receivedAt hc' =>
      intro p hp
      rcases List.mem_append.mp hp with hp | hp
      · exact h p hp
      · cases List.mem_singleton.mp hp
        exact ⟨Nat.le_of_eq (by simp [onClientDisconnected, ofHeader]), by
          simp [onClientDisconnected, ofHeader]⟩
  | receive c' receivedAt x rest p hc' hpending hp =>
      intro q hq
      rcases List.mem_append.mp hq with hq | hq
      · exact h q hq
      · cases List.mem_singleton.mp hq
        exact (onClientDataReceived_ok hp).1
  | serve stack hooks p rest host hqueue hp hrun hmoves =>
      exact fun q hq => h q (by rw [hqueue]; exact List.mem_cons_of_mem p hq)
  | welcome stack hooks p rest host hqueue hp hjoin hsnapshot htold =>
      exact fun q hq => h q (by rw [hqueue]; exact List.mem_cons_of_mem p hq)
  | _ => exact h

/-- What a client's process posts comes after what it has posted before. -/
theorem pending_of_client_moves {π : Policy} {p p' : Process}
    (h : Relation.ReflTransGen (Move π) p p') (hrole : p.role = .client) :
    ∃ new, p'.pending 1 = p.pending 1 ++ new := by
  induction h with
  | refl => exact ⟨[], (List.append_nil _).symm⟩
  | tail hmoves hlast ih =>
      obtain ⟨new, hnew⟩ := ih
      have hrole' := (frame_of_moves hmoves).role_eq.trans hrole
      rcases hlast.pending_client hrole' with hsame | ⟨x, _, _, _, _, hmore⟩
      · exact ⟨new, hsame.trans hnew⟩
      · exact ⟨new ++ [x], by rw [hmore, hnew, List.append_assoc]⟩

section
variable {type : PacketType}

/-- The queue has lost a packet. -/
theorem payloadsIn_cons (p : Packet) (rest : List Packet) :
    payloadsIn type c (p :: rest) = payloadsIn type c [p] ++ payloadsIn type c rest :=
  payloadsIn_append type c [p] rest

/-- Another client's process does not matter. -/
theorem incoming_of_other {c' : ClientID} {p : Process} (h : c ≠ c') :
    (relay type c d).incoming (s.setPeer c' p) = (relay type c d).incoming s := by
  simp only [relay, setPeer_peer_ne h]
  rfl

/-- The client has posted something. -/
theorem incoming_of_peer {p : Process} {new : List Datagram}
    (h : p.pending 1 = (s.peer c).pending 1 ++ new) :
    (relay type c d).incoming (s.setPeer c p) =
      (relay type c d).incoming s ++ new.filterMap fun x => payloadOf type x.data := by
  simp only [relay, setPeer_peer_self, h, List.filterMap_append, List.append_assoc]
  rfl

/-- What the server makes of a datagram. -/
theorem payloadsIn_received {c' : ClientID} {data : List Byte} {t : UInt32} {p : Packet}
    (h : onClientDataReceived c' data t = .ok p) :
    payloadsIn type c [p] = if c' = c then (payloadOf type data).toList else [] := by
  obtain ⟨_, _, hsender, _⟩ := onClientDataReceived_ok h
  by_cases heq : c' = c
  · subst heq
    by_cases hlen : headerSize ≤ data.length
    · rw [onClientDataReceived, ofData_eq hlen] at h
      cases h
      rw [if_pos rfl, payloadOf, payloadsIn, List.filterMap_cons, List.filterMap_nil]
      by_cases htype : typeOf data = type
      · rw [if_pos htype, if_pos ⟨htype, rfl⟩]
        rfl
      · rw [if_neg htype, if_neg fun hboth => htype hboth.1]
        rfl
    · rw [onClientDataReceived, ofData, if_pos (Nat.not_le.mp hlen)] at h
      cases h
  · rw [payloadsIn, List.filterMap_cons, if_neg fun hboth => heq (hsender.symm.trans hboth.2),
      if_neg heq]
    rfl

/-- A datagram has moved from the transport into the server's queue. -/
theorem incoming_receive {c' : ClientID} {t : UInt32} {x : Datagram} {rest : List Datagram}
    {p : Packet} (hpending : (s.peer c').pending 1 = x :: rest)
    (hp : onClientDataReceived c' x.data t = .ok p) :
    (relay type c d).incoming { s.setPeer c' ((s.peer c').dropNext 1) with
      queue := s.queue ++ [p] } = (relay type c d).incoming s := by
  change payloadsIn type c (s.queue ++ [p]) ++
    (((s.setPeer c' ((s.peer c').dropNext 1)).peer c).pending 1).filterMap (fun x =>
      payloadOf type x.data) = payloadsIn type c s.queue ++
    ((s.peer c).pending 1).filterMap fun x => payloadOf type x.data
  rw [payloadsIn_append, payloadsIn_received hp]
  by_cases heq : c' = c
  · subst heq
    rw [setPeer_peer_self, pending_dropNext, if_pos rfl, if_pos rfl, hpending]
    cases hpayload : payloadOf type x.data <;> simp [hpayload]
  · rw [if_neg heq, setPeer_peer_ne (Ne.symm heq), List.append_nil]

/-- The server has served the packet at the head of its queue. -/
theorem passes_of_served {p : Packet} {rest : List Packet} {h : Process}
    {sent : List (List Byte)} (hqueue : s.queue = p :: rest)
    (hpassed : PassedOn type c d (payloadsIn type c [p]) sent)
    (hsent : payloadsFrom type c (h.pending d) = payloadsFrom type c (s.host.pending d) ++ sent) :
    (relay type c d).Passes (PassedOn type c d) s { s with host := h, queue := rest } [] [] := by
  refine ⟨_, sent, hpassed, ?_, hsent⟩
  simp only [relay, hqueue, List.append_nil]
  rw [payloadsIn_cons, List.append_assoc]

/-- The packet was none of these. -/
theorem passes_of_unrelated {p : Packet} {rest : List Packet} {h : Process}
    (hqueue : s.queue = p :: rest) (hother : ¬ (p.header.type = type ∧ p.info.senderID = c))
    (hsame : payloadsFrom type c (h.pending d) = payloadsFrom type c (s.host.pending d)) :
    (relay type c d).Passes (PassedOn type c d) s { s with host := h, queue := rest } [] [] := by
  have hnone : payloadsIn type c [p] = [] := by
    rw [payloadsIn, List.filterMap_cons, if_neg hother]
    rfl
  have hpassed : PassedOn type c d (payloadsIn type c [p]) [] := by
    rw [hnone]
    exact .nil
  refine passes_of_served hqueue hpassed ?_
  rw [hsame, List.append_nil]

/-- **One event.** -/
theorem passes_of_step {e : Event} (hs : s.Obeys Policy.any) (hcarried : s.Carried)
    (htype : type.Relayed) (hc : c ∈ s.host.connected) (hd : d ∈ s.host.connected)
    (hstep : s.step e = some s') :
    (relay type c d).Passes (PassedOn type c d) s s' ((relay type c d).posted s e)
      ((relay type c d).got s e) := by
  have hhost := isHost_of_obeys hs
  have hone : (1 : ClientID) ≠ c := by
    rintro rfl
    exact hs.host.not_connected hc
  cases step_outcome hs (Policy.any_permits s e) hstep with
  | connect c' sentAt receivedAt hc' hzero hnot =>
      have hnewc : c ≠ c' := by
        rintro rfl
        exact hc' hc
      have hnewd : d ≠ c' := by
        rintro rfl
        exact hc' hd
      have hpending : (s.connect c' sentAt receivedAt).host.pending d = s.host.pending d :=
        (pending_forget s.host c' d).trans (if_neg hnewd)
      have hpeer : (s.connect c' sentAt receivedAt).peer c = s.peer c := by
        simp [connect, hnewc]
      have hqueue : payloadsIn type c (s.connect c' sentAt receivedAt).queue =
          payloadsIn type c s.queue := by
        rw [connect, payloadsIn_append]
        rcases htype with rfl | rfl <;> exact List.append_nil _
      refine .of_still .nil ?_ (congrArg (payloadsFrom type c) hpending)
      change payloadsIn type c (s.connect c' sentAt receivedAt).queue ++ _ = _ ++ []
      rw [hqueue, hpeer, List.append_nil]
      rfl
  | disconnect c' sentAt receivedAt hc' =>
      have hqueue : payloadsIn type c (s.disconnect c' sentAt receivedAt).queue =
          payloadsIn type c s.queue := by
        rw [disconnect, payloadsIn_append]
        rcases htype with rfl | rfl <;> exact List.append_nil _
      refine .of_still .nil ?_ rfl
      change payloadsIn type c (s.disconnect c' sentAt receivedAt).queue ++ _ = _ ++ []
      rw [hqueue, List.append_nil]
      rfl
  | send c' data hc' =>
      refine .of_still .nil ?_ rfl
      by_cases heq : c' = c
      · subst heq
        have hpending : Process.pending { s.peer c' with
            outbox := (s.peer c').outbox ++ [(1, { origin := c', data := data })] } 1 =
            (s.peer c').pending 1 ++ [{ origin := c', data := data }] :=
          pending_post (s.peer c') [1] { origin := c', data := data } 1
        rw [incoming_of_peer hpending]
        cases hpayload : payloadOf type data <;> simp [relay, hpayload]
      · rw [incoming_of_other (Ne.symm heq)]
        simp [relay, heq]
  | receive c' receivedAt x rest p hc' hpending hp =>
      refine .of_still .nil ?_ rfl
      rw [incoming_receive hpending hp]
      exact (List.append_nil _).symm
  | serve stack hooks p rest h hqueue hp hrun hmoves =>
      have hmem : p ∈ s.queue := by
        rw [hqueue]
        exact List.mem_cons_self
      have harrived := (hs.queue p hmem).1
      by_cases hmine : p.header.type = type ∧ p.info.senderID = c
      · obtain ⟨rfl, rfl⟩ := hmine
        obtain ⟨sent, hsent, hpassed⟩ :=
          serverHandler_passedOn (hcarried p hmem) harrived htype hs.host.nodup hd hrun
        refine passes_of_served hqueue ?_ hsent
        rw [payloadsIn, List.filterMap_cons, if_pos ⟨rfl, rfl⟩]
        exact hpassed
      · have hposts : Posts (fun type c => p.header.type = type ∧ p.info.senderID = c) s.host h :=
          serverHandler_posts ⟨rfl, rfl⟩ harrived hp hhost hrun
        exact passes_of_unrelated hqueue hmine (hposts.payloadsFrom_eq htype hmine d)
  | welcome stack hooks p rest h hqueue hp hjoin hsnapshot htold =>
      have hother : ¬ (p.header.type = type ∧ p.info.senderID = c) := by
        rw [hp]
        rcases htype with rfl | rfl <;> simp
      refine passes_of_unrelated hqueue hother ?_
      by_cases hclient : d = p.info.senderID
      · subst hclient
        obtain ⟨ds, hds, hmap⟩ := htold.posted hd
        rw [hds, payloadsFrom_append, (bulletins_restores hmap).2 type htype, List.append_nil]
      · rw [htold.skipped d hd hclient]
  | deliver c' receivedAt x rest m p hc' hpending hm hhandled =>
      have hsame : p.pending 1 = (s.peer c').pending 1 := by
        rw [Process.pending, hhandled.outbox_eq]
        rfl
      refine .of_still .nil ?_ ?_
      · change (relay type c d).incoming (s.setPeer c' p) = (relay type c d).incoming s ++ []
        by_cases heq : c' = c
        · subst heq
          rw [incoming_of_peer (hsame.trans (List.append_nil _).symm)]
          rfl
        · rw [incoming_of_other (Ne.symm heq), List.append_nil]
      · exact (payloadsFrom_append type c _ _).symm.trans
          (congrArg (payloadsFrom type c) (delivered_step hpending))
  | hostCall stack hooks call h hrun hmoves =>
      have hposts := posts_of_moves (gameCall_posts call stack hooks _ _ _ hhost hrun).1
      exact .of_still .nil (List.append_nil _).symm
        (hposts.payloadsFrom_eq htype (fun heq => hone heq.symm) d)
  | peerCall c' stack hooks call p hc' hrun hmoves =>
      refine .of_still .nil ?_ rfl
      by_cases heq : c' = c
      · subst heq
        have hafter : (s.peer c').after (call.run stack hooks) = some p := by
          rw [after, hrun]
        obtain ⟨new, hnew⟩ := pending_of_client_moves hmoves (hs.member c' hc').role_eq
        rw [incoming_of_peer hnew]
        simp [relay, hafter, hnew]
      · rw [incoming_of_other (Ne.symm heq)]
        simp [relay, heq]

end

/-- **A whole run.** -/
theorem passes_of_run {registry : Registry} {before es : List Event} {type : PacketType}
    (hbefore : Runs.run step (start registry) before = some s) (htype : type.Relayed)
    (hc : c ∈ s.host.connected) (hd : d ∈ s.host.connected)
    (hstays : Runs.Meets step (fun t e => t.Remains c e ∧ t.Remains d e) s es)
    (hrun : Runs.run step s es = some s') :
    (relay type c d).Passes (PassedOn type c d) s s'
      (Runs.collect step (relay type c d).posted s es)
      (Runs.collect step (relay type c d).got s es) := by
  have hstart : s.Obeys Policy.any ∧ s.Carried := by
    have hone : ∀ t e t', (t.Obeys Policy.any ∧ t.Carried) → step t e = some t' →
        t'.Obeys Policy.any ∧ t'.Carried := fun t e t' ht hstep =>
      ⟨(obeys_of_step ht.1 hstep).1, carried_step ht.1 ht.2 hstep⟩
    have hempty : (start registry).Carried := fun p hp => absurd hp List.not_mem_nil
    exact Runs.run_invariant hone hbefore ⟨start_obeys registry, hempty⟩
  have hinv : ∀ t e t', (t.Obeys Policy.any ∧ t.Carried) ∧ c ∈ t.host.connected ∧
      d ∈ t.host.connected → t.Remains c e ∧ t.Remains d e → step t e = some t' →
      (t'.Obeys Policy.any ∧ t'.Carried) ∧ c ∈ t'.host.connected ∧ d ∈ t'.host.connected :=
    fun t e t' ht hok hstep =>
      ⟨⟨(obeys_of_step ht.1.1 hstep).1, carried_step ht.1.1 ht.1.2 hstep⟩,
        remains_connected ht.1.1 ht.2.1 hok.1 hstep, remains_connected ht.1.1 ht.2.2 hok.2 hstep⟩
  exact Runs.Station.passes_of_run .nil (fun _ _ _ _ => .append) hinv
    (fun t e t' ht _ hstep => passes_of_step ht.1.1 ht.1.2 htype ht.2.1 ht.2.2 hstep)
    hstays hrun ⟨hstart, hc, hd⟩

/-- What of `c` is on its way to `d`, the oldest first. -/
def relaying (type : PacketType) (c d : ClientID) (s : Session) : List (List Byte) :=
  (relay type c d).outgoing s ++ (relay type c d).incoming s

/-- **Updates are neither lost nor repeated nor reordered on their way through the server.**  In
every run of a session, and for any two clients that are connected and do not leave, what the
one's handler gets of the other's updates, followed by what is still on its way, is what was
on its way before and then what the other has posted. -/
theorem updates_relayed (registry : Registry) (before es : List Event) (s s' : Session)
    (c d : ClientID) (hbefore : Runs.run step (start registry) before = some s)
    (hc : c ∈ s.host.connected) (hd : d ∈ s.host.connected) (hne : d ≠ c)
    (hstays : Runs.Meets step (fun t e => t.Remains c e ∧ t.Remains d e) s es)
    (hrun : Runs.run step s es = some s') :
    Runs.collect step (relay .entityUpdate c d).got s es ++ relaying .entityUpdate c d s' =
      relaying .entityUpdate c d s ++ Runs.collect step (relay .entityUpdate c d).posted s es := by
  obtain ⟨taken, sent, hpassed, hin, hout⟩ :=
    passes_of_run hbefore (Or.inl rfl : PacketType.Relayed .entityUpdate) hc hd hstays hrun
  rw [relaying, relaying, ← List.append_assoc, hout, List.append_assoc, List.append_assoc, hin,
    hpassed.update rfl hne]

theorem updates_relayed_ownUpdate :
    ∃ s s', Runs.run step (start Sample.registry) twoJoined = some s ∧
      Runs.run step s ownUpdate = some s' ∧
      Runs.collect step (relay .entityUpdate 2 3).got s ownUpdate ++
          relaying .entityUpdate 2 3 s' =
        relaying .entityUpdate 2 3 s ++
          Runs.collect step (relay .entityUpdate 2 3).posted s ownUpdate ∧
      (Runs.collect step (relay .entityUpdate 2 3).posted s ownUpdate).length = 1 := by
  have hrun : ∃ s, Runs.run step (start Sample.registry) twoJoined = some s ∧
      (2 ∈ s.host.connected ∧ 3 ∈ s.host.connected) ∧
      Runs.Meets step (fun t e => t.Remains 2 e ∧ t.Remains 3 e) s ownUpdate ∧
      (Runs.run step s ownUpdate).isSome ∧
      (Runs.collect step (relay .entityUpdate 2 3).posted s ownUpdate).length = 1 :=
    Runs.exists_of_any (by decide +kernel)
  obtain ⟨s, hs, hboth, hstays, hsome, hlength⟩ := hrun
  obtain ⟨s', hs'⟩ := Option.isSome_iff_exists.mp hsome
  exact ⟨s, s', hs, hs', updates_relayed Sample.registry twoJoined ownUpdate s s' 2 3 hs hboth.1
    hboth.2 (by decide) hstays hs', hlength⟩

/-- **Calls are neither repeated nor reordered on their way through the server, and never come
back.**  In every run of a session, and for any two clients that are connected and do not leave,
what the one's handler gets of the other's calls, followed by those that the transport has not
delivered yet, is what the transport had before and then a part of what the server has taken out of
its queue, in the same order and with the same payloads.  Nobody is sent its own calls. -/
theorem calls_relayed (registry : Registry) (before es : List Event) (s s' : Session)
    (c d : ClientID) (hbefore : Runs.run step (start registry) before = some s)
    (hc : c ∈ s.host.connected) (hd : d ∈ s.host.connected)
    (hstays : Runs.Meets step (fun t e => t.Remains c e ∧ t.Remains d e) s es)
    (hrun : Runs.run step s es = some s') :
    ∃ taken sent, sent.Sublist taken ∧ (d = c → sent = []) ∧
      (relay .entityRpc c d).incoming s ++
          Runs.collect step (relay .entityRpc c d).posted s es =
        taken ++ (relay .entityRpc c d).incoming s' ∧
      Runs.collect step (relay .entityRpc c d).got s es ++ (relay .entityRpc c d).outgoing s' =
        (relay .entityRpc c d).outgoing s ++ sent := by
  obtain ⟨taken, sent, hpassed, hin, hout⟩ :=
    passes_of_run hbefore (Or.inr rfl : PacketType.Relayed .entityRpc) hc hd hstays hrun
  exact ⟨taken, sent, hpassed.sublist, hpassed.own, hin, hout⟩

/-- A client calls a function of its own entity. -/
def ownCall : List Event :=
  [.peerCall 2 5 .silent Sample.create, .receive 2 0, .serve 5 .silent, .deliver 2 0, .deliver 3 0,
    .peerCall 2 5 .silent
      (.callRPC 1 (Sample.letter 67) [.scalar 4 7] Sample.seven_representable),
    .receive 2 0, .serve 5 .silent, .deliver 3 0]

theorem calls_relayed_ownCall :
    ∃ s s', Runs.run step (start Sample.scene.registry) twoJoined = some s ∧
      Runs.run step s ownCall = some s' ∧
      (Runs.collect step (relay .entityRpc 2 3).got s ownCall).length = 1 ∧
      ∃ taken sent, sent.Sublist taken ∧ ((3 : ClientID) = 2 → sent = []) ∧
        (relay .entityRpc 2 3).incoming s ++
            Runs.collect step (relay .entityRpc 2 3).posted s ownCall =
          taken ++ (relay .entityRpc 2 3).incoming s' ∧
        Runs.collect step (relay .entityRpc 2 3).got s ownCall ++
            (relay .entityRpc 2 3).outgoing s' =
          (relay .entityRpc 2 3).outgoing s ++ sent := by
  have hrun : ∃ s, Runs.run step (start Sample.scene.registry) twoJoined = some s ∧
      (2 ∈ s.host.connected ∧ 3 ∈ s.host.connected) ∧
      Runs.Meets step (fun t e => t.Remains 2 e ∧ t.Remains 3 e) s ownCall ∧
      (Runs.run step s ownCall).isSome ∧
      (Runs.collect step (relay .entityRpc 2 3).got s ownCall).length = 1 :=
    Runs.exists_of_any (by decide +kernel)
  obtain ⟨s, hs, hboth, hstays, hsome, hlength⟩ := hrun
  obtain ⟨s', hs'⟩ := Option.isSome_iff_exists.mp hsome
  exact ⟨s, s', hs, hs', hlength, calls_relayed Sample.scene.registry twoJoined ownCall s s' 2 3 hs
    hboth.1 hboth.2 hstays hs'⟩

end Session

end EnkiNet
