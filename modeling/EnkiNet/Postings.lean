import EnkiNet.Hearing

/-!
# What a listen server posts

Every call of a send function hands one datagram to the transport, for some of the clients.  Who
they are depends on the type of the packet: creations and deletions go to everyone who is
connected, and updates to everyone but their sender.  `Posts speaker s s'` is that all that has
been posted on the way from `s` to `s'` is of this kind, and that the updates and calls among it
are those of clients for which `speaker` holds.

The type is the one in the bytes, and the bytes are the same for all receivers; so this says more
of the receivers than `Broadcast`, which is about what each of them reads.
-/

namespace EnkiNet

open ByteStore Packet

/-- The type in the header of a packet that is on its way. -/
def typeOf (data : List Byte) : PacketType := (PacketHeader.ofBytes data).type

/-- The type of a packet with this message. -/
def Message.type : Message → Option PacketType
  | .creation _ _ => some .entityCreation
  | .restore _ => some .entityCreationOnConnection
  | .update _ => some .entityUpdate
  | .rpc _ => some .entityRpc
  | .deletion _ => some .entityDeletion
  | .other => none

/-- A message that can be read says what type the header has. -/
theorem type_of_messageOf {p : Packet} {m : Message} {type : PacketType}
    (h : messageOf p = .ok m) (hm : m.type = some type) : p.header.type = type := by
  have hrun : ∃ q, readMessage p.header.type p = (.ok m, q) := ⟨_, Prod.ext h rfl⟩
  obtain ⟨q, hrun⟩ := hrun
  cases hcase : p.header.type with
  | entityCreation =>
      rw [hcase, readMessage] at hrun
      obtain ⟨info, _, _, hrun⟩ := Fallible.bind_eq_ok hrun
      obtain ⟨spawnInfo, _, _, hrun⟩ := Fallible.bind_eq_ok hrun
      cases hrun
      exact Option.some.inj hm
  | entityCreationOnConnection | entityUpdate | entityRpc | entityDeletion =>
      rw [hcase, readMessage] at hrun
      obtain ⟨_, _, _, hrun⟩ := Fallible.bind_eq_ok hrun
      cases hrun
      exact Option.some.inj hm
  | _ =>
      rw [hcase] at hrun
      cases hrun
      cases hm

/-- What an update packet says is an update. -/
theorem update_of_messageOf {p : Packet} {m : Message} (htype : p.header.type = .entityUpdate)
    (hm : messageOf p = .ok m) : ∃ info, m = .update info := by
  rw [messageOf, htype, readMessage] at hm
  rcases hinfo : getEntityInfo p with ⟨_ | info, q⟩
  · rw [Fallible.bind_error hinfo] at hm
    cases hm
  · rw [Fallible.bind_ok hinfo] at hm
    exact ⟨info, (Except.ok.inj hm).symm⟩

theorem typeOf_eq {data : List Byte} {m : Message} {type : PacketType}
    (h : messageOfData data = .ok m) (hm : m.type = some type) : typeOf data = type := by
  by_cases hlen : headerSize ≤ data.length
  · rw [messageOfData, ofData_eq hlen] at h
    exact type_of_messageOf (p := received data) h hm
  · rw [messageOfData, ofData, if_pos (Nat.not_le.mp hlen)] at h
    cases h

namespace Process

/-! ## Postings -/

/-- A datagram, and the clients that it has been posted to. -/
structure Posting where
  dests : List ClientID
  datagram : Datagram

namespace Posting

def type (q : Posting) : PacketType := typeOf q.datagram.data

def entries (q : Posting) : List (ClientID × Datagram) := q.dests.map fun c => (c, q.datagram)

/-- The receivers are those that packets of this type have. -/
def Proper (connected : List ClientID) (speaker : PacketType → ClientID → Prop) (q : Posting) :
    Prop :=
  match q.type with
  | .entityCreation | .entityDeletion => q.dests = connected
  | .entityUpdate =>
      speaker .entityUpdate q.datagram.origin ∧
        q.dests = connected.filter fun c => c ≠ q.datagram.origin
  | .entityRpc => speaker .entityRpc q.datagram.origin
  | _ => True

/-- Creations and deletions are addressed to everybody. -/
theorem proper_announcement {connected : List ClientID}
    {speaker : PacketType → ClientID → Prop} {q : Posting}
    (htype : q.type = .entityCreation ∨ q.type = .entityDeletion) (hdests : q.dests = connected) :
    q.Proper connected speaker := by
  rcases htype with htype | htype <;> rw [Proper, htype] <;> exact hdests

end Posting

structure Posts (speaker : PacketType → ClientID → Prop) (s s' : Process) : Prop where
  frame : Frame s s'
  outbox : ∃ qs : List Posting, s'.outbox = s.outbox ++ qs.flatMap Posting.entries ∧
    ∀ q ∈ qs, q.Proper s.connected speaker

variable {speaker : PacketType → ClientID → Prop} {s t s' : Process}

/-- A program that leaves the outbox alone has posted nothing. -/
theorem Posts.of_same (hframe : Frame s s') (houtbox : s'.outbox = s.outbox) : Posts speaker s s' :=
  ⟨hframe, [], by rw [houtbox]; exact (List.append_nil _).symm, by simp⟩

theorem Posts.refl (s : Process) : Posts speaker s s := Posts.of_same (Frame.refl s) rfl

/-- Two lists of postings, one after the other. -/
theorem Posts.trans (h : Posts speaker s t) (h' : Posts speaker t s') : Posts speaker s s' := by
  obtain ⟨qs, hqs, hproper⟩ := h.outbox
  obtain ⟨more, hmore, hproper'⟩ := h'.outbox
  refine ⟨h.frame.trans h'.frame, qs ++ more, ?_, ?_⟩
  · rw [hmore, hqs, List.flatMap_append, List.append_assoc]
  · intro q hq
    rcases List.mem_append.mp hq with hq | hq
    · exact hproper q hq
    · exact h.frame.connected_eq ▸ hproper' q hq

/-- The postings of a run are those of its moves, in order. -/
theorem posts_of_moves (h : Relation.ReflTransGen (Posts speaker) s s') : Posts speaker s s' := by
  induction h with
  | refl => exact Posts.refl _
  | tail _ hlast ih => exact ih.trans hlast

/-- A listen server, whose own client has the id 1. -/
structure IsHost (s : Process) : Prop where
  role_eq : s.role = .host
  id_eq : s.id = 1

/-- The rest of the process stays as it is, its role included. -/
theorem IsHost.of_frame (hs : IsHost s) (h : Frame s s') : IsHost s' :=
  ⟨h.role_eq.trans hs.role_eq, h.id_eq.trans hs.id_eq⟩

theorem IsHost.role_ne (hs : IsHost s) : s.role ≠ .client := by
  rw [hs.role_eq]
  simp

/-- The host is client 1 of its own server. -/
theorem IsHost.ownID_eq (hs : IsHost s) : s.ownID = 1 := by
  rw [ownID, if_neg (by rw [hs.role_eq]; simp), hs.id_eq]

/-- What a host that runs the program posts. -/
abbrev Posting.Program {α : Type} (speaker : PacketType → ClientID → Prop) (x : ProcessM α) :
    Prop :=
  Fallible.Moves IsHost (Posts speaker) x

/-- One move of a host. -/
theorem Posts.single (hs : IsHost s) (h : Posts speaker s s') :
    Relation.ReflTransGen (Posts speaker) s s' ∧ IsHost s' :=
  ⟨.single h, hs.of_frame h.frame⟩

/-- A program that posts nothing. -/
theorem Posting.Program.of_quiet {α : Type} {x : ProcessM α}
    (h : ∀ s a s', x s = (.ok a, s') → Frame s s' ∧ s'.outbox = s.outbox) :
    Posting.Program speaker x :=
  Fallible.Moves.single fun s a s' hs hrun =>
    have hquiet := h s a s' hrun
    ⟨Posts.of_same hquiet.1 hquiet.2, hs.of_frame hquiet.1⟩

/-! ## Send functions -/

/-- The packet has been posted to these clients, or there was nobody to post it to. -/
def PostedTo (origin : ClientID) (dests : List ClientID) (p : Packet) (s s' : Process) : Prop :=
  (s.connected = [] ∧ s'.outbox = s.outbox) ∨
    ∃ data, p.wire = .ok data ∧
      s'.outbox = s.outbox ++ (Posting.mk dests { origin := origin, data := data }).entries

/-- `send_packet_to_all_if` posts one datagram to those for whom the predicate holds. -/
theorem postIf_posts {predicate : ClientID → Bool} {origin : ClientID} {p : Packet}
    (h : postIf predicate origin p s = (.ok (), s')) :
    Frame s s' ∧ PostedTo origin (s.connected.filter predicate) p s s' := by
  rw [postIf, Fallible.bind_get] at h
  split at h
  · next hnone =>
    cases h
    exact ⟨Frame.refl s, Or.inl ⟨hnone, rfl⟩⟩
  · obtain ⟨data, hbytes, h⟩ := bind_wireBytes_ok h
    cases h
    exact ⟨⟨rfl, rfl, rfl, rfl, rfl⟩, Or.inr ⟨data, hbytes, rfl⟩⟩

/-- What the own client makes of a packet is not posted. -/
theorem loopback_posts {origin : ClientID} {p : Packet} (h : loopback origin p s = (.ok (), s')) :
    Frame s s' ∧ s'.outbox = s.outbox := by
  rw [loopback, Fallible.bind_get] at h
  obtain ⟨_, _, hhandled⟩ := clientHandler_ok h
  exact ⟨hhandled.frame, hhandled.outbox_eq⟩

/-- Broadcasting posts to all that are connected, whatever the own client does. -/
theorem sendPacketToAllClients_posts {origin : ClientID} {p : Packet}
    (h : sendPacketToAllClients origin p s = (.ok (), s')) :
    Frame s s' ∧ PostedTo origin s.connected (stamped s.now p) s s' := by
  rw [sendPacketToAllClients, Fallible.bind_get, bind_stamp, recordBroadcast,
    Fallible.bind_modify] at h
  obtain ⟨_, t, hpost, h⟩ := Fallible.bind_eq_ok h
  obtain ⟨hframe, hposted⟩ := postIf_posts hpost
  have hfirst : Frame s t :=
    ⟨hframe.role_eq, hframe.id_eq, hframe.connected_eq, hframe.registry_eq, hframe.ready_eq⟩
  rw [List.filter_true] at hposted
  split at h
  · obtain ⟨hlast, hsame⟩ := loopback_posts h
    exact ⟨hfirst.trans hlast, by rw [PostedTo, hsame]; exact hposted⟩
  · cases h
    exact ⟨hfirst, hposted⟩

/-- Relaying posts to all but one. -/
theorem sendPacketToAllExceptOneClient_posts {origin excluded : ClientID} {p : Packet}
    (h : sendPacketToAllExceptOneClient origin excluded p s = (.ok (), s')) :
    Frame s s' ∧
      PostedTo origin (s.connected.filter fun c => c ≠ excluded) (stamped s.now p) s s' := by
  rw [sendPacketToAllExceptOneClient, Fallible.bind_get, bind_stamp] at h
  obtain ⟨_, t, hpost, h⟩ := Fallible.bind_eq_ok h
  obtain ⟨hfirst, hposted⟩ := postIf_posts hpost
  split at h
  · obtain ⟨hlast, hsame⟩ := loopback_posts h
    exact ⟨hfirst.trans hlast, by rw [PostedTo, hsame]; exact hposted⟩
  · cases h
    exact ⟨hfirst, hposted⟩

/-- A packet for the own client is not posted. -/
theorem sendPacketToOneClient_posts {origin client : ClientID} {p : Packet}
    (h : sendPacketToOneClient origin client p s = (.ok (), s')) :
    Frame s s' ∧ (s'.outbox = s.outbox ∨ PostedTo origin [client] (stamped s.now p) s s') := by
  rw [sendPacketToOneClient, Fallible.bind_get, bind_stamp] at h
  split at h
  · obtain ⟨_, _, hhandled⟩ := clientHandler_ok h
    exact ⟨hhandled.frame, Or.inl hhandled.outbox_eq⟩
  · obtain ⟨data, hbytes, h⟩ := bind_wireBytes_ok h
    cases h
    exact ⟨⟨rfl, rfl, rfl, rfl, rfl⟩, Or.inr (Or.inr ⟨data, hbytes, rfl⟩)⟩

/-! Only a listen server's own client handles what the server sends. -/

/-- The transport does not touch the scenegraph. -/
theorem postIf_scene {predicate : ClientID → Bool} {origin : ClientID} {p : Packet}
    (h : postIf predicate origin p s = (.ok (), s')) : s'.scene = s.scene := by
  rw [postIf, Fallible.bind_get] at h
  split at h
  · cases h
    rfl
  · obtain ⟨data, _, h⟩ := bind_wireBytes_ok h
    cases h
    rfl

/-- Without a client of its own a server applies nothing that it broadcasts. -/
theorem sendPacketToAllClients_scene {origin : ClientID} {p : Packet} (hs : ¬ s.role = .host)
    (h : sendPacketToAllClients origin p s = (.ok (), s')) : s'.scene = s.scene := by
  rw [sendPacketToAllClients, Fallible.bind_get, bind_stamp, recordBroadcast,
    Fallible.bind_modify, if_neg hs] at h
  obtain ⟨_, t, hpost, h⟩ := Fallible.bind_eq_ok h
  cases h
  have hscene := postIf_scene hpost
  exact hscene

theorem sendPacketToAllExceptOneClient_scene {origin excluded : ClientID} {p : Packet}
    (hs : ¬ s.role = .host)
    (h : sendPacketToAllExceptOneClient origin excluded p s = (.ok (), s')) :
    s'.scene = s.scene := by
  rw [sendPacketToAllExceptOneClient, Fallible.bind_get, bind_stamp,
    if_neg fun hboth => hs hboth.1] at h
  obtain ⟨_, t, hpost, h⟩ := Fallible.bind_eq_ok h
  cases h
  exact postIf_scene hpost

theorem sendPacketToOneClient_scene {origin client : ClientID} {p : Packet}
    (hs : ¬ s.role = .host)
    (h : sendPacketToOneClient origin client p s = (.ok (), s')) : s'.scene = s.scene := by
  rw [sendPacketToOneClient, Fallible.bind_get, bind_stamp, if_neg fun hboth => hs hboth.1] at h
  obtain ⟨data, _, h⟩ := bind_wireBytes_ok h
  cases h
  rfl

/-- A packet whose message tells its type. -/
theorem PostedTo.posts {origin : ClientID} {dests : List ClientID} {p : Packet} {m : Message}
    {type : PacketType} {now : UInt32} (h : PostedTo origin dests (stamped now p) s s')
    (hframe : Frame s s') (hp : Says p m) (hm : m.type = some type)
    (hproper : ∀ q : Posting, q.dests = dests → q.datagram.origin = origin → q.type = type →
      q.Proper s.connected speaker) : Posts speaker s s' := by
  rcases h with ⟨_, hsame⟩ | ⟨data, hdata, houtbox⟩
  · exact Posts.of_same hframe hsame
  · refine ⟨hframe, [⟨dests, { origin := origin, data := data }⟩], ?_, ?_⟩
    · rw [houtbox, List.flatMap_cons, List.flatMap_nil, List.append_nil]
    · intro q hq
      cases List.mem_singleton.mp hq
      exact hproper _ rfl rfl (typeOf_eq ((hp now).2 data hdata) hm)

/-- Creations and deletions may be posted by any program, since they go to everybody. -/
theorem announcement_posts {origin : ClientID} {p : Packet} {m : Message} {type : PacketType}
    (hp : Says p m) (hm : m.type = some type)
    (htype : type = .entityCreation ∨ type = .entityDeletion)
    (h : sendPacketToAllClients origin p s = (.ok (), s')) : Posts speaker s s' := by
  obtain ⟨hframe, hposted⟩ := sendPacketToAllClients_posts h
  refine hposted.posts hframe hp hm fun q hdests _ hq => ?_
  exact Posting.proper_announcement (hq ▸ htype) hdests

/-- An update is posted to all but the one that it comes from. -/
theorem update_posts {sender : ClientID} {p : Packet} {info : EntityInfo}
    (hspeaker : speaker .entityUpdate sender) (hp : Says p (.update info))
    (h : sendPacketToAllExceptOneClient sender sender p s = (.ok (), s')) :
    Posts speaker s s' := by
  obtain ⟨hframe, hposted⟩ := sendPacketToAllExceptOneClient_posts h
  refine hposted.posts hframe hp rfl fun q hdests horigin hq => ?_
  rw [Posting.Proper, hq]
  exact ⟨horigin ▸ hspeaker, by rw [hdests, horigin]⟩

/-- A call that the server passes on, to whomever. -/
theorem call_posts {origin : ClientID} {dests : List ClientID} {p : Packet} {info : EntityInfo}
    {now : UInt32} (hspeaker : speaker .entityRpc origin) (hframe : Frame s s')
    (hp : Says p (.rpc info)) (h : PostedTo origin dests (stamped now p) s s') :
    Posts speaker s s' := by
  refine h.posts hframe hp rfl fun q _ horigin hq => ?_
  rw [Posting.Proper, hq]
  exact horigin ▸ hspeaker

/-! ## Operations -/

/-- A request of the host's own is broadcast. -/
theorem sendCreation_posts {info : EntityInfo} {spawnInfo : Packet} (hsound : spawnInfo.Sound) :
    Posting.Program speaker (sendCreation info spawnInfo) := by
  intro s _ s' hs hrun
  obtain ⟨sent, _, _, hcreation⟩ := sendCreation_ok hsound hrun
  cases hcreation with
  | offline hready => exact ⟨.refl, hs⟩
  | request hready hrole hmeans hsend => exact absurd hrole hs.role_ne
  | announce hready hrole hmeans hsend =>
      have hall : Posts speaker _ s' := announcement_posts hmeans rfl (Or.inl rfl) hsend
      have hframe := hall.frame
      refine Posts.single hs ⟨⟨hframe.role_eq, hframe.id_eq, hframe.connected_eq,
        hframe.registry_eq, hframe.ready_eq⟩, hall.outbox⟩

/-- Handing out an id posts nothing. -/
theorem nextID_posts : Posting.Program speaker nextID := by
  refine Posting.Program.of_quiet fun s id s' hrun => ?_
  obtain ⟨_, rfl, rfl⟩ := nextID_ok hrun
  exact ⟨⟨rfl, rfl, rfl, rfl, rfl⟩, rfl⟩

/-- By induction on the depth of the child types. -/
theorem createNetworkedEntity_posts (stack : Nat) {info : EntityInfo} {spawnInfo : Packet}
    (hsound : spawnInfo.Sound) :
    Posting.Program speaker (createNetworkedEntity stack info spawnInfo) := by
  induction stack generalizing info spawnInfo with
  | zero => exact Fallible.Moves.fail _
  | succ stack ih =>
      have hfamily : ∀ info : EntityInfo, Posting.Program speaker
          (createFamily (createNetworkedEntity stack) info spawnInfo) := by
        intro info
        refine Fallible.Moves.get fun s => ?_
        exact Fallible.Moves.bind (Fallible.Moves.forEach fun child _ => ih child.sound)
          (fun _ => sendCreation_posts hsound) s
      rw [createNetworkedEntity]
      refine Fallible.Moves.get fun s => ?_
      refine Fallible.Moves.ite (fun _ => Fallible.Moves.pure ()) (fun _ => ?_) s
      exact Fallible.Moves.ite (fun _ => nextID_posts.bind fun id => hfamily { info with ID := id })
        fun _ => hfamily info

/-- Marking an entity announces its deletion. -/
theorem deleteEntity_posts (id : EntityID) : Posting.Program speaker (deleteEntity id) := by
  intro s _ s' hs hrun
  obtain ⟨ent, _, hdeletion⟩ := deleteEntity_ok hrun
  cases hdeletion with
  | mark hlocal => exact Posts.single hs (Posts.of_same ⟨rfl, rfl, rfl, rfl, rfl⟩ rfl)
  | offline hlocal hready => exact ⟨.refl, hs⟩
  | request hlocal hready hrole hmeans hsend => exact absurd hrole hs.role_ne
  | announce hlocal hready hrole hmeans hsend =>
      exact Posts.single hs (announcement_posts hmeans rfl (Or.inr rfl) hsend)

/-- A change of the scenegraph is no posting. -/
theorem modifyScene_posts {f : Scenegraph → Scenegraph}
    (hregistry : ∀ g, (f g).registry = g.registry)
    (hready : ∀ g, (f g).networkReady = g.networkReady) :
    Posting.Program speaker (modifyScene f) := by
  refine Posting.Program.of_quiet fun s _ s' hrun => ?_
  cases hrun
  exact ⟨⟨rfl, rfl, rfl, hregistry _, hready _⟩, rfl⟩

theorem record_posts (e : Effect) : Posting.Program speaker (record e) := by
  refine Posting.Program.of_quiet fun s _ s' hrun => ?_
  cases hrun
  exact ⟨⟨rfl, rfl, rfl, rfl, rfl⟩, rfl⟩

/-- The loop over the entities that may have lost their parents. -/
theorem orphans_posts (entries : List (EntityID × Entity)) :
    Posting.Program speaker (Fallible.forEach entries fun (_, ent) => do
      let s ← Fallible.get
      if ent.info.parentID = 0 ∨ s.scene.entityExists ent.info.parentID then return ()
      else deleteEntity ent.info.ID) := by
  refine Fallible.Moves.forEach fun entry _ => ?_
  refine Fallible.Moves.get fun t => ?_
  exact Fallible.Moves.ite (fun _ => Fallible.Moves.pure ()) (fun _ => deleteEntity_posts _) t

/-- `Scenegraph::update` posts only deletions of orphans. -/
theorem update_posts_deletions : Posting.Program speaker update := by
  have herase : Posting.Program speaker (modifyScene Scenegraph.eraseFlagged) :=
    modifyScene_posts (fun _ => rfl) fun _ => rfl
  exact Fallible.Moves.get fun s => ((orphans_posts _).bind fun _ => herase) s

/-- Creating an entity posts nothing; announcing it is another call. -/
theorem createEntity_posts (info : EntityInfo) (spawnInfo : Packet) :
    Posting.Program speaker (createEntity info spawnInfo) := by
  refine Posting.Program.of_quiet fun s r s' hrun => ?_
  rcases createEntity_ok hrun with ⟨_, rfl, _⟩ | ⟨ent, _, hcreated⟩
  · exact ⟨Frame.refl _, rfl⟩
  · exact ⟨hcreated.frame, hcreated.outbox_eq⟩

/-- Executing a call posts nothing. -/
theorem receiveRPC_posts (p : Packet) (target : EntityInfo) :
    Posting.Program speaker (receiveRPC p target) := by
  refine Posting.Program.of_quiet fun s _ s' hrun => ?_
  rcases receiveRPC_ok hrun with rfl | ⟨name, arguments, rfl⟩
  · exact ⟨Frame.refl _, rfl⟩
  · exact ⟨⟨rfl, rfl, rfl, rfl, rfl⟩, rfl⟩

/-! ### Requests -/

/-- What the server does with a call: nothing, or it passes the packet on, to the owner of the
entity or to everyone but the sender. -/
structure Passes (p : Packet) (s s' : Process) : Prop where
  frame : Frame s s'
  scene_eq : ¬ s.role = .host → s'.scene = s.scene
  outbox : s'.outbox = s.outbox ∨ ∃ info cursor dests, s.scene.held info.ID = some info ∧
    Says (p.withRead cursor) (.rpc info) ∧
    ((∃ owner, owner ≠ p.info.senderID ∧ dests = [owner]) ∨
      dests = s.connected.filter fun c => c ≠ p.info.senderID) ∧
    PostedTo p.info.senderID dests (stamped s.now (p.withRead cursor)) s s'

/-- A call that has arrived is passed on as it is, or dropped. -/
theorem routeRPC_passes {π : Policy} {p : Packet} (hp : Arrived π p)
    (htype : p.header.type = .entityRpc) (hrun : routeRPC p s = (.ok (), s')) : Passes p s s' := by
  rw [routeRPC] at hrun
  obtain ⟨info, q, hinfo, hrun⟩ := bind_onPacket_ok hrun
  obtain ⟨name, r, hname, hrun⟩ := bind_onPacket_ok hrun
  dsimp only at hrun
  rw [Fallible.bind_get] at hrun
  have hm : messageOf p = .ok (.rpc info) := by
    rw [messageOf, htype, readMessage, Fallible.bind_ok hinfo]
    rfl
  have hboth : (do let i ← getEntityInfo; let n ← getString; pure (i, n) : PacketM _) p =
      (.ok (info, name), r) := by
    rw [Fallible.bind_ok hinfo, Fallible.bind_ok hname]
    rfl
  have hreads : Reads (do let i ← getEntityInfo; let n ← getString; pure (i, n)) :=
    reads_getEntityInfo.bind fun _ => reads_getString.bind fun _ => Reads.pure _
  obtain ⟨hmeans, _⟩ := hp.says_of_reads hreads hboth hm
  obtain ⟨_, cursor, hagain, _, _⟩ := hreads p p ⟨rfl, rfl, rfl⟩
  rw [hboth] at hagain
  cases (Prod.mk.inj hagain).2
  rcases hrpc : s.scene.registry.entityRpcs info.type name with _ | rpc
  · rw [hrpc] at hrun
    cases hrun
  rw [hrpc] at hrun
  rcases hent : s.scene.entities[info.ID]? with _ | ent
  · rw [hent] at hrun
    cases hrun
    exact ⟨Frame.refl s, fun _ => rfl, Or.inl rfl⟩
  rw [hent] at hrun
  dsimp only at hrun
  by_cases heq : info = ent.info
  · rw [if_pos heq] at hrun
    have hheld : s.scene.held info.ID = some info := by
      rw [Scenegraph.held, hent, Option.map_some, heq]
    have hothers (hsend : sendPacketToAllExceptOneClient (p.withRead cursor).info.senderID
        (p.withRead cursor).info.senderID (p.withRead cursor) s = (.ok (), s')) :
        Passes p s s' := by
      obtain ⟨hframe, hposted⟩ := sendPacketToAllExceptOneClient_posts hsend
      exact ⟨hframe, fun hs => sendPacketToAllExceptOneClient_scene hs hsend,
        Or.inr ⟨info, cursor, _, hheld, hmeans, Or.inr rfl, hposted⟩⟩
    cases hcase : rpc.rpctype with
    | onlyLocal =>
        rw [hcase] at hrun
        cases hrun
        exact ⟨Frame.refl s, fun _ => rfl, Or.inl rfl⟩
    | master =>
        rw [hcase] at hrun
        dsimp only at hrun
        split at hrun
        · cases hrun
          exact ⟨Frame.refl s, fun _ => rfl, Or.inl rfl⟩
        · next howner =>
          have hscene := fun hs => sendPacketToOneClient_scene hs hrun
          obtain ⟨hframe, hsame | hposted⟩ := sendPacketToOneClient_posts hrun
          · exact ⟨hframe, hscene, Or.inl hsame⟩
          · exact ⟨hframe, hscene, Or.inr
              ⟨info, cursor, _, hheld, hmeans, Or.inl ⟨info.ownerID, howner, rfl⟩, hposted⟩⟩
    | remote | remoteAndLocal =>
        rw [hcase] at hrun
        dsimp only at hrun
        split at hrun
        · exact hothers hrun
        · cases hrun
          exact ⟨Frame.refl s, fun _ => rfl, Or.inl rfl⟩
    | masterAndRemote | all =>
        rw [hcase] at hrun
        exact hothers hrun
  · rw [if_neg heq] at hrun
    cases hrun
    exact ⟨Frame.refl s, fun _ => rfl, Or.inl rfl⟩

/-- A call is posted to the others in its sender's name. -/
theorem routeRPC_posts {π : Policy} {p : Packet} (hspeaker : speaker .entityRpc p.info.senderID)
    (hp : Arrived π p) (htype : p.header.type = .entityRpc)
    (hrun : routeRPC p s = (.ok (), s')) : Posts speaker s s' := by
  have hpasses := routeRPC_passes hp htype hrun
  rcases hpasses.outbox with hsame | ⟨info, cursor, dests, _, hmeans, _, hposted⟩
  · exact Posts.of_same hpasses.frame hsame
  · exact call_posts hspeaker hpasses.frame hmeans hposted

/-- **What the server posts when it serves a packet**, other than one about a connection. -/
theorem serverHandler_posts {π : Policy} {stack : Nat} {hook : EntityID → List WriteOp} {p : Packet}
    (hspeaker : speaker p.header.type p.info.senderID) (hp : Arrived π p)
    (hconnected : p.header.type ≠ .connected) (hs : IsHost s)
    (hrun : serverHandler stack hook p s = (.ok (), s')) : Posts speaker s s' := by
  cases hcase : p.header.type with
  | entityCreation =>
      simp only [serverHandler, hcase] at hrun
      obtain ⟨info, q, hinfo, hrun⟩ := bind_onPacket_ok hrun
      obtain ⟨spawnInfo, r, hspawn, hrun⟩ := bind_onPacket_ok hrun
      exact posts_of_moves
        (createNetworkedEntity_posts stack (getPacket_sound hspawn) s _ s' hs hrun).1
  | connected => exact absurd hcase hconnected
  | entityUpdate =>
      simp only [serverHandler, hcase] at hrun
      have hread : ∃ m, messageOf p = .ok m := by
        by_cases hone : p.info.senderID = 1
        · exact hp.own hone
        · exact readable_of_relayed hs.role_eq hone hp.unread hrun
      obtain ⟨m, hm⟩ := hread
      obtain ⟨info, rfl⟩ := update_of_messageOf hcase hm
      exact update_posts (hcase ▸ hspeaker) (hp.faithful _ hm) hrun
  | entityRpc =>
      simp only [serverHandler, hcase] at hrun
      exact routeRPC_posts (hcase ▸ hspeaker) hp hcase hrun
  | entityDeletion =>
      simp only [serverHandler, hcase] at hrun
      obtain ⟨id, q, hid, hrun⟩ := bind_onPacket_ok hrun
      dsimp only at hrun
      rw [Fallible.bind_get] at hrun
      have hm : messageOf p = .ok (.deletion (Int32.ofBitVec id)) := by
        rw [messageOf, hcase, readMessage, Fallible.bind_ok hid]
        rfl
      obtain ⟨hmeans, _⟩ := hp.says_of_reads (reads_getScalar 4) hid hm
      rcases hent : s.scene.entities[Int32.ofBitVec id]? with _ | ent
      · rw [hent] at hrun
        cases hrun
        exact Posts.refl _
      rw [hent] at hrun
      dsimp only at hrun
      split at hrun
      · exact announcement_posts hmeans rfl (Or.inr rfl) hrun
      · cases hrun
        exact Posts.refl _
  | _ =>
      simp only [serverHandler, hcase] at hrun
      cases hrun
      exact Posts.refl _

/-- The host's own client. -/
def hostSpeaks (_ : PacketType) (c : ClientID) : Prop := c = 1

/-- It sends a packet that it has written. -/
theorem sendPacket_posts {stack : Nat} {hook : EntityID → List WriteOp} {p q : Packet} {m : Message}
    (hs : IsHost s) (hp : Written p m) (hconnected : p.header.type ≠ .connected)
    (hrun : sendPacket stack hook p s = (.ok q, s')) :
    Posts hostSpeaks s s' ∧ q.header.type = p.header.type := by
  rw [sendPacket, Fallible.bind_get, if_pos hs.role_eq, bind_stamp] at hrun
  obtain ⟨_, t, hserve, hrun⟩ := Fallible.bind_eq_ok hrun
  cases hrun
  refine ⟨?_, rfl⟩
  rw [hs.id_eq] at hserve
  set p' : Packet := { stamped s.now p with info := { senderID := 1, timeReceived := s.now } }
  have harrived : Arrived Policy.any p' :=
    arrived_of_written hp (Policy.any_asks 1 m) s.now s.now
  have hspeaker : hostSpeaks p'.header.type p'.info.senderID := rfl
  exact serverHandler_posts hspeaker harrived hconnected hs hserve

/-! ### Game code -/

section
variable {stack : Nat} {hook : EntityID → List WriteOp}

/-- The updates of the host's own entities. -/
theorem tickEntities_posts (hrep : ∀ id, WriteOp.AllRepresentable (hook id))
    (entries : List (EntityID × Entity)) {p : Packet} (htype : p.header.type = .entityUpdate) :
    Posting.Program hostSpeaks (tickEntities stack hook entries p) := by
  induction entries generalizing p with
  | nil => exact Fallible.Moves.pure ()
  | cons entry rest ih =>
      obtain ⟨id, ent⟩ := entry
      intro s _ s' hs hrun
      rw [tickEntities, Fallible.bind_get] at hrun
      by_cases hnow : s.isDue ent
      · rw [if_pos hnow] at hrun
        obtain ⟨_, w, hinfo, hrun⟩ := bind_onPacket_ok hrun
        obtain ⟨_, w', hscript, hrun⟩ := bind_onPacket_ok hrun
        dsimp only at hrun
        rw [putEntityInfo_clear] at hinfo
        have htype' : (blank p).header.type = .entityUpdate := htype
        have hmirror : Mirrors (putEntityInfo ent.info) (readMessage (blank p).header.type)
            (.update ent.info) := by
          rw [htype']
          exact mirrors_update ent.info
        obtain ⟨hwritten, hheader⟩ := written_entityInfo (hrep id) hmirror (wellWritten_blank p)
          rfl rfl (by simp [blank]) hinfo hscript
        obtain ⟨_, t, hnote, hrun⟩ := Fallible.bind_eq_ok hrun
        have hrecord : Posting.Program hostSpeaks (record (.tick ent.info)) := record_posts _
        obtain ⟨hfirst, ht⟩ := hrecord s _ t hs hnote
        obtain ⟨q, u, hsend, hrun⟩ := Fallible.bind_eq_ok hrun
        have htick : w'.header.type = .entityUpdate := by rw [hheader, htype']
        obtain ⟨hposts, hq⟩ := sendPacket_posts ht hwritten (by rw [htick]; simp) hsend
        obtain ⟨hrest, hend⟩ := ih (hq.trans htick) u _ s' (ht.of_frame hposts.frame) hrun
        exact ⟨(hfirst.tail hposts).trans hrest, hend⟩
      · rw [if_neg hnow] at hrun
        exact ih htype s _ s' hs hrun

/-- A tick of the host posts updates in its own name. -/
theorem networkTick_posts (hrep : ∀ id, WriteOp.AllRepresentable (hook id)) :
    Posting.Program hostSpeaks (networkTick stack hook) := by
  have hcount : Posting.Program hostSpeaks (modifyScene fun g =>
      { g with totalNetworkTicks := g.totalNetworkTicks + 1 }) :=
    modifyScene_posts (fun _ => rfl) fun _ => rfl
  refine hcount.bind fun _ => Fallible.Moves.get fun s => ?_
  exact tickEntities_posts hrep s.scene.entities.toList rfl s

/-- A call of the host's own is posted in its own name. -/
theorem callRPC_posts {target : Entity} {name : StdString} {arguments : List WriteOp}
    (hrep : WriteOp.AllRepresentable arguments) :
    Posting.Program hostSpeaks (callRPC stack hook target name arguments) := by
  intro s _ s' hs hrun
  rw [callRPC, Fallible.bind_get, if_neg (by rw [hs.role_eq]; simp)] at hrun
  rcases hrpc : s.scene.registry.entityRpcs target.info.type name with _ | rpc
  · rw [hrpc] at hrun
    cases hrun
    exact ⟨.refl, hs⟩
  rw [hrpc] at hrun
  dsimp only at hrun
  obtain ⟨_, u, hinfo, hrun⟩ := bind_onPacket_ok hrun
  obtain ⟨_, v, hname, hrun⟩ := bind_onPacket_ok hrun
  obtain ⟨_, w, hargs, hrun⟩ := bind_onPacket_ok hrun
  dsimp only at hname hargs hrun
  have hscript : WriteOp.performAll (.string name :: arguments) u = (.ok (), w) := by
    rw [WriteOp.performAll, WriteOp.perform, Fallible.bind_ok hname, hargs]
  have hrep' : WriteOp.AllRepresentable (.string name :: arguments) := ⟨trivial, hrep⟩
  obtain ⟨hwritten, hheader⟩ := written_entityInfo hrep' (mirrors_rpc target.info)
    (wellWritten_ofHeader { type := .entityRpc }) rfl rfl (by simp [ofHeader]) hinfo hscript
  have hlast : ∀ q : Packet, Posting.Program hostSpeaks
      (if (RPCInfo rpc.rpctype (s.isOwner target)).1 then receiveRPC q target.info
        else pure () : ProcessM Unit) := fun q =>
    Fallible.Moves.ite (fun _ => receiveRPC_posts q target.info) fun _ => Fallible.Moves.pure ()
  split at hrun
  · obtain ⟨q, t, hsend, hrun⟩ := Fallible.bind_eq_ok hrun
    have hposts := (sendPacket_posts hs hwritten (by rw [hheader]; simp [ofHeader]) hsend).1
    obtain ⟨hmore, hend⟩ := hlast q t _ s' (hs.of_frame hposts.frame) hrun
    exact ⟨hmore.head hposts, hend⟩
  · exact hlast w s _ s' hs hrun

end

/-- **What game code in the host's process posts.** -/
theorem gameCall_posts (call : GameCall) (stack : Nat) (hooks : Hooks) :
    Posting.Program hostSpeaks (call.run stack hooks) := by
  cases call with
  | createEntity info fresh spawnInfo =>
      exact (createEntity_posts info spawnInfo).bind fun _ => Fallible.Moves.pure ()
  | createNetworkedEntity info spawnInfo sound => exact createNetworkedEntity_posts stack sound
  | deleteEntity id => exact deleteEntity_posts id
  | update => exact update_posts_deletions
  | networkTick => exact networkTick_posts hooks.representable
  | callRPC id name arguments representable =>
      intro s _ s' hs hrun
      rw [GameCall.run, Fallible.bind_get] at hrun
      cases htarget : s.scene.entities[id]? with
      | none =>
          rw [htarget] at hrun
          cases hrun
          exact ⟨.refl, hs⟩
      | some target =>
          rw [htarget] at hrun
          exact callRPC_posts representable s _ s' hs hrun
  | setNetworkTickRate id rate =>
      rw [GameCall.run]
      exact modifyScene_posts (fun _ => rfl) fun _ => rfl
  | elapse now =>
      refine Posting.Program.of_quiet fun s _ s' hrun => ?_
      cases hrun
      exact ⟨⟨rfl, rfl, rfl, rfl, rfl⟩, rfl⟩

end Process

end EnkiNet
