import EnkiNet.Relays

/-!
# Sessions with a dedicated server

A `ServerStandard` has no client of its own, so what it sends to all clients does not come back to
its own scenegraph.  A networked entity is there only if the server's game code has given one its ID
and called `createEntity`.  As long as it does not, all that the handler does for networked entities
after a look into its table never happens:

* `posts_spare`: nothing that such a server sends restores, deletes or calls a networked entity;
* `entities_remain`: no networked entity of a client is deleted while the client is connected,
  unless something there sets its `remove`.

Clients may send whatever they like, and create entities of any ID.
-/

namespace EnkiNet

open ByteStore Packet Process

/-- The message does not restore, delete or call a networked entity. -/
def Message.Spares : Message → Prop
  | .restore info | .rpc info => info.ID < 0
  | .deletion deleted => deleted < 0
  | _ => True

def Datagram.Spares (d : Datagram) : Prop := ∀ m, messageOfData d.data = .ok m → m.Spares

/-- A message that spares networked entities takes none away. -/
theorem Message.Spares.onLive_isSome {m : Message} (h : m.Spares) (r : Registry)
    {live : EntityID → Option EntityInfo} {id : EntityID} (hid : 0 < id)
    (hlive : (live id).isSome) : (m.onLive r live id).isSome := by
  have hne : m ≠ .deletion id := by
    rintro rfl
    exact Int32.lt_irrefl (Int32.lt_trans hid h)
  rw [onLive, if_neg hne, onHeld]
  split
  · split
    · rfl
    · exact hlive
  · exact hlive

namespace Process

/-! ## The server's process -/

/-- A dedicated server with no networked entity. -/
structure IsDedicated (s : Process) : Prop where
  role_eq : s.role = .server
  kept : Kept s.scene
  bare : ∀ id, 0 < id → s.scene.held id = none

/-- All that has been posted spares networked entities. -/
structure Tells (s s' : Process) : Prop where
  frame : Frame s s'
  outbox : ∃ new, s'.outbox = s.outbox ++ new ∧ ∀ e ∈ new, e.2.Spares

variable {s t s' : Process}

/-- A program that posts nothing tells nobody anything. -/
theorem Tells.of_same (hframe : Frame s s') (houtbox : s'.outbox = s.outbox) : Tells s s' :=
  ⟨hframe, [], by rw [houtbox, List.append_nil], by simp⟩

/-- What is told adds up. -/
theorem Tells.trans (h : Tells s t) (h' : Tells t s') : Tells s s' := by
  obtain ⟨new, hnew, hspares⟩ := h.outbox
  obtain ⟨more, hmore, hspares'⟩ := h'.outbox
  refine ⟨h.frame.trans h'.frame, new ++ more, ?_, fun e he => ?_⟩
  · rw [hmore, hnew, List.append_assoc]
  · exact (List.mem_append.mp he).elim (hspares e) (hspares' e)

/-- What is told in a run is told by its moves. -/
theorem tells_of_moves (h : Relation.ReflTransGen Tells s s') : Tells s s' := by
  induction h with
  | refl => exact .of_same (Frame.refl s) rfl
  | tail _ hlast ih => exact ih.trans hlast

/-- What a dedicated server that runs the program posts. -/
abbrev Telling {α : Type} (x : ProcessM α) : Prop := Fallible.Moves IsDedicated Tells x

/-- A dedicated server has local entities only. -/
theorem IsDedicated.neg_of_stored (hs : IsDedicated s) {id : EntityID} {ent : Entity}
    (hent : s.scene.entities[id]? = some ent) : ent.info.ID < 0 ∧ id < 0 := by
  obtain ⟨hID, hne, _⟩ := hs.kept.stored id ent hent
  have hneg : id < 0 := by
    by_contra hnot
    have hpos : 0 < id := Int32.lt_of_le_of_ne (Int32.not_lt.mp hnot) (Ne.symm hne)
    have hnone := hs.bare id hpos
    rw [Scenegraph.held, hent] at hnone
    cases hnone
  exact ⟨hID ▸ hneg, hneg⟩

/-- Without a change of the scenegraph the server stays dedicated. -/
theorem IsDedicated.of_frame (hs : IsDedicated s) (h : Frame s s')
    (hscene : s'.scene = s.scene) : IsDedicated s' :=
  ⟨h.role_eq.trans hs.role_eq, hscene ▸ hs.kept, hscene ▸ hs.bare⟩

/-- A quiet step tells nobody anything. -/
theorem IsDedicated.of_quiet {π : Policy} (hs : IsDedicated s) (h : Quiet π s s') :
    Tells s s' ∧ IsDedicated s' := by
  refine ⟨.of_same h.frame h.outbox_eq, h.frame.role_eq.trans hs.role_eq, h.kept hs.kept, ?_⟩
  intro id hid
  rcases h.held_eq hs.kept id hid with heq | hnone
  · rw [heq, hs.bare id hid]
  · exact hnone

/-! ### Send functions -/

/-- A packet that spares networked entities may be posted. -/
theorem PostedTo.tells {origin : ClientID} {dests : List ClientID} {p : Packet}
    (h : PostedTo origin dests p s s') (hframe : Frame s s')
    (hspares : ∀ data, p.wire = .ok data → Datagram.Spares { origin := origin, data := data }) :
    Tells s s' := by
  rcases h with ⟨_, hsame⟩ | ⟨data, hdata, houtbox⟩
  · exact .of_same hframe hsame
  · refine ⟨hframe, _, houtbox, fun e he => ?_⟩
    obtain ⟨c, _, rfl⟩ := List.mem_map.mp he
    exact hspares data hdata

/-- A packet that has a message. -/
theorem spares_of_says {p : Packet} {m : Message} (hp : Says p m) (hm : m.Spares) (now : UInt32)
    (origin : ClientID) {data : List Byte} (hdata : (stamped now p).wire = .ok data) :
    Datagram.Spares { origin := origin, data := data } := by
  intro m' hm'
  have hsame : (.ok m : Except Fault Message) = .ok m' := ((hp now).2 data hdata).symm.trans hm'
  cases hsame
  exact hm

/-- A dedicated server has no client of its own. -/
theorem IsDedicated.ne_host (hs : IsDedicated s) : ¬ s.role = .host := by
  rw [hs.role_eq]
  simp

/-- **An announcement of a dedicated server.** -/
theorem announcement_tells {origin : ClientID} {p : Packet} {m : Message} (hs : IsDedicated s)
    (hp : Says p m) (hm : m.Spares) (h : sendPacketToAllClients origin p s = (.ok (), s')) :
    Tells s s' ∧ IsDedicated s' := by
  obtain ⟨hframe, hposted⟩ := sendPacketToAllClients_posts h
  exact ⟨hposted.tells hframe fun data hdata => spares_of_says hp hm s.now origin hdata,
    hs.of_frame hframe (sendPacketToAllClients_scene hs.ne_host h)⟩

/-! ### Operations -/

/-- A creation deletes nothing. -/
theorem sendCreation_tells {info : EntityInfo} {spawnInfo : Packet} (hsound : spawnInfo.Sound) :
    Telling (sendCreation info spawnInfo) := by
  intro s _ s' hs hrun
  obtain ⟨sent, _, _, hcreation⟩ := sendCreation_ok hsound hrun
  cases hcreation with
  | offline hready => exact ⟨.refl, hs⟩
  | request hready hrole hmeans hsend =>
      rw [hs.role_eq] at hrole
      cases hrole
  | announce hready hrole hmeans hsend =>
      have hnoted : IsDedicated { s with
          effects := s.effects ++ [.announce sent (s.scene.held sent.ID)] } :=
        ⟨hs.role_eq, hs.kept, hs.bare⟩
      obtain ⟨htells, hend⟩ := announcement_tells hnoted hmeans trivial hsend
      have hframe := htells.frame
      exact ⟨.single ⟨⟨hframe.role_eq, hframe.id_eq, hframe.connected_eq, hframe.registry_eq,
        hframe.ready_eq⟩, htells.outbox⟩, hend⟩

theorem nextID_tells : Telling nextID := by
  refine Fallible.Moves.single fun s id s' hs hrun => ?_
  obtain ⟨hmax, rfl, rfl⟩ := nextID_ok hrun
  exact ⟨.of_same ⟨rfl, rfl, rfl, rfl, rfl⟩ rfl, hs.role_eq,
    ⟨hs.kept.localID_neg, Int32.lt_trans hs.kept.ID_pos (lt_add_one hmax), hs.kept.stored⟩, hs.bare⟩

/-- By induction on the depth of the child types. -/
theorem createNetworkedEntity_tells (stack : Nat) {info : EntityInfo} {spawnInfo : Packet}
    (hsound : spawnInfo.Sound) : Telling (createNetworkedEntity stack info spawnInfo) := by
  induction stack generalizing info spawnInfo with
  | zero => exact Fallible.Moves.fail _
  | succ stack ih =>
      have hfamily : ∀ info : EntityInfo,
          Telling (createFamily (createNetworkedEntity stack) info spawnInfo) := by
        intro info
        refine Fallible.Moves.get fun s => ?_
        exact Fallible.Moves.bind (Fallible.Moves.forEach fun child _ => ih child.sound)
          (fun _ => sendCreation_tells hsound) s
      rw [createNetworkedEntity]
      refine Fallible.Moves.get fun s => ?_
      refine Fallible.Moves.ite (fun _ => Fallible.Moves.pure ()) (fun _ => ?_) s
      exact Fallible.Moves.ite (fun _ => nextID_tells.bind fun id => hfamily { info with ID := id })
        fun _ => hfamily info

/-- What there is to delete is local. -/
theorem deleteEntity_tells (id : EntityID) : Telling (deleteEntity id) := by
  intro s _ s' hs hrun
  obtain ⟨ent, hent, hdeletion⟩ := deleteEntity_ok hrun
  obtain ⟨hlocal, hneg⟩ := hs.neg_of_stored hent
  cases hdeletion with
  | mark _ =>
      obtain ⟨htells, hend⟩ := hs.of_quiet (quiet_flag (π := Policy.any) id fun _ => hneg)
      exact ⟨.single htells, hend⟩
  | offline hnot => exact absurd hlocal hnot
  | request hnot => exact absurd hlocal hnot
  | announce hnot => exact absurd hlocal hnot

/-- `Scenegraph::update` announces deletions of local entities at most. -/
theorem update_tells : Telling update := by
  refine Fallible.Moves.get fun s => ?_
  refine Fallible.Moves.bind (Fallible.Moves.forEach fun entry _ => ?_) (fun _ => ?_) s
  · refine Fallible.Moves.get fun t => ?_
    exact Fallible.Moves.ite (fun _ => Fallible.Moves.pure ()) (fun _ => deleteEntity_tells _) t
  · refine Fallible.Moves.single fun t _ t' ht hrun => ?_
    cases hrun
    exact ht.of_quiet (quiet_eraseFlagged (π := Policy.any) t)

/-- Local entities are numbered downwards from -1. -/
theorem createEntity_tells {info : EntityInfo} (fresh : info.ID = 0) (spawnInfo : Packet) :
    Telling (createEntity info spawnInfo) := by
  refine Fallible.Moves.single fun s r s' hs hrun => ?_
  rcases createEntity_ok hrun with ⟨_, rfl, _⟩ | ⟨ent, _, hcreated⟩
  · exact ⟨.of_same (Frame.refl _) rfl, hs⟩
  refine ⟨.of_same hcreated.frame hcreated.outbox_eq, hcreated.frame.role_eq.trans hs.role_eq,
    hcreated.kept hs.kept, fun id hid => ?_⟩
  have hother : ent.info.ID ≠ id := by
    rw [hcreated.info_eq]
    simp only [fresh, if_true]
    exact Int32.ne_of_lt (Int32.lt_trans hs.kept.localID_neg hid)
  rw [Scenegraph.held, hcreated.entities_eq, if_neg hother]
  exact hs.bare id hid

/-- **What game code in the server's process posts**; nobody has connected to its network tick. -/
theorem gameCall_tells (call : GameCall) (stack : Nat) (hooks : Hooks)
    (hcall : call ≠ .networkTick) : Telling (call.run stack hooks) := by
  cases call with
  | createEntity info fresh spawnInfo =>
      exact (createEntity_tells fresh spawnInfo).bind fun _ => Fallible.Moves.pure ()
  | createNetworkedEntity info spawnInfo sound => exact createNetworkedEntity_tells stack sound
  | deleteEntity id => exact deleteEntity_tells id
  | update => exact update_tells
  | networkTick => exact absurd rfl hcall
  | callRPC id name arguments representable =>
      refine Fallible.Moves.get fun s _ s' hs hrun => ?_
      have hsame : s' = s := by
        cases htarget : s.scene.entities[id]? with
        | none =>
            rw [htarget] at hrun
            cases hrun
            rfl
        | some target =>
            rw [htarget] at hrun
            dsimp only at hrun
            rw [callRPC, Fallible.bind_get, if_pos hs.role_eq] at hrun
            cases hrun
            rfl
      rw [hsame]
      exact ⟨.refl, hs⟩
  | setNetworkTickRate id rate =>
      refine Fallible.Moves.single fun s _ s' hs hrun => ?_
      cases hrun
      exact hs.of_quiet (Session.quiet_rate (π := Policy.any) s id rate)
  | elapse now =>
      refine Fallible.Moves.single fun s _ s' hs hrun => ?_
      cases hrun
      exact hs.of_quiet (quiet_elapse (π := Policy.any) s now)

/-! ### Requests -/

/-- A call of an entity that is stored here is one of a local entity. -/
theorem routeRPC_tells {p : Packet} (hp : Arrived Policy.any p) (htype : p.header.type = .entityRpc)
    (hs : IsDedicated s) (hrun : routeRPC p s = (.ok (), s')) : Tells s s' ∧ IsDedicated s' := by
  obtain ⟨hframe, hscene, houtbox⟩ := routeRPC_passes hp htype hrun
  refine ⟨?_, hs.of_frame hframe (hscene hs.ne_host)⟩
  rcases houtbox with hsame | ⟨info, cursor, dests, hheld, hmeans, _, hposted⟩
  · exact .of_same hframe hsame
  · obtain ⟨ent, hent, _⟩ := Option.map_eq_some_iff.mp hheld
    have hlocal : Message.Spares (.rpc info) := (hs.neg_of_stored hent).2
    exact hposted.tells hframe fun data hdata => spares_of_says hmeans hlocal s.now _ hdata

/-- An update is passed on as it is, even if it cannot be read. -/
theorem update_tells_others {p : Packet} (hwire : FromWire p)
    (hread : p.readCursor = ⟨headerSize, 8⟩) (htype : p.header.type = .entityUpdate)
    (hs : IsDedicated s)
    (hrun : sendPacketToAllExceptOneClient p.info.senderID p.info.senderID p s = (.ok (), s')) :
    Tells s s' ∧ IsDedicated s' := by
  obtain ⟨hframe, hposted⟩ := sendPacketToAllExceptOneClient_posts hrun
  refine ⟨hposted.tells hframe fun data hdata m hm => ?_,
    hs.of_frame hframe (sendPacketToAllExceptOneClient_scene hs.ne_host hrun)⟩
  have hsame : messageOfData data = messageOf p := by
    have hbytes := messageOfData_wire hwire hdata
    rw [← resetReadPosition_of_unread hread, ← messageOf_stamped s.now p]
    exact hbytes
  obtain ⟨info, rfl⟩ := update_of_messageOf htype (hsame ▸ hm)
  trivial

/-- A client that has connected is told of the local entities. -/
theorem sendAll_tells {hook : EntityID → List WriteOp}
    (hrep : ∀ id, WriteOp.AllRepresentable (hook id)) (client : ClientID) :
    Telling (sendAllNetworkedEntitiesToClient hook client) := by
  refine Fallible.Moves.get fun s _ s' hs hrun => ?_
  split at hrun
  · have hentries : ∀ entry ∈ s.scene.entities.toList.reverse, entry.2.info.ID < 0 := by
      intro entry hentry
      have hstored := Std.TreeMap.mem_toList_iff_getElem?_eq_some.mp (List.mem_reverse.mp hentry)
      exact (hs.neg_of_stored hstored).1
    generalize s.ownID = own at hrun
    refine Fallible.Moves.forEach (fun entry hentry => ?_) s _ s' hs hrun
    intro t _ t' ht hone
    obtain ⟨_, w, hinfo, hone⟩ := bind_onPacket_ok hone
    obtain ⟨_, w', hscript, hone⟩ := bind_onPacket_ok hone
    dsimp only at hone
    rw [record, Fallible.bind_modify] at hone
    obtain ⟨hwritten, _⟩ := written_entityInfo (hrep entry.1) (mirrors_restore entry.2.info)
      (wellWritten_ofHeader { type := .entityCreationOnConnection }) rfl rfl (by simp [ofHeader])
      hinfo hscript
    obtain ⟨hframe, hposted⟩ := sendPacketToOneClient_posts hone
    have hscene := sendPacketToOneClient_scene (by exact ht.ne_host) hone
    have hframe' : Frame t t' :=
      ⟨hframe.role_eq, hframe.id_eq, hframe.connected_eq, hframe.registry_eq, hframe.ready_eq⟩
    have hspares : Message.Spares (.restore entry.2.info) := hentries entry hentry
    refine ⟨.single ?_, ht.of_frame hframe' hscene⟩
    rcases hposted with hsame | hposted
    · exact .of_same hframe' hsame
    · have htells := hposted.tells hframe fun data hdata =>
        spares_of_says hwritten.means hspares t.now _ hdata
      exact ⟨hframe', htells.outbox⟩
  · cases hrun
    exact ⟨.refl, hs⟩

/-- A packet in the server's queue has come from the transport, and not from a client of its own. -/
structure Queued (p : Packet) : Prop where
  wire : FromWire p
  unread : p.readCursor = ⟨headerSize, 8⟩
  sender : p.info.senderID ≠ 1

/-- A packet in the server's queue has come over the wire. -/
theorem Queued.arrived {p : Packet} (hp : Queued p) : Arrived Policy.any p :=
  (Session.arrived_of_fromWire hp.wire hp.unread hp.sender fun m _ => Policy.any_asks _ m).1

/-- **What a dedicated server posts when it serves a packet.** -/
theorem serverHandler_tells {stack : Nat} {hook : EntityID → List WriteOp} {p : Packet}
    (hrep : ∀ id, WriteOp.AllRepresentable (hook id)) (hp : Queued p) (hs : IsDedicated s)
    (hrun : serverHandler stack hook p s = (.ok (), s')) : Tells s s' ∧ IsDedicated s' := by
  have hsame : Tells s s ∧ IsDedicated s := ⟨.of_same (Frame.refl s) rfl, hs⟩
  cases hcase : p.header.type with
  | entityCreation =>
      simp only [serverHandler, hcase] at hrun
      obtain ⟨info, q, hinfo, hrun⟩ := bind_onPacket_ok hrun
      obtain ⟨spawnInfo, r, hspawn, hrun⟩ := bind_onPacket_ok hrun
      exact (createNetworkedEntity_tells stack (getPacket_sound hspawn) s _ s' hs hrun).imp_left
        tells_of_moves
  | connected =>
      simp only [serverHandler, hcase] at hrun
      exact (sendAll_tells hrep p.info.senderID s _ s' hs hrun).imp_left tells_of_moves
  | entityUpdate =>
      simp only [serverHandler, hcase] at hrun
      exact update_tells_others hp.wire hp.unread hcase hs hrun
  | entityRpc =>
      simp only [serverHandler, hcase] at hrun
      exact routeRPC_tells hp.arrived hcase hs hrun
  | entityDeletion =>
      simp only [serverHandler, hcase] at hrun
      obtain ⟨id, q, hid, hrun⟩ := bind_onPacket_ok hrun
      dsimp only at hrun
      rw [Fallible.bind_get] at hrun
      have hm : messageOf p = .ok (.deletion (Int32.ofBitVec id)) := by
        rw [messageOf, hcase, readMessage, Fallible.bind_ok hid]
        rfl
      obtain ⟨hmeans, _⟩ := hp.arrived.says_of_reads (reads_getScalar 4) hid hm
      rcases hent : s.scene.entities[Int32.ofBitVec id]? with _ | ent
      · rw [hent] at hrun
        cases hrun
        exact hsame
      rw [hent] at hrun
      dsimp only at hrun
      split at hrun
      · exact announcement_tells hs hmeans (hs.neg_of_stored hent).2 hrun
      · cases hrun
        exact hsame
  | _ =>
      simp only [serverHandler, hcase] at hrun
      cases hrun
      exact hsame

end Process

/-! ## Entities of the game's own -/

/-- What game code does to its scenegraph without the network. -/
inductive EntityAct
  /-- `createEntity`, with an ID that game code may have chosen. -/
  | createEntity (info : EntityInfo) (spawnInfo : Packet)
  /-- `remove` is a public member of an entity. -/
  | remove (id : EntityID)
  deriving DecidableEq

def EntityAct.run : EntityAct → ProcessM Unit
  | .createEntity info spawnInfo => do
      let _ ← Process.createEntity info spawnInfo
  | .remove removed => Process.modifyScene fun g => g.flag removed

/-- No networked entity is created. -/
def EntityAct.Local (registry : Registry) : EntityAct → Prop
  | .createEntity info _ => Creatable registry info → ¬ 0 < info.ID
  | .remove _ => True

instance (registry : Registry) : (act : EntityAct) → Decidable (act.Local registry)
  | .createEntity info _ => inferInstanceAs (Decidable (Creatable registry info → ¬ 0 < info.ID))
  | .remove _ => .isTrue trivial

namespace Process

variable {s s' : Process}

/-- What an act leaves. -/
structure Acted (act : EntityAct) (s s' : Process) : Prop where
  frame : Frame s s'
  outbox_eq : s'.outbox = s.outbox
  kept : Kept s.scene → Kept s'.scene
  bare : Kept s.scene → (∀ id, 0 < id → s.scene.held id = none) →
    ((∀ id, 0 < id → s'.scene.held id = none) ↔ act.Local s.scene.registry)
  live : ∀ id, act ≠ .remove id → (s.scene.live id).isSome → (s'.scene.live id).isSome

/-- Game code has created an entity, under its own id or a local one. -/
theorem acted_createEntity {info : EntityInfo} {spawnInfo : Packet} {r : Option Entity}
    (h : createEntity info spawnInfo s = (.ok r, s')) :
    Acted (.createEntity info spawnInfo) s s' := by
  rcases createEntity_ok h with ⟨_, rfl, hnot⟩ | ⟨ent, _, hcreated⟩
  · exact ⟨Frame.refl _, rfl, fun hs => hs,
      fun _ hbare => iff_of_true hbare fun hcreatable => absurd hcreatable hnot,
      fun _ _ hlive => hlive⟩
  refine ⟨hcreated.frame, hcreated.outbox_eq, hcreated.kept,
    fun hs hbare => ⟨fun hafter _ hpos => ?_, fun hlocal id hid => ?_⟩, fun id _ hlive => ?_⟩
  · have hID : ent.info.ID = info.ID := by
      rw [hcreated.info_eq]
      exact if_neg (Ne.symm (Int32.ne_of_lt hpos))
    have hnone := hafter info.ID hpos
    rw [Scenegraph.held, hcreated.entities_eq, if_pos hID] at hnone
    cases hnone
  · have hother : ent.info.ID ≠ id := by
      rintro rfl
      rw [hcreated.info_eq] at hid
      dsimp only at hid
      split at hid
      · exact Int32.lt_irrefl (Int32.lt_trans hid hs.localID_neg)
      · exact hlocal hcreated.creatable hid
    rw [Scenegraph.held, hcreated.entities_eq, if_neg hother]
    exact hbare id hid
  · rw [Scenegraph.live, hcreated.entities_eq]
    split
    · simp [hcreated.unmarked]
    · exact hlive

/-- Game code has set the flag of an entity. -/
theorem acted_remove (id : EntityID) :
    Acted (.remove id) s { s with scene := s.scene.flag id } where
  frame := ⟨rfl, rfl, rfl, rfl, rfl⟩
  outbox_eq := rfl
  kept hs := by
    refine ⟨hs.localID_neg, hs.ID_pos, fun k ent hent => ?_⟩
    have hheld : (s.scene.flag id).held k = some ent.info := by
      rw [Scenegraph.held, hent]
      rfl
    rw [Scenegraph.held_flag] at hheld
    exact hs.of_held hheld
  bare _ hbare := iff_of_true (fun k hk => by rw [Scenegraph.held_flag, hbare k hk]) trivial
  live k hk hlive := by
    have hne : id ≠ k := by
      rintro rfl
      exact hk rfl
    rw [Scenegraph.live_flag, if_neg hne]
    exact hlive

/-- What game code did with an entity. -/
theorem acted_run {act : EntityAct} (h : act.run s = (.ok (), s')) : Acted act s s' := by
  cases act with
  | createEntity info spawnInfo =>
      rw [EntityAct.run] at h
      obtain ⟨r, t, hcreate, hrest⟩ := Fallible.bind_eq_ok h
      cases hrest
      exact acted_createEntity hcreate
  | remove removed =>
      cases h
      exact acted_remove removed

end Process

/-! ## Runs -/

namespace Session

/-- A dedicated server to which nobody has connected yet. -/
def startDedicated (registry : Registry) : Session :=
  { start registry with host := { role := .server, id := 1, scene := { registry := registry } } }

/-- An event that there is with a listen server too.  The network tick of a dedicated server has no
handlers. -/
def commonStep (s : Session) : Event → Option Session
  | .hostCall _ _ .networkTick => some s
  | e => s.step e

inductive DedicatedEvent
  | common (e : Event)
  | hostAct (act : EntityAct)
  | peerAct (c : ClientID) (act : EntityAct)

def dedicatedStep (s : Session) : DedicatedEvent → Option Session
  | .common e => s.commonStep e
  | .hostAct act => do
      let host ← s.host.after act.run
      return { s with host := host }
  | .peerAct c act =>
      if c ∈ s.host.connected then do
        let peer ← (s.peer c).after act.run
        return s.setPeer c peer
      else none

/-- The server's game code creates no networked entity in its own scenegraph. -/
def LocalOnly (s : Session) : DedicatedEvent → Prop
  | .hostAct act => act.Local s.host.scene.registry
  | _ => True

instance (s : Session) : (e : DedicatedEvent) → Decidable (s.LocalOnly e)
  | .hostAct act => inferInstanceAs (Decidable (act.Local _))
  | .common _ => .isTrue trivial
  | .peerAct _ _ => .isTrue trivial

/-- The client stays, and nothing there sets the entity's `remove`. -/
def LeavesAlone (c : ClientID) (id : EntityID) (s : Session) (e : DedicatedEvent) : Prop :=
  s.LocalOnly e ∧
    match e with
    | .common e => s.Remains c e
    | .hostAct _ => True
    | .peerAct d act => d = c → act ≠ .remove id

instance (c : ClientID) (id : EntityID) (s : Session) : (e : DedicatedEvent) →
    Decidable (s.LeavesAlone c id e)
  | .common e => inferInstanceAs (Decidable (_ ∧ s.Remains c e))
  | .hostAct _ => inferInstanceAs (Decidable (_ ∧ True))
  | .peerAct d act => inferInstanceAs (Decidable (_ ∧ (d = c → act ≠ .remove id)))

/-- The server has no networked entity, and spares those of the clients. -/
def Sparing (s : Session) : Prop :=
  (∀ id, 0 < id → s.host.scene.held id = none) ∧ ∀ c, ∀ d ∈ s.host.pending c, d.Spares

/-- What holds in every run of such steps. -/
structure Dedicated (s : Session) : Prop where
  host : IsDedicated s.host
  not_connected : 1 ∉ s.host.connected
  member : ∀ c ∈ s.host.connected,
    Ready Policy.any (fun _ => False) (s.peer c) ∧ (s.peer c).role = .client
  outbox : ∀ e ∈ s.host.outbox, e.2.Spares
  queue : ∀ p ∈ s.queue, Queued p

/-- The client has all networked entities that it had. -/
def Keeps (c : ClientID) (s s' : Session) : Prop :=
  c ∈ s'.host.connected ∧ ∀ id, 0 < id → ((s.peer c).scene.live id).isSome →
    ((s'.peer c).scene.live id).isSome

variable {s s' : Session} {c : ClientID}

/-- What waits for a client spares networked entities. -/
theorem Dedicated.spares (hs : s.Dedicated) {d : Datagram} (hd : d ∈ s.host.pending c) :
    d.Spares := by
  obtain ⟨⟨dest, x⟩, he, heq⟩ := List.mem_filterMap.mp hd
  dsimp only at heq
  by_cases hdest : dest = c
  · rw [if_pos hdest] at heq
    cases heq
    exact hs.outbox _ he
  · rw [if_neg hdest] at heq
    cases heq

theorem Dedicated.sparing (hs : s.Dedicated) : s.Sparing :=
  ⟨hs.host.bare, fun _ _ hd => hs.spares hd⟩

/-- A step of the server's process. -/
theorem Dedicated.of_host {h : Process} {queue : List Packet} (hs : s.Dedicated)
    (htells : Tells s.host h) (hend : IsDedicated h) (hqueue : ∀ p ∈ queue, Queued p) :
    Dedicated { s with host := h, queue := queue } := by
  have hconnected : h.connected = s.host.connected := htells.frame.connected_eq
  refine ⟨hend, ?_, ?_, ?_, hqueue⟩
  · change 1 ∉ h.connected
    rw [hconnected]
    exact hs.not_connected
  · intro c hc
    exact hs.member c (hconnected ▸ hc)
  · obtain ⟨new, hnew, hspares⟩ := htells.outbox
    intro e he
    have hmem : e ∈ s.host.outbox ++ new := hnew ▸ he
    exact (List.mem_append.mp hmem).elim (hs.outbox e) (hspares e)

/-- What the server does leaves a client's entities alone. -/
theorem keeps_of_host {h : Process} {queue : List Packet} (htells : Tells s.host h)
    (hc : c ∈ s.host.connected) : Keeps c s { s with host := h, queue := queue } :=
  ⟨htells.frame.connected_eq.symm ▸ hc, fun _ _ hlive => hlive⟩

/-- A step of the process of a client. -/
theorem Dedicated.of_peer {d : ClientID} {p : Process} (hs : s.Dedicated)
    (hp : Ready Policy.any (fun _ => False) p ∧ p.role = .client) :
    Dedicated (s.setPeer d p) := by
  refine ⟨hs.host, hs.not_connected, fun c hc => ?_, hs.outbox, hs.queue⟩
  by_cases heq : c = d
  · rw [heq, setPeer_peer_self]
    exact hp
  · rw [setPeer_peer_ne heq]
    exact hs.member c hc

/-- What another client does leaves a client's entities alone. -/
theorem keeps_of_peer {d : ClientID} {p : Process} (hc : c ∈ s.host.connected)
    (hp : ∀ id, 0 < id → ((s.peer d).scene.live id).isSome → (p.scene.live id).isSome) :
    Keeps c s (s.setPeer d p) := by
  refine ⟨hc, fun id hid hlive => ?_⟩
  by_cases heq : c = d
  · rw [heq, setPeer_peer_self]
    exact hp id hid (heq ▸ hlive)
  · rw [setPeer_peer_ne heq]
    exact hlive

/-- What game code does in a client's process deletes no networked entity. -/
theorem live_of_client_moves {π : Policy} {p p' : Process}
    (h : Relation.ReflTransGen (Move π) p p') (hrole : p.role = .client) (hp : Kept p.scene) :
    ∀ id, 0 < id → p'.scene.live id = p.scene.live id := by
  have hall : Kept p'.scene ∧ ∀ id, 0 < id → p'.scene.live id = p.scene.live id := by
    induction h with
    | refl => exact ⟨hp, fun _ _ => rfl⟩
    | tail hmoves hlast ih =>
        obtain ⟨hkept, hsame⟩ := ih
        have hrole' := (frame_of_moves hmoves).role_eq.trans hrole
        refine ⟨hlast.kept hkept, fun id hid => ?_⟩
        rw [← hsame id hid]
        cases hlast with
        | allocate hmax h => rw [h]; rfl
        | quiet h => exact h.live_eq hkept id hid
        | announce info spawnInfo t hhost hcreatable htells hfresh ht h =>
            rw [hrole'] at hhost
            cases hhost
        | relay origin who m hhost hm htells hall h =>
            rw [hrole'] at hhost
            cases hhost
        | request m _ hasks h => rw [h.scene_eq]
  exact hall.2

/-- A new client finds a dedicated server. -/
theorem dedicated_connect {d : ClientID} {sentAt receivedAt : UInt32} (hs : s.Dedicated)
    (hone : d ≠ 1) : Dedicated (s.connect d sentAt receivedAt) := by
  have hhost := hs.host
  refine ⟨⟨hhost.role_eq, hhost.kept, hhost.bare⟩, ?_, fun c hc => ?_, ?_, ?_⟩
  · intro hmem
    rcases List.mem_append.mp hmem with hold | hself
    · exact hs.not_connected hold
    · exact hone (List.mem_singleton.mp hself).symm
  · by_cases heq : c = d
    · subst heq
      have hpeer : (s.connect c sentAt receivedAt).peer c = newcomer s.host.scene.registry c := by
        simp [connect]
      rw [hpeer]
      refine ⟨⟨by simp [newcomer], by simp [newcomer], List.nodup_nil, List.not_mem_nil,
        kept_empty _, fun _ info held hmem => ?_, fun _ id hid => absurd hid not_false⟩, rfl⟩
      cases hmem
    · have hpeer : (s.connect d sentAt receivedAt).peer c = s.peer c := by
        simp [connect, heq]
      rw [hpeer]
      have hmem : c ∈ s.host.connected ++ [d] := hc
      rcases List.mem_append.mp hmem with hold | hself
      · exact hs.member c hold
      · exact absurd (List.mem_singleton.mp hself) heq
  · intro e he
    exact hs.outbox e (List.mem_filter.mp he).1
  · intro p hp
    rcases List.mem_append.mp hp with hold | hself
    · exact hs.queue p hold
    · cases List.mem_singleton.mp hself
      exact ⟨⟨by simp [onClientConnected, ofHeader], rfl⟩, rfl, hone⟩

/-- A client that leaves leaves a dedicated server. -/
theorem dedicated_disconnect {d : ClientID} {sentAt receivedAt : UInt32} (hs : s.Dedicated)
    (hd : d ∈ s.host.connected) : Dedicated (s.disconnect d sentAt receivedAt) := by
  have hone : d ≠ 1 := fun heq => hs.not_connected (heq ▸ hd)
  refine ⟨⟨hs.host.role_eq, hs.host.kept, hs.host.bare⟩,
    fun hmem => hs.not_connected (List.mem_of_mem_erase hmem),
    fun c hc => hs.member c (List.mem_of_mem_erase hc), hs.outbox, fun p hp => ?_⟩
  rcases List.mem_append.mp hp with hold | hself
  · exact hs.queue p hold
  · cases List.mem_singleton.mp hself
    exact ⟨⟨by simp [onClientDisconnected, ofHeader], rfl⟩, rfl, hone⟩

/-- What a client has sent goes into the queue under its id. -/
theorem dedicated_receive {d : ClientID} {data : List Byte} {receivedAt : UInt32} {p : Packet}
    (hs : s.Dedicated) (hd : d ∈ s.host.connected)
    (hp : onClientDataReceived d data receivedAt = .ok p) :
    Dedicated { s.setPeer d ((s.peer d).dropNext 1) with queue := s.queue ++ [p] } := by
  obtain ⟨hready, hrole⟩ := hs.member d hd
  have hready' : Ready Policy.any (fun _ => False) ((s.peer d).dropNext 1) :=
    hready.of_frame ⟨rfl, rfl, rfl, rfl, rfl⟩ hready.kept rfl fun _ _ h => h
  have hpeer := hs.of_peer (d := d) ⟨hready', hrole⟩
  obtain ⟨hfrom, hread, hsender, _⟩ := onClientDataReceived_ok hp
  have hone : p.info.senderID ≠ 1 := by
    rw [hsender]
    exact fun heq => hs.not_connected (heq ▸ hd)
  refine ⟨hpeer.host, hpeer.not_connected, hpeer.member, hpeer.outbox, fun q hq => ?_⟩
  rcases List.mem_append.mp hq with hold | hself
  · exact hs.queue q hold
  · cases List.mem_singleton.mp hself
    exact ⟨hfrom, hread, hone⟩

/-- What a dedicated server has posted takes no networked entity from a client. -/
theorem dedicated_deliver {d : ClientID} {origin : ClientID} {m : Message} {q : Process}
    (hs : s.Dedicated) (hd : d ∈ s.host.connected) (hspares : m.Spares)
    (hhandled : Handled origin m (s.peer d) q) :
    Dedicated { s.setPeer d q with host := s.host.dropNext d } ∧
      ∀ c ∈ s.host.connected, Keeps c s { s.setPeer d q with host := s.host.dropNext d } := by
  obtain ⟨hready, hrole⟩ := hs.member d hd
  have hpeer := hs.of_peer (d := d)
    ⟨hhandled.ready hready, hhandled.frame.role_eq.trans hrole⟩
  refine ⟨⟨⟨hs.host.role_eq, hs.host.kept, hs.host.bare⟩, hs.not_connected, hpeer.member,
    fun e he => hs.outbox e (List.mem_of_mem_eraseP he), hs.queue⟩, fun c hc => ?_⟩
  have hkeeps : Keeps c s (s.setPeer d q) := keeps_of_peer hc fun id hid hlive => by
    rw [hhandled.live_eq hready.kept id hid]
    exact hspares.onLive_isSome _ hid hlive
  exact hkeeps

/-- An event that there is with a listen server too. -/
theorem commonStep_keeps {e : Event} (hs : s.Dedicated) (hstep : s.commonStep e = some s') :
    s'.Dedicated ∧ ∀ c ∈ s.host.connected, s.Remains c e → Keeps c s s' := by
  have hkept : ∀ c ∈ s.host.connected, Keeps c s s := fun c hc => ⟨hc, fun _ _ hlive => hlive⟩
  cases e with
  | connect d sentAt receivedAt =>
      simp only [commonStep, step] at hstep
      split at hstep
      · cases hstep
      next hd =>
      cases hstep
      rw [not_or, not_or] at hd
      refine ⟨dedicated_connect hs hd.2.2, fun c hc _ => ⟨List.mem_append_left _ hc, ?_⟩⟩
      have hne : c ≠ d := by
        rintro rfl
        exact hd.1 hc
      have hpeer : (s.connect d sentAt receivedAt).peer c = s.peer c := by
        simp [connect, hne]
      rw [hpeer]
      exact fun _ _ hlive => hlive
  | disconnect d sentAt receivedAt =>
      simp only [commonStep, step] at hstep
      split at hstep
      · next hd =>
        cases hstep
        exact ⟨dedicated_disconnect hs hd, fun c hc hremains =>
          ⟨(List.mem_erase_of_ne (Ne.symm hremains)).mpr hc, fun _ _ hlive => hlive⟩⟩
      · cases hstep
  | send d data =>
      simp only [commonStep, step] at hstep
      split at hstep
      · next hd =>
        cases hstep
        obtain ⟨hready, hrole⟩ := hs.member d hd
        have hready' : Ready Policy.any (fun _ => False) { s.peer d with
            outbox := (s.peer d).outbox ++ [(1, { origin := d, data := data })] } :=
          hready.of_frame ⟨rfl, rfl, rfl, rfl, rfl⟩ hready.kept rfl fun _ _ h => h
        exact ⟨hs.of_peer ⟨hready', hrole⟩, fun c hc _ => keeps_of_peer hc fun _ _ hlive => hlive⟩
      · cases hstep
  | receive d receivedAt =>
      simp only [commonStep, step] at hstep
      split at hstep
      · next hd =>
        rcases hpending : (s.peer d).pending 1 with _ | ⟨x, rest⟩
        · simp only [hpending] at hstep
          cases hstep
        simp only [hpending] at hstep
        split at hstep
        · next p hp =>
          cases hstep
          exact ⟨dedicated_receive hs hd hp,
            fun c hc _ => keeps_of_peer hc fun _ _ hlive => hlive⟩
        · cases hstep
      · cases hstep
  | serve stack hooks =>
      simp only [commonStep, step] at hstep
      rcases hqueue : s.queue with _ | ⟨p, rest⟩
      · simp only [hqueue] at hstep
        cases hstep
      simp only [hqueue] at hstep
      obtain ⟨h, hafter, hstep⟩ := Option.bind_eq_some_iff.mp hstep
      cases hstep
      have hp : Queued p := hs.queue p (hqueue ▸ List.mem_cons_self)
      obtain ⟨htells, hend⟩ := serverHandler_tells hooks.representable hp hs.host
        (after_eq_some hafter)
      exact ⟨hs.of_host htells hend fun q hq => hs.queue q (hqueue ▸ List.mem_cons_of_mem p hq),
        fun c hc _ => keeps_of_host htells hc⟩
  | deliver d receivedAt =>
      simp only [commonStep, step] at hstep
      split at hstep
      · next hd =>
        rcases hpending : s.host.pending d with _ | ⟨x, rest⟩
        · simp only [hpending] at hstep
          cases hstep
        simp only [hpending] at hstep
        rcases harriving : arriving receivedAt x.data with e | p
        · simp only [harriving] at hstep
          cases hstep
        simp only [harriving] at hstep
        obtain ⟨q, hafter, hstep⟩ := Option.bind_eq_some_iff.mp hstep
        cases hstep
        obtain ⟨m, hm, hhandled⟩ := clientHandler_ok (after_eq_some hafter)
        rw [arriving_ok harriving] at hm
        have hspares : m.Spares :=
          hs.spares (c := d) (hpending ▸ List.mem_cons_self) m hm
        obtain ⟨hs', hkeeps⟩ := dedicated_deliver hs hd hspares hhandled
        exact ⟨hs', fun c hc _ => hkeeps c hc⟩
      · cases hstep
  | hostCall stack hooks call =>
      by_cases hcall : call = .networkTick
      · subst hcall
        cases hstep
        exact ⟨hs, fun c hc _ => hkept c hc⟩
      · have hplain : s.step (.hostCall stack hooks call) = some s' := by
          cases call <;> first | exact hstep | exact absurd rfl hcall
        obtain ⟨h, hafter, hlast⟩ := Option.bind_eq_some_iff.mp hplain
        cases hlast
        obtain ⟨hmoves, hend⟩ := gameCall_tells call stack hooks hcall s.host _ h hs.host
          (after_eq_some hafter)
        have htells := tells_of_moves hmoves
        exact ⟨hs.of_host htells hend hs.queue, fun c hc _ => keeps_of_host htells hc⟩
  | peerCall d stack hooks call =>
      simp only [commonStep, step] at hstep
      split at hstep
      · next hd =>
        obtain ⟨p, hafter, hstep⟩ := Option.bind_eq_some_iff.mp hstep
        cases hstep
        obtain ⟨hready, hrole⟩ := hs.member d hd
        have hpermits := Policy.any_permits s (.peerCall d stack hooks call) hd
        obtain ⟨hmoves, hready'⟩ := GameCall.moves hready hpermits (after_eq_some hafter)
        have hframe := frame_of_moves hmoves
        refine ⟨hs.of_peer ⟨hready', hframe.role_eq.trans hrole⟩, fun c hc _ => ?_⟩
        refine keeps_of_peer hc fun id hid hlive => ?_
        rw [live_of_client_moves hmoves hrole hready.kept id hid]
        exact hlive
      · cases hstep

/-- **One event.** -/
theorem dedicatedStep_keeps {e : DedicatedEvent} (hs : s.Dedicated)
    (hstep : s.dedicatedStep e = some s') :
    (s'.Sparing ↔ s.LocalOnly e) ∧ (s.LocalOnly e → s'.Dedicated) ∧
      ∀ c id, c ∈ s.host.connected → s.LeavesAlone c id e → 0 < id → c ∈ s'.host.connected ∧
        (((s.peer c).scene.live id).isSome → ((s'.peer c).scene.live id).isSome) := by
  cases e with
  | common e =>
      obtain ⟨hs', hkeeps⟩ := commonStep_keeps hs hstep
      refine ⟨iff_of_true hs'.sparing trivial, fun _ => hs', fun c id hc halone hid => ?_⟩
      obtain ⟨hc', hkept⟩ := hkeeps c hc halone.2
      exact ⟨hc', hkept id hid⟩
  | hostAct act =>
      obtain ⟨h, hafter, hlast⟩ := Option.bind_eq_some_iff.mp hstep
      cases hlast
      have hacted := acted_run (after_eq_some hafter)
      have hbare := hacted.bare hs.host.kept hs.host.bare
      have hall : s.LocalOnly (.hostAct act) → Dedicated { s with host := h } := fun hlocal =>
        hs.of_host (.of_same hacted.frame hacted.outbox_eq)
          ⟨hacted.frame.role_eq.trans hs.host.role_eq, hacted.kept hs.host.kept, hbare.mpr hlocal⟩
          hs.queue
      refine ⟨⟨fun hsparing => hbare.mp hsparing.1, fun hlocal => (hall hlocal).sparing⟩, hall,
        fun c id hc _ _ => ⟨hacted.frame.connected_eq.symm ▸ hc, fun hlive => hlive⟩⟩
  | peerAct d act =>
      obtain ⟨hd, hstep⟩ := Option.ite_none_right_eq_some.mp hstep
      obtain ⟨p, hafter, hlast⟩ := Option.bind_eq_some_iff.mp hstep
      cases hlast
      have hacted := acted_run (after_eq_some hafter)
      obtain ⟨hready, hrole⟩ := hs.member d hd
      have hframe := hacted.frame
      have hready' : Ready Policy.any (fun _ => False) p :=
        ⟨hframe.role_eq ▸ hready.role_ne, hframe.role_eq ▸ hframe.id_eq ▸ hready.host_id,
          hframe.connected_eq ▸ hready.nodup, hframe.connected_eq ▸ hready.not_connected,
          hacted.kept hready.kept, fun hstrict => absurd trivial (hstrict 0),
          fun hstrict => absurd trivial (hstrict 0)⟩
      have hall := hs.of_peer (d := d) ⟨hready', hframe.role_eq.trans hrole⟩
      refine ⟨iff_of_true hall.sparing trivial, fun _ => hall, fun c id hc halone _ => ⟨hc, ?_⟩⟩
      intro hlive
      by_cases heq : c = d
      · subst heq
        rw [setPeer_peer_self]
        exact hacted.live id (halone.2 rfl) hlive
      · rw [setPeer_peer_ne heq]
        exact hlive

/-- A server without entities is dedicated. -/
theorem dedicated_start (registry : Registry) : (startDedicated registry).Dedicated where
  host := ⟨rfl, kept_empty registry, fun id _ => by simp [startDedicated, Scenegraph.held]⟩
  not_connected := List.not_mem_nil
  member c hc := absurd hc List.not_mem_nil
  outbox e he := absurd he List.not_mem_nil
  queue p hp := absurd hp List.not_mem_nil

/-- Every run with local entities only keeps the server dedicated. -/
theorem dedicated_of_run {registry : Registry} {es : List DedicatedEvent}
    (hlocal : Runs.Meets dedicatedStep LocalOnly (startDedicated registry) es)
    (hrun : Runs.run dedicatedStep (startDedicated registry) es = some s) : s.Dedicated :=
  Runs.run_invariant_of_meets (fun _ _ _ hs hok hstep => (dedicatedStep_keeps hs hstep).2.1 hok)
    hlocal hrun (dedicated_start registry)

/-- **A dedicated server knows of no networked entity**, unless its game code makes it one: else it
never tells anyone to delete one, nor passes on a call of one, nor tells a client that connects of
those that there are. -/
theorem posts_spare (registry : Registry) (es : List DedicatedEvent) (s : Session)
    (hrun : Runs.run dedicatedStep (startDedicated registry) es = some s) :
    Runs.Always dedicatedStep Sparing (startDedicated registry) es ↔
      Runs.Meets dedicatedStep LocalOnly (startDedicated registry) es :=
  Runs.always_iff_meets Dedicated
    (fun _ _ _ hs hsparing hstep =>
      have h := dedicatedStep_keeps hs hstep
      h.2.1 (h.1.mp hsparing))
    (fun _ _ _ hs _ hstep => (dedicatedStep_keeps hs hstep).1) hrun (dedicated_start registry)
    (dedicated_start registry).sparing

/-- A client creates an entity, which another one gets; the server has one of its own. -/
def shared : List DedicatedEvent :=
  (twoJoined ++ [.peerCall 2 5 .silent Sample.create, .receive 2 0, .serve 5 .silent, .deliver 2 0,
    .deliver 3 0] : List Event).map .common ++
      [.hostAct (.createEntity (Sample.info 0 0) (ofHeader {}))]

/-- Two clients that share an entity. -/
theorem posts_spare_shared :
    Runs.Always dedicatedStep Sparing (startDedicated Sample.registry) shared := by
  have hsome : (Runs.run dedicatedStep (startDedicated Sample.registry) shared).isSome := by
    decide +kernel
  obtain ⟨s, hs⟩ := Option.isSome_iff_exists.mp hsome
  exact (posts_spare Sample.registry shared s hs).mpr (by decide +kernel)

/-- With an ID of its own the server's entity is a networked one. -/
example : (dedicatedStep (startDedicated Sample.registry)
    (.hostAct (.createEntity (Sample.info 5 1) (ofHeader {})))).any
      (fun s => s.host.scene.held 5 = some (Sample.info 5 1)) = true := by decide +kernel

/-- **With such a server networked entities are for ever.**  What game code deletes, and what
clients send, does not matter; only the entity's own `remove` does. -/
theorem entities_remain (registry : Registry) (before es : List DedicatedEvent) (s t : Session)
    (c : ClientID) (id : EntityID)
    (hlocal : Runs.Meets dedicatedStep LocalOnly (startDedicated registry) before)
    (hbefore : Runs.run dedicatedStep (startDedicated registry) before = some s)
    (hc : c ∈ s.host.connected) (halone : Runs.Meets dedicatedStep (LeavesAlone c id) s es)
    (hrun : Runs.run dedicatedStep s es = some t) (hid : 0 < id)
    (hlive : ((s.peer c).scene.live id).isSome) : ((t.peer c).scene.live id).isSome := by
  have hone : ∀ (u : Session) (e : DedicatedEvent) (u' : Session),
      (u.Dedicated ∧ c ∈ u.host.connected ∧ ((u.peer c).scene.live id).isSome) →
      u.LeavesAlone c id e → u.dedicatedStep e = some u' →
      u'.Dedicated ∧ c ∈ u'.host.connected ∧ ((u'.peer c).scene.live id).isSome := by
    intro u e u' hu hok hstep
    obtain ⟨_, hnext, hkeeps⟩ := dedicatedStep_keeps hu.1 hstep
    obtain ⟨hc', hkept⟩ := hkeeps c id hu.2.1 hok hid
    exact ⟨hnext hok.1, hc', hkept hu.2.2⟩
  exact (Runs.run_invariant_of_meets hone halone hrun
    ⟨dedicated_of_run hlocal hbefore, hc, hlive⟩).2.2

/-- The owner deletes its entity, and game code there and at the server marks others. -/
def deleted : List DedicatedEvent :=
  ([.peerCall 2 5 .silent (.deleteEntity 1), .receive 2 0, .serve 5 .silent,
    .peerCall 2 5 .silent .update, .peerCall 3 5 .silent .update] : List Event).map .common ++
      [.hostAct (.remove (-1)), .peerAct 2 (.remove 1), .common (.peerCall 2 5 .silent .update)]

/-- One client deletes the entity, and the other has it still. -/
theorem entities_remain_deleted :
    ∃ s t, Runs.run dedicatedStep (startDedicated Sample.registry) shared = some s ∧
      Runs.run dedicatedStep s deleted = some t ∧ ((t.peer 3).scene.live 1).isSome ∧
      ((t.peer 2).scene.live 1).isNone := by
  have hrun : ∃ s, Runs.run dedicatedStep (startDedicated Sample.registry) shared = some s ∧
      3 ∈ s.host.connected ∧ Runs.Meets dedicatedStep (LeavesAlone 3 1) s deleted ∧
      ((Runs.run dedicatedStep s deleted).any fun t => ((t.peer 2).scene.live 1).isNone) = true ∧
      ((s.peer 3).scene.live 1).isSome :=
    Runs.exists_of_any (by decide +kernel)
  obtain ⟨s, hs, hc, halone, hgone, hlive⟩ := hrun
  obtain ⟨t, ht, hgone⟩ := (Option.any_eq_true _ _).mp hgone
  exact ⟨s, t, hs, ht, entities_remain Sample.registry shared deleted s t 3 1
    (by decide +kernel) hs hc
    halone ht (by decide) hlive, hgone⟩

end Session

end EnkiNet
