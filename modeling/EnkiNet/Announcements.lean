import EnkiNet.EntityTrees

/-!
# What a server announces

A server that broadcasts creations and deletions keeps no table of its own of what it has
announced: a listen server's table is filled by the broadcast that its own client
handles.  Two accounts of the networked entities are compared here, the table of the
server's scenegraph and what somebody knows who has heard every broadcast (`announced`).

`Airs` says what a program broadcasts and what becomes of the table then.  On a listen
server the table follows every message; a dedicated server has no client, and its table
stays as it was.  So the accounts agree after `Scenegraph::update` exactly when the
server is a listen server or has announced no networked entity (`known_iff`).
-/

namespace EnkiNet

open ByteStore Packet Process

namespace Message

/-- The networked entity under an id, for somebody who takes the message at its word. -/
def tell (id : EntityID) (known : Option EntityInfo) : Message → Option EntityInfo
  | .creation info _ => if info.ID = id then some info else known
  | .deletion id' => if id' = id then none else known
  | _ => known

/-- What a server may announce of its own accord or on request. -/
def Announcement (r : Registry) : Message → Prop
  | .creation info _ => Creatable r info
  | .deletion _ => True
  | _ => False

/-- The message creates a networked entity. -/
def Networked : Message → Prop
  | .creation info _ => 0 < info.ID
  | _ => False

/-- A client's table follows announcements. -/
theorem Announcement.onLive_eq {r : Registry} {m : Message} (h : m.Announcement r)
    (live : EntityID → Option EntityInfo) (id : EntityID) :
    m.onLive r live id = tell id (live id) m := by
  cases m with
  | creation info spawnInfo =>
      have hcreatable : Creatable r info := h
      rw [onLive, if_neg (by simp), onHeld, created, if_pos hcreatable]
      rfl
  | deletion id' =>
      rw [onLive]
      by_cases heq : id' = id
      · rw [heq, if_pos rfl, tell, if_pos rfl]
      · rw [if_neg fun hmsg => heq (Message.deletion.inj hmsg), tell, if_neg heq]
        rfl
  | _ => cases h

end Message

namespace Process

/-- What a packet that has been broadcast says. -/
def said (p : Packet) : Except Fault Message := messageOf p.resetReadPosition

def hear (id : EntityID) (known : Option EntityInfo) : Except Fault Message → Option EntityInfo
  | .ok m => m.tell id known
  | .error _ => known

/-- What somebody knows of an id who has heard these broadcasts. -/
def announced (ps : List Packet) (id : EntityID) : Option EntityInfo :=
  (ps.map said).foldl (hear id) none

/-- The networked entities of the scenegraph are those that have been announced and not
deleted. -/
def KnowsAnnounced (s : Process) : Prop :=
  ∀ id, 0 < id → s.scene.held id = announced s.broadcasts id

/-- A server in which networking has been enabled. -/
structure Serving (r : Registry) (s : Process) : Prop where
  role_ne : s.role ≠ .client
  nodup : s.connected.Nodup
  networkReady : s.scene.networkReady
  registry_eq : s.scene.registry = r
  kept : Kept s.scene

/-- These messages have been broadcast, in this order. -/
structure Airs (ms : List Message) (s s' : Process) : Prop where
  frame : Frame s s'
  kept : Kept s'.scene
  log : ∃ ps, s'.broadcasts = s.broadcasts ++ ps ∧ ps.map said = ms.map .ok
  followed : s.role = .host → ∀ id, 0 < id →
    s'.scene.live id = ms.foldl (Message.tell id) (s.scene.live id)
  ignored : s.role = .server → ∀ id : EntityID, s'.scene.entities[id]? = s.scene.entities[id]?

section

variable {r : Registry} {ms : List Message} {s s' : Process}

theorem Serving.of_airs (hs : Serving r s) (h : Airs ms s s') : Serving r s' where
  role_ne := h.frame.role_eq.symm ▸ hs.role_ne
  nodup := h.frame.connected_eq.symm ▸ hs.nodup
  networkReady := h.frame.ready_eq.trans hs.networkReady
  registry_eq := h.frame.registry_eq.trans hs.registry_eq
  kept := h.kept

theorem Airs.nil (hs : Kept s.scene) : Airs [] s s :=
  ⟨Frame.refl s, hs, ⟨[], (List.append_nil _).symm, rfl⟩, fun _ _ _ => rfl, fun _ _ => rfl⟩

theorem Airs.trans {more : List Message} {t : Process} (h : Airs ms s t) (h' : Airs more t s') :
    Airs (ms ++ more) s s' := by
  obtain ⟨ps, hps, hsaid⟩ := h.log
  obtain ⟨qs, hqs, hsaid'⟩ := h'.log
  refine ⟨h.frame.trans h'.frame, h'.kept, ⟨ps ++ qs, ?_, ?_⟩, ?_, ?_⟩
  · rw [hqs, hps, List.append_assoc]
  · rw [List.map_append, List.map_append, hsaid, hsaid']
  · intro hrole id hid
    rw [h'.followed (h.frame.role_eq.trans hrole) id hid, h.followed hrole id hid,
      List.foldl_append]
  · intro hrole id
    rw [h'.ignored (h.frame.role_eq.trans hrole), h.ignored hrole]

/-- A change of the scenegraph that concerns no networked entity. -/
theorem Airs.of_scene {g : Scenegraph} (hkept : Kept g) (hregistry : g.registry = s.scene.registry)
    (hready : g.networkReady = s.scene.networkReady)
    (hlive : ∀ id, 0 < id → g.live id = s.scene.live id)
    (hentities : s.role = .server → ∀ id : EntityID, g.entities[id]? = s.scene.entities[id]?) :
    Airs [] s { s with scene := g } :=
  ⟨⟨rfl, rfl, rfl, hregistry, hready⟩, hkept, ⟨[], (List.append_nil _).symm, rfl⟩,
    fun _ id hid => hlive id hid, hentities⟩

/-! ## Broadcasting -/

theorem postIf_broadcasts {predicate : ClientID → Bool} {origin : ClientID} {p : Packet}
    (h : postIf predicate origin p s = (.ok (), s')) : s'.broadcasts = s.broadcasts := by
  rw [postIf, Fallible.bind_get] at h
  split at h
  · cases h
    rfl
  · obtain ⟨data, _, h⟩ := bind_wireBytes_ok h
    cases h
    rfl

theorem sendPacketToAllClients_broadcasts {origin : ClientID} {p : Packet} {m : Message}
    (hp : Says p m) (h : sendPacketToAllClients origin p s = (.ok (), s')) :
    s'.broadcasts = s.broadcasts ++ [stamped s.now p] := by
  rw [sendPacketToAllClients, Fallible.bind_get, bind_stamp, recordBroadcast,
    Fallible.bind_modify] at h
  obtain ⟨_, t, hpost, h⟩ := Fallible.bind_eq_ok h
  have hrecorded := postIf_broadcasts hpost
  split at h
  · exact (loopback_ok (hp s.now).1 h).broadcasts_eq.trans hrecorded
  · cases h
    exact hrecorded

/-- **One announcement.** -/
theorem sendPacketToAllClients_airs {origin : ClientID} {p : Packet} {m : Message}
    (hs : Serving r s) (hp : Says p m) (hm : m.Announcement r)
    (h : sendPacketToAllClients origin p s = (.ok (), s')) : Airs [m] s s' := by
  have hlog := sendPacketToAllClients_broadcasts hp h
  have hcast := sendPacketToAllClients_ok hs.nodup hp h
  refine ⟨hcast.frame, hcast.kept hs.kept, ⟨[stamped s.now p], hlog, ?_⟩, ?_, ?_⟩
  · rw [List.map_singleton, said, (hp s.now).1]
    rfl
  · intro hrole id hid
    obtain ⟨t, hsent, ⟨_, _, hhandled⟩ | ⟨hnone, _⟩⟩ := hcast
    · have hkept : Kept t.scene := hsent.scene_eq ▸ hs.kept
      rw [hhandled.live_eq hkept id hid, hsent.scene_eq, hs.registry_eq]
      exact hm.onLive_eq _ _
    · exact absurd ⟨hrole, rfl⟩ hnone
  · intro hrole id
    obtain ⟨t, hsent, ⟨hhost, _⟩ | ⟨_, rfl⟩⟩ := hcast
    · rw [hrole] at hhost
      cases hhost
    · rw [hsent.scene_eq]

/-! ## Creating -/

/-- A call with this info announces a networked entity: the entity itself, or a child,
which gets an id from the counter. -/
def Announces (r : Registry) (info : EntityInfo) : Prop :=
  Creatable r info ∧ (0 ≤ info.ID ∨ ∃ child ∈ r.childTypes info.type, Usable r child)

/-- The messages are creations of entities that can be created. -/
def Creations (r : Registry) (ms : List Message) : Prop :=
  ∀ m ∈ ms, ∃ info spawnInfo, m = .creation info spawnInfo ∧ Creatable r info

theorem Creations.append {more : List Message} (h : Creations r ms) (h' : Creations r more) :
    Creations r (ms ++ more) := by
  intro m hm
  exact (List.mem_append.mp hm).elim (h m) (h' m)

theorem networked_append {more : List Message} :
    (∃ m ∈ ms ++ more, m.Networked) ↔ (∃ m ∈ ms, m.Networked) ∨ ∃ m ∈ more, m.Networked := by
  simp only [List.mem_append, or_and_right, exists_or]

/-- **One entity is announced**, under the id that it has been given. -/
theorem sendCreation_airs {info : EntityInfo} {spawnInfo : Packet} (hs : Serving r s)
    (hsound : spawnInfo.Sound) (hcreatable : Creatable r info)
    (h : sendCreation info spawnInfo s = (.ok (), s')) :
    ∃ m, Airs [m] s s' ∧ Creations r [m] ∧ (m.Networked ↔ 0 < info.ID) := by
  obtain ⟨sent, hID, hsent, hcreation⟩ := sendCreation_ok hsound h
  cases hcreation with
  | offline hready => exact absurd hs.networkReady hready
  | request hready hrole hmeans hsend => exact absurd hrole hs.role_ne
  | announce hready hrole hmeans hsend =>
      have hserving : Serving r { s with
          effects := s.effects ++ [.announce sent (s.scene.held sent.ID)] } :=
        ⟨hs.role_ne, hs.nodup, hs.networkReady, hs.registry_eq, hs.kept⟩
      have hcreatable' : Creatable r sent := hsent r hcreatable
      have hairs := sendPacketToAllClients_airs hserving hmeans hcreatable' hsend
      refine ⟨_, ⟨⟨hairs.frame.role_eq, hairs.frame.id_eq, hairs.frame.connected_eq,
        hairs.frame.registry_eq, hairs.frame.ready_eq⟩, hairs.kept, hairs.log, hairs.followed,
        hairs.ignored⟩, ?_, by rw [Message.Networked, hID]⟩
      intro m hm
      cases List.mem_singleton.mp hm
      exact ⟨_, _, rfl, hcreatable'⟩

/-- The loop over child types, if the recursive call does what it should. -/
theorem createAll_airs {stack : Nat} {owner : ClientID} {parent : EntityID}
    {children : List ChildEntityCreationInfo} (hs : Serving r s)
    (hcall : ∀ (child : ChildEntityCreationInfo) (t t' : Process), Serving r t →
      createNetworkedEntity stack (child.entity 0 owner parent) child.spawnInfo t = (.ok (), t') →
      ∃ ms, Airs ms t t' ∧ Creations r ms ∧ ((∃ m ∈ ms, m.Networked) ↔ Usable r child))
    (h : createAll stack owner parent children s = (.ok (), s')) :
    ∃ ms, Airs ms s s' ∧ Creations r ms ∧
      ((∃ m ∈ ms, m.Networked) ↔ ∃ child ∈ children, Usable r child) := by
  induction children generalizing s with
  | nil =>
      cases h
      exact ⟨[], Airs.nil hs.kept, fun _ hm => absurd hm List.not_mem_nil, by simp⟩
  | cons child children ih =>
      obtain ⟨_, t, hone, hrest⟩ := Fallible.bind_eq_ok h
      obtain ⟨ms, hairs, hcreations, hnetworked⟩ := hcall child s t hs hone
      obtain ⟨more, hairs', hcreations', hnetworked'⟩ := ih (hs.of_airs hairs) hrest
      refine ⟨ms ++ more, hairs.trans hairs', hcreations.append hcreations', ?_⟩
      rw [networked_append, hnetworked, hnetworked']
      simp only [List.mem_cons, exists_eq_or_imp]

theorem nextID_airs {id : EntityID} (hs : Serving r s) (h : nextID s = (.ok id, s')) :
    Airs [] s s' ∧ 0 < id := by
  obtain ⟨hmax, rfl, rfl⟩ := nextID_ok h
  have hpos : 0 < s.scene.ID + 1 := Int32.lt_trans hs.kept.ID_pos (lt_add_one hmax)
  exact ⟨Airs.of_scene ⟨hs.kept.localID_neg, hpos, hs.kept.stored⟩ rfl rfl (fun _ _ => rfl)
    (fun _ _ => rfl), hs.kept.ID_pos⟩

/-- **A call announces creations**, by induction on the room for nested calls. -/
theorem createNetworkedEntity_airs {stack : Nat} {info : EntityInfo} {spawnInfo : Packet}
    (hs : Serving r s) (hsound : spawnInfo.Sound)
    (h : createNetworkedEntity stack info spawnInfo s = (.ok (), s')) :
    ∃ ms, Airs ms s s' ∧ Creations r ms ∧ ((∃ m ∈ ms, m.Networked) ↔ Announces r info) := by
  induction stack generalizing info spawnInfo s s' with
  | zero => cases h
  | succ stack ih =>
      have hcall : ∀ (owner : ClientID) (parent : EntityID) (child : ChildEntityCreationInfo)
          (t t' : Process), Serving r t →
          createNetworkedEntity stack (child.entity 0 owner parent) child.spawnInfo t =
            (.ok (), t') →
          ∃ ms, Airs ms t t' ∧ Creations r ms ∧ ((∃ m ∈ ms, m.Networked) ↔ Usable r child) := by
        intro owner parent child t t' ht hrun
        obtain ⟨ms, hairs, hcreations, hnetworked⟩ := ih ht child.sound hrun
        refine ⟨ms, hairs, hcreations, hnetworked.trans ?_⟩
        exact ⟨fun h => h.1, fun h => ⟨h, Or.inl (Int32.le_refl 0)⟩⟩
      have hfamily : ∀ (id : EntityID) (t t' : Process), Serving r t → Creatable r info →
          createFamily (createNetworkedEntity stack) { info with ID := id } spawnInfo t =
            (.ok (), t') →
          ∃ ms, Airs ms t t' ∧ Creations r ms ∧ ((∃ m ∈ ms, m.Networked) ↔
            (∃ child ∈ r.childTypes info.type, Usable r child) ∨ 0 < id) := by
        intro id t t' ht hcreatable hrun
        rw [createFamily, Fallible.bind_get, ht.registry_eq] at hrun
        obtain ⟨_, u, hchildren, hlast⟩ := Fallible.bind_eq_ok hrun
        obtain ⟨ms, hairs, hcreations, hnetworked⟩ :=
          createAll_airs ht (hcall info.ownerID id) hchildren
        have hself : Creatable r { info with ID := id } := hcreatable
        obtain ⟨m, hairs', hcreations', hnetworked'⟩ :=
          sendCreation_airs (ht.of_airs hairs) hsound hself hlast
        refine ⟨ms ++ [m], hairs.trans hairs', hcreations.append hcreations', ?_⟩
        rw [networked_append, hnetworked]
        simp only [List.mem_singleton, exists_eq_left, hnetworked']
      rw [createNetworkedEntity, Fallible.bind_get] at h
      split at h
      · next hrefused =>
        cases h
        refine ⟨[], Airs.nil hs.kept, fun _ hm => absurd hm List.not_mem_nil, ?_⟩
        refine iff_of_false (by simp) fun hannounces => ?_
        rw [hs.registry_eq, ← Option.not_isSome_iff_eq_none] at hrefused
        exact not_and_or.mpr hrefused hannounces.1
      next hok =>
      rw [hs.registry_eq, ← Option.not_isSome_iff_eq_none] at hok
      have hcreatable : Creatable r info := not_not.mp fun hno => hok (not_and_or.mp hno)
      split at h
      · next hnew =>
        obtain ⟨id, t, hid, hrest⟩ := Fallible.bind_eq_ok h
        obtain ⟨hairs, hpos⟩ := nextID_airs hs hid
        obtain ⟨ms, hairs', hcreations, hnetworked⟩ :=
          hfamily id t s' (hs.of_airs hairs) hcreatable hrest
        refine ⟨ms, hairs.trans hairs', hcreations, hnetworked.trans ?_⟩
        refine iff_of_true (Or.inr hpos) ⟨hcreatable, Or.inl ?_⟩
        rw [hnew.2]
        exact Int32.le_refl 0
      · next hold =>
        have hne : info.ID ≠ 0 := fun hzero => hold ⟨hs.role_ne, hzero⟩
        obtain ⟨ms, hairs, hcreations, hnetworked⟩ := hfamily info.ID s s' hs hcreatable h
        refine ⟨ms, hairs, hcreations, hnetworked.trans ?_⟩
        have hpos : 0 < info.ID ↔ 0 ≤ info.ID :=
          ⟨Int32.le_of_lt, fun hle => Int32.lt_of_le_of_ne hle (Ne.symm hne)⟩
        rw [Announces, and_iff_right hcreatable, hpos, or_comm]

/-! ## Deleting -/

/-- No entity is stored. -/
def Vacant (s : Process) : Prop := ∀ id : EntityID, s.scene.entities[id]? = none

theorem deleteEntity_airs {id : EntityID} (hs : Serving r s) (hrole : s.role = .host)
    (h : deleteEntity id s = (.ok (), s')) : ∃ ms, Airs ms s s' := by
  have hserver : s.role ≠ .server := by
    rw [hrole]
    simp
  obtain ⟨ent, hent, hdeletion⟩ := deleteEntity_ok h
  obtain ⟨hid, _, _⟩ := hs.kept.stored id ent hent
  cases hdeletion with
  | mark hlocal =>
      have hflag := (handled_flag 1 id s).kept hs.kept
      refine ⟨[], Airs.of_scene hflag rfl rfl ?_ fun h => absurd h hserver⟩
      intro k hk
      rw [Scenegraph.live_flag, if_neg]
      rintro rfl
      exact Int32.lt_irrefl (Int32.lt_trans hk (hid ▸ hlocal))
  | offline hlocal hready => exact absurd hs.networkReady hready
  | request hlocal hready hclient hmeans hsend => exact absurd hclient hs.role_ne
  | announce hlocal hready hclient hmeans hsend =>
      exact ⟨[.deletion id], sendPacketToAllClients_airs hs hmeans trivial hsend⟩

/-- The loop of `update`. -/
theorem orphans_airs {entries : List (EntityID × Entity)} (hs : Serving r s)
    (hrole : s.role = .host)
    (h : Fallible.forEach entries (fun (_, ent) => do
      let s ← Fallible.get
      if ent.info.parentID = 0 ∨ s.scene.entityExists ent.info.parentID then return ()
      else deleteEntity ent.info.ID) s = (.ok (), s')) : ∃ ms, Airs ms s s' := by
  induction entries generalizing s with
  | nil =>
      cases h
      exact ⟨[], Airs.nil hs.kept⟩
  | cons entry entries ih =>
      obtain ⟨_, t, hone, hrest⟩ := Fallible.bind_eq_ok h
      have hfirst : ∃ ms, Airs ms s t := by
        dsimp only at hone
        rw [Fallible.bind_get] at hone
        split at hone
        · cases hone
          exact ⟨[], Airs.nil hs.kept⟩
        · exact deleteEntity_airs hs hrole hone
      obtain ⟨ms, hairs⟩ := hfirst
      obtain ⟨more, hairs'⟩ := ih (hs.of_airs hairs) (hairs.frame.role_eq.trans hrole) hrest
      exact ⟨ms ++ more, hairs.trans hairs'⟩

theorem eraseFlagged_airs (hs : Serving r s) (hvacant : s.role = .server → s.Vacant) :
    Airs [] s { s with scene := s.scene.eraseFlagged } := by
  have hkept := (quiet_eraseFlagged (π := Policy.any) s).kept hs.kept
  refine Airs.of_scene hkept rfl rfl (fun _ _ => Scenegraph.live_eraseFlagged _ _) ?_
  intro hrole id
  rw [Scenegraph.getElem?_eraseFlagged, hvacant hrole id]
  rfl

theorem held_eraseFlagged (g : Scenegraph) (id : EntityID) :
    g.eraseFlagged.held id = g.eraseFlagged.live id := by
  rw [Scenegraph.live_eraseFlagged, Scenegraph.held, Scenegraph.getElem?_eraseFlagged,
    Scenegraph.live]
  rcases g.entities[id]? with _ | ent
  · rfl
  · cases h : ent.remove <;> simp [Option.filter, h]

/-- `update` announces the deletion of entities without their parent, and leaves no
entity that has been marked. -/
theorem update_airs (hs : Serving r s) (hvacant : s.role = .server → s.Vacant)
    (h : update s = (.ok (), s')) :
    ∃ ms, Airs ms s s' ∧ (s.role = .server → ms = []) ∧
      ∀ id, s'.scene.held id = s'.scene.live id := by
  rw [update, Fallible.bind_get] at h
  obtain ⟨_, t, hloop, hlast⟩ := Fallible.bind_eq_ok h
  cases hlast
  cases hrole : s.role with
  | client => exact absurd hrole hs.role_ne
  | server =>
      have hnone : s.scene.entities.toList = [] := by
        rw [List.eq_nil_iff_forall_not_mem]
        intro entry hentry
        rw [Std.TreeMap.mem_toList_iff_getElem?_eq_some, hvacant hrole] at hentry
        cases hentry
      rw [hnone] at hloop
      cases hloop
      exact ⟨[], eraseFlagged_airs hs hvacant, fun _ => rfl, held_eraseFlagged _⟩
  | host =>
      obtain ⟨ms, hairs⟩ := orphans_airs hs hrole hloop
      have ht : t.role ≠ .server := by
        rw [hairs.frame.role_eq, hrole]
        simp
      have herase := eraseFlagged_airs (hs.of_airs hairs) fun hserver => absurd hserver ht
      exact ⟨ms ++ [], hairs.trans herase, by simp, held_eraseFlagged _⟩

/-! ## Requests -/

/-- It is carried out as a call by the server. -/
theorem serverHandler_creation_airs {stack : Nat} {hook : EntityID → List WriteOp} {p : Packet}
    {info : EntityInfo} {spawnInfo : Packet} (hs : Serving r s)
    (htype : p.header.type = .entityCreation) (hm : messageOf p = .ok (.creation info spawnInfo))
    (h : serverHandler stack hook p s = (.ok (), s')) :
    ∃ ms, Airs ms s s' ∧ Creations r ms ∧ ((∃ m ∈ ms, m.Networked) ↔ Announces r info) := by
  obtain ⟨_, _, _, hspawn⟩ := reads_of_creation htype hm
  rw [Session.serverHandler_creation htype hm] at h
  obtain ⟨ms, hairs, hcreations, hnetworked⟩ :=
    createNetworkedEntity_airs hs (getPacket_sound hspawn) h
  exact ⟨ms, hairs, hcreations, hnetworked⟩

/-- A deletion request is announced if the server has the entity. -/
theorem serverHandler_deletion_airs {stack : Nat} {hook : EntityID → List WriteOp} {p : Packet}
    (hs : Serving r s) (hvacant : s.role = .server → s.Vacant) (hp : FromWire p)
    (hunread : p.readCursor = ⟨headerSize, 8⟩) (htype : p.header.type = .entityDeletion)
    (h : serverHandler stack hook p s = (.ok (), s')) :
    ∃ ms, Airs ms s s' ∧ (s.role = .server → ms = []) := by
  simp only [serverHandler, htype] at h
  obtain ⟨id, q, hid, h⟩ := bind_onPacket_ok h
  dsimp only at h
  rw [Fallible.bind_get] at h
  rcases hent : s.scene.entities[Int32.ofBitVec id]? with _ | ent
  · rw [hent] at h
    cases h
    exact ⟨[], Airs.nil hs.kept, fun _ => rfl⟩
  rw [hent] at h
  dsimp only at h
  split at h
  · have hm : messageOf p = .ok (.deletion (Int32.ofBitVec id)) := by
      rw [messageOf, htype, readMessage, Fallible.bind_ok hid]
      rfl
    have harrived : Arrived Policy.any p := by
      refine ⟨hunread, ?_, fun m _ => Policy.any_asks _ m, fun _ => ⟨_, hm⟩⟩
      intro m hm'
      exact Says.of_fromWire hp (by rw [resetReadPosition_of_unread hunread, hm'])
    obtain ⟨hmeans, _⟩ := harrived.says_of_reads (reads_getScalar 4) hid hm
    refine ⟨_, sendPacketToAllClients_airs hs hmeans trivial h, ?_⟩
    intro hserver
    rw [hvacant hserver] at hent
    cases hent
  · cases h
    exact ⟨[], Airs.nil hs.kept, fun _ => rfl⟩

end

end Process

/-! ## Runs of a server -/

/-- What happens to a server: game code calls it, or it handles a client's request. -/
inductive ServerEvent
  | createNetworkedEntity (stack : Nat) (info : EntityInfo) (spawnInfo : Packet)
      (sound : spawnInfo.Sound)
  | request (stack : Nat) (hooks : Hooks) (c : ClientID) (data : List Byte) (receivedAt : UInt32)
  | update

namespace ServerEvent

/-- The event announces a networked entity. -/
def Announces (r : Registry) : ServerEvent → Prop
  | .createNetworkedEntity _ info _ _ => Process.Announces r info
  | .request _ _ _ data _ =>
      ∃ info spawnInfo, messageOfData data = .ok (.creation info spawnInfo) ∧
        Process.Announces r info
  | .update => False

end ServerEvent

namespace Process

def serverStep (s : Process) : ServerEvent → Option Process
  | .createNetworkedEntity stack info spawnInfo _ =>
      s.after (createNetworkedEntity stack info spawnInfo)
  | .request stack hooks c data receivedAt =>
      match onClientDataReceived c data receivedAt with
      | .ok p =>
          if p.header.type = .entityCreation ∨ p.header.type = .entityDeletion then
            s.after (serverHandler stack hooks.script p)
          else none
      | .error _ => none
  | .update => s.after update

/-- A process of this kind, with networking enabled, before anything has happened. -/
def fresh (role : Role) (registry : Registry) (connected : List ClientID) : Process :=
  { role := role, id := 1, scene := { registry := registry }, connected := connected }

variable {r : Registry} {s s' : Process}

/-- **One event.** -/
theorem serverStep_airs {e : ServerEvent} (hs : Serving r s) (hvacant : s.role = .server → s.Vacant)
    (hstep : s.serverStep e = some s') :
    ∃ ms, Airs ms s s' ∧ (s.role = .server → Creations r ms ∧
      ((∃ m ∈ ms, m.Networked) ↔ e.Announces r)) := by
  have hnothing : Creations r [] ∧ ¬ ∃ m ∈ ([] : List Message), m.Networked :=
    ⟨fun _ hm => absurd hm List.not_mem_nil, by simp⟩
  cases e with
  | createNetworkedEntity stack info spawnInfo sound =>
      obtain ⟨ms, hairs, hcreations⟩ := createNetworkedEntity_airs hs sound (after_eq_some hstep)
      exact ⟨ms, hairs, fun _ => hcreations⟩
  | update =>
      obtain ⟨ms, hairs, hnone, _⟩ := update_airs hs hvacant (after_eq_some hstep)
      refine ⟨ms, hairs, fun hserver => ?_⟩
      rw [hnone hserver]
      exact ⟨hnothing.1, iff_of_false hnothing.2 not_false⟩
  | request stack hooks c data receivedAt =>
      rw [serverStep] at hstep
      split at hstep
      · next p hp =>
        obtain ⟨hwire, hunread, _, hmessage⟩ := Session.onClientDataReceived_ok hp
        split at hstep
        · next htype =>
          have hrun := after_eq_some hstep
          rcases htype with htype | htype
          · obtain ⟨info, spawnInfo, hm⟩ := Session.creation_of_served htype hrun
            obtain ⟨ms, hairs, hcreations, hnetworked⟩ :=
              serverHandler_creation_airs hs htype hm hrun
            refine ⟨ms, hairs, fun _ => ⟨hcreations, hnetworked.trans ?_⟩⟩
            rw [hmessage] at hm
            constructor
            · exact fun h => ⟨info, spawnInfo, hm, h⟩
            · rintro ⟨info', spawnInfo', hm', h⟩
              rw [hm] at hm'
              cases hm'
              exact h
          · obtain ⟨ms, hairs, hnone⟩ :=
              serverHandler_deletion_airs hs hvacant hwire hunread htype hrun
            refine ⟨ms, hairs, fun hserver => ?_⟩
            rw [hnone hserver]
            refine ⟨hnothing.1, iff_of_false hnothing.2 ?_⟩
            rintro ⟨info, spawnInfo, hm, _⟩
            rw [← hmessage] at hm
            rw [type_of_creation hm] at htype
            cases htype
        · cases hstep
      · cases hstep

theorem Vacant.of_airs {ms : List Message} (hrole : s.role = .server) (h : s.Vacant)
    (hairs : Airs ms s s') : s'.Vacant := by
  intro id
  rw [hairs.ignored hrole id]
  exact h id

/-- **Whole runs.** -/
theorem run_airs {es : List ServerEvent} (hs : Serving r s)
    (hvacant : s.role = .server → s.Vacant) (hrun : Runs.run serverStep s es = some s') :
    ∃ ms, Airs ms s s' ∧ (s.role = .server → Creations r ms ∧
      ((∃ m ∈ ms, m.Networked) ↔ ∃ e ∈ es, e.Announces r)) := by
  induction es generalizing s with
  | nil =>
      cases hrun
      exact ⟨[], Airs.nil hs.kept, fun _ => ⟨fun _ hm => absurd hm List.not_mem_nil, by simp⟩⟩
  | cons e es ih =>
      obtain ⟨t, hstep, hrest⟩ := Runs.run_cons_some hrun
      obtain ⟨ms, hairs, hone⟩ := serverStep_airs hs hvacant hstep
      have hsame : s.role = .server → t.role = .server := hairs.frame.role_eq.trans
      obtain ⟨more, hairs', hothers⟩ := ih (hs.of_airs hairs)
        (fun hserver => by
          have hrole : s.role = .server := hairs.frame.role_eq.symm.trans hserver
          exact (hvacant hrole).of_airs hrole hairs) hrest
      refine ⟨ms ++ more, hairs.trans hairs', fun hserver => ?_⟩
      obtain ⟨hcreations, hnetworked⟩ := hone hserver
      obtain ⟨hcreations', hnetworked'⟩ := hothers (hsame hserver)
      refine ⟨hcreations.append hcreations', ?_⟩
      rw [networked_append, hnetworked, hnetworked']
      simp only [List.mem_cons, exists_eq_or_imp]

theorem serving_fresh {role : Role} {connected : List ClientID} (hrole : role ≠ .client)
    (hnodup : connected.Nodup) : Serving r (fresh role r connected) where
  role_ne := hrole
  nodup := hnodup
  networkReady := rfl
  registry_eq := rfl
  kept := {
    localID_neg := by
      change (-1 : EntityID) < 0
      decide
    ID_pos := by
      change (0 : EntityID) < 1
      decide
    stored := fun id ent hent => by simp [fresh] at hent }

/-- What has been heard is what the messages tell. -/
theorem announced_eq {ps : List Packet} {ms : List Message} (h : ps.map said = ms.map .ok)
    (id : EntityID) : announced ps id = ms.foldl (Message.tell id) none := by
  rw [announced, h, List.foldl_map]
  rfl

/-- Where nothing is deleted, what has been created stays known. -/
theorem isSome_tell {ms : List Message} (h : Creations r ms) {id : EntityID}
    {known : Option EntityInfo} (hknown : known.isSome ∨
      ∃ info spawnInfo, Message.creation info spawnInfo ∈ ms ∧ info.ID = id) :
    (ms.foldl (Message.tell id) known).isSome := by
  induction ms generalizing known with
  | nil =>
      rcases hknown with hknown | ⟨info, spawnInfo, hm, _⟩
      · exact hknown
      · cases hm
  | cons m ms ih =>
      obtain ⟨info, spawnInfo, rfl, _⟩ := h m List.mem_cons_self
      rw [List.foldl_cons, Message.tell]
      apply ih fun m hm => h m (List.mem_cons_of_mem _ hm)
      by_cases hid : info.ID = id
      · exact Or.inl (by rw [if_pos hid]; rfl)
      · rw [if_neg hid]
        refine hknown.imp_right ?_
        rintro ⟨info', spawnInfo', hm, hid'⟩
        rcases List.mem_cons.mp hm with heq | hm
        · cases heq
          exact absurd hid' hid
        · exact ⟨info', spawnInfo', hm, hid'⟩

/-- Where no networked entity is created, none is known. -/
theorem tell_eq_none {ms : List Message} (h : Creations r ms) (hnone : ¬ ∃ m ∈ ms, m.Networked)
    {id : EntityID} (hid : 0 < id) : ms.foldl (Message.tell id) none = none := by
  induction ms with
  | nil => rfl
  | cons m ms ih =>
      obtain ⟨info, spawnInfo, rfl, _⟩ := h m List.mem_cons_self
      have hne : info.ID ≠ id := by
        rintro rfl
        exact hnone ⟨_, List.mem_cons_self, hid⟩
      rw [List.foldl_cons, Message.tell, if_neg hne]
      exact ih (fun m hm => h m (List.mem_cons_of_mem _ hm))
        fun ⟨m, hm, hnetworked⟩ => hnone ⟨m, List.mem_cons_of_mem _ hm, hnetworked⟩

/-- **What the server knows.**  After `Scenegraph::update` the networked entities in the
server's scenegraph are those that it has announced exactly when it is a listen server, or
no networked entity has been announced. -/
theorem known_iff {role : Role} {registry : Registry} {connected : List ClientID}
    {es : List ServerEvent} {t : Process} (hrole : role ≠ .client) (hnodup : connected.Nodup)
    (hrun : Runs.run serverStep (fresh role registry connected) (es ++ [.update]) = some t) :
    t.KnowsAnnounced ↔ role = .host ∨ ∀ e ∈ es, ¬ e.Announces registry := by
  have hs := serving_fresh (r := registry) hrole hnodup
  have hempty : (fresh role registry connected).Vacant := fun id => by simp [fresh]
  rw [Runs.run_append] at hrun
  obtain ⟨s, hbefore, hrun⟩ := Option.bind_eq_some_iff.mp hrun
  obtain ⟨_, hlast, hend⟩ := Runs.run_cons_some hrun
  cases hend
  obtain ⟨ms, hairs, hcreations⟩ := run_airs hs (fun _ => hempty) hbefore
  obtain ⟨more, hairs', hnone, hheld⟩ := update_airs (hs.of_airs hairs)
    (fun hserver => hempty.of_airs (hairs.frame.role_eq.symm.trans hserver) hairs)
    (after_eq_some hlast)
  have hall := hairs.trans hairs'
  obtain ⟨ps, hps, hsaid⟩ := hall.log
  have hannounced : ∀ id, announced t.broadcasts id =
      (ms ++ more).foldl (Message.tell id) none := by
    intro id
    rw [hps]
    exact announced_eq hsaid id
  cases role with
  | client => exact absurd rfl hrole
  | host =>
      refine iff_of_true ?_ (Or.inl rfl)
      intro id hid
      rw [hheld, hall.followed rfl id hid, hannounced]
      have hlive : (fresh .host registry connected).scene.live id = none := by
        rw [Scenegraph.live, hempty id]
        rfl
      rw [hlive]
  | server =>
      have hvacant : ∀ id, t.scene.held id = none := by
        intro id
        rw [Scenegraph.held, hempty.of_airs rfl hall id]
        rfl
      have hmore : more = [] := hnone hairs.frame.role_eq
      rw [hmore, List.append_nil] at hannounced
      obtain ⟨hcreations, hnetworked⟩ := hcreations rfl
      rw [or_iff_right (by simp)]
      constructor
      · intro hknows e he hannounces
        obtain ⟨m, hm, hpos⟩ := hnetworked.mpr ⟨e, he, hannounces⟩
        obtain ⟨info, spawnInfo, rfl, _⟩ := hcreations m hm
        have hsome : (ms.foldl (Message.tell info.ID) none).isSome :=
          isSome_tell hcreations (Or.inr ⟨info, spawnInfo, hm, rfl⟩)
        rw [← hannounced, ← hknows info.ID hpos, hvacant] at hsome
        cases hsome
      · intro hall id hid
        rw [hvacant, hannounced, tell_eq_none hcreations ?_ hid]
        intro h
        obtain ⟨e, he, hannounces⟩ := hnetworked.mp h
        exact hall e he hannounces

/-- Game code creates an entity. -/
def oneEntity : List ServerEvent :=
  [.createNetworkedEntity 5 (Sample.info 0 0) (ofHeader {}) Sample.child.sound]

theorem known_iff_host :
    ∃ t, Runs.run serverStep (fresh .host Sample.registry [2]) (oneEntity ++ [.update]) = some t ∧
      t.KnowsAnnounced := by
  have hsome : (Runs.run serverStep (fresh .host Sample.registry [2])
      (oneEntity ++ [.update])).isSome := by decide +kernel
  obtain ⟨t, ht⟩ := Option.isSome_iff_exists.mp hsome
  exact ⟨t, ht, (known_iff (by decide) (by decide) ht).mpr (Or.inl rfl)⟩

/-- **A dedicated server does not know what it has announced.** -/
theorem announced_unknown :
    ∃ t, Runs.run serverStep (fresh .server Sample.registry [2]) (oneEntity ++ [.update]) = some t ∧
      ¬ t.KnowsAnnounced := by
  have hany : (Runs.run serverStep (fresh .server Sample.registry [2]) (oneEntity ++ [.update])).any
      (fun t => announced t.broadcasts 1 = some (Sample.info 1 1) ∧
        t.scene.held 1 = none) = true := by
    decide +kernel
  obtain ⟨t, hrun, ht⟩ := (Option.any_eq_true _ _).mp hany
  obtain ⟨hannounced, hheld⟩ := of_decide_eq_true ht
  refine ⟨t, hrun, fun hknows => ?_⟩
  rw [hknows 1 (by decide), hannounced] at hheld
  cases hheld

end Process

end EnkiNet
