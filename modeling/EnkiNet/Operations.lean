import EnkiNet.Moves

/-!
# The operations of a process are moves

One lemma `…_moves` for each operation of the library: from a process that is ready, a
successful call makes moves of the policy only and leaves the process ready.  The
interesting cases are `createNetworkedEntity`, which recurses over child types, and
`serverHandler`, which acts on whatever a client has sent.
-/

namespace EnkiNet

open ByteStore Packet

namespace Process

/-- The operation, if it succeeds, makes moves only. -/
abbrev Moving (π : Policy) (reserved : EntityID → Prop) {α : Type} (x : ProcessM α) : Prop :=
  Fallible.Moves (Ready π reserved) (Move π) x

/-- The operation, if it succeeds, leaves the networked entities as they are. -/
abbrev Talking (π : Policy) (reserved : EntityID → Prop) {α : Type} (x : ProcessM α) : Prop :=
  Fallible.Moves (Ready π reserved) (Talk π) x

section
variable {π : Policy} {reserved : EntityID → Prop}

/-- Talking is moving. -/
theorem moves_of_talks {s s' : Process} (h : Relation.ReflTransGen (Talk π) s s') :
    Relation.ReflTransGen (Move π) s s' :=
  Relation.ReflTransGen.mono (fun _ _ htalk => Talk.move htalk) _ _ h

/-- Moves leave the rest of the process alone. -/
theorem frame_of_moves {s s' : Process} (h : Relation.ReflTransGen (Move π) s s') :
    Frame s s' := by
  induction h with
  | refl => exact Frame.refl s
  | tail _ hlast ih => exact ih.trans hlast.frame

/-- A single move that announces nothing. -/
theorem Ready.move_quiet {s s' : Process} (hs : Ready π reserved s) (h : Quiet π s s') :
    Move π s s' ∧ Ready π reserved s' := by
  refine ⟨.quiet h, hs.move (.quiet h) ?_⟩
  intro _ info held hmem _
  obtain ⟨new, hnew, hidle⟩ := h.effects
  rw [hnew] at hmem
  rcases List.mem_append.mp hmem with hold | hmem
  · exact hold
  · exact absurd rfl ((hidle _ hmem).ne_announce info held)

/-- A client may move by asking for what the policy lets it ask for. -/
theorem Ready.move_request {m : Message} {s s' : Process} (hs : Ready π reserved s)
    (hrole : s.role = .client) (hasks : π.Asks s.id m) (h : Requested m s s') :
    Move π s s' ∧ Ready π reserved s' := by
  refine ⟨.request m hrole hasks h, hs.move (.request m hrole hasks h) ?_⟩
  intro _ info held hmem _
  rwa [h.effects_eq] at hmem

/-- A quiet step is talk. -/
theorem Ready.talk_quiet {s s' : Process} (hs : Ready π reserved s) (h : Quiet π s s') :
    Talk π s s' ∧ Ready π reserved s' :=
  ⟨.quiet h, (hs.move_quiet h).2⟩

theorem Ready.talk_request {m : Message} {s s' : Process} (hs : Ready π reserved s)
    (hrole : s.role = .client) (hm : m.Talks) (hasks : π.Asks s.id m) (h : Requested m s s') :
    Talk π s s' ∧ Ready π reserved s' :=
  ⟨.request m hrole hm hasks h, (hs.move_request hrole hasks h).2⟩

/-- A host may move by telling what the policy lets the sender tell. -/
theorem Ready.move_relay {origin : ClientID} {who : ClientID → Prop} {m : Message}
    {s s' : Process} (hs : Ready π reserved s) (hrole : s.role = .host) (hm : m.Relayed)
    (htells : π.Tells origin m)
    (hall : ∀ id, m = .deletion id → ∀ c, who c) (h : Broadcast origin who m s s') :
    Move π s s' ∧ Ready π reserved s' := by
  have hmove : Move π s s' := .relay origin who m hrole hm htells hall h
  refine ⟨hmove, hs.move hmove ?_⟩
  intro _ info held hmem _
  obtain ⟨new, u, _, hnew, hcaused⟩ := h.effects
  rw [hnew] at hmem
  rcases List.mem_append.mp hmem with hold | hmem
  · exact hold
  · exact absurd rfl ((hcaused _ hmem).ne_announce info held)

theorem Ready.talk_relay {origin : ClientID} {who : ClientID → Prop} {m : Message}
    {s s' : Process} (hs : Ready π reserved s) (hrole : s.role = .host) (hm : m.Talks)
    (htells : π.Tells origin m) (h : Broadcast origin who m s s') :
    Talk π s s' ∧ Ready π reserved s' :=
  ⟨.relay origin who m hrole hm htells h, (hs.move_relay hrole hm.relayed htells
    (fun id hdeletion => absurd hdeletion (hm.ne_deletion id)) h).2⟩

/-! ### Creating networked entities -/

/-- A move that announces an id that is not reserved. -/
theorem Ready.move_announce {info : EntityInfo} {spawnInfo : Packet} {s s' : Process}
    (hs : Ready π reserved s) (hrole : s.role = .host)
    (hcreatable : Creatable s.scene.registry info) (htells : π.Tells 1 (.creation info spawnInfo))
    (hfresh : π.Strict → info.ID < s.scene.ID ∧ Unannounced s info.ID)
    (hfree : π.Strict → ¬ reserved info.ID)
    (h : Broadcast 1 (fun _ => true) (.creation info spawnInfo)
      { s with effects := s.effects ++ [.announce info (s.scene.held info.ID)] } s') :
    Move π s s' ∧ Ready π reserved s' := by
  have hmove : Move π s s' :=
    .announce info spawnInfo _ hrole hcreatable htells hfresh rfl h
  refine ⟨hmove, hs.move hmove ?_⟩
  intro hstrict other held hmem hreserved
  obtain ⟨new, u, _, hnew, hcaused⟩ := h.effects
  rw [hnew] at hmem
  rcases List.mem_append.mp hmem with hold | hmem
  · rcases List.mem_append.mp hold with hold | hself
    · exact hold
    · cases List.mem_singleton.mp hself
      exact absurd hreserved (hfree hstrict)
  · exact absurd rfl ((hcaused _ hmem).ne_announce other held)

/-- What `sendCreation` does when it goes through: once networking is enabled a client asks for the
entity, and a server announces it. -/
inductive CreationSent (sent : EntityInfo) (spawnInfo : Packet) (s : Process) : Process → Prop
  | offline (hready : ¬ s.scene.networkReady) : CreationSent sent spawnInfo s s
  | request {p q : Packet} {s' : Process} (hready : s.scene.networkReady) (hrole : s.role = .client)
      (hmeans : Says p (.creation sent (received spawnInfo.bytes)))
      (hsend : sendToServer p s = (.ok q, s')) : CreationSent sent spawnInfo s s'
  | announce {p : Packet} {s' : Process} (hready : s.scene.networkReady) (hrole : s.role ≠ .client)
      (hmeans : Says p (.creation sent (received spawnInfo.bytes)))
      (hsend : sendPacketToAllClients s.ownID p { s with
        effects := s.effects ++ [.announce sent (s.scene.held sent.ID)] } = (.ok (), s')) :
      CreationSent sent spawnInfo s s'

/-- What is sent is the info, with an owner. -/
theorem sendCreation_ok {info : EntityInfo} {spawnInfo : Packet} {s s' : Process}
    (hsound : spawnInfo.Sound) (h : sendCreation info spawnInfo s = (.ok (), s')) :
    ∃ sent : EntityInfo, sent.ID = info.ID ∧ (∀ r, Creatable r info → Creatable r sent) ∧
      CreationSent sent spawnInfo s s' := by
  rw [sendCreation, Fallible.bind_get] at h
  set sent : EntityInfo :=
    if info.ownerID = 0 ∧ s.scene.networkReady then { info with ownerID := s.ownID } else info
    with hsent
  refine ⟨sent, ?_, fun r hcreatable => ?_, ?_⟩
  · rw [hsent]
    split <;> rfl
  · rw [hsent]
    split <;> exact hcreatable
  by_cases hready : s.scene.networkReady
  · rw [if_pos hready] at h
    obtain ⟨_, p, hinfo, h⟩ := bind_onPacket_ok h
    obtain ⟨_, q, hspawn, h⟩ := bind_onPacket_ok h
    dsimp only at h
    have hmeans := says_creation hsound hinfo hspawn
    by_cases hrole : s.role = .client
    · rw [if_pos hrole] at h
      obtain ⟨_, t, hsend, h⟩ := Fallible.bind_eq_ok h
      cases h
      exact .request hready hrole hmeans hsend
    · rw [if_neg hrole, record, Fallible.bind_modify] at h
      exact .announce hready hrole hmeans h
  · rw [if_neg hready] at h
    cases h
    exact .offline hready

/-- Announcing a creation is one move. -/
theorem sendCreation_moves {info : EntityInfo} {spawnInfo : Packet} {s s' : Process}
    (hs : Ready π reserved s) (hsound : spawnInfo.Sound)
    (hcreatable : Creatable s.scene.registry info)
    (hclient : s.role = .client → info.ID = 0 ∨ π.chosen info.ID)
    (hhost : s.role = .host → 0 < info.ID ∨ (info.ID ≠ 0 ∧ π.chosen info.ID))
    (hfresh : s.role = .host → π.Strict → info.ID < s.scene.ID ∧ Unannounced s info.ID)
    (hfree : s.role = .host → π.Strict → ¬ reserved info.ID)
    (hrun : sendCreation info spawnInfo s = (.ok (), s')) :
    Relation.ReflTransGen (Move π) s s' ∧ Ready π reserved s' := by
  obtain ⟨sent, hID, hsent, hcreation⟩ := sendCreation_ok hsound hrun
  cases hcreation with
  | offline hready => exact ⟨.refl, hs⟩
  | request hready hrole hmeans hsend =>
      have hasks : π.Asks s.id (.creation sent (received spawnInfo.bytes)) := by
        rw [Policy.Asks, hID]
        exact hclient hrole
      obtain ⟨hmove, hready⟩ := hs.move_request hrole hasks (sendToServer_ok hmeans hsend)
      exact ⟨.single hmove, hready⟩
  | announce hready hrole hmeans hsend =>
      replace hrole : s.role = .host := hs.role_eq_host hrole
      have hown : s.ownID = 1 := by
        rw [ownID, if_neg (by rw [hrole]; simp), hs.host_id hrole]
      rw [hown] at hsend
      have hcast := sendPacketToAllClients_ok (by exact hs.nodup) hmeans hsend
      have htells : π.Tells 1 (.creation sent (received spawnInfo.bytes)) := by
        rw [Policy.Tells, hID]
        exact hhost hrole
      obtain ⟨hmove, hready⟩ := hs.move_announce hrole (hsent _ hcreatable) htells
        (by rw [hID]; exact hfresh hrole) (by rw [hID]; exact hfree hrole) hcast
      exact ⟨.single hmove, hready⟩

/-- Handing out an id reserves it for its entity. -/
theorem nextID_moves {s s' : Process} {id : EntityID} (hs : Ready π reserved s)
    (hrun : nextID s = (.ok id, s')) :
    Move π s s' ∧ Ready π (fun k => reserved k ∨ k = id) s' ∧ 0 < id ∧
      (π.Strict → ¬ reserved id) := by
  obtain ⟨hmax, rfl, rfl⟩ := nextID_ok hrun
  have hmove : Move π s { s with scene := { s.scene with ID := s.scene.ID + 1 } } :=
    .allocate hmax rfl
  have hready := hs.move hmove fun _ _ _ hmem _ => hmem
  refine ⟨hmove, { hready with reserved_lt := ?_ }, hs.kept.ID_pos, ?_⟩
  · rintro hstrict k (hk | rfl)
    · exact hready.reserved_lt hstrict k hk
    · refine ⟨lt_add_one hmax, ?_⟩
      intro info held hmem
      exact Int32.ne_of_lt (hs.announced_lt hstrict info held hmem)
  · intro hstrict hk
    exact Int32.lt_irrefl (hs.reserved_lt hstrict _ hk).1

/-- An entity is announced, and then its children are made. -/
theorem createFamily_moves {create : EntityInfo → Packet → ProcessM Unit} {info : EntityInfo}
    {spawnInfo : Packet} {s s' : Process} (hs : Ready π reserved s)
    (hcreate : ∀ info spawnInfo, spawnInfo.Sound → info.ID = 0 →
      Moving π reserved (create info spawnInfo))
    (hrun : createFamily create info spawnInfo s = (.ok (), s')) :
    ∃ t, Relation.ReflTransGen (Move π) s t ∧ Ready π reserved t ∧
      sendCreation info spawnInfo t = (.ok (), s') := by
  rw [createFamily, Fallible.bind_get] at hrun
  obtain ⟨_, t, hloop, hrun⟩ := Fallible.bind_eq_ok hrun
  have hchildren :=
    Fallible.Moves.forEach fun child (_ : child ∈ s.scene.registry.childTypes info.type) =>
    hcreate
      { type := child.type
        name := child.name
        ID := 0
        ownerID := info.ownerID
        parentID := info.ID }
      child.spawnInfo child.sound rfl
  obtain ⟨hpath, ht⟩ := hchildren s _ t hs hloop
  exact ⟨t, hpath, ht, hrun⟩

/-- **`createNetworkedEntity` announces fresh ids only, unless the policy lets requests
choose.**  By induction on the depth of the child types; the id of the parent is
reserved while its children are created. -/
theorem createNetworkedEntity_moves (stack : Nat) :
    ∀ (reserved : EntityID → Prop) (info : EntityInfo) (spawnInfo : Packet), spawnInfo.Sound →
      (info.ID = 0 ∨ π.chosen info.ID) →
      Moving π reserved (createNetworkedEntity stack info spawnInfo) := by
  induction stack with
  | zero =>
      intro reserved info spawnInfo _ _
      exact Fallible.Moves.fail _
  | succ stack ih =>
      intro reserved info spawnInfo hsound hchosen s _ s' hs hrun
      rw [createNetworkedEntity, Fallible.bind_get] at hrun
      split at hrun
      · cases hrun
        exact ⟨.refl, hs⟩
      next hcan =>
      have hcreatable : Creatable s.scene.registry info := by
        rw [not_or, not_not] at hcan
        exact ⟨hcan.1, Option.isSome_iff_ne_none.mpr hcan.2⟩
      split at hrun
      · next hnew =>
        obtain ⟨id, t, hid, hrun⟩ := Fallible.bind_eq_ok hrun
        obtain ⟨hmove, ht, hpos, hfree⟩ := nextID_moves hs hid
        obtain ⟨u, hpath, hu, hrun⟩ := createFamily_moves ht
          (fun info spawnInfo hsound hzero => ih _ info spawnInfo hsound (Or.inl hzero)) hrun
        have hframe := (hmove.frame).trans (frame_of_moves hpath)
        have hcreatable' : Creatable u.scene.registry { info with ID := id } := by
          rw [hframe.registry_eq]
          exact ⟨hcreatable.1, hcreatable.2⟩
        have hlast := sendCreation_moves (hu.weaken fun k => Or.inl) hsound hcreatable'
          (fun hrole => absurd (hframe.role_eq.symm.trans hrole) hnew.1)
          (fun _ => Or.inl hpos)
          (fun _ hstrict => hu.reserved_lt hstrict id (Or.inr rfl))
          (fun _ => hfree) hrun
        exact ⟨(hpath.head hmove).trans hlast.1, hlast.2⟩
      · next hold =>
        obtain ⟨u, hpath, hu, hrun⟩ := createFamily_moves hs
          (fun info spawnInfo hsound hzero => ih _ info spawnInfo hsound (Or.inl hzero)) hrun
        have hframe := frame_of_moves hpath
        have hID : u.role = .host → info.ID ≠ 0 ∧ π.chosen info.ID := by
          intro hrole
          have hne : info.ID ≠ 0 := by
            intro hzero
            refine hold ⟨?_, hzero⟩
            rw [← hframe.role_eq, hrole]
            simp
          exact ⟨hne, hchosen.resolve_left hne⟩
        have hlast := sendCreation_moves hu hsound (by rwa [hframe.registry_eq]) (fun _ => hchosen)
          (fun hrole => Or.inr (hID hrole))
          (fun hrole hstrict => absurd (hID hrole).2 (hstrict _))
          (fun hrole hstrict => absurd (hID hrole).2 (hstrict _)) hrun
        exact ⟨hpath.trans hlast.1, hlast.2⟩

/-! ### Local changes -/

/-- A change of the scene that no networked entity notices. -/
theorem quiet_scene {s : Process} {g : Scenegraph} (hregistry : g.registry = s.scene.registry)
    (hready : g.networkReady = s.scene.networkReady) (hcounter : g.ID = s.scene.ID)
    (hlocal : g.localID = s.scene.localID)
    (hheld : ∀ id, g.held id = s.scene.held id ∨ g.held id = none)
    (hlive : Kept s.scene → ∀ id, 0 < id → g.live id = s.scene.live id) :
    Quiet π s { s with scene := g } where
  frame := ⟨rfl, rfl, rfl, hregistry, hready⟩
  kept h := {
    localID_neg := hlocal ▸ h.localID_neg
    ID_pos := hcounter ▸ h.ID_pos
    stored := by
      intro id ent hent
      have hsome : g.held id = some ent.info := by rw [Scenegraph.held, hent, Option.map_some]
      rcases hheld id with heq | hnone
      · rw [hregistry]
        exact h.of_held (heq ▸ hsome)
      · rw [hnone] at hsome
        cases hsome }
  outbox_eq := rfl
  counter_eq := hcounter
  live_eq := hlive
  held_eq _ id _ := hheld id
  effects := ⟨[], by simp, by simp⟩

/-- Effects that need no other process. -/
theorem quiet_effects {s : Process} {new : List Effect} (hnew : ∀ e ∈ new, Idle π s e) :
    Quiet π s { s with effects := s.effects ++ new } where
  frame := ⟨rfl, rfl, rfl, rfl, rfl⟩
  kept h := h
  outbox_eq := rfl
  counter_eq := rfl
  live_eq _ _ _ := rfl
  held_eq _ _ _ := Or.inl rfl
  effects := ⟨new, rfl, hnew⟩

/-- Marking a local entity is nobody else's business. -/
theorem quiet_flag {s : Process} (id : EntityID) (hid : Kept s.scene → id < 0) :
    Quiet π s { s with scene := s.scene.flag id } := by
  refine quiet_scene rfl rfl rfl rfl (fun k => Or.inl (Scenegraph.held_flag _ _ _)) ?_
  intro hkept k hk
  rw [Scenegraph.live_flag, if_neg (Int32.ne_of_lt (Int32.lt_trans (hid hkept) hk))]

/-- Erasing what is marked changes nothing that lives. -/
theorem quiet_eraseFlagged (s : Process) :
    Quiet π s { s with scene := s.scene.eraseFlagged } := by
  refine quiet_scene rfl rfl rfl rfl ?_ fun _ id _ => Scenegraph.live_eraseFlagged _ _
  intro id
  rw [Scenegraph.held, Scenegraph.getElem?_eraseFlagged, Scenegraph.held]
  rcases s.scene.entities[id]? with _ | ent
  · exact Or.inl rfl
  · rcases hremove : ent.remove with _ | _
    · exact Or.inl (by simp [Option.filter, hremove])
    · exact Or.inr (by simp [Option.filter, hremove])

/-- A local entity that game code creates. -/
theorem createEntity_talks {info : EntityInfo} {spawnInfo : Packet} (hzero : info.ID = 0) :
    Talking π reserved (createEntity info spawnInfo) := by
  intro s r s' hs hrun
  rcases createEntity_ok hrun with ⟨_, rfl, _⟩ | ⟨ent, _, hcreated⟩
  · exact ⟨.refl, hs⟩
  have hlookup : Kept s.scene → ∀ id : EntityID, 0 < id →
      s'.scene.entities[id]? = s.scene.entities[id]? := by
    intro hkept id hid
    rw [hcreated.entities_eq, hcreated.info_eq, if_pos hzero]
    exact if_neg (Int32.ne_of_lt (Int32.lt_trans hkept.localID_neg hid))
  have hquiet : Quiet π s s' := by
    refine ⟨hcreated.frame, hcreated.kept, hcreated.outbox_eq, hcreated.counter_eq, ?_, ?_, ?_⟩
    · intro hkept id hid
      rw [Scenegraph.live, hlookup hkept id hid, Scenegraph.live]
    · intro hkept id hid
      refine Or.inl ?_
      rw [Scenegraph.held, hlookup hkept id hid, Scenegraph.held]
    · refine ⟨_, hcreated.effects_eq, ?_⟩
      intro e he
      cases List.mem_singleton.mp he
      refine Idle.onSpawn _ _ fun hkept => ?_
      rw [hcreated.info_eq]
      simp only [hzero, if_true]
      exact hkept.localID_neg
  obtain ⟨htalk, hready⟩ := hs.talk_quiet hquiet
  exact ⟨.single htalk, hready⟩

/-! ### Deleting entities -/

/-- What a deletion that goes through does: it marks the entity if that is local, and sends a packet
if it is networked. -/
inductive Deletion (id : EntityID) (ent : Entity) (s : Process) : Process → Prop
  | mark (hlocal : ent.info.ID < 0) : Deletion id ent s { s with scene := s.scene.flag id }
  | offline (hlocal : ¬ ent.info.ID < 0) (hready : ¬ s.scene.networkReady) : Deletion id ent s s
  | request {p q : Packet} {s' : Process} (hlocal : ¬ ent.info.ID < 0)
      (hready : s.scene.networkReady) (hrole : s.role = .client) (hmeans : Says p (.deletion id))
      (hsend : sendToServer p s = (.ok q, s')) : Deletion id ent s s'
  | announce {p : Packet} {s' : Process} (hlocal : ¬ ent.info.ID < 0)
      (hready : s.scene.networkReady) (hrole : s.role ≠ .client) (hmeans : Says p (.deletion id))
      (hsend : sendPacketToAllClients s.ownID p s = (.ok (), s')) : Deletion id ent s s'

/-- `deleteEntity` comes back for an entity of the table, marked and announced. -/
theorem deleteEntity_ok {id : EntityID} {s s' : Process} (h : deleteEntity id s = (.ok (), s')) :
    ∃ ent, s.scene.entities[id]? = some ent ∧ Deletion id ent s s' := by
  rw [deleteEntity, Fallible.bind_get] at h
  rcases hent : s.scene.entities[id]? with _ | ent
  · rw [hent] at h
    cases h
  rw [hent] at h
  dsimp only at h
  refine ⟨ent, rfl, ?_⟩
  by_cases hlocal : ent.info.ID < 0
  · rw [if_pos hlocal] at h
    cases h
    exact .mark hlocal
  rw [if_neg hlocal] at h
  by_cases hready : s.scene.networkReady
  · rw [if_pos hready] at h
    obtain ⟨_, p, hwrite, h⟩ := bind_onPacket_ok h
    dsimp only at h
    by_cases hrole : s.role = .client
    · rw [if_pos hrole] at h
      obtain ⟨_, t, hsend, h⟩ := Fallible.bind_eq_ok h
      cases h
      exact .request hlocal hready hrole (says_deletion hwrite) hsend
    · rw [if_neg hrole] at h
      exact .announce hlocal hready hrole (says_deletion hwrite) h
  · rw [if_neg hready] at h
    cases h
    exact .offline hlocal hready

/-- Deleting is moving. -/
theorem deleteEntity_moves (id : EntityID) : Moving π reserved (deleteEntity id) := by
  intro s _ s' hs hrun
  obtain ⟨ent, hent, hdeletion⟩ := deleteEntity_ok hrun
  cases hdeletion with
  | mark hlocal =>
      obtain ⟨hmove, hready⟩ := hs.move_quiet <| quiet_flag id fun hkept => by
        rw [← (hkept.stored id ent hent).1]
        exact hlocal
      exact ⟨.single hmove, hready⟩
  | offline hlocal hnet => exact ⟨.refl, hs⟩
  | request hlocal hnet hrole hmeans hsend =>
      obtain ⟨hmove, hready⟩ := hs.move_request (m := .deletion id) hrole trivial
        (sendToServer_ok hmeans hsend)
      exact ⟨.single hmove, hready⟩
  | announce hlocal hnet hrole hmeans hsend =>
      have hcast := sendPacketToAllClients_ok hs.nodup hmeans hsend
      obtain ⟨hmove, hready⟩ := hs.move_relay (m := .deletion id)
        (hs.role_eq_host hrole) trivial trivial
        (fun _ _ _ => rfl) hcast
      exact ⟨.single hmove, hready⟩

/-- Deleting the entities that have lost their parent. -/
theorem orphans_moves (entries : List (EntityID × Entity)) :
    Moving π reserved (Fallible.forEach entries fun (_, ent) => do
      let s ← Fallible.get
      if ent.info.parentID = 0 ∨ s.scene.entityExists ent.info.parentID then return ()
      else deleteEntity ent.info.ID) := by
  refine Fallible.Moves.forEach fun entry _ => Fallible.Moves.get ?_
  intro u _ u' hu hone
  split at hone
  · cases hone
    exact ⟨.refl, hu⟩
  · exact deleteEntity_moves _ u _ u' hu hone

/-- Clearing up is moving. -/
theorem update_moves : Moving π reserved update := by
  refine Fallible.Moves.get fun s _ s' hs hrun => ?_
  obtain ⟨_, t, hloop, hrun⟩ := Fallible.bind_eq_ok hrun
  obtain ⟨hpath, ht⟩ := orphans_moves s.scene.entities.toList s _ t hs hloop
  cases hrun
  obtain ⟨hmove, hready⟩ := ht.move_quiet (quiet_eraseFlagged (π := π) t)
  exact ⟨hpath.tail hmove, hready⟩

/-! ### Serving requests -/

/-- A packet from a client, as the server's handler gets it. -/
structure Arrived (π : Policy) (p : Packet) : Prop where
  unread : p.readCursor = ⟨headerSize, 8⟩
  faithful : ∀ m, messageOf p = .ok m → Says p m
  asks : ∀ m, messageOf p = .ok m → π.Asks p.info.senderID m
  /-- The server's own client writes its packets here. -/
  own : p.info.senderID = 1 → ∃ m, messageOf p = .ok m

/-- What is read of a packet that has arrived was said by its sender. -/
theorem Arrived.says_of_reads {p q : Packet} {α : Type} {x : PacketM α} {a : α} {m : Message}
    (hp : Arrived π p) (hx : Reads x) (hrun : x p = (.ok a, q)) (hm : messageOf p = .ok m) :
    Says q m ∧ q.info = p.info := by
  obtain ⟨r, c, hboth, _, _⟩ := hx p p ⟨rfl, rfl, rfl⟩
  rw [hrun] at hboth
  rw [(Prod.mk.inj hboth).2]
  exact ⟨(hp.faithful m hm).of_eq rfl rfl rfl, rfl⟩

/-- Relaying an update is talk. -/
theorem relay_talks {p : Packet} {m : Message} {sender : ClientID} {s s' : Process}
    (hs : Ready π reserved s) (hrole : s.role = .host) (hp : Says p m) (hm : m.Talks)
    (hasks : π.Asks sender m)
    (hrun : sendPacketToAllExceptOneClient sender sender p s = (.ok (), s')) :
    Relation.ReflTransGen (Talk π) s s' ∧ Ready π reserved s' := by
  have hcast := sendPacketToAllExceptOneClient_ok hs.nodup hp hrun
  obtain ⟨htalk, hready⟩ := hs.talk_relay hrole hm (hasks.tells hm.relayed) hcast
  exact ⟨.single htalk, hready⟩

/-- Routing a call is talk. -/
theorem routeRPC_talks {p : Packet} {s s' : Process} (hp : Arrived π p)
    (htype : p.header.type = .entityRpc) (hrole : s.role = .host) (hs : Ready π reserved s)
    (hrun : routeRPC p s = (.ok (), s')) :
    Relation.ReflTransGen (Talk π) s s' ∧ Ready π reserved s' := by
  rw [routeRPC] at hrun
  obtain ⟨info, q, hinfo, hrun⟩ := bind_onPacket_ok hrun
  obtain ⟨name, r, hname, hrun⟩ := bind_onPacket_ok hrun
  dsimp only at hrun
  rw [Fallible.bind_get] at hrun
  have hm : messageOf p = .ok (.rpc info) := by
    rw [messageOf, htype, readMessage, Fallible.bind_ok hinfo]
    rfl
  have hboth : (do let i ← getEntityInfo; let n ← getString; pure (i, n) : PacketM _) p =
      (.ok (info, name), r) := by
    rw [Fallible.bind_ok hinfo, Fallible.bind_ok hname]
    rfl
  have hreads : Reads (do let i ← getEntityInfo; let n ← getString; pure (i, n)) :=
    reads_getEntityInfo.bind fun _ => reads_getString.bind fun _ => Reads.pure _
  obtain ⟨hmeans, hsender⟩ := hp.says_of_reads hreads hboth hm
  have hasks : π.Asks r.info.senderID (.rpc info) := trivial
  have hothers : ∀ t, sendPacketToAllExceptOneClient r.info.senderID r.info.senderID r s =
      (.ok (), t) → Relation.ReflTransGen (Talk π) s t ∧ Ready π reserved t :=
    fun t => relay_talks hs hrole hmeans trivial hasks
  rcases hrpc : s.scene.registry.entityRpcs info.type name with _ | rpc
  · rw [hrpc] at hrun
    cases hrun
  rw [hrpc] at hrun
  rcases hent : s.scene.entities[info.ID]? with _ | ent
  · rw [hent] at hrun
    cases hrun
    exact ⟨.refl, hs⟩
  rw [hent] at hrun
  dsimp only at hrun
  by_cases heq : info = ent.info
  · rw [if_pos heq] at hrun
    cases htype : rpc.rpctype with
    | onlyLocal =>
        rw [htype] at hrun
        cases hrun
        exact ⟨.refl, hs⟩
    | master =>
        rw [htype] at hrun
        dsimp only at hrun
        split at hrun
        · cases hrun
          exact ⟨.refl, hs⟩
        · have hcast := sendPacketToOneClient_ok hs.not_connected hmeans hrun
          obtain ⟨htalk, hready⟩ := hs.talk_relay (m := .rpc info) hrole trivial trivial hcast
          exact ⟨.single htalk, hready⟩
    | remote =>
        rw [htype] at hrun
        dsimp only at hrun
        split at hrun
        · exact hothers s' hrun
        · cases hrun
          exact ⟨.refl, hs⟩
    | remoteAndLocal =>
        rw [htype] at hrun
        dsimp only at hrun
        split at hrun
        · exact hothers s' hrun
        · cases hrun
          exact ⟨.refl, hs⟩
    | masterAndRemote =>
        rw [htype] at hrun
        exact hothers s' hrun
    | all =>
        rw [htype] at hrun
        exact hothers s' hrun
  · rw [if_neg heq] at hrun
    cases hrun
    exact ⟨.refl, hs⟩

/-- What the local client of a listen server has handled can be read. -/
theorem readable_of_relayed {p : Packet} {origin excluded : ClientID} {s s' : Process}
    (hrole : s.role = .host) (hexcluded : excluded ≠ 1) (hp : p.readCursor = ⟨headerSize, 8⟩)
    (hrun : sendPacketToAllExceptOneClient origin excluded p s = (.ok (), s')) :
    ∃ m, messageOf p = .ok m := by
  rw [sendPacketToAllExceptOneClient, Fallible.bind_get, bind_stamp] at hrun
  obtain ⟨_, t, _, hrun⟩ := Fallible.bind_eq_ok hrun
  rw [if_pos ⟨hrole, hexcluded⟩, loopback, Fallible.bind_get] at hrun
  obtain ⟨m, hm, _⟩ := clientHandler_ok hrun
  refine ⟨m, ?_⟩
  rw [messageOf_info, messageOf_stamped, resetReadPosition_of_unread hp] at hm
  exact hm

/-- What the server's handler does with updates and calls. -/
theorem serverHandler_talks {stack : Nat} {hook : EntityID → List WriteOp} {p : Packet}
    {s s' : Process} (hp : Arrived π p)
    (htype : p.header.type = .entityUpdate ∨ p.header.type = .entityRpc)
    (hrole : s.role = .host) (hs : Ready π reserved s)
    (hrun : serverHandler stack hook p s = (.ok (), s')) :
    Relation.ReflTransGen (Talk π) s s' ∧ Ready π reserved s' := by
  rcases htype with htype | htype
  · simp only [serverHandler, htype] at hrun
    have hread : ∃ m, messageOf p = .ok m := by
      by_cases hone : p.info.senderID = 1
      · exact hp.own hone
      · exact readable_of_relayed hrole hone hp.unread hrun
    obtain ⟨m, hm⟩ := hread
    have hupdate : ∃ info, m = .update info := by
      rw [messageOf, htype, readMessage] at hm
      rcases hinfo : getEntityInfo p with ⟨_ | info, q⟩
      · rw [Fallible.bind_error hinfo] at hm
        cases hm
      · rw [Fallible.bind_ok hinfo] at hm
        exact ⟨info, (Except.ok.inj hm).symm⟩
    obtain ⟨info, rfl⟩ := hupdate
    exact relay_talks hs hrole (hp.faithful _ hm) trivial (hp.asks _ hm) hrun
  · simp only [serverHandler, htype] at hrun
    exact routeRPC_talks hp htype hrole hs hrun

/-- **The server's handler, for everything but connections.** -/
theorem serverHandler_moves {stack : Nat} {hook : EntityID → List WriteOp} {p : Packet}
    {s s' : Process} (hp : Arrived π p) (htype : p.header.type ≠ .connected)
    (hrole : s.role = .host) (hs : Ready π reserved s)
    (hrun : serverHandler stack hook p s = (.ok (), s')) :
    Relation.ReflTransGen (Move π) s s' ∧ Ready π reserved s' := by
  cases hcase : p.header.type with
  | entityCreation =>
      simp only [serverHandler, hcase] at hrun
      obtain ⟨info, q, hinfo, hrun⟩ := bind_onPacket_ok hrun
      obtain ⟨spawnInfo, r, hspawn, hrun⟩ := bind_onPacket_ok hrun
      have hm : messageOf p = .ok (.creation info spawnInfo) := by
        rw [messageOf, hcase, readMessage, Fallible.bind_ok hinfo, Fallible.bind_ok hspawn]
        rfl
      have hasks : info.ID = 0 ∨ π.chosen info.ID := hp.asks _ hm
      exact createNetworkedEntity_moves stack reserved { info with ownerID := r.info.senderID }
        spawnInfo (getPacket_sound hspawn) hasks s _ s' hs hrun
  | connected => exact absurd hcase htype
  | entityUpdate =>
      obtain ⟨htalks, hend⟩ := serverHandler_talks hp (Or.inl hcase) hrole hs hrun
      exact ⟨moves_of_talks htalks, hend⟩
  | entityRpc =>
      obtain ⟨htalks, hend⟩ := serverHandler_talks hp (Or.inr hcase) hrole hs hrun
      exact ⟨moves_of_talks htalks, hend⟩
  | entityDeletion =>
      simp only [serverHandler, hcase] at hrun
      obtain ⟨id, q, hid, hrun⟩ := bind_onPacket_ok hrun
      dsimp only at hrun
      rw [Fallible.bind_get] at hrun
      have hm : messageOf p = .ok (.deletion (Int32.ofBitVec id)) := by
        rw [messageOf, hcase, readMessage, Fallible.bind_ok hid]
        rfl
      obtain ⟨hmeans, _⟩ := hp.says_of_reads (reads_getScalar 4) hid hm
      rcases hent : s.scene.entities[Int32.ofBitVec id]? with _ | ent
      · rw [hent] at hrun
        cases hrun
        exact ⟨.refl, hs⟩
      rw [hent] at hrun
      dsimp only at hrun
      split at hrun
      · have hcast := sendPacketToAllClients_ok hs.nodup hmeans hrun
        obtain ⟨hmove, hready⟩ :=
          hs.move_relay (m := .deletion (Int32.ofBitVec id)) hrole trivial trivial
          (fun _ _ _ => rfl) hcast
        exact ⟨.single hmove, hready⟩
      · cases hrun
        exact ⟨.refl, hs⟩
  | _ =>
      simp only [serverHandler, hcase] at hrun
      cases hrun
      exact ⟨.refl, hs⟩

/-! ### Sending as a client -/

/-- What a client of a listen server emits to the handlers of its server. -/
theorem arrived_of_written {p : Packet} {m : Message} (hp : Written p m) (hasks : π.Asks 1 m)
    (t now : UInt32) :
    Arrived π { stamped t p with info := { senderID := 1, timeReceived := now } } := by
  have hm : messageOf { stamped t p with info := { senderID := 1, timeReceived := now } } =
      .ok m := by
    rw [messageOf_info, ← (hp.means t).1]
    exact congrArg messageOf (resetReadPosition_of_unread (p := stamped t p) hp.unread).symm
  refine ⟨hp.unread, ?_, ?_, fun _ => ⟨m, hm⟩⟩
  · intro m' hm'
    rw [hm] at hm'
    cases hm'
    exact (hp.means.stamped hp.headerSize_le t).of_eq rfl rfl rfl
  · intro m' hm'
    rw [hm] at hm'
    cases hm'
    exact hasks

variable {stack : Nat} {hook : EntityID → List WriteOp}

/-- Sending an update of one's own is talk. -/
theorem sendPacket_talks {p q : Packet} {m : Message} {s s' : Process} (hs : Ready π reserved s)
    (hp : Written p m) (hm : m.Talks)
    (htype : p.header.type = .entityUpdate ∨ p.header.type = .entityRpc) (hasks : π.Asks s.id m)
    (hrun : sendPacket stack hook p s = (.ok q, s')) :
    Relation.ReflTransGen (Talk π) s s' ∧ Ready π reserved s' := by
  rw [sendPacket, Fallible.bind_get] at hrun
  by_cases hrole : s.role = .host
  · rw [if_pos hrole, bind_stamp] at hrun
    obtain ⟨_, t, hserve, hrun⟩ := Fallible.bind_eq_ok hrun
    cases hrun
    rw [hs.host_id hrole] at hserve hasks
    exact serverHandler_talks (arrived_of_written hp hasks s.now s.now) htype hrole hs hserve
  · rw [if_neg hrole] at hrun
    have hclient : s.role = .client := by
      cases h : s.role with
      | host => exact absurd h hrole
      | server => exact absurd h hs.role_ne
      | client => rfl
    obtain ⟨htalk, hready⟩ := hs.talk_request hclient hm hasks (sendToServer_ok hp.means hrun)
    exact ⟨.single htalk, hready⟩

/-- An update does not come back to the process that sends it. -/
theorem sendUpdate_ok {p q : Packet} {info : EntityInfo} {s s' : Process}
    (hs : Ready π reserved s) (hp : Written p (.update info))
    (htype : p.header.type = .entityUpdate) (hrun : sendPacket stack hook p s = (.ok q, s')) :
    s'.scene = s.scene ∧ q.header.type = .entityUpdate := by
  rw [sendPacket, Fallible.bind_get] at hrun
  by_cases hrole : s.role = .host
  · rw [if_pos hrole, bind_stamp] at hrun
    obtain ⟨_, t, hserve, hrun⟩ := Fallible.bind_eq_ok hrun
    cases hrun
    rw [hs.host_id hrole] at hserve
    have hcase : (stamped s.now p).header.type = .entityUpdate := htype
    simp only [serverHandler, hcase] at hserve
    have hmeans := (hp.means.stamped hp.headerSize_le s.now).of_eq
      (q := { stamped s.now p with info := { senderID := 1, timeReceived := s.now } }) rfl rfl rfl
    obtain ⟨t, hsent, ⟨_, hother, _⟩ | ⟨_, rfl⟩⟩ :=
      sendPacketToAllExceptOneClient_ok hs.nodup hmeans hserve
    · exact absurd rfl hother
    · exact ⟨hsent.scene_eq, htype⟩
  · rw [if_neg hrole, sendToServer, Fallible.bind_get, bind_stamp] at hrun
    obtain ⟨data, _, hrun⟩ := bind_wireBytes_ok hrun
    cases hrun
    exact ⟨rfl, htype⟩

/-- The loop of the tick sends updates about due entities only. -/
theorem tickEntities_talks (hrep : ∀ id, WriteOp.AllRepresentable (hook id))
    (entries : List (EntityID × Entity)) :
    ∀ (p : Packet) (s s' : Process), p.header.type = .entityUpdate → Ready π reserved s →
      (∀ entry ∈ entries, s.isDue entry.2 → π.update s.id entry.2.info) →
      tickEntities stack hook entries p s = (.ok (), s') →
      Relation.ReflTransGen (Talk π) s s' ∧ Ready π reserved s' := by
  induction entries with
  | nil =>
      intro p s s' _ hs _ hrun
      cases hrun
      exact ⟨.refl, hs⟩
  | cons entry rest ih =>
      obtain ⟨id, ent⟩ := entry
      intro p s s' htype hs hdue hrun
      rw [tickEntities, Fallible.bind_get] at hrun
      by_cases hnow : s.isDue ent
      · rw [if_pos hnow] at hrun
        obtain ⟨_, w, hinfo, hrun⟩ := bind_onPacket_ok hrun
        obtain ⟨_, w', hscript, hrun⟩ := bind_onPacket_ok hrun
        dsimp only at hrun
        rw [putEntityInfo_clear] at hinfo
        have htype' : (blank p).header.type = .entityUpdate := htype
        have hmirror : Mirrors (putEntityInfo ent.info) (readMessage (blank p).header.type)
            (.update ent.info) := by
          rw [htype']
          exact mirrors_update ent.info
        obtain ⟨hwritten, hheader⟩ := written_entityInfo (hrep id) hmirror (wellWritten_blank p)
          rfl rfl (by simp [blank]) hinfo hscript
        rw [record, Fallible.bind_modify] at hrun
        obtain ⟨q, t, hsend, hrun⟩ := Fallible.bind_eq_ok hrun
        have hupdate := hdue (id, ent) List.mem_cons_self hnow
        have hquiet : Quiet π s { s with effects := s.effects ++ [.tick ent.info] } := by
          refine quiet_effects ?_
          intro e he
          cases List.mem_singleton.mp he
          exact Idle.tick ent.info hupdate
        obtain ⟨hnote, hready⟩ := hs.talk_quiet hquiet
        have htick : w'.header.type = .entityUpdate := by rw [hheader, htype']
        obtain ⟨hpath, ht⟩ := sendPacket_talks hready hwritten trivial (Or.inl htick)
          hupdate hsend
        obtain ⟨hscene, hq⟩ := sendUpdate_ok hready hwritten htick hsend
        have hframe := frame_of_moves (moves_of_talks hpath)
        have hrest : ∀ other ∈ rest, t.isDue other.2 → π.update t.id other.2.info := by
          intro other hmem hdueOther
          rw [hframe.id_eq]
          apply hdue other (List.mem_cons_of_mem _ hmem)
          rw [isDue, isOwner, hscene, hframe.role_eq, hframe.id_eq] at hdueOther
          exact hdueOther
        obtain ⟨hmore, hend⟩ := ih q t s' hq ht hrest hrun
        exact ⟨(hpath.head hnote).trans hmore, hend⟩
      · rw [if_neg hnow] at hrun
        exact ih p s s' htype hs (fun other hmem => hdue other (List.mem_cons_of_mem _ hmem)) hrun

/-- The process at its next tick. -/
def ticked (s : Process) : Process :=
  { s with scene := { s.scene with totalNetworkTicks := s.scene.totalNetworkTicks + 1 } }

/-- A tick is talk. -/
theorem networkTick_talks (hrep : ∀ id, WriteOp.AllRepresentable (hook id)) {s s' : Process}
    (hs : Ready π reserved s)
    (hdue : ∀ (id : EntityID) (ent : Entity), s.scene.entities[id]? = some ent →
      s.ticked.isDue ent → π.update s.id ent.info)
    (hrun : networkTick stack hook s = (.ok (), s')) :
    Relation.ReflTransGen (Talk π) s s' ∧ Ready π reserved s' := by
  rw [networkTick, modifyScene, Fallible.bind_modify, Fallible.bind_get] at hrun
  have hquiet : Quiet π s s.ticked :=
    quiet_scene rfl rfl rfl rfl (fun _ => Or.inl rfl) fun _ _ _ => rfl
  obtain ⟨hmove, hready⟩ := hs.talk_quiet hquiet
  obtain ⟨hpath, hend⟩ := tickEntities_talks hrep _ _ s.ticked s' rfl hready
    (fun entry hmem hnow => hdue entry.1 entry.2
      (Std.TreeMap.mem_toList_iff_getElem?_eq_some.mp hmem) hnow) hrun
  exact ⟨hpath.head hmove, hend⟩

/-- Making a call is talk. -/
theorem callRPC_talks {target : Entity} {name : StdString} {arguments : List WriteOp}
    (hrep : WriteOp.AllRepresentable arguments) :
    Talking π reserved (callRPC stack hook target name arguments) := by
  intro s _ s' hs hrun
  rw [callRPC, Fallible.bind_get, if_neg hs.role_ne] at hrun
  rcases hrpc : s.scene.registry.entityRpcs target.info.type name with _ | rpc
  · rw [hrpc] at hrun
    cases hrun
    exact ⟨.refl, hs⟩
  rw [hrpc] at hrun
  dsimp only at hrun
  obtain ⟨_, u, hinfo, hrun⟩ := bind_onPacket_ok hrun
  obtain ⟨_, v, hname, hrun⟩ := bind_onPacket_ok hrun
  obtain ⟨_, w, hargs, hrun⟩ := bind_onPacket_ok hrun
  dsimp only at hname hargs hrun
  have hscript : WriteOp.performAll (.string name :: arguments) u = (.ok (), w) := by
    rw [WriteOp.performAll, WriteOp.perform, Fallible.bind_ok hname, hargs]
  have hrep' : WriteOp.AllRepresentable (.string name :: arguments) := ⟨trivial, hrep⟩
  obtain ⟨hwritten, hheader⟩ := written_entityInfo hrep' (mirrors_rpc target.info)
    (wellWritten_ofHeader { type := .entityRpc }) rfl rfl (by simp [ofHeader]) hinfo hscript
  have hlast : ∀ (q : Packet) (t : Process), Ready π reserved t →
      (if (RPCInfo rpc.rpctype (s.isOwner target)).1 then receiveRPC q target.info
        else pure () : ProcessM Unit) t = (.ok (), s') →
      Relation.ReflTransGen (Talk π) t s' ∧ Ready π reserved s' := by
    intro q t ht hcall
    split at hcall
    · rcases receiveRPC_ok hcall with rfl | ⟨name, arguments, rfl⟩
      · exact ⟨.refl, ht⟩
      · have hquiet : Quiet π t
            { t with effects := t.effects ++ [.execute target.info name arguments] } := by
          refine quiet_effects ?_
          intro e he
          cases List.mem_singleton.mp he
          exact Idle.execute _ _ _
        obtain ⟨hmove, hready⟩ := ht.talk_quiet hquiet
        exact ⟨.single hmove, hready⟩
    · cases hcall
      exact ⟨.refl, ht⟩
  split at hrun
  · obtain ⟨q, t, hsend, hrun⟩ := Fallible.bind_eq_ok hrun
    obtain ⟨hpath, ht⟩ := sendPacket_talks hs hwritten trivial
      (Or.inr (by rw [hheader]; rfl)) trivial hsend
    obtain ⟨hmore, hend⟩ := hlast q t ht hrun
    exact ⟨hpath.trans hmore, hend⟩
  · exact hlast w s hs hrun

/-! ### Connections -/

/-- A client has been told of these entities, in this order, and nothing else has
happened. -/
structure Told (client : ClientID) (infos : List EntityInfo) (s s' : Process) : Prop where
  frame : Frame s s'
  scene_eq : s'.scene = s.scene
  effects_eq : s'.effects = s.effects ++ infos.map (.snapshot client ·)
  posted : client ∈ s.connected → ∃ ds : List Datagram,
    pending s' client = pending s client ++ ds ∧
      ds.map (fun d => (d.origin, messageOfData d.data)) =
        infos.map fun info => (1, .ok (.restore info))
  skipped : ∀ c ∈ s.connected, c ≠ client → pending s' c = pending s c

theorem Told.nil (client : ClientID) (s : Process) : Told client [] s s where
  frame := Frame.refl s
  scene_eq := rfl
  effects_eq := by simp
  posted _ := ⟨[], by simp, rfl⟩
  skipped _ _ _ := rfl

/-- A client is told of some entities and then of more. -/
theorem Told.trans {client : ClientID} {infos more : List EntityInfo} {s t u : Process}
    (h : Told client infos s t) (h' : Told client more t u) :
    Told client (infos ++ more) s u where
  frame := h.frame.trans h'.frame
  scene_eq := h'.scene_eq.trans h.scene_eq
  effects_eq := by rw [h'.effects_eq, h.effects_eq, List.map_append, List.append_assoc]
  posted hc := by
    obtain ⟨ds, hds, hmap⟩ := h.posted hc
    obtain ⟨es, hes, hmap'⟩ := h'.posted (h.frame.connected_eq.symm ▸ hc)
    refine ⟨ds ++ es, by rw [hes, hds, List.append_assoc], ?_⟩
    rw [List.map_append, List.map_append, hmap, hmap']
  skipped c hc hne :=
    (h'.skipped c (h.frame.connected_eq.symm ▸ hc) hne).trans (h.skipped c hc hne)

/-- Telling a client leaves the host ready. -/
theorem Told.ready {client : ClientID} {infos : List EntityInfo} {s s' : Process}
    (h : Told client infos s s') (hs : Ready π reserved s) : Ready π reserved s' := by
  refine hs.of_frame h.frame (h.scene_eq ▸ hs.kept) (congrArg Scenegraph.ID h.scene_eq) ?_
  intro info held hmem
  rw [h.effects_eq] at hmem
  simpa using hmem

/-- One turn of the loop. -/
theorem told_one {client : ClientID} {info : EntityInfo} {p w w' : Packet}
    {script : List WriteOp} {s s' : Process} (hrep : WriteOp.AllRepresentable script)
    (hs : 1 ∉ s.connected) (hclient : client ≠ 1)
    (hp : p = ofHeader { type := .entityCreationOnConnection })
    (hinfo : putEntityInfo info p = (.ok (), w))
    (hscript : WriteOp.performAll script w = (.ok (), w'))
    (hrun : sendPacketToOneClient 1 client w'
      { s with effects := s.effects ++ [.snapshot client info] } = (.ok (), s')) :
    Told client [info] s s' := by
  subst hp
  obtain ⟨hwritten, _⟩ := written_entityInfo hrep (mirrors_restore info)
    (wellWritten_ofHeader { type := .entityCreationOnConnection }) rfl rfl (by simp [ofHeader])
    hinfo hscript
  obtain ⟨t, hsent, ⟨_, hone, _⟩ | ⟨_, rfl⟩⟩ :=
    sendPacketToOneClient_ok (by exact hs) hwritten.means hrun
  · exact absurd hone.symm hclient
  have hframe := hsent.frame
  refine ⟨⟨hframe.role_eq, hframe.id_eq, hframe.connected_eq, hframe.registry_eq,
    hframe.ready_eq⟩, hsent.scene_eq, hsent.effects_eq, ?_, ?_⟩
  · intro hc
    obtain ⟨d, horigin, hdata, hpending⟩ := hsent.posted client hc rfl
    exact ⟨[d], hpending, by simp [horigin, hdata]⟩
  · intro c hc hne
    exact hsent.skipped c hc hne

/-- **A client that connects is told of everything that is stored, from the greatest id
to the least.** -/
theorem sendAllNetworkedEntitiesToClient_ok (hrep : ∀ id, WriteOp.AllRepresentable (hook id))
    {client : ClientID} {s s' : Process} (hs : Ready π reserved s) (hclient : client ≠ 1)
    (hrole : s.role = .host) (hnet : s.scene.networkReady)
    (hrun : sendAllNetworkedEntitiesToClient hook client s = (.ok (), s')) :
    Told client (s.scene.entities.toList.reverse.map fun entry => entry.2.info) s s' := by
  have hnot : s.role ≠ .client := by
    rw [hrole]
    simp
  rw [sendAllNetworkedEntitiesToClient, Fallible.bind_get, if_pos ⟨hnet, hnot⟩] at hrun
  have hown : s.ownID = 1 := by
    rw [ownID, if_neg (by rw [hrole]; simp), hs.host_id hrole]
  rw [hown] at hrun
  generalize s.scene.entities.toList.reverse = entries at hrun
  have hconnected := hs.not_connected
  clear hown hnot hrole hnet hs
  induction entries generalizing s with
  | nil =>
      cases hrun
      exact Told.nil client _
  | cons entry rest ih =>
      obtain ⟨_, t, hone, hrun⟩ := Fallible.bind_eq_ok hrun
      obtain ⟨_, w, hinfo, hone⟩ := bind_onPacket_ok hone
      obtain ⟨_, w', hscript, hone⟩ := bind_onPacket_ok hone
      dsimp only at hone
      rw [record, Fallible.bind_modify] at hone
      have htold := told_one (hrep entry.1) hconnected hclient rfl hinfo hscript hone
      refine htold.trans (ih hrun ?_)
      rw [htold.frame.connected_eq]
      exact hconnected

end

end Process

end EnkiNet
