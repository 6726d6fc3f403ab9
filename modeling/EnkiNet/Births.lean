import EnkiNet.EntityTrees

/-!
# Where entities come from

Which program of a listen server creates entities, and for which owner.  Every creation
of an entity calls its `onSpawn`, so the calls are the register of births (`spawns`).
`Growing o x` says of a program that whatever is stored afterwards was stored before or
has been born since, and that the newborn have owners for which `o` holds.

Requests and calls for creations are the only programs with births at all, and the owner
is the one that they name (`createNetworkedEntity_growing`); whatever else a server does
is `Growing` for no owner.
-/

namespace EnkiNet

open ByteStore Packet

namespace Process

/-- The entities whose `onSpawn` has been called, in order. -/
def spawns (effects : List Effect) : List EntityInfo :=
  effects.filterMap fun
    | .onSpawn info _ => some info
    | _ => none

/-- The spawns of two runs, one after the other. -/
theorem spawns_append (effects more : List Effect) :
    spawns (effects ++ more) = spawns effects ++ spawns more :=
  List.filterMap_append

/-- Whatever is new has been born since, with an owner for which `o` holds. -/
def Grows (o : ClientID → Prop) (s s' : Process) : Prop :=
  ∃ new, spawns s'.effects = spawns s.effects ++ new ∧ (∀ info ∈ new, o info.ownerID) ∧
    ∀ id info, s'.scene.held id = some info → s.scene.held id = some info ∨ info ∈ new

section

variable {o o' : ClientID → Prop} {s t s' : Process}

/-- Where nothing is spawned and nothing new is held, there is no growth to explain. -/
theorem Grows.of_same (heffects : spawns s'.effects = spawns s.effects)
    (hheld : ∀ id info, s'.scene.held id = some info → s.scene.held id = some info) :
    Grows o s s' :=
  ⟨[], by rw [heffects, List.append_nil], fun _ h => absurd h List.not_mem_nil,
    fun id info h => Or.inl (hheld id info h)⟩

theorem Grows.refl (s : Process) : Grows o s s := Grows.of_same rfl fun _ _ h => h

/-- Growth adds up. -/
theorem Grows.trans (h : Grows o s t) (h' : Grows o t s') : Grows o s s' := by
  obtain ⟨new, hnew, howner, hheld⟩ := h
  obtain ⟨more, hmore, howner', hheld'⟩ := h'
  refine ⟨new ++ more, ?_, ?_, ?_⟩
  · rw [hmore, hnew, List.append_assoc]
  · intro info hinfo
    exact (List.mem_append.mp hinfo).elim (howner info) (howner' info)
  · intro id info hsome
    rcases hheld' id info hsome with hold | hborn
    · exact (hheld id info hold).imp_right (List.mem_append_left more)
    · exact Or.inr (List.mem_append_right new hborn)

/-- More owners can be allowed. -/
theorem Grows.mono (h : Grows o s s') (hmono : ∀ c, o c → o' c) : Grows o' s s' := by
  obtain ⟨new, hnew, howner, hheld⟩ := h
  exact ⟨new, hnew, fun info hinfo => hmono _ (howner info hinfo), hheld⟩

end

/-! ## Programs -/

/-- The process of a listen server. -/
structure Hosted (s : Process) : Prop where
  role_eq : s.role = .host
  id_eq : s.id = 1
  networkReady : s.scene.networkReady

/-- The births of a program. -/
def Growing {α : Type} (o : ClientID → Prop) (x : ProcessM α) : Prop :=
  Fallible.Moves Hosted (Grows o) x

section

variable {α β : Type} {o : ClientID → Prop}

/-- What a program of the host has spawned is its growth. -/
theorem Growing.grows {x : ProcessM α} (h : Growing o x) {s s' : Process} {a : α} (hs : Hosted s)
    (hrun : x s = (.ok a, s')) : Grows o s s' := by
  have hmoves := (h s a s' hs hrun).1
  clear hrun
  induction hmoves with
  | refl => exact Grows.refl s
  | tail _ hlast ih => exact ih.trans hlast

theorem Growing.mono {o' : ClientID → Prop} {x : ProcessM α} (h : Growing o x)
    (hmono : ∀ c, o c → o' c) : Growing o' x := by
  intro s a s' hs hrun
  obtain ⟨hmoves, hend⟩ := h s a s' hs hrun
  exact ⟨Relation.ReflTransGen.mono (fun _ _ hmove => Grows.mono hmove hmono) _ _ hmoves, hend⟩

/-- The state that is read can be used for the rest. -/
theorem growing_get {f : Process → ProcessM β} (hf : ∀ s, Hosted s → Growing o (f s)) :
    Growing o (Fallible.get >>= f) :=
  Fallible.Moves.get fun s b s' hs hrun => hf s hs s b s' hs hrun

/-- What was read from a packet, or written to one, is known afterwards. -/
theorem growing_onPacket {x : PacketM α} {p : Packet} {f : α × Packet → ProcessM β}
    (hf : ∀ a p', x p = (.ok a, p') → Growing o (f (a, p'))) : Growing o (onPacket x p >>= f) := by
  intro s b s' hs hrun
  obtain ⟨a, p', hx, hrest⟩ := bind_onPacket_ok hrun
  exact hf a p' hx s b s' hs hrest

/-- A single step that grows. -/
theorem growing_modify {f : Process → Process} (hhosted : ∀ s, Hosted s → Hosted (f s))
    (hgrows : ∀ s, Grows o s (f s)) : Growing o (Fallible.modify f) := by
  refine Fallible.Moves.single ?_
  intro s a s' hs hrun
  cases hrun
  exact ⟨hgrows s, hhosted s hs⟩

/-- Only an `onSpawn` among the effects counts. -/
theorem growing_record {e : Effect} (he : spawns [e] = []) : Growing o (record e) :=
  growing_modify (fun _ hs => ⟨hs.role_eq, hs.id_eq, hs.networkReady⟩) fun s =>
    Grows.of_same (by rw [spawns_append, he, List.append_nil]) fun _ _ h => h

/-- A change that puts nothing into the map. -/
theorem growing_modifyScene {f : Scenegraph → Scenegraph}
    (hready : ∀ g, (f g).networkReady = g.networkReady)
    (hheld : ∀ g id info, (f g).held id = some info → g.held id = some info) :
    Growing o (modifyScene f) :=
  growing_modify (fun s hs => ⟨hs.role_eq, hs.id_eq, (hready s.scene).trans hs.networkReady⟩)
    fun _ => Grows.of_same rfl (hheld _)

/-- Posting a datagram spawns nothing here. -/
theorem growing_post (dests : List ClientID) (d : Datagram) : Growing o (post dests d) :=
  growing_modify (fun _ hs => ⟨hs.role_eq, hs.id_eq, hs.networkReady⟩) fun _ =>
    Grows.of_same rfl fun _ _ h => h

theorem growing_recordBroadcast (p : Packet) : Growing o (recordBroadcast p) :=
  growing_modify (fun _ hs => ⟨hs.role_eq, hs.id_eq, hs.networkReady⟩) fun _ =>
    Grows.of_same rfl fun _ _ h => h

theorem growing_wireBytes (p : Packet) : Growing o (wireBytes p) := by
  refine Fallible.Moves.of_same ?_
  intro s a s' hrun
  unfold wireBytes at hrun
  split at hrun
  · exact (Prod.mk.inj hrun).2.symm
  · cases hrun

/-- A stamped packet goes on. -/
theorem growing_stamp {p : Packet} {f : Packet → ProcessM β}
    (hf : ∀ t, Growing o (f (stamped t p))) :
    Growing o (stamp p >>= f) := by
  intro s b s' hs hrun
  rw [bind_stamp] at hrun
  exact hf s.now s b s' hs hrun

end

/-! ### A client's handler -/

section

variable {o : ClientID → Prop}

/-- An entity is born with the owner of its info. -/
theorem growing_createEntity {info : EntityInfo} (spawnInfo : Packet) (ho : o info.ownerID) :
    Growing o (createEntity info spawnInfo) := by
  refine Fallible.Moves.single ?_
  intro s r s' hs hrun
  rcases createEntity_ok hrun with ⟨_, rfl, _⟩ | ⟨ent, _, hcreated⟩
  · exact ⟨Grows.refl s', hs⟩
  refine ⟨⟨[ent.info], ?_, ?_, ?_⟩, hcreated.frame.role_eq.trans hs.role_eq,
    hcreated.frame.id_eq.trans hs.id_eq, hcreated.frame.ready_eq.trans hs.networkReady⟩
  · rw [hcreated.effects_eq, spawns_append]
    rfl
  · intro other hother
    rw [List.mem_singleton.mp hother, hcreated.info_eq]
    exact ho
  · intro id other hsome
    rw [Scenegraph.held, hcreated.entities_eq] at hsome
    split at hsome
    · exact Or.inr (List.mem_singleton.mpr (Option.some.inj hsome).symm)
    · exact Or.inl hsome

/-- The packet is no snapshot, and a creation that it announces has an owner for which
`o` holds. -/
structure Births (o : ClientID → Prop) (p : Packet) : Prop where
  no_snapshot : ∀ info, messageOf p.resetReadPosition ≠ .ok (.restore info)
  owner : ∀ info spawnInfo, messageOf p.resetReadPosition = .ok (.creation info spawnInfo) →
    o info.ownerID

/-- Only the two packets of creation bring an entity about. -/
theorem births_of_type {p : Packet} (hcreation : p.header.type ≠ .entityCreation)
    (hsnapshot : p.header.type ≠ .entityCreationOnConnection) : Births o p :=
  ⟨fun _ hm => hsnapshot (type_of_restore (p := p.resetReadPosition) hm),
    fun _ _ hm => absurd (type_of_creation hm) hcreation⟩

/-- A creation brings about an entity of the owner that it names. -/
theorem births_of_message {p : Packet} {m : Message} (h : Says p m)
    (hsnapshot : ∀ info, m ≠ .restore info)
    (howner : ∀ info spawnInfo, m = .creation info spawnInfo → o info.ownerID) : Births o p := by
  have hm : messageOf p.resetReadPosition = .ok m := by
    rw [← messageOf_stamped 0 p, (h 0).1]
  refine ⟨fun info hrestore => ?_, fun info spawnInfo hcreation => ?_⟩
  · rw [hm] at hrestore
    exact hsnapshot info (Except.ok.inj hrestore)
  · rw [hm] at hcreation
    exact howner info spawnInfo (Except.ok.inj hcreation)

/-- Marking an entity is no birth. -/
theorem growing_flag (id : EntityID) : Growing o (modifyScene fun g => g.flag id) :=
  growing_modifyScene (fun _ => rfl) fun _ _ _ h => by rwa [Scenegraph.held_flag] at h

/-- Executing a call spawns nothing. -/
theorem growing_receiveRPC (p : Packet) (target : EntityInfo) :
    Growing o (receiveRPC p target) := by
  refine growing_get fun s _ => Fallible.Moves.ite (fun _ => Fallible.Moves.pure ()) fun _ => ?_
  split
  · exact growing_record rfl
  · exact Fallible.Moves.pure ()
  · exact Fallible.Moves.fail _
  · exact Fallible.Moves.pure ()

/-- The handler of a client spawns what the packet asks for. -/
theorem growing_clientHandler (origin : ClientID) {p : Packet} (i : PacketInfo) (hp : Births o p) :
    Growing o (clientHandler origin { p.resetReadPosition with info := i }) := by
  have htype : ({ p.resetReadPosition with info := i } : Packet).header.type = p.header.type := rfl
  rw [clientHandler, htype]
  cases hcase : p.header.type with
  | entityCreation =>
      refine growing_onPacket fun info q hinfo => growing_onPacket fun spawnInfo q' hspawn => ?_
      have hm : messageOf p.resetReadPosition = .ok (.creation info spawnInfo) := by
        rw [← messageOf_info p.resetReadPosition i, messageOf, htype, hcase, readMessage,
          Fallible.bind_ok hinfo, Fallible.bind_ok hspawn]
        rfl
      refine growing_get fun s _ => Fallible.Moves.bind (growing_record rfl) fun _ => ?_
      exact Fallible.Moves.bind (growing_createEntity spawnInfo (hp.owner info spawnInfo hm))
        fun _ => Fallible.Moves.pure ()
  | entityCreationOnConnection =>
      refine growing_onPacket fun info q hinfo => ?_
      refine absurd ?_ (hp.no_snapshot info)
      rw [← messageOf_info p.resetReadPosition i, messageOf, htype, hcase, readMessage,
        Fallible.bind_ok hinfo]
      rfl
  | entityUpdate =>
      refine growing_onPacket fun info q _ => growing_get fun s _ => ?_
      split
      · exact Fallible.Moves.pure ()
      · exact Fallible.Moves.ite (fun _ => growing_record rfl) fun _ => Fallible.Moves.pure ()
  | entityRpc =>
      refine growing_onPacket fun info q _ => growing_get fun s _ => ?_
      split
      · exact Fallible.Moves.pure ()
      · exact Fallible.Moves.ite (fun _ => growing_receiveRPC _ _) fun _ => Fallible.Moves.pure ()
  | entityDeletion =>
      refine growing_onPacket fun id q _ => growing_get fun s _ => ?_
      exact Fallible.Moves.ite (fun _ => growing_flag _) fun _ => Fallible.Moves.pure ()
  | _ => exact Fallible.Moves.pure ()

/-! ### Sending -/

/-- A packet keeps its births when it is stamped. -/
theorem Births.stamped {p : Packet} (hp : Births o p) (t : UInt32) : Births o (stamped t p) where
  no_snapshot info := by
    rw [messageOf_stamped]
    exact hp.no_snapshot info
  owner info spawnInfo hm := hp.owner info spawnInfo (by rwa [messageOf_stamped] at hm)

/-- The own client handles the packet at once. -/
theorem growing_loopback (origin : ClientID) {p : Packet} (hp : Births o p) :
    Growing o (loopback origin p) :=
  growing_get fun _ _ => growing_clientHandler origin _ hp

theorem growing_postIf (predicate : ClientID → Bool) (origin : ClientID) (p : Packet) :
    Growing o (postIf predicate origin p) :=
  growing_get fun _ _ => Fallible.Moves.ite (fun _ => Fallible.Moves.pure ()) fun _ =>
    Fallible.Moves.bind (growing_wireBytes p) fun _ => growing_post _ _

/-- Broadcasting creates what the packet asks for on the host too. -/
theorem growing_sendPacketToAllClients (origin : ClientID) {p : Packet} (hp : Births o p) :
    Growing o (sendPacketToAllClients origin p) :=
  growing_get fun _ _ => growing_stamp fun t =>
    Fallible.Moves.bind (growing_recordBroadcast _) fun _ =>
      Fallible.Moves.bind (growing_postIf _ _ _) fun _ =>
        Fallible.Moves.ite (fun _ => growing_loopback origin (hp.stamped t)) fun _ =>
          Fallible.Moves.pure ()

theorem growing_sendPacketToAllExceptOneClient (origin excluded : ClientID) {p : Packet}
    (hp : Births o p) : Growing o (sendPacketToAllExceptOneClient origin excluded p) :=
  growing_get fun _ _ => growing_stamp fun t =>
    Fallible.Moves.bind (growing_postIf _ _ _) fun _ =>
      Fallible.Moves.ite (fun _ => growing_loopback origin (hp.stamped t)) fun _ =>
        Fallible.Moves.pure ()

theorem growing_sendPacketToOneClient (origin client : ClientID) {p : Packet} (hp : Births o p) :
    Growing o (sendPacketToOneClient origin client p) :=
  growing_get fun _ _ => growing_stamp fun t =>
    Fallible.Moves.ite (fun _ => growing_clientHandler origin _ (hp.stamped t)) fun _ =>
      Fallible.Moves.bind (growing_wireBytes _) fun _ => growing_post _ _

/-! ### A server's handler -/

/-- Deleting brings nothing about. -/
theorem growing_deleteEntity (id : EntityID) : Growing o (deleteEntity id) := by
  refine growing_get fun s hs => ?_
  split
  · exact Fallible.Moves.fail _
  · next ent _ =>
    refine Fallible.Moves.ite (fun _ => growing_flag id) fun _ => ?_
    refine Fallible.Moves.ite (fun _ => growing_onPacket fun _ p hwrite => ?_) fun _ =>
      Fallible.Moves.pure ()
    refine Fallible.Moves.ite (fun hrole => ?_) fun _ => ?_
    · rw [hs.role_eq] at hrole
      cases hrole
    · exact growing_sendPacketToAllClients _ (births_of_message (says_deletion hwrite)
        (by simp) (by simp))

/-- Clearing up brings nothing about. -/
theorem growing_update : Growing o update :=
  growing_get fun _ _ => Fallible.Moves.bind
    (Fallible.Moves.forEach fun _ _ => growing_get fun _ _ =>
      Fallible.Moves.ite (fun _ => Fallible.Moves.pure ()) fun _ => growing_deleteEntity _)
    fun _ => growing_modifyScene (fun _ => rfl) fun g id info h => by
      rw [Scenegraph.held, Scenegraph.getElem?_eraseFlagged] at h
      obtain ⟨ent, hent, hinfo⟩ := Option.map_eq_some_iff.mp h
      rw [Scenegraph.held, (Option.filter_eq_some_iff.mp hent).1, Option.map_some, hinfo]

/-- Passing on a call spawns nothing. -/
theorem growing_routeRPC {p : Packet} (htype : p.header.type = .entityRpc) :
    Growing o (routeRPC p) := by
  refine growing_onPacket fun info q hinfo => growing_onPacket fun name q' hname => ?_
  have htype' : q'.header.type = .entityRpc := by
    rw [reads_getString.header_eq hname, reads_getEntityInfo.header_eq hinfo, htype]
  have hq : Births o q' := births_of_type (by rw [htype']; simp) (by rw [htype']; simp)
  refine growing_get fun s _ => ?_
  split
  · exact Fallible.Moves.fail _
  split
  · exact Fallible.Moves.pure ()
  refine Fallible.Moves.ite (fun _ => ?_) fun _ => Fallible.Moves.pure ()
  split
  · exact Fallible.Moves.pure ()
  · exact Fallible.Moves.ite (fun _ => Fallible.Moves.pure ()) fun _ =>
      growing_sendPacketToOneClient _ _ hq
  · exact Fallible.Moves.ite (fun _ => growing_sendPacketToAllExceptOneClient _ _ hq) fun _ =>
      Fallible.Moves.pure ()
  · exact Fallible.Moves.ite (fun _ => growing_sendPacketToAllExceptOneClient _ _ hq) fun _ =>
      Fallible.Moves.pure ()
  · exact growing_sendPacketToAllExceptOneClient _ _ hq
  · exact growing_sendPacketToAllExceptOneClient _ _ hq

/-- **Only creation requests have births**, and the snapshots for those who connect. -/
theorem growing_serverHandler {stack : Nat} {hook : EntityID → List WriteOp} {p : Packet}
    (hcreation : p.header.type ≠ .entityCreation) (hconnected : p.header.type ≠ .connected) :
    Growing o (serverHandler stack hook p) := by
  rw [serverHandler]
  cases hcase : p.header.type with
  | entityCreation => exact absurd hcase hcreation
  | connected => exact absurd hcase hconnected
  | entityUpdate =>
      exact growing_sendPacketToAllExceptOneClient _ _
        (births_of_type hcreation (by rw [hcase]; simp))
  | entityRpc => exact growing_routeRPC hcase
  | entityDeletion =>
      refine growing_onPacket fun id q hid => growing_get fun s _ => ?_
      have htype : q.header.type = .entityDeletion := by
        rw [(reads_getScalar 4).header_eq hid, hcase]
      split
      · exact Fallible.Moves.pure ()
      · refine Fallible.Moves.ite (fun _ => growing_sendPacketToAllClients _ ?_) fun _ =>
          Fallible.Moves.pure ()
        exact births_of_type (by rw [htype]; simp) (by rw [htype]; simp)
  | _ => exact Fallible.Moves.pure ()

end

/-! ### Creating -/

/-- The owner that a server fills in. -/
theorem growing_sendCreation (info : EntityInfo) {spawnInfo : Packet} (hsound : spawnInfo.Sound) :
    Growing (fun c => c = resolved info.ownerID) (sendCreation info spawnInfo) := by
  refine growing_get fun s hs => ?_
  dsimp only
  have hown : s.ownID = 1 := by
    rw [ownID, if_neg (by rw [hs.role_eq]; simp), hs.id_eq]
  set owned : EntityInfo := if info.ownerID = 0 ∧ s.scene.networkReady then
    { info with ownerID := s.ownID } else info with howned
  have howner : owned.ownerID = resolved info.ownerID := by
    rw [howned, resolved]
    by_cases h : info.ownerID = 0
    · rw [if_pos ⟨h, hs.networkReady⟩, if_pos h, hown]
    · rw [if_neg fun hboth => h hboth.1, if_neg h]
  refine Fallible.Moves.ite (fun _ => ?_) fun _ => Fallible.Moves.pure ()
  refine growing_onPacket fun _ p hinfo => growing_onPacket fun _ q hspawn => ?_
  refine Fallible.Moves.ite (fun hrole => ?_) fun _ => ?_
  · rw [hs.role_eq] at hrole
    cases hrole
  refine Fallible.Moves.bind (growing_record rfl) fun _ => growing_sendPacketToAllClients _ ?_
  refine births_of_message (says_creation hsound hinfo hspawn) (by simp) ?_
  rintro _ _ hsame
  rw [← (Message.creation.inj hsame).1]
  exact howner

theorem growing_nextID {o : ClientID → Prop} : Growing o nextID := by
  refine growing_get fun s _ => Fallible.Moves.ite (fun _ => Fallible.Moves.fail _) fun _ => ?_
  exact Fallible.Moves.bind (growing_modifyScene (fun _ => rfl) fun _ _ _ h => h) fun _ =>
    Fallible.Moves.pure _

/-- **A family has one owner**, by induction on the room for nested calls. -/
theorem growing_createNetworkedEntity (stack : Nat) (info : EntityInfo) {spawnInfo : Packet}
    (hsound : spawnInfo.Sound) : Growing (fun c => c = resolved info.ownerID)
      (createNetworkedEntity stack info spawnInfo) := by
  induction stack generalizing info spawnInfo with
  | zero => exact Fallible.Moves.fail _
  | succ stack ih =>
      have hfamily : ∀ id : EntityID, Growing (fun c => c = resolved info.ownerID)
          (createFamily (createNetworkedEntity stack) { info with ID := id } spawnInfo) := by
        intro id
        have hself := growing_sendCreation { info with ID := id } hsound
        refine growing_get fun s _ => Fallible.Moves.bind ?_ fun _ => hself
        refine Fallible.Moves.forEach fun child _ => ?_
        exact ih (child.entity 0 info.ownerID id) child.sound
      rw [createNetworkedEntity]
      refine growing_get fun s _ => ?_
      split
      · exact Fallible.Moves.pure ()
      split
      · exact Fallible.Moves.bind growing_nextID hfamily
      · exact hfamily info.ID

/-! ### Calls by game code -/

section

variable {o : ClientID → Prop} {stack : Nat} {hook : EntityID → List WriteOp}

/-- The host's own client sends updates and calls only. -/
theorem growing_sendPacket {p : Packet} (hcreation : p.header.type ≠ .entityCreation)
    (hconnected : p.header.type ≠ .connected) : Growing o (sendPacket stack hook p) := by
  refine growing_get fun s hs => Fallible.Moves.ite (fun _ => growing_stamp fun t => ?_)
    fun hrole =>
    absurd hs.role_eq hrole
  exact Fallible.Moves.bind (growing_serverHandler hcreation hconnected) fun _ =>
    Fallible.Moves.pure _

/-- The packet that `sendPacket` returns has the type of the one that was sent. -/
theorem sendPacket_type {p q : Packet} {s s' : Process}
    (h : sendPacket stack hook p s = (.ok q, s')) :
    q.header.type = p.header.type := by
  rw [sendPacket, Fallible.bind_get] at h
  split at h
  · rw [bind_stamp] at h
    obtain ⟨_, t, _, hlast⟩ := Fallible.bind_eq_ok h
    cases hlast
    rfl
  · rw [sendToServer, Fallible.bind_get, bind_stamp] at h
    obtain ⟨data, _, h⟩ := bind_wireBytes_ok h
    cases h
    rfl

theorem growing_tickEntities (hrep : ∀ id, WriteOp.AllRepresentable (hook id))
    (entries : List (EntityID × Entity)) {p : Packet} (htype : p.header.type = .entityUpdate) :
    Growing o (tickEntities stack hook entries p) := by
  induction entries generalizing p with
  | nil => exact Fallible.Moves.pure ()
  | cons entry rest ih =>
      obtain ⟨id, ent⟩ := entry
      refine growing_get fun s _ => Fallible.Moves.ite (fun _ => ?_) fun _ => ih htype
      refine growing_onPacket fun _ w hinfo => growing_onPacket fun _ w' hscript => ?_
      rw [putEntityInfo_clear] at hinfo
      have hblank : (blank p).header.type = .entityUpdate := htype
      have hmirror : Mirrors (putEntityInfo ent.info) (readMessage (blank p).header.type)
          (.update ent.info) := by
        rw [hblank]
        exact mirrors_update ent.info
      obtain ⟨_, hheader⟩ := written_entityInfo (hrep id) hmirror (wellWritten_blank p)
        rfl rfl (by simp [blank]) hinfo hscript
      have hupdate : w'.header.type = .entityUpdate := by rw [hheader, hblank]
      refine Fallible.Moves.bind (growing_record rfl) fun _ => ?_
      intro t _ t' ht hrun
      obtain ⟨q, u, hsend, hrest⟩ := Fallible.bind_eq_ok hrun
      obtain ⟨hmoves, hu⟩ := growing_sendPacket (o := o) (by rw [hupdate]; simp)
        (by rw [hupdate]; simp) t q u ht hsend
      obtain ⟨hmore, hend⟩ := ih ((sendPacket_type hsend).trans hupdate) u () t' hu hrest
      exact ⟨hmoves.trans hmore, hend⟩

/-- A tick spawns nothing. -/
theorem growing_networkTick (hrep : ∀ id, WriteOp.AllRepresentable (hook id)) :
    Growing o (networkTick stack hook) :=
  Fallible.Moves.bind (growing_modifyScene (fun _ => rfl) fun _ _ _ h => h) fun _ =>
    growing_get fun _ _ => growing_tickEntities hrep _ rfl

/-- Making a call spawns nothing. -/
theorem growing_callRPC {target : Entity} {name : StdString} {arguments : List WriteOp}
    (hrep : WriteOp.AllRepresentable arguments) :
    Growing o (callRPC stack hook target name arguments) := by
  refine growing_get fun s _ => Fallible.Moves.ite (fun _ => Fallible.Moves.pure ()) fun _ => ?_
  split
  · exact Fallible.Moves.pure ()
  · next rpc _ =>
    refine growing_onPacket fun _ u hinfo => growing_onPacket fun _ v hname =>
      growing_onPacket fun _ w hargs => ?_
    have hscript : WriteOp.performAll (.string name :: arguments) u = (.ok (), w) := by
      rw [WriteOp.performAll, WriteOp.perform, Fallible.bind_ok hname, hargs]
    have hrep' : WriteOp.AllRepresentable (.string name :: arguments) := ⟨trivial, hrep⟩
    obtain ⟨_, hheader⟩ := written_entityInfo hrep' (mirrors_rpc target.info)
      (wellWritten_ofHeader { type := .entityRpc }) rfl rfl (by simp [ofHeader]) hinfo hscript
    have hrpc : w.header.type = .entityRpc := by
      rw [hheader]
      rfl
    have hlast : ∀ q : Packet, Growing o (if (RPCInfo rpc.rpctype (s.isOwner target)).1 then
        receiveRPC q target.info else return ()) := fun q =>
      Fallible.Moves.ite (fun _ => growing_receiveRPC q _) fun _ => Fallible.Moves.pure ()
    have hsend : Growing o (sendPacket stack hook w) :=
      growing_sendPacket (by rw [hrpc]; simp) (by rw [hrpc]; simp)
    dsimp only
    exact Fallible.Moves.ite (fun _ => Fallible.Moves.bind hsend hlast) fun _ =>
      Fallible.Moves.bind (Fallible.Moves.pure w) hlast

end

end Process

end EnkiNet
