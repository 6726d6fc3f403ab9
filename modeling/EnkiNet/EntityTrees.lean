import EnkiNet.Hearing

/-!
# Entity trees

`createNetworkedEntity` on a listen server, called by game code or on a client's request:
the whole tree of child types is created with the entity.  `tree_created` says what has
happened in the session when the call returns, what every client hears of it afterwards,
and when the call returns.

Clients that stay hear of every entity of the tree once.  A client whose `CONNECTED`
packet is still in the server's queue is told by the broadcast and again by the
snapshot (`spawned_twice`).
-/

namespace EnkiNet

open ByteStore Packet Process

/-- The entry under which an entity would be created as a child. -/
def EntityInfo.entry (info : EntityInfo) (spawnInfo : Packet) (sound : spawnInfo.Sound) :
    ChildEntityCreationInfo :=
  { type := info.type, name := info.name, spawnInfo := spawnInfo, sound := sound }

/-- The child table has no cycle, and its entries have a name and a registered type. -/
structure Registry.Sensible (r : Registry) : Prop where
  acyclic : WellFounded fun type' type => ∃ child ∈ r.childTypes type, child.type = type'
  usable : ∀ type, ∀ child ∈ r.childTypes type, Usable r child

namespace Session

/-- The event makes the server execute `createNetworkedEntity(info, spawnInfo)`, with
room for `stack` nested calls: game code calls it, or a client has asked for it. -/
inductive Executes (s : Session) (stack : Nat) : Event → EntityInfo → Packet → Prop
  | call (hooks : Hooks) (info : EntityInfo) (spawnInfo : Packet) (sound : spawnInfo.Sound) :
      Executes s stack (.hostCall stack hooks (.createNetworkedEntity info spawnInfo sound)) info
        spawnInfo
  | request (hooks : Hooks) (p : Packet) (rest : List Packet) (info : EntityInfo)
      (spawnInfo : Packet) (hqueue : s.queue = p :: rest) (htype : p.header.type = .entityCreation)
      (hm : messageOf p = .ok (.creation info spawnInfo)) :
      Executes s stack (.serve stack hooks) { info with ownerID := p.info.senderID } spawnInfo

/-- `tree` has been created by the step from `s` to `s'`. -/
structure TreeCreated (info : EntityInfo) (tree : Forest (EntityInfo × Packet)) (s s' : Session) :
    Prop where
  ids : tree.preorder.map (fun e => e.1.ID.toInt) =
    consecutive s.host.scene.ID.toInt tree.size
  counter : s'.host.scene.ID.toInt = s.host.scene.ID.toInt + tree.size
  parents : tree.Linked (fun e child => child.1.parentID = e.1.ID) ∧
    ∀ e ∈ tree.roots, e.1.parentID = info.parentID
  owners : ∀ e ∈ tree.preorder, e.1.ownerID = if info.ownerID = 0 then s.host.id else info.ownerID
  announced : announcements s'.host.effects =
    announcements s.host.effects ++ tree.postorder.map Prod.fst
  broadcast : ∀ c ∈ s.host.connected, ∃ ds, s'.host.pending c = s.host.pending c ++ ds ∧
    ds.map (fun d => (d.origin, messageOfData d.data)) =
      tree.postorder.map fun e => (1, .ok (.creation e.1 (received e.2.bytes)))
  spawned : networkSpawns s'.host.effects =
    networkSpawns s.host.effects ++ tree.postorder.map carried

/-- By the end of the run every entity of the tree has been spawned once by the client, or
is on its way to it; what the client hears of afterwards is what the host's own client
spawns afterwards. -/
def HeardOnce (c : ClientID) (tree : Forest (EntityInfo × Packet)) (s t : Session) : Prop :=
  ∃ later, networkSpawns t.host.effects =
      networkSpawns s.host.effects ++ tree.postorder.map carried ++ later ∧
    networkSpawns (t.peer c).effects ++ t.host.pendingSpawns c =
      networkSpawns (s.peer c).effects ++ s.host.pendingSpawns c ++
        tree.postorder.map carried ++ later

/-! ## The call in the host's process -/

section

variable {s s' : Session} {stack : Nat} {e : Event} {info : EntityInfo} {spawnInfo : Packet}

theorem Executes.sound (h : s.Executes stack e info spawnInfo) : spawnInfo.Sound := by
  cases h with
  | call hooks info spawnInfo sound => exact sound
  | request hooks p rest info spawnInfo hqueue htype hm =>
      obtain ⟨q, q', _, hspawn⟩ := reads_of_creation htype hm
      exact getPacket_sound hspawn

/-- A creation request that is carried out can be read. -/
theorem creation_of_served {hook : EntityID → List WriteOp} {p : Packet} {h h' : Process}
    (htype : p.header.type = .entityCreation) (hrun : serverHandler stack hook p h = (.ok (), h')) :
    ∃ info spawnInfo, messageOf p = .ok (.creation info spawnInfo) := by
  simp only [serverHandler, htype] at hrun
  obtain ⟨info, q, hinfo, hrun⟩ := bind_onPacket_ok hrun
  obtain ⟨spawnInfo, q', hspawn, hrun⟩ := bind_onPacket_ok hrun
  refine ⟨info, spawnInfo, ?_⟩
  dsimp only at hspawn
  rw [messageOf, htype, readMessage, Fallible.bind_ok hinfo, Fallible.bind_ok hspawn]
  rfl

/-- The server's handler makes the call that a request asks for. -/
theorem serverHandler_creation {hook : EntityID → List WriteOp} {p : Packet}
    (htype : p.header.type = .entityCreation) (hm : messageOf p = .ok (.creation info spawnInfo))
    (h : Process) : serverHandler stack hook p h =
      createNetworkedEntity stack { info with ownerID := p.info.senderID } spawnInfo h := by
  obtain ⟨q, q', hinfo, hspawn⟩ := reads_of_creation htype hm
  have hsender : q'.info = p.info :=
    (reads_getPacket.info_eq hspawn).trans (reads_getEntityInfo.info_eq hinfo)
  simp only [serverHandler, htype]
  rw [bind_onPacket hinfo]
  dsimp only
  rw [bind_onPacket hspawn]
  dsimp only
  rw [hsender]

/-- The event runs the call in the host's process. -/
theorem Executes.step_eq (h : s.Executes stack e info spawnInfo) :
    ∃ queue, s.step e = (s.host.after (createNetworkedEntity stack info spawnInfo)).bind fun host =>
      some { s with host := host, queue := queue } := by
  cases h with
  | call hooks info spawnInfo sound => exact ⟨s.queue, rfl⟩
  | request hooks p rest info spawnInfo hqueue htype hm =>
      refine ⟨rest, ?_⟩
      have hsame : s.host.after (serverHandler stack hooks.script p) =
          s.host.after (createNetworkedEntity stack { info with ownerID := p.info.senderID }
            spawnInfo) := by
        rw [after, serverHandler_creation htype hm, after]
      simp only [step, hqueue, hsame]
      rfl

end

theorem Obeys.hosting {π : Policy} {s : Session} (hs : s.Obeys π) : Hosting s.host where
  role_eq := hs.role_eq
  id_eq := hs.host.host_id hs.role_eq
  nodup := hs.host.nodup
  not_connected := hs.host.not_connected
  networkReady := hs.networkReady
  kept := hs.host.kept

end Session

namespace Registry.Sensible

variable {r : Registry} {root : ChildEntityCreationInfo}

theorem wellFounded (h : r.Sensible) : WellFounded fun child parent => child ∈ r.children parent :=
  Subrelation.wf (fun {child _} hchild => ⟨child, hchild, rfl⟩)
    (InvImage.wf ChildEntityCreationInfo.type h.acyclic)

theorem usable_of_unfolds (h : r.Sensible) {t : Forest ChildEntityCreationInfo}
    (ht : Forest.Unfolds r.children [root] t) (hroot : Usable r root) :
    ∀ child ∈ t.preorder, Usable r child := by
  refine ht.forall_mem ?_ fun parent _ child hchild => h.usable parent.type child hchild
  intro child hchild
  cases List.mem_singleton.mp hchild
  exact hroot

end Registry.Sensible

namespace Session

section

variable {s s' : Session} {stack : Nat} {info : EntityInfo} {spawnInfo : Packet}

/-- A call for a new entity is one round of the loop over child types. -/
theorem createAll_root (sound : spawnInfo.Sound) (hnew : info.ID = 0) (h : Process) :
    createAll stack info.ownerID info.parentID [info.entry spawnInfo sound] h =
      createNetworkedEntity stack info spawnInfo h := by
  have hentity : (info.entry spawnInfo sound).entity 0 info.ownerID info.parentID = info := by
    cases info
    cases hnew
    rfl
  rw [createAll, Fallible.forEach, hentity]
  rcases hrun : createNetworkedEntity stack info spawnInfo h with ⟨_ | ⟨⟩, h'⟩
  · exact Fallible.bind_error hrun _
  · exact Fallible.bind_ok hrun _

/-- What the call leaves, put together. -/
theorem treeCreated_of_spread {t : Forest ChildEntityCreationInfo} (hs : Hosting s.host)
    (hspread : Spread (plant (resolved info.ownerID) info.parentID s.host.scene.ID t).postorder
      s.host s'.host)
    (hcounter : s'.host.scene.ID.toInt = s.host.scene.ID.toInt + t.size) :
    TreeCreated info (plant (resolved info.ownerID) info.parentID s.host.scene.ID t) s s' where
  ids := by
    have hup : s'.host.scene.ID.toInt < 2147483648 := Int32.toInt_lt _
    rw [size_plant]
    exact ids_plant _ _ (by omega)
  counter := by rw [hcounter, size_plant]
  parents := linked_plant _ _ _ _
  owners e he := by
    rw [owner_plant he, hs.id_eq]
    rfl
  announced := hspread.announced
  broadcast := hspread.posted
  spawned := hspread.spawned

theorem Executes.staysWith {e : Event} (h : s.Executes stack e info spawnInfo) (c : ClientID) :
    s.StaysWith c e := by
  cases h with
  | call hooks info spawnInfo sound => trivial
  | request hooks p rest info spawnInfo hqueue htype hm =>
      intro q hq hconnected
      rw [hqueue] at hq
      cases hq
      rw [htype] at hconnected
      cases hconnected

/-- The event takes place exactly when the call returns. -/
theorem Executes.step_ok_iff {e : Event} (h : s.Executes stack e info spawnInfo) :
    (∃ s', s.step e = some s') ↔
      ∃ host, createNetworkedEntity stack info spawnInfo s.host = (.ok (), host) := by
  obtain ⟨queue, hstep⟩ := h.step_eq
  constructor
  · rintro ⟨s', hs'⟩
    obtain ⟨host, hhost, _⟩ := Option.bind_eq_some_iff.mp (hstep.symm.trans hs')
    exact ⟨host, after_eq_some hhost⟩
  · rintro ⟨host, hhost⟩
    refine ⟨{ s with host := host, queue := queue }, ?_⟩
    rw [hstep, after, hhost]
    rfl

theorem Executes.host_eq {e : Event} (h : s.Executes stack e info spawnInfo)
    (hstep : s.step e = some s') :
    createNetworkedEntity stack info spawnInfo s.host = (.ok (), s'.host) := by
  obtain ⟨queue, heq⟩ := h.step_eq
  obtain ⟨host, hhost, hs'⟩ := Option.bind_eq_some_iff.mp (heq.symm.trans hstep)
  cases hs'
  exact after_eq_some hhost

/-- What the clients hear in the end. -/
theorem HeardOnce.of_hears {c : ClientID} {tree : Forest (EntityInfo × Packet)} {t : Session}
    (hbefore : Hears c s s')
    (hspawned : networkSpawns s'.host.effects =
      networkSpawns s.host.effects ++ tree.postorder.map carried)
    (hafter : Hears c s' t) : HeardOnce c tree s t := by
  obtain ⟨new, hnew, hheard⟩ := hbefore.alike
  obtain ⟨later, hlater, hheard'⟩ := hafter.alike
  have hsame : new = tree.postorder.map carried :=
    List.append_cancel_left (hnew.symm.trans hspawned)
  refine ⟨later, ?_, ?_⟩
  · rw [hlater, hspawned]
  · change t.heard c = s.heard c ++ _ ++ later
    rw [hheard', hheard, hsame]

end

/-- **The whole tree is created.**  A call that a listen server executes for a new entity
creates the tree of its child types, and returns if the stack is deep enough and the ids
do not run out.  A client that stays connected and is sent no snapshot afterwards hears
of every entity of the tree once. -/
theorem tree_created {registry : Registry} {es : List Event} {s : Session} {stack : Nat}
    {e : Event} {info : EntityInfo} {spawnInfo : Packet} (hregistry : registry.Sensible)
    (hrun : Runs.run step (start registry) es = some s) (hnew : info.ID = 0)
    (hcreatable : Creatable registry info) (hexec : s.Executes stack e info spawnInfo) :
    ∃ t, Forest.Unfolds registry.children [info.entry spawnInfo hexec.sound] t ∧
      (t.height ≤ stack →
        ((∃ s', s.step e = some s') ↔ s.host.scene.ID.toInt + t.size ≤ 2147483647)) ∧
      ∀ s', s.step e = some s' →
        TreeCreated info (plant (resolved info.ownerID) info.parentID s.host.scene.ID t) s s' ∧
          ∀ c ∈ s.host.connected, ∀ later u, Runs.Meets step (StaysWith c) s' later →
            Runs.run step s' later = some u →
            HeardOnce c (plant (resolved info.ownerID) info.parentID s.host.scene.ID t) s u := by
  obtain ⟨hobeys, hsame⟩ := obeys_of_run (start_obeys registry) hrun
  have hs := hobeys.hosting
  obtain ⟨t, ht⟩ := Forest.exists_unfolds hregistry.wellFounded [info.entry spawnInfo hexec.sound]
  have husable := hregistry.usable_of_unfolds ht hcreatable
  have hroot : createAll stack info.ownerID info.parentID [info.entry spawnInfo hexec.sound]
    s.host =
      createNetworkedEntity stack info spawnInfo s.host := createAll_root hexec.sound hnew s.host
  refine ⟨t, ht, ?_, ?_⟩
  · intro hdeep
    rw [hexec.step_ok_iff]
    constructor
    · rintro ⟨host, hhost⟩
      obtain ⟨_, hcounter⟩ := createAll_spread ht husable hs hsame (hroot.trans hhost)
      have hup : host.scene.ID.toInt < 2147483648 := Int32.toInt_lt _
      omega
    · intro hroom
      have hreturns : ∃ host, createAll stack info.ownerID info.parentID
          [info.entry spawnInfo hexec.sound] s.host = (.ok (), host) :=
        createAll_returns ht husable hs hsame hroom hdeep
      obtain ⟨host, hhost⟩ := hreturns
      exact ⟨host, hroot.symm.trans hhost⟩
  · intro s' hstep
    obtain ⟨hspread, hcounter⟩ := createAll_spread ht husable hs hsame
      (hroot.trans (hexec.host_eq hstep))
    have htree := treeCreated_of_spread hs hspread hcounter
    refine ⟨htree, ?_⟩
    intro c hc later u hstays hlater
    have hbefore := hears_of_step hobeys (Policy.any_permits s e) hc (hexec.staysWith c) hstep
    exact HeardOnce.of_hears hbefore htree.spawned
      (hears_of_run (obeys_of_step hobeys hstep).1 hbefore.connected hstays hlater)

end Session

/-! ## A family -/

namespace Sample

/-- An `A` comes with a `C`. -/
def child : ChildEntityCreationInfo :=
  { type := letter 67, name := letter 66, spawnInfo := ofHeader {}, sound := sound_blank }

def family : Registry where
  builders type := if type = letter 65 ∨ type = letter 67 then some {} else none
  childTypes type := if type = letter 65 then [child] else []

theorem mem_family {type : StdString} {entry : ChildEntityCreationInfo}
    (h : entry ∈ family.childTypes type) : type = letter 65 ∧ entry = child := by
  by_cases htype : type = letter 65
  · simp only [family, if_pos htype, List.mem_singleton] at h
    exact ⟨htype, h⟩
  · simp only [family, if_neg htype, List.not_mem_nil] at h

theorem family_sensible : family.Sensible where
  acyclic := by
    refine Subrelation.wf ?_ (measure fun type => if type = letter 65 then 1 else 0).wf
    rintro type' type ⟨entry, hentry, rfl⟩
    obtain ⟨rfl, rfl⟩ := mem_family hentry
    change (if child.type = letter 65 then 1 else 0) < (if letter 65 = letter 65 then 1 else 0)
    decide
  usable type entry hentry := by
    obtain ⟨rfl, rfl⟩ := mem_family hentry
    exact ⟨by decide, by decide⟩

end Sample

namespace Session

/-- The call of the host is served while client 2 is connected. -/
theorem tree_created_family :
    ∃ s s' tree, Runs.run step (start Sample.family) [.connect 2 0 0, .serve 5 .silent] = some s ∧
      s.step (.hostCall 5 .silent Sample.create) = some s' ∧
      TreeCreated (Sample.info 0 0) tree s s' := by
  have hsome : (Runs.run step (start Sample.family) [.connect 2 0 0, .serve 5 .silent]).any
      (fun s => (s.step (.hostCall 5 .silent Sample.create)).isSome) = true := by decide +kernel
  obtain ⟨s, hrun, hstep⟩ := (Option.any_eq_true _ _).mp hsome
  obtain ⟨s', hstep⟩ := Option.isSome_iff_exists.mp hstep
  have hexec : s.Executes 5 (.hostCall 5 .silent Sample.create) (Sample.info 0 0) (ofHeader {}) :=
    .call .silent _ _ _
  obtain ⟨t, _, _, htree⟩ := tree_created Sample.family_sensible hrun rfl
    ⟨by decide, by decide⟩ hexec
  exact ⟨s, s', _, hrun, hstep, (htree s' hstep).1⟩

/-- Client 2 has connected, and the server has not looked into its queue yet. -/
def unserved : List Event :=
  [.connect 2 0 0, .hostCall 5 .silent Sample.create, .deliver 2 0, .serve 5 .silent, .deliver 2 0]

/-- **An entity is spawned twice.**  The client hears of it from the broadcast, and from
the snapshot that the server makes when it serves the `CONNECTED` packet. -/
theorem spawned_twice :
    ∃ t, Runs.run step (start Sample.registry) unserved = some t ∧ 2 ∈ t.host.connected ∧
      t.host.pending 2 = [] ∧ (announcements t.host.effects).map EntityInfo.ID = [1] ∧
      (networkSpawns (t.peer 2).effects).map (fun e => e.1.ID) = [1, 1] :=
  Runs.exists_of_any (by decide +kernel)

end Session

end EnkiNet
