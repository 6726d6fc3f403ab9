import EnkiNet.Calls
import EnkiNet.Forest

/-!
# Creating a family of entities

What one call of `createNetworkedEntity` does in the process of a listen server.  The
child types of a type are created with it, so the call makes a tree of entities: `plant`
numbers the type tree on the way down, and the entities are announced on the way up.

* `sendCreation_host`: one entity is announced to every client and created here;
* `createNetworkedEntity_spread`: a call that returns has announced the planted tree,
  in post-order, and has moved the counter by its size;
* `createNetworkedEntity_returns`: it returns when the stack is deep enough and the
  counter does not overflow.
-/

namespace EnkiNet

open ByteStore Packet

/-! ## The tree that a call creates -/

/-- The entries of the child table for the type of an entry. -/
def Registry.children (r : Registry) (child : ChildEntityCreationInfo) :
    List ChildEntityCreationInfo := r.childTypes child.type

/-- An entity of this entry. -/
def ChildEntityCreationInfo.entity (child : ChildEntityCreationInfo) (id : EntityID)
    (owner : ClientID) (parent : EntityID) : EntityInfo :=
  { type := child.type, name := child.name, ID := id, ownerID := owner, parentID := parent }

/-- Entities for a forest of types, numbered from `next` on the way down, each with the
packet for its `onSpawn`. -/
def plant (owner : ClientID) :
    (parent next : EntityID) → Forest ChildEntityCreationInfo → Forest (EntityInfo × Packet)
  | _, _, .nil => .nil
  | parent, next, .cons child below beside =>
      .cons (child.entity next owner parent, child.spawnInfo)
        (plant owner next (next + 1) below)
        (plant owner parent (next + 1 + Int32.ofNat below.size) beside)

/-- What a receiver makes of the packet. -/
def carried (e : EntityInfo × Packet) : EntityInfo × Packet := (e.1, received e.2.bytes)

/-- Ids that stay in range count up. -/
theorem toInt_add_ofNat {n : EntityID} {k : Nat} (h : n.toInt + k ≤ 2147483647) :
    (n + Int32.ofNat k).toInt = n.toInt + k := by
  have hlow : -2147483648 ≤ n.toInt := Int32.le_toInt n
  have hk : (Int32.ofNat k).toInt = (k : Int).bmod (2 ^ 32) := Int32.toInt_ofNat
  rw [Int32.toInt_add, hk, Int.bmod_def, Int.bmod_def]
  omega

/-- Planting numbers the nodes and adds none. -/
@[simp] theorem size_plant (owner : ClientID) (parent next : EntityID)
    (t : Forest ChildEntityCreationInfo) : (plant owner parent next t).size = t.size := by
  induction t generalizing parent next with
  | nil => rfl
  | cons child below beside ihbelow ihbeside => simp only [plant, Forest.size, ihbelow, ihbeside]

/-- Every child has the id of its parent, and the roots have the given one. -/
theorem linked_plant (owner : ClientID) (parent next : EntityID)
    (t : Forest ChildEntityCreationInfo) :
    (plant owner parent next t).Linked (fun e child => child.1.parentID = e.1.ID) ∧
      ∀ e ∈ (plant owner parent next t).roots, e.1.parentID = parent := by
  induction t generalizing parent next with
  | nil => exact ⟨trivial, fun e he => absurd he List.not_mem_nil⟩
  | cons child below beside ihbelow ihbeside =>
      obtain ⟨hbelow, hroots⟩ := ihbelow next (next + 1)
      obtain ⟨hbeside, hothers⟩ := ihbeside parent (next + 1 + Int32.ofNat below.size)
      refine ⟨⟨hroots, hbelow, hbeside⟩, ?_⟩
      intro e he
      rcases List.mem_cons.mp he with rfl | he
      · rfl
      · exact hothers e he

/-- The whole tree has one owner. -/
theorem owner_plant {owner : ClientID} {parent next : EntityID}
    {t : Forest ChildEntityCreationInfo} {e : EntityInfo × Packet}
    (h : e ∈ (plant owner parent next t).preorder) : e.1.ownerID = owner := by
  induction t generalizing parent next with
  | nil => cases h
  | cons child below beside ihbelow ihbeside =>
      rcases List.mem_cons.mp h with rfl | h
      · rfl
      rcases List.mem_append.mp h with h | h
      · exact ihbelow h
      · exact ihbeside h

/-- `n` numbers from `z` on. -/
def consecutive (z : Int) (n : Nat) : List Int := (List.range n).map fun (i : Nat) => z + (i : Int)

theorem consecutive_succ (z : Int) (n : Nat) :
    consecutive z (n + 1) = z :: consecutive (z + 1) n := by
  rw [consecutive, List.range_succ_eq_map, List.map_cons, List.map_map, consecutive]
  congr 1
  · omega
  · apply List.map_congr_left
    intro i _
    simp only [Function.comp]
    omega

/-- Consecutive ids, one stretch after the other. -/
theorem consecutive_add (z : Int) (m n : Nat) :
    consecutive z (m + n) = consecutive z m ++ consecutive (z + m) n := by
  rw [consecutive, List.range_add, List.map_append, List.map_map, consecutive, consecutive]
  congr 1
  apply List.map_congr_left
  intro i _
  simp only [Function.comp]
  omega

/-- **The ids are consecutive, from the top down.** -/
theorem ids_plant (owner : ClientID) (parent : EntityID) {next : EntityID}
    {t : Forest ChildEntityCreationInfo} (h : next.toInt + t.size ≤ 2147483647) :
    (plant owner parent next t).preorder.map (fun e => e.1.ID.toInt) =
      consecutive next.toInt t.size := by
  induction t generalizing parent next with
  | nil => rfl
  | cons child below beside ihbelow ihbeside =>
      have hsize : (Forest.cons child below beside).size = below.size + beside.size + 1 := by
        rw [Forest.size]
        omega
      rw [hsize] at h
      have hone : (next + 1).toInt = next.toInt + 1 := toInt_add_ofNat (k := 1) (by omega)
      have hmore : (next + 1 + Int32.ofNat below.size).toInt = next.toInt + 1 + below.size := by
        rw [toInt_add_ofNat (by omega), hone]
      rw [plant, Forest.preorder, List.map_cons, List.map_append, ihbelow next (by omega),
        ihbeside parent (by omega), hsize, consecutive_succ, consecutive_add, hone, hmore]
      rfl

namespace Process

/-! ## Announcing one entity -/

/-- A listen server in which networking has been enabled. -/
structure Hosting (s : Process) : Prop where
  role_eq : s.role = .host
  id_eq : s.id = 1
  nodup : s.connected.Nodup
  not_connected : 1 ∉ s.connected
  networkReady : s.scene.networkReady
  kept : Kept s.scene

/-- A host stays a host. -/
theorem Hosting.of_frame {s s' : Process} (hs : Hosting s) (h : Frame s s')
    (hkept : Kept s'.scene) :
    Hosting s' where
  role_eq := h.role_eq.trans hs.role_eq
  id_eq := h.id_eq.trans hs.id_eq
  nodup := h.connected_eq ▸ hs.nodup
  not_connected := h.connected_eq ▸ hs.not_connected
  networkReady := h.ready_eq.trans hs.networkReady
  kept := hkept

/-- The entities whose creation has been broadcast. -/
def announcements (effects : List Effect) : List EntityInfo :=
  effects.filterMap fun
    | .announce info _ => some info
    | _ => none

/-- The announcements of two runs, one after the other. -/
theorem announcements_append (effects more : List Effect) :
    announcements (effects ++ more) = announcements effects ++ announcements more :=
  List.filterMap_append

/-- Handling a message announces nothing. -/
theorem Caused.announcements_eq {origin : ClientID} {m : Message} {s : Process}
    {new : List Effect} (h : ∀ e ∈ new, Caused origin m s e) : announcements new = [] := by
  rw [announcements, List.filterMap_eq_nil_iff]
  intro e he
  cases h e he <;> rfl

/-- What is stored under an id after these entities have been created. -/
def storedAfter (spawns : List (EntityInfo × Packet)) (id : EntityID) (held : Option EntityInfo) :
    Option EntityInfo :=
  spawns.foldl (fun held e => if e.1.ID = id then some e.1 else held) held

/-- These entities have been announced to every client, in this order, and created in
this process. -/
structure Spread (spawns : List (EntityInfo × Packet)) (s s' : Process) : Prop where
  frame : Frame s s'
  kept : Kept s'.scene
  announced : announcements s'.effects = announcements s.effects ++ spawns.map Prod.fst
  spawned : networkSpawns s'.effects = networkSpawns s.effects ++ spawns.map carried
  posted : ∀ c ∈ s.connected, ∃ ds, pending s' c = pending s c ++ ds ∧
    ds.map (fun d => (d.origin, messageOfData d.data)) =
      spawns.map fun e => (1, .ok (.creation e.1 (received e.2.bytes)))
  held : ∀ id, 0 < id → s'.scene.held id = storedAfter spawns id (s.scene.held id)

/-- A tree without nodes needs no spreading. -/
theorem Spread.nil {s : Process} (hs : Kept s.scene) : Spread [] s s where
  frame := Frame.refl s
  kept := hs
  announced := (List.append_nil _).symm
  spawned := (List.append_nil _).symm
  posted _ _ := ⟨[], (List.append_nil _).symm, rfl⟩
  held _ _ := rfl

/-- Nodes that are spread one after the other. -/
theorem Spread.trans {spawns more : List (EntityInfo × Packet)} {s t u : Process}
    (h : Spread spawns s t) (h' : Spread more t u) : Spread (spawns ++ more) s u where
  frame := h.frame.trans h'.frame
  kept := h'.kept
  announced := by
    rw [h'.announced, h.announced, List.map_append, List.append_assoc]
  spawned := by
    rw [h'.spawned, h.spawned, List.map_append, List.append_assoc]
  posted c hc := by
    obtain ⟨ds, hds, hmap⟩ := h.posted c hc
    obtain ⟨es, hes, hmap'⟩ := h'.posted c (h.frame.connected_eq.symm ▸ hc)
    refine ⟨ds ++ es, by rw [hes, hds, List.append_assoc], ?_⟩
    rw [List.map_append, List.map_append, hmap, hmap']
  held id hid := by
    rw [h'.held id hid, h.held id hid, storedAfter, storedAfter, storedAfter, List.foldl_append]

/-- A change of the counter before entities are announced. -/
theorem Spread.of_counter {spawns : List (EntityInfo × Packet)} {s s' : Process} {n : EntityID}
    (h : Spread spawns { s with scene := { s.scene with ID := n } } s') : Spread spawns s s' where
  frame := ⟨h.frame.role_eq, h.frame.id_eq, h.frame.connected_eq, h.frame.registry_eq,
    h.frame.ready_eq⟩
  kept := h.kept
  announced := h.announced
  spawned := h.spawned
  posted := h.posted
  held := h.held

/-! ### The packet of a creation -/

/-- Only ENTITY_CREATION says creation. -/
theorem type_of_creation {p : Packet} {info : EntityInfo} {spawnInfo : Packet}
    (hm : messageOf p = .ok (.creation info spawnInfo)) : p.header.type = .entityCreation := by
  rcases hrun : readMessage p.header.type p with ⟨m, q⟩
  rw [messageOf, hrun] at hm
  cases hm
  cases htype : p.header.type with
  | entityCreation => rfl
  | entityCreationOnConnection | entityUpdate | entityRpc | entityDeletion =>
      rw [htype] at hrun
      obtain ⟨_, _, _, hlast⟩ := Fallible.bind_eq_ok hrun
      cases hlast
  | _ =>
      rw [htype] at hrun
      cases hrun

/-- Only ENTITY_CREATION_ON_CONNECTION says restore. -/
theorem type_of_restore {p : Packet} {info : EntityInfo} (hm : messageOf p = .ok (.restore info)) :
    p.header.type = .entityCreationOnConnection := by
  rcases hrun : readMessage p.header.type p with ⟨m, q⟩
  rw [messageOf, hrun] at hm
  cases hm
  cases htype : p.header.type with
  | entityCreationOnConnection => rfl
  | entityUpdate | entityRpc | entityDeletion =>
      rw [htype] at hrun
      obtain ⟨_, _, _, hlast⟩ := Fallible.bind_eq_ok hrun
      cases hlast
  | entityCreation =>
      rw [htype] at hrun
      obtain ⟨_, _, _, hrest⟩ := Fallible.bind_eq_ok hrun
      obtain ⟨_, _, _, hlast⟩ := Fallible.bind_eq_ok hrest
      cases hlast
  | _ =>
      rw [htype] at hrun
      cases hrun

/-- A packet that says a creation holds an info and a packet. -/
theorem reads_of_creation {p : Packet} {info : EntityInfo} {spawnInfo : Packet}
    (htype : p.header.type = .entityCreation)
    (hm : messageOf p = .ok (.creation info spawnInfo)) :
    ∃ q q', getEntityInfo p = (.ok info, q) ∧ getPacket q = (.ok spawnInfo, q') := by
  rw [messageOf, htype, readMessage] at hm
  rcases hinfo : getEntityInfo p with ⟨_ | info', q⟩
  · rw [Fallible.bind_error hinfo] at hm
    cases hm
  rw [Fallible.bind_ok hinfo] at hm
  rcases hspawn : getPacket q with ⟨_ | spawnInfo', q'⟩
  · rw [Fallible.bind_error hspawn] at hm
    cases hm
  rw [Fallible.bind_ok hspawn] at hm
  cases hm
  exact ⟨q, q', rfl, hspawn⟩

/-- Only the numbering of a local entity can fail. -/
theorem createEntity_returns {info : EntityInfo} (h : info.ID ≠ 0) (spawnInfo : Packet)
    (s : Process) : ∃ r s', createEntity info spawnInfo s = (.ok r, s') := by
  rw [createEntity, Fallible.bind_get]
  split
  · exact ⟨_, _, rfl⟩
  cases hcls : s.scene.registry.builders info.type with
  | none => exact ⟨_, _, rfl⟩
  | some cls =>
      dsimp only
      exact ⟨_, _, rfl⟩

/-- The handler of a client creates what the message says. -/
theorem clientHandler_creation {origin : ClientID} {p : Packet} {info : EntityInfo}
    {spawnInfo : Packet} {s : Process} (htype : p.header.type = .entityCreation)
    (hm : messageOf p = .ok (.creation info spawnInfo)) (hID : info.ID ≠ 0) :
    ∃ s', clientHandler origin p s = (.ok (), s') := by
  obtain ⟨q, q', hinfo, hspawn⟩ := reads_of_creation htype hm
  simp only [clientHandler, htype]
  rw [bind_onPacket hinfo]
  dsimp only
  rw [bind_onPacket hspawn, Fallible.bind_get]
  dsimp only
  rw [record, Fallible.bind_modify]
  obtain ⟨r, s', hcreate⟩ := createEntity_returns hID spawnInfo
    { s with effects := s.effects ++ [.spawn info (s.scene.held info.ID)] }
  exact ⟨s', Fallible.bind_ok hcreate _⟩

/-- Broadcasting a packet that can be sent returns if the host's own client does. -/
theorem sendPacketToAllClients_returns (origin : ClientID) {p : Packet} {data : List Byte}
    {s : Process} (hrole : s.role = .host) (hwire : (stamped s.now p).wire = .ok data)
    (hloop : ∀ t, ∃ t', loopback origin (stamped s.now p) t = (.ok (), t')) :
    ∃ s', sendPacketToAllClients origin p s = (.ok (), s') := by
  rw [sendPacketToAllClients, Fallible.bind_get, bind_stamp, recordBroadcast,
    Fallible.bind_modify, Fallible.bind_ok (postIf_eq hwire _), if_pos hrole]
  exact hloop _

/-- The info that `createNetworkedEntity` sends. -/
def owned (info : EntityInfo) : EntityInfo :=
  if info.ownerID = 0 then { info with ownerID := 1 } else info

theorem owned_ID (info : EntityInfo) : (owned info).ID = info.ID := by
  unfold owned
  split <;> rfl

/-- The packet of a creation is written, can be sent and says what it is for. -/
theorem creation_written (info : EntityInfo) {spawnInfo : Packet} (h : spawnInfo.Sound) :
    ∃ w w', putEntityInfo info (ofHeader { type := .entityCreation }) = (.ok (), w) ∧
      putPacket spawnInfo w = (.ok (), w') ∧ Says w' (.creation info (received spawnInfo.bytes)) ∧
      w'.header.type = .entityCreation ∧ ∀ t, ∃ data, (stamped t w').wire = .ok data := by
  obtain ⟨w, hinfo, hw, hext, _⟩ := mirrors_entityInfo info _
    (wellWritten_ofHeader { type := .entityCreation })
  obtain ⟨w', hspawn, hw', hext', _⟩ := mirrors_packet h.1 h.2 w hw
  have howned : Packet.Owned w' := by
    have hstores := (stores_putVector (k := 1) spawnInfo.bytes w hw.headerSize_le trivial).2.2
    have hrun : putVector (k := 1) spawnInfo.bytes w = (.ok (), w') := hspawn
    rwa [hrun] at hstores
  refine ⟨w, w', hinfo, hspawn, says_creation h hinfo hspawn, ?_, ?_⟩
  · rw [hext'.header_eq, hext.header_eq]
    rfl
  · intro t
    obtain ⟨data, hwire, _, _⟩ := (Copies.refl hw' howned).wire hw' t
    exact ⟨data, hwire⟩

/-- Whether a type is registered does not depend on the owner. -/
theorem creatable_owned (r : Registry) (info : EntityInfo) :
    Creatable r (owned info) ↔ Creatable r info := by
  unfold owned
  split <;> exact Iff.rfl

/-- What the announcement of one entity does, put together. -/
theorem spread_of_handled {info : EntityInfo} {spawnInfo : Packet} {s t s' : Process}
    (hs : Hosting s)
    (hsent : Sent 1 (fun _ => true) (.creation info (received spawnInfo.bytes))
      { s with effects := s.effects ++ [.announce info (s.scene.held info.ID)] } t)
    (hhandled : Handled 1 (.creation info (received spawnInfo.bytes)) t s')
    (hcreatable : Creatable s.scene.registry info) (hID : 0 < info.ID) :
    Spread [(info, spawnInfo)] s s' := by
  have hframe := hsent.frame.trans hhandled.frame
  have hkept : Kept t.scene := hsent.scene_eq ▸ hs.kept
  have hcreatable' : Creatable t.scene.registry info := by
    rw [hsent.scene_eq]
    exact hcreatable
  refine ⟨⟨hframe.role_eq, hframe.id_eq, hframe.connected_eq, hframe.registry_eq, hframe.ready_eq⟩,
    hhandled.kept hkept, ?_, ?_, ?_, ?_⟩
  · obtain ⟨new, hnew, hcaused⟩ := hhandled.effects
    rw [hnew, hsent.effects_eq, announcements_append, announcements_append,
      Caused.announcements_eq hcaused]
    exact List.append_nil _
  · rw [hhandled.spawns_eq hkept, Message.spawned_creation hcreatable', if_pos hID,
      hsent.effects_eq, networkSpawns_append]
    exact congrArg (· ++ [(info, received spawnInfo.bytes)]) (List.append_nil _)
  · intro c hc
    obtain ⟨d, horigin, hdata, hpending⟩ := hsent.posted c hc rfl
    refine ⟨[d], ?_, by simp [horigin, hdata]⟩
    rw [pending, hhandled.outbox_eq]
    exact hpending
  · intro id hid
    rw [hhandled.held_eq hkept id hid, Message.onHeld, Message.created, if_pos hcreatable',
      hsent.scene_eq]
    rfl

/-- **One entity is announced to every client and created here.** -/
theorem sendCreation_host {info : EntityInfo} {spawnInfo : Packet} {s : Process} (hs : Hosting s)
    (hsound : spawnInfo.Sound) (hcreatable : Creatable s.scene.registry info) (hID : 0 < info.ID) :
    ∃ s', sendCreation info spawnInfo s = (.ok (), s') ∧
      Spread [(owned info, spawnInfo)] s s' ∧ s'.scene.ID = s.scene.ID := by
  have hnot : s.role ≠ .client := by
    rw [hs.role_eq]
    simp
  have hown : s.ownID = 1 := by
    rw [ownID, if_neg (by rw [hs.role_eq]; simp), hs.id_eq]
  have hID' : (owned info).ID ≠ 0 := by
    rw [owned_ID]
    exact (Int32.ne_of_lt hID).symm
  obtain ⟨w, w', hinfo, hspawn, hmeans, htype, hwire⟩ := creation_written (owned info) hsound
  obtain ⟨data, hdata⟩ := hwire s.now
  have hloop : ∀ t : Process, ∃ t', loopback 1 (stamped s.now w') t = (.ok (), t') := by
    intro t
    rw [loopback, Fallible.bind_get]
    have hm : messageOf { (stamped s.now w').resetReadPosition with
        info := { senderID := 1, timeReceived := t.now } } =
          .ok (.creation (owned info) (received spawnInfo.bytes)) := by
      rw [messageOf_info, (hmeans s.now).1]
    exact clientHandler_creation htype hm hID'
  obtain ⟨s', hrun⟩ := sendPacketToAllClients_returns 1 (s := { s with
    effects := s.effects ++ [.announce (owned info) (s.scene.held (owned info).ID)] })
    hs.role_eq hdata hloop
  refine ⟨s', ?_, ?_⟩
  · have howner : (if info.ownerID = 0 ∧ s.scene.networkReady then
        { info with ownerID := s.ownID } else info) = owned info := by
      simp only [owned, hown, hs.networkReady, and_true]
    rw [sendCreation, Fallible.bind_get]
    dsimp only
    rw [howner, if_pos hs.networkReady, bind_onPacket hinfo]
    dsimp only
    rw [bind_onPacket hspawn, if_neg hnot, record, Fallible.bind_modify, hown]
    exact hrun
  obtain ⟨t, hsent, ⟨_, _, hhandled⟩ | ⟨hnone, _⟩⟩ :=
    sendPacketToAllClients_ok (by exact hs.nodup) hmeans hrun
  · exact ⟨spread_of_handled hs hsent hhandled (by rwa [creatable_owned]) (by rwa [owned_ID]),
      hhandled.counter_eq.trans (congrArg Scenegraph.ID hsent.scene_eq)⟩
  · exact absurd ⟨hs.role_eq, rfl⟩ hnone

/-! ## The whole tree -/

/-- The entry has a name and a registered type. -/
def Usable (r : Registry) (child : ChildEntityCreationInfo) : Prop :=
  Creatable r (child.entity 0 0 0)

/-- `createNetworkedEntity` for each of these entries, with a parent. -/
def createAll (stack : Nat) (owner : ClientID) (parent : EntityID)
    (children : List ChildEntityCreationInfo) : ProcessM Unit :=
  Fallible.forEach children fun child =>
    createNetworkedEntity stack (child.entity 0 owner parent) child.spawnInfo

/-- The owner that is sent for the owner that was given. -/
def resolved (owner : ClientID) : ClientID := if owner = 0 then 1 else owner

/-- A child with owner 0 belongs to the host. -/
theorem owned_entity (child : ChildEntityCreationInfo) (id : EntityID) (owner : ClientID)
    (parent : EntityID) :
    owned (child.entity id owner parent) = child.entity id (resolved owner) parent := by
  have hsame : (child.entity id owner parent).ownerID = owner := rfl
  unfold owned resolved
  rw [hsame]
  by_cases h : owner = 0
  · rw [if_pos h, if_pos h]
    rfl
  · rw [if_neg h, if_neg h]

section

variable {r : Registry} {child : ChildEntityCreationInfo} {stack : Nat} {owner : ClientID}
  {parent : EntityID} {s s' : Process}

/-- One level of the recursion. -/
theorem createNetworkedEntity_eq (hs : Hosting s) (hr : s.scene.registry = r)
    (husable : Usable r child) :
    createNetworkedEntity (stack + 1) (child.entity 0 owner parent) child.spawnInfo s =
      (nextID >>= fun ID => do
        createAll stack owner ID (r.children child)
        sendCreation (child.entity ID owner parent) child.spawnInfo) s := by
  have hcan : ¬ (¬ (child.entity 0 owner parent).Named ∨
      s.scene.registry.builders (child.entity 0 owner parent).type = none) := by
    rw [hr, not_or, not_not]
    exact ⟨husable.1, Option.isSome_iff_ne_none.mp husable.2⟩
  have hnew : s.role ≠ .client ∧ (child.entity 0 owner parent).ID = 0 := by
    rw [hs.role_eq]
    exact ⟨by simp, rfl⟩
  rw [createNetworkedEntity, Fallible.bind_get, if_neg hcan, if_pos hnew]
  by_cases hmax : s.scene.ID = Int32.maxValue
  · have hfail : nextID s = (.error (.undefined .signedOverflow), s) := by
      rw [nextID, Fallible.bind_get, if_pos hmax]
      rfl
    rw [Fallible.bind_error hfail, Fallible.bind_error hfail]
  · have hid : nextID s = (.ok s.scene.ID,
        { s with scene := { s.scene with ID := s.scene.ID + 1 } }) := by
      rw [nextID, Fallible.bind_get, if_neg hmax]
      rfl
    rw [Fallible.bind_ok hid, Fallible.bind_ok hid, createFamily, Fallible.bind_get]
    dsimp only
    rw [hr]
    rfl

/-- Handing out an id leaves a host a host. -/
theorem hosting_numbered (hs : Hosting s) (hmax : s.scene.ID ≠ Int32.maxValue) :
    Hosting { s with scene := { s.scene with ID := s.scene.ID + 1 } } :=
  hs.of_frame ⟨rfl, rfl, rfl, rfl, rfl⟩
    ⟨hs.kept.localID_neg, Int32.lt_trans hs.kept.ID_pos (lt_add_one hmax), hs.kept.stored⟩

theorem toInt_add_one {n : EntityID} (h : n ≠ Int32.maxValue) : (n + 1).toInt = n.toInt + 1 := by
  have hne : n.toInt ≠ 2147483647 := fun heq => h (Int32.toInt_inj.mp heq)
  have hup : n.toInt < 2147483648 := Int32.toInt_lt n
  exact toInt_add_ofNat (k := 1) (by omega)

/-- **A call that returns has announced the planted forest from the bottom up.**  By
induction on the forest: an id is taken before the forest below it is created, and the
entity is announced after it. -/
theorem createAll_spread {children : List ChildEntityCreationInfo}
    {t : Forest ChildEntityCreationInfo} (ht : Forest.Unfolds r.children children t)
    (husable : ∀ child ∈ t.preorder, Usable r child) (hs : Hosting s) (hr : s.scene.registry = r)
    (hrun : createAll stack owner parent children s = (.ok (), s')) :
    Spread (plant (resolved owner) parent s.scene.ID t).postorder s s' ∧
      s'.scene.ID.toInt = s.scene.ID.toInt + t.size := by
  induction ht generalizing stack parent s s' with
  | nil =>
      cases hrun
      exact ⟨Spread.nil hs.kept, (Int.add_zero _).symm⟩
  | @cons child rest below beside hbelow hbeside ihbelow ihbeside =>
      obtain ⟨_, s₁, hone, hrest⟩ := Fallible.bind_eq_ok hrun
      cases stack with
      | zero => cases hone
      | succ stack =>
      obtain ⟨hself, hdown, hbesides⟩ := Forest.forall_mem_preorder_cons.mp husable
      replace hone := (createNetworkedEntity_eq hs hr hself).symm.trans hone
      obtain ⟨id, n, hid, hone⟩ := Fallible.bind_eq_ok hone
      obtain ⟨hmax, rfl, rfl⟩ := nextID_ok hid
      obtain ⟨_, u, hchildren, hlast⟩ := Fallible.bind_eq_ok hone
      have hn := hosting_numbered hs hmax
      obtain ⟨hspread, hcount⟩ := ihbelow hdown hn hr hchildren
      change u.scene.ID.toInt = (s.scene.ID + 1).toInt + below.size at hcount
      have hu := hn.of_frame hspread.frame hspread.kept
      have hself' : Creatable u.scene.registry (child.entity s.scene.ID owner parent) := by
        rw [hspread.frame.registry_eq]
        exact hr ▸ hself
      obtain ⟨u', hsend, hnode, hcounter⟩ :=
        sendCreation_host hu child.sound hself' hs.kept.ID_pos
      rw [hsend] at hlast
      cases hlast
      rw [owned_entity] at hnode
      have hfirst := hspread.of_counter.trans hnode
      have hs₁ := hs.of_frame hfirst.frame hfirst.kept
      obtain ⟨hothers, htotal⟩ :=
        ihbeside hbesides hs₁ (hfirst.frame.registry_eq.trans hr) hrest
      have hadd := toInt_add_one hmax
      have hnext : s₁.scene.ID = s.scene.ID + 1 + Int32.ofNat below.size := by
        have hup : u.scene.ID.toInt < 2147483648 := Int32.toInt_lt _
        rw [hcounter]
        apply Int32.toInt_inj.mp
        rw [hcount, toInt_add_ofNat (by omega)]
      refine ⟨?_, ?_⟩
      · have hall := hfirst.trans hothers
        rw [hnext, List.append_assoc] at hall
        exact hall
      · rw [htotal, hcounter, hcount, Forest.size]
        omega

/-- **A call returns** when there is a nested call for each level and an id for each
entity. -/
theorem createAll_returns {children : List ChildEntityCreationInfo}
    {t : Forest ChildEntityCreationInfo} (ht : Forest.Unfolds r.children children t)
    (husable : ∀ child ∈ t.preorder, Usable r child) (hs : Hosting s) (hr : s.scene.registry = r)
    (hroom : s.scene.ID.toInt + t.size ≤ 2147483647) (hdeep : t.height ≤ stack) :
    ∃ s', createAll stack owner parent children s = (.ok (), s') := by
  induction ht generalizing stack parent s with
  | nil => exact ⟨s, rfl⟩
  | @cons child rest below beside hbelow hbeside ihbelow ihbeside =>
      have hsize : (Forest.cons child below beside).size = below.size + 1 + beside.size := rfl
      have hheight : (Forest.cons child below beside).height =
          max (below.height + 1) beside.height := rfl
      rw [hsize] at hroom
      rw [hheight] at hdeep
      obtain ⟨stack, rfl⟩ : ∃ k, stack = k + 1 := ⟨stack - 1, by omega⟩
      obtain ⟨hself, hdown, hbesides⟩ := Forest.forall_mem_preorder_cons.mp husable
      have hmax : s.scene.ID ≠ Int32.maxValue := by
        intro heq
        rw [heq] at hroom
        have hlast : Int32.maxValue.toInt = 2147483647 := rfl
        omega
      have hid : nextID s = (.ok s.scene.ID,
          { s with scene := { s.scene with ID := s.scene.ID + 1 } }) := by
        rw [nextID, Fallible.bind_get, if_neg hmax]
        rfl
      have hadd := toInt_add_one hmax
      have hn := hosting_numbered hs hmax
      have hroom' : (s.scene.ID + 1).toInt + below.size ≤ 2147483647 := by omega
      have hchildren : ∃ u, createAll stack owner s.scene.ID (r.children child)
          { s with scene := { s.scene with ID := s.scene.ID + 1 } } = (.ok (), u) :=
        ihbelow hdown hn hr hroom' (by omega)
      obtain ⟨u, hchildren⟩ := hchildren
      obtain ⟨hspread, hcount⟩ := createAll_spread hbelow hdown hn hr hchildren
      change u.scene.ID.toInt = (s.scene.ID + 1).toInt + below.size at hcount
      have hu := hn.of_frame hspread.frame hspread.kept
      have hself' : Creatable u.scene.registry (child.entity s.scene.ID owner parent) := by
        rw [hspread.frame.registry_eq]
        exact hr ▸ hself
      obtain ⟨s₁, hsend, hnode, hcounter⟩ :=
        sendCreation_host hu child.sound hself' hs.kept.ID_pos
      have hone : createNetworkedEntity (stack + 1) (child.entity 0 owner parent)
        child.spawnInfo s =
          (.ok (), s₁) := by
        rw [createNetworkedEntity_eq hs hr hself, Fallible.bind_ok hid, Fallible.bind_ok hchildren]
        exact hsend
      have hfirst := hspread.of_counter.trans hnode
      have hothers : ∃ s', createAll (stack + 1) owner parent rest s₁ = (.ok (), s') :=
        ihbeside hbesides (hs.of_frame hfirst.frame hfirst.kept)
          (hfirst.frame.registry_eq.trans hr) (by rw [hcounter, hcount]; omega) (by omega)
      obtain ⟨s', hrest⟩ := hothers
      exact ⟨s', (Fallible.bind_ok hone _).trans hrest⟩

end

end Process

end EnkiNet
