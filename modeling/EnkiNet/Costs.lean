import EnkiNet.Completion

/-!
# What a creation costs

`createNetworkedEntity` on a server needs a nested call for each level of child types and
an id for each entity.  `Costs r x P n` says of a program that it returns if and only if
`P` holds and `n` ids are left, and that it then takes exactly these; the rules for
sequences and loops add the costs up.  `costs_createNetworkedEntity` is the cost of a
creation, whoever is connected.
-/

namespace EnkiNet

open ByteStore Packet
open Fallible (Returns)

namespace Process

/-- A server with these tables, with or without a client of its own. -/
structure ServerOf (r : Registry) (s : Process) : Prop where
  role_ne : s.role ≠ .client
  registry_eq : s.scene.registry = r
  kept : Kept s.scene

/-- The program returns if and only if `P` holds and there are `n` ids left, which it
takes. -/
def Costs (r : Registry) (x : ProcessM Unit) (P : Prop) (n : Nat) : Prop :=
  ∀ s, ServerOf r s →
    (Returns x s ↔ P ∧ s.scene.ID.toInt + n ≤ 2147483647) ∧
    ∀ s', x s = (.ok (), s') → ServerOf r s' ∧ s'.scene.ID.toInt = s.scene.ID.toInt + n

section

variable {r : Registry} {x y : ProcessM Unit} {P Q : Prop} {n k : Nat} {s s' : Process}

theorem toInt_le (id : EntityID) : id.toInt ≤ 2147483647 := by
  have hup : id.toInt < 2147483648 := Int32.toInt_lt id
  omega

/-! ## Rules -/

theorem Costs.pure : Costs r (pure ()) True 0 := by
  intro s hs
  refine ⟨iff_of_true (Fallible.returns_pure _ _) ⟨trivial, ?_⟩, ?_⟩
  · have hle := toInt_le s.scene.ID
    omega
  · intro s' hrun
    cases hrun
    exact ⟨hs, (Int.add_zero _).symm⟩

theorem Costs.fail (e : Fault) : Costs r (Fallible.fail e) False 0 := by
  intro s _
  refine ⟨iff_of_false (Fallible.not_returns_fail _ _) fun h => h.1, ?_⟩
  intro s' hrun
  cases hrun

theorem Costs.bind (hx : Costs r x P n) (hy : Costs r y Q k) :
    Costs r (x >>= fun _ => y) (P ∧ Q) (n + k) := by
  intro s hs
  obtain ⟨hiff, hafter⟩ := hx s hs
  refine ⟨?_, ?_⟩
  · rw [Fallible.returns_bind]
    constructor
    · intro h
      obtain ⟨_, t, hone, hrest⟩ := h
      obtain ⟨ht, hcount⟩ := hafter t hone
      obtain ⟨hP, _⟩ := hiff.mp ⟨_, t, hone⟩
      obtain ⟨hQ, hroom⟩ := (hy t ht).1.mp hrest
      rw [hcount] at hroom
      exact ⟨⟨hP, hQ⟩, by omega⟩
    · intro h
      obtain ⟨⟨hP, hQ⟩, hroom⟩ := h
      obtain ⟨_, t, hone⟩ := hiff.mpr ⟨hP, by omega⟩
      obtain ⟨ht, hcount⟩ := hafter t hone
      refine ⟨_, t, hone, (hy t ht).1.mpr ⟨hQ, ?_⟩⟩
      rw [hcount]
      omega
  · intro s' hrun
    obtain ⟨_, t, hone, hrest⟩ := Fallible.bind_eq_ok hrun
    obtain ⟨ht, hcount⟩ := hafter t hone
    obtain ⟨hs', hcount'⟩ := (hy t ht).2 s' hrest
    refine ⟨hs', ?_⟩
    rw [hcount', hcount]
    omega

/-- The program may depend on what the state of a server with these tables says. -/
theorem Costs.of_eq (hy : Costs r y P n) (heq : ∀ s, ServerOf r s → x s = y s) :
    Costs r x P n := by
  intro s hs
  rw [Returns, heq s hs]
  exact hy s hs

theorem Costs.congr (hx : Costs r x P n) (hPQ : P ↔ Q) (hnk : n = k) : Costs r x Q k := by
  subst hnk
  exact propext hPQ ▸ hx

/-- An id is taken first. -/
theorem Costs.next {f : EntityID → ProcessM Unit} (hf : ∀ id, 0 < id → Costs r (f id) P n) :
    Costs r (nextID >>= f) P (n + 1) := by
  intro s hs
  by_cases hmax : s.scene.ID = Int32.maxValue
  · have hfail : nextID s = (.error (.undefined .signedOverflow), s) := by
      rw [nextID, Fallible.bind_get, if_pos hmax]
      rfl
    have hlast : s.scene.ID.toInt = 2147483647 := by
      rw [hmax]
      rfl
    refine ⟨iff_of_false ?_ fun h => ?_, ?_⟩
    · intro h
      obtain ⟨_, t, hrun⟩ := h
      rw [Fallible.bind_error hfail] at hrun
      cases hrun
    · have hroom := h.2
      omega
    · intro s' hrun
      rw [Fallible.bind_error hfail] at hrun
      cases hrun
  · have hid : nextID s = (.ok s.scene.ID,
        { s with scene := { s.scene with ID := s.scene.ID + 1 } }) := by
      rw [nextID, Fallible.bind_get, if_neg hmax]
      rfl
    have hadd := toInt_add_one hmax
    have ht : ServerOf r { s with scene := { s.scene with ID := s.scene.ID + 1 } } :=
      ⟨hs.role_ne, hs.registry_eq, hs.kept.localID_neg,
        Int32.lt_trans hs.kept.ID_pos (lt_add_one hmax), hs.kept.stored⟩
    obtain ⟨hiff, hafter⟩ := hf s.scene.ID hs.kept.ID_pos _ ht
    refine ⟨?_, ?_⟩
    · rw [Fallible.returns_bind_ok hid, hiff]
      refine and_congr_right fun _ => ?_
      change (s.scene.ID + 1).toInt + n ≤ _ ↔ _
      omega
    · intro s' hrun
      rw [Fallible.bind_ok hid] at hrun
      obtain ⟨hs', hcount⟩ := hafter s' hrun
      refine ⟨hs', ?_⟩
      change s'.scene.ID.toInt = (s.scene.ID + 1).toInt + n at hcount
      omega

/-! ## Announcing an entity -/

theorem ServerOf.handled {origin : ClientID} {m : Message} (hs : ServerOf r s)
    (h : Handled origin m s s') : ServerOf r s' where
  role_ne := h.frame.role_eq ▸ hs.role_ne
  registry_eq := h.frame.registry_eq.trans hs.registry_eq
  kept := h.kept hs.kept

theorem sendPacketToAllClients_eq {p : Packet} {data : List Byte} (origin : ClientID)
    (hwire : (stamped s.now p).wire = .ok data) :
    sendPacketToAllClients origin p s =
      (if s.role = .host then clientHandler origin (emittedToClient s.now p) else pure ())
        { s.handedOver (s.connected.filter fun _ => true) { origin := origin, data := data } with
          broadcasts := s.broadcasts ++ [stamped s.now p] } := by
  rw [sendPacketToAllClients, Fallible.bind_get, bind_stamp, recordBroadcast,
    Fallible.bind_modify, Fallible.bind_ok (postIf_eq hwire _)]
  by_cases hlocal : s.role = .host
  · rw [if_pos hlocal, if_pos hlocal]
    exact loopback_stamped origin p _
  · rw [if_neg hlocal, if_neg hlocal]
    rfl

/-- The last part of a creation takes no id. -/
theorem costs_sendCreation {info : EntityInfo} {spawnInfo : Packet} (hsound : spawnInfo.Sound)
    (hID : info.ID ≠ 0) : Costs r (sendCreation info spawnInfo) True 0 := by
  intro s hs
  suffices hrun : ∃ s', sendCreation info spawnInfo s = (.ok (), s') ∧ ServerOf r s' ∧
      s'.scene.ID = s.scene.ID by
    obtain ⟨t, hrun, ht, hcount⟩ := hrun
    have hle := toInt_le s.scene.ID
    refine ⟨iff_of_true ⟨_, t, hrun⟩ ⟨trivial, by omega⟩, ?_⟩
    intro s' hrun'
    rw [hrun] at hrun'
    cases hrun'
    exact ⟨ht, by rw [hcount]; omega⟩
  rw [sendCreation, Fallible.bind_get]
  dsimp only
  set sent : EntityInfo := if info.ownerID = 0 ∧ s.scene.networkReady then
    { info with ownerID := s.ownID } else info with hsent
  have hsentID : sent.ID ≠ 0 := by
    rw [hsent]
    split
    · exact hID
    · exact hID
  by_cases hready : s.scene.networkReady
  · obtain ⟨w, w', hinfo, hspawn, hmeans, htype, hwire⟩ := creation_written sent hsound
    obtain ⟨data, hdata⟩ := hwire s.now
    rw [if_pos hready, bind_onPacket hinfo]
    dsimp only
    rw [bind_onPacket hspawn, if_neg hs.role_ne, record, Fallible.bind_modify,
      sendPacketToAllClients_eq s.ownID (by exact hdata)]
    dsimp only
    have hloop : ∀ t, ∃ t', clientHandler s.ownID (emittedToClient s.now w') t = (.ok (), t') ∧
        (ServerOf r t → ServerOf r t') ∧ t'.scene.ID = t.scene.ID := by
      intro t
      have hm : messageOf (emittedToClient s.now w') =
          .ok (.creation sent (received spawnInfo.bytes)) := by
        rw [emittedToClient, messageOf_info, (hmeans s.now).1]
      have htype' : (emittedToClient s.now w').header.type = .entityCreation := htype
      obtain ⟨t', hrun⟩ := clientHandler_creation (s := t) htype' hm hsentID
      obtain ⟨m, _, hhandled⟩ := clientHandler_ok hrun
      exact ⟨t', hrun, fun ht => ht.handled hhandled, hhandled.counter_eq⟩
    by_cases hlocal : s.role = .host
    · rw [if_pos hlocal]
      obtain ⟨s', hrun, hserving, hcount⟩ := hloop { s.handedOver
        (s.connected.filter fun _ => true) { origin := s.ownID, data := data } with
          effects := s.effects ++ [.announce sent (s.scene.held sent.ID)]
          broadcasts := s.broadcasts ++ [stamped s.now w'] }
      exact ⟨s', hrun, hserving ⟨hs.role_ne, hs.registry_eq, hs.kept⟩, hcount⟩
    · rw [if_neg hlocal]
      exact ⟨_, rfl, ⟨hs.role_ne, hs.registry_eq, hs.kept⟩, rfl⟩
  · rw [if_neg hready]
    exact ⟨s, rfl, hs, rfl⟩

/-! ## The whole family -/

/-- There is a nested call for each of these child types, and for those below them. -/
def Nests (r : Registry) : (stack : Nat) → List ChildEntityCreationInfo → Prop
  | 0, children => children = []
  | stack + 1, children =>
      ∀ child ∈ children, Usable r child → Nests r stack (r.childTypes child.type)

theorem nests_cons {stack : Nat} {child : ChildEntityCreationInfo}
    {children : List ChildEntityCreationInfo} : Nests r (stack + 1) (child :: children) ↔
      (Usable r child → Nests r stack (r.childTypes child.type)) ∧ Nests r (stack + 1) children :=
  List.forall_mem_cons

/-- An entity of these tables, if the loop over its child types costs what it should. -/
theorem costs_create {stack : Nat} {info : EntityInfo} {spawnInfo : Packet}
    (hall : ∀ (owner : ClientID) (parent : EntityID) (children : List ChildEntityCreationInfo),
      Costs r (createAll stack owner parent children) (Nests r stack children)
        (numbered r stack children)) (hsound : spawnInfo.Sound) :
    Costs r (createNetworkedEntity (stack + 1) info spawnInfo)
      (Creatable r info → Nests r stack (r.childTypes info.type))
      (if Creatable r info then taken r (stack + 1) info else 0) := by
  by_cases hcreatable : Creatable r info
  · have hfamily : ∀ id : EntityID, id ≠ 0 →
        Costs r (createFamily (createNetworkedEntity stack) { info with ID := id } spawnInfo)
          (Nests r stack (r.childTypes info.type)) (numbered r stack (r.childTypes info.type)) := by
      intro id hid
      have hsend : Costs r (sendCreation { info with ID := id } spawnInfo) True 0 :=
        costs_sendCreation hsound hid
      have hboth := (hall info.ownerID id (r.childTypes info.type)).bind hsend
      refine (hboth.congr (and_iff_left trivial) (Nat.add_zero _)).of_eq ?_
      intro s hs
      rw [createFamily, Fallible.bind_get, hs.registry_eq]
      rfl
    have hcan : ¬ (¬ info.Named ∨ r.builders info.type = none) := by
      rw [not_or, not_not]
      exact ⟨hcreatable.1, Option.isSome_iff_ne_none.mp hcreatable.2⟩
    by_cases hnew : info.ID = 0
    · have hnext := Costs.next fun id hpos => hfamily id (Int32.ne_of_lt hpos).symm
      refine (hnext.congr (imp_iff_right hcreatable).symm ?_).of_eq ?_
      · rw [if_pos hcreatable, taken, if_pos hnew]
        rfl
      · intro s hs
        rw [createNetworkedEntity, Fallible.bind_get, hs.registry_eq, if_neg hcan,
          if_pos ⟨hs.role_ne, hnew⟩]
    · refine ((hfamily info.ID hnew).congr (imp_iff_right hcreatable).symm ?_).of_eq ?_
      · rw [if_pos hcreatable, taken, if_neg hnew]
        rfl
      · intro s hs
        rw [createNetworkedEntity, Fallible.bind_get, hs.registry_eq, if_neg hcan,
          if_neg fun h => hnew h.2]
  · have hcannot : ¬ info.Named ∨ r.builders info.type = none := by
      by_contra hcan
      rw [not_or, not_not] at hcan
      exact hcreatable ⟨hcan.1, Option.isSome_iff_ne_none.mpr hcan.2⟩
    refine (Costs.pure.congr ?_ ?_).of_eq ?_
    · exact iff_of_true trivial fun h => absurd h hcreatable
    · rw [if_neg hcreatable]
    · intro s hs
      rw [createNetworkedEntity, Fallible.bind_get, hs.registry_eq, if_pos hcannot]

/-- **The loop over child types**, by induction on the room for nested calls. -/
theorem costs_createAll (stack : Nat) (owner : ClientID) (parent : EntityID)
    (children : List ChildEntityCreationInfo) :
    Costs r (createAll stack owner parent children) (Nests r stack children)
      (numbered r stack children) := by
  induction stack generalizing owner parent children with
  | zero =>
      cases children with
      | nil => exact Costs.pure.congr (iff_of_true trivial rfl) rfl
      | cons child rest =>
          have hfirst : Costs r (createNetworkedEntity 0 (child.entity 0 owner parent)
              child.spawnInfo) False 0 := Costs.fail _
          intro s hs
          obtain ⟨hiff, hafter⟩ := hfirst s hs
          have hstuck : ∀ s', createAll 0 owner parent (child :: rest) s ≠ (.ok (), s') := by
            intro s' hrun
            obtain ⟨_, t, hone, _⟩ := Fallible.bind_eq_ok hrun
            exact (hiff.mp ⟨_, t, hone⟩).1
          refine ⟨iff_of_false ?_ fun h => ?_, fun s' hrun => absurd hrun (hstuck s')⟩
          · intro h
            obtain ⟨_, t, hrun⟩ := h
            exact hstuck t hrun
          · exact List.cons_ne_nil _ _ h.1
  | succ stack ih =>
      induction children with
      | nil => exact Costs.pure.congr (iff_of_true trivial (by simp [Nests])) rfl
      | cons child rest ihrest =>
          have hfirst : Costs r (createNetworkedEntity (stack + 1) (child.entity 0 owner parent)
              child.spawnInfo) _ _ := costs_create ih child.sound
          refine (hfirst.bind ihrest).congr ?_ ?_
          · exact nests_cons.symm
          · rw [numbered_cons]
            rfl

/-- The stack and the counter are large enough for a creation. -/
def Affords (s : Process) (stack : Nat) (info : EntityInfo) : Prop :=
  stack ≠ 0 ∧ (Creatable s.scene.registry info →
    Nests s.scene.registry (stack - 1) (s.scene.registry.childTypes info.type) ∧
      s.scene.ID.toInt + taken s.scene.registry stack info ≤ 2147483647)

/-- **When a creation returns.** -/
theorem createNetworkedEntity_returns_iff {stack : Nat} {info : EntityInfo} {spawnInfo : Packet}
    (hs : ServerOf r s) (hsound : spawnInfo.Sound) :
    Returns (createNetworkedEntity stack info spawnInfo) s ↔ s.Affords stack info := by
  rw [Affords, hs.registry_eq]
  cases stack with
  | zero => exact iff_of_false (Fallible.not_returns_fail _ _) fun h => h.1 rfl
  | succ stack =>
      have hcosts : Costs r (createNetworkedEntity (stack + 1) info spawnInfo) _ _ :=
        costs_create (costs_createAll stack) hsound
      rw [(hcosts s hs).1, and_iff_right (Nat.succ_ne_zero stack)]
      by_cases hcreatable : Creatable r info
      · rw [if_pos hcreatable, imp_iff_right hcreatable, imp_iff_right hcreatable]
        rfl
      · have hle := toInt_le s.scene.ID
        rw [if_neg hcreatable]
        refine iff_of_true ⟨fun h => absurd h hcreatable, by omega⟩ fun h => absurd h hcreatable

/-- Nothing happens if the entity cannot be created. -/
theorem createNetworkedEntity_refused {stack : Nat} {info : EntityInfo} {spawnInfo : Packet}
    (hnot : ¬ Creatable s.scene.registry info)
    (h : createNetworkedEntity stack info spawnInfo s = (.ok (), s')) : s' = s := by
  cases stack with
  | zero => cases h
  | succ stack =>
      have hcannot : ¬ info.Named ∨ s.scene.registry.builders info.type = none := by
        by_contra hcan
        rw [not_or, not_not] at hcan
        exact hnot ⟨hcan.1, Option.isSome_iff_ne_none.mpr hcan.2⟩
      rw [createNetworkedEntity, Fallible.bind_get, if_pos hcannot] at h
      cases h
      rfl

end

end Process

end EnkiNet
