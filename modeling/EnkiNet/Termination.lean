import EnkiNet.Costs
import EnkiNet.Registration

/-!
# Whether a creation ends

`createNetworkedEntity` calls itself for the child types of its type, and for theirs.  What game
code registers is a finite table, in which every child has a builder, and nothing else is
asked of it: a type may be a child of its own.  So the recursion ends exactly if no type that
it comes to is below itself (`createIn_terminates_iff`), which is to say
that it returns in any process with enough stack, as long as a server has ids for the family.
-/

namespace EnkiNet

open ByteStore Packet
open Fallible (Returns)

namespace Process

/-! ## Without a server -/

/-- `createNetworkedEntity` where `net_man->server` is null: nothing is numbered.  `send` is what
comes after the loop over the child types. -/
def createUnnumbered (send : EntityInfo → Packet → ProcessM Unit) :
    (stack : Nat) → EntityInfo → Packet → ProcessM Unit
  | 0, _, _ => Fallible.fail .stackOverflow
  | stack + 1, info, spawnInfo => do
      let s ← Fallible.get
      if ¬ info.Named ∨ s.scene.registry.builders info.type = none then return ()
      else do
        Fallible.forEach (s.scene.registry.childTypes info.type) fun child =>
          createUnnumbered send stack
            { type := child.type
              name := child.name
              ID := 0
              ownerID := info.ownerID
              parentID := info.ID }
            child.spawnInfo
        send info spawnInfo

/-- The end of `createNetworkedEntity` where `net_man->client` is null as well: a packet is built
and not sent. -/
def sendNowhere (info : EntityInfo) (spawnInfo : Packet) : ProcessM Unit := do
  let s ← Fallible.get
  let info : EntityInfo :=
    if info.ownerID = 0 ∧ s.scene.networkReady then { info with ownerID := 1 } else info
  if s.scene.networkReady then do
    let (_, p) ← onPacket (putEntityInfo info) (ofHeader { type := .entityCreation })
    let _ ← onPacket (putPacket spawnInfo) p
    return ()
  else return ()

/-- `createNetworkedEntity` in a process with a server or a client, or offline. -/
def createIn (offline : Bool) (stack : Nat) (info : EntityInfo) (spawnInfo : Packet) :
    ProcessM Unit :=
  if offline then createUnnumbered sendNowhere stack info spawnInfo
  else createNetworkedEntity stack info spawnInfo

section
variable {I : Process → Prop} {r : Registry} {send : EntityInfo → Packet → ProcessM Unit}

theorem createUnnumbered_keeps
    (hsend : ∀ info spawnInfo, spawnInfo.Sound → ∀ s, I s →
      ∃ s', send info spawnInfo s = (.ok (), s') ∧ I s') (stack : Nat) (info : EntityInfo)
    {spawnInfo : Packet} (hsound : spawnInfo.Sound) :
    Fallible.Moves I (fun _ _ => True) (createUnnumbered send stack info spawnInfo) := by
  induction stack generalizing info spawnInfo with
  | zero =>
      intro s a s' hs hrun
      cases hrun
  | succ stack ih =>
      have hlast : Fallible.Moves I (fun _ _ => True) (send info spawnInfo) := by
        intro s a s' hs hrun
        obtain ⟨t, hrun', ht⟩ := hsend info spawnInfo hsound s hs
        rw [hrun'] at hrun
        cases hrun
        exact ⟨.single trivial, ht⟩
      rw [createUnnumbered]
      refine Fallible.Moves.get fun s => ?_
      refine Fallible.Moves.ite (fun _ => Fallible.Moves.pure ()) (fun _ => ?_) s
      refine Fallible.Moves.bind (Fallible.Moves.forEach fun child _ => ?_) fun _ => hlast
      exact ih _ child.sound

/-- One level of the recursion. -/
theorem returns_createUnnumbered (hregistry : ∀ s, I s → s.scene.registry = r)
    (hsend : ∀ info spawnInfo, spawnInfo.Sound → ∀ s, I s →
      ∃ s', send info spawnInfo s = (.ok (), s') ∧ I s') {stack : Nat} {info : EntityInfo}
    {spawnInfo : Packet} (hsound : spawnInfo.Sound) {s : Process} (hs : I s)
    {P : ChildEntityCreationInfo → Prop}
    (hchild : ∀ (child : ChildEntityCreationInfo) (info : EntityInfo) (t : Process), I t →
      (Returns (createUnnumbered send stack
        { type := child.type, name := child.name, ID := 0, ownerID := info.ownerID,
          parentID := info.ID } child.spawnInfo) t ↔ P child)) :
    Returns (createUnnumbered send (stack + 1) info spawnInfo) s ↔
      (Creatable r info → ∀ child ∈ r.childTypes info.type, P child) := by
  rw [createUnnumbered, Fallible.returns_bind_get, hregistry s hs]
  by_cases hcreatable : Creatable r info
  · have hcan : ¬ (¬ info.Named ∨ r.builders info.type = none) := by
      rw [not_or, not_not]
      exact ⟨hcreatable.1, Option.isSome_iff_ne_none.mp hcreatable.2⟩
    have hloop : Returns (Fallible.forEach (r.childTypes info.type) fun child =>
          createUnnumbered send stack
            { type := child.type, name := child.name, ID := 0, ownerID := info.ownerID,
              parentID := info.ID } child.spawnInfo) s ↔
        ∀ child ∈ r.childTypes info.type, P child := Fallible.returns_forEach
      (fun child _ t ht => hchild child info t ht)
      (fun child _ t t' ht hrun =>
        (createUnnumbered_keeps hsend stack _ child.sound t () t' ht hrun).2) hs
    rw [if_neg hcan, imp_iff_right hcreatable, ← hloop, Fallible.returns_bind]
    constructor
    · intro h
      obtain ⟨_, t, hrun, _⟩ := h
      exact ⟨_, t, hrun⟩
    · intro h
      obtain ⟨_, t, hrun⟩ := h
      have ht : I t := (Fallible.Moves.forEach (fun child _ =>
        createUnnumbered_keeps hsend stack _ child.sound) s () t hs hrun).2
      obtain ⟨t', hlast, _⟩ := hsend info spawnInfo hsound t ht
      exact ⟨_, t, hrun, _, t', hlast⟩
  · have hcannot : ¬ info.Named ∨ r.builders info.type = none := by
      by_contra hcan
      rw [not_or, not_not] at hcan
      exact hcreatable ⟨hcan.1, Option.isSome_iff_ne_none.mpr hcan.2⟩
    rw [if_pos hcannot]
    exact iff_of_true (Fallible.returns_pure _ _) fun h => absurd h hcreatable

/-- A creation in which nothing is numbered needs only the stack. -/
theorem createUnnumbered_returns (hregistry : ∀ s, I s → s.scene.registry = r)
    (hsend : ∀ info spawnInfo, spawnInfo.Sound → ∀ s, I s →
      ∃ s', send info spawnInfo s = (.ok (), s') ∧ I s') (stack : Nat) (info : EntityInfo)
    {spawnInfo : Packet} (hsound : spawnInfo.Sound) {s : Process} (hs : I s) :
    Returns (createUnnumbered send (stack + 1) info spawnInfo) s ↔
      (Creatable r info → Nests r stack (r.childTypes info.type)) := by
  induction stack generalizing info spawnInfo s with
  | zero =>
      refine (returns_createUnnumbered hregistry hsend (P := fun _ => False) hsound hs ?_).trans ?_
      · intro child parent t ht
        exact iff_of_false (Fallible.not_returns_fail _ _) not_false
      · rw [Nests, List.eq_nil_iff_forall_not_mem]
  | succ stack ih =>
      exact returns_createUnnumbered hregistry hsend hsound hs fun child parent t ht =>
        ih _ child.sound ht

end

/-! ## On a client, and offline -/

section
variable {r : Registry} {s : Process} {info : EntityInfo} {spawnInfo : Packet} {stack : Nat}

/-- A client with these tables, whether or not networking has been enabled. -/
structure ClientOf (r : Registry) (s : Process) : Prop where
  role_eq : s.role = .client
  registry_eq : s.scene.registry = r

theorem sendCreation_ends (hsound : spawnInfo.Sound) (hs : ClientOf r s) :
    ∃ s', sendCreation info spawnInfo s = (.ok (), s') ∧ ClientOf r s' := by
  rw [sendCreation, Fallible.bind_get]
  dsimp only
  set sent : EntityInfo := if info.ownerID = 0 ∧ s.scene.networkReady then
    { info with ownerID := s.ownID } else info
  by_cases hready : s.scene.networkReady
  · obtain ⟨w, w', hinfo, hspawn, _, _, hwire⟩ := creation_written sent hsound
    obtain ⟨data, hdata⟩ := hwire s.now
    have hsend : ∃ s', sendToServer w' s = (.ok (stamped s.now w'), s') ∧ ClientOf r s' := by
      rw [sendToServer, Fallible.bind_get, bind_stamp, bind_wireBytes hdata]
      exact ⟨_, rfl, hs.role_eq, hs.registry_eq⟩
    obtain ⟨s', hsend, hs'⟩ := hsend
    refine ⟨s', ?_, hs'⟩
    rw [if_pos hready, bind_onPacket hinfo]
    dsimp only
    rw [bind_onPacket hspawn, if_pos hs.role_eq, Fallible.bind_ok hsend]
    rfl
  · rw [if_neg hready]
    exact ⟨s, rfl, hs⟩

theorem sendNowhere_ends (hsound : spawnInfo.Sound) (hs : s.scene.registry = r) :
    ∃ s', sendNowhere info spawnInfo s = (.ok (), s') ∧ s'.scene.registry = r := by
  rw [sendNowhere, Fallible.bind_get]
  dsimp only
  set sent : EntityInfo := if info.ownerID = 0 ∧ s.scene.networkReady then
    { info with ownerID := 1 } else info
  by_cases hready : s.scene.networkReady
  · obtain ⟨w, w', hinfo, hspawn, _, _, _⟩ := creation_written sent hsound
    refine ⟨s, ?_, hs⟩
    rw [if_pos hready, bind_onPacket hinfo]
    dsimp only
    rw [bind_onPacket hspawn]
    rfl
  · rw [if_neg hready]
    exact ⟨s, rfl, hs⟩

/-- A client numbers nothing. -/
theorem createNetworkedEntity_eq_unnumbered (stack : Nat) (info : EntityInfo)
    (spawnInfo : Packet) (hsound : spawnInfo.Sound) (hs : ClientOf r s) :
    createNetworkedEntity stack info spawnInfo s =
      createUnnumbered sendCreation stack info spawnInfo s := by
  induction stack generalizing info spawnInfo s with
  | zero => rfl
  | succ stack ih =>
      have hkeeps : ∀ child : ChildEntityCreationInfo, Fallible.Moves (ClientOf r) (fun _ _ => True)
          (createUnnumbered sendCreation stack (child.entity 0 info.ownerID info.ID)
            child.spawnInfo) := fun child =>
        createUnnumbered_keeps (fun _ _ hsound _ hs => sendCreation_ends hsound hs) stack _
          child.sound
      have hloop : ∀ (children : List ChildEntityCreationInfo) (t : Process), ClientOf r t →
          createAll stack info.ownerID info.ID children t =
            Fallible.forEach children (fun child => createUnnumbered sendCreation stack
              (child.entity 0 info.ownerID info.ID) child.spawnInfo) t := by
        intro children
        induction children with
        | nil => exact fun t _ => rfl
        | cons child rest ihrest =>
            intro t ht
            refine Fallible.bind_congr (ih _ _ child.sound ht) fun done t' hone => ?_
            exact ihrest t' (hkeeps child t done t' ht hone).2
      rw [createNetworkedEntity, createUnnumbered, Fallible.bind_get, Fallible.bind_get]
      by_cases hcannot : ¬ info.Named ∨ s.scene.registry.builders info.type = none
      · rw [if_pos hcannot, if_pos hcannot]
      · have hclient : ¬ (s.role ≠ .client ∧ info.ID = 0) := fun h => h.1 hs.role_eq
        rw [if_neg hcannot, if_neg hcannot, if_neg hclient, createFamily, Fallible.bind_get]
        exact Fallible.bind_congr (hloop _ s hs) fun _ _ _ => rfl

end

/-! ## How deep the child types go -/

/-- A type that is created along with another one. -/
def Below (r : Registry) (type' type : StdString) : Prop :=
  ∃ child ∈ r.childTypes type, Usable r child ∧ child.type = type'

/-- No type that a creation of this type comes to is below itself. -/
def Acyclic (r : Registry) (type : StdString) : Prop :=
  ∀ type', Relation.ReflTransGen (Below r) type' type → ¬ Relation.TransGen (Below r) type' type'

section
variable {r : Registry} {stack : Nat} {children : List ChildEntityCreationInfo}

theorem Nests.succ (h : Nests r stack children) : Nests r (stack + 1) children := by
  induction stack generalizing children with
  | zero =>
      obtain rfl : children = [] := h
      exact List.forall_mem_nil _
  | succ stack ih => exact fun child hchild husable => ih (h child hchild husable)

theorem Nests.mono {stack' : Nat} (h : Nests r stack children) (hle : stack ≤ stack') :
    Nests r stack' children := by
  induction hle with
  | refl => exact h
  | step _ ih => exact ih.succ

theorem acc_of_nests {type : StdString} (h : Nests r stack (r.childTypes type)) :
    Acc (Below r) type := by
  induction stack generalizing type with
  | zero =>
      refine ⟨type, fun type' hbelow => ?_⟩
      obtain ⟨child, hchild, _⟩ := hbelow
      have hnone : r.childTypes type = [] := h
      rw [hnone] at hchild
      cases hchild
  | succ stack ih =>
      refine ⟨type, fun type' hbelow => ?_⟩
      obtain ⟨child, hchild, husable, rfl⟩ := hbelow
      exact ih (h child hchild husable)

/-- A bound for each of the children is one for all of them. -/
theorem nests_of_each
    (h : ∀ child ∈ children, Usable r child → ∃ n, Nests r n (r.childTypes child.type)) :
    ∃ n, Nests r (n + 1) children := by
  induction children with
  | nil => exact ⟨0, List.forall_mem_nil _⟩
  | cons child rest ih =>
      obtain ⟨n, hn⟩ := ih fun other hother => h other (List.mem_cons_of_mem _ hother)
      by_cases husable : Usable r child
      · obtain ⟨k, hk⟩ := h child List.mem_cons_self husable
        have hrest : Nests r (max k n + 1) rest := Nests.mono hn (by omega)
        exact ⟨max k n, nests_cons.mpr ⟨fun _ => hk.mono (Nat.le_max_left k n), hrest⟩⟩
      · exact ⟨n, nests_cons.mpr ⟨fun husable' => absurd husable' husable, hn⟩⟩

theorem nests_of_acc {type : StdString} (h : Acc (Below r) type) :
    ∃ n, Nests r n (r.childTypes type) := by
  induction h with
  | intro type _ ih =>
      obtain ⟨n, hn⟩ := nests_of_each fun child hchild husable =>
        ih child.type ⟨child, hchild, husable, rfl⟩
      exact ⟨n + 1, hn⟩

/-! The ids that a family takes. -/

theorem numbered_le_succ (stack : Nat) (children : List ChildEntityCreationInfo) :
    numbered r stack children ≤ numbered r (stack + 1) children := by
  induction stack generalizing children with
  | zero => exact Nat.zero_le _
  | succ stack ih =>
      induction children with
      | nil => exact Nat.le_refl _
      | cons child rest ihrest =>
          rw [numbered_cons, numbered_cons]
          refine Nat.add_le_add ?_ ihrest
          split
          · exact Nat.succ_le_succ (ih _)
          · exact Nat.le_refl _

theorem numbered_eq_succ (h : Nests r stack children) :
    numbered r (stack + 1) children = numbered r stack children := by
  induction stack generalizing children with
  | zero =>
      obtain rfl : children = [] := h
      rfl
  | succ stack ih =>
      induction children with
      | nil => rfl
      | cons child rest ihrest =>
          obtain ⟨hchild, hrest⟩ := nests_cons.mp h
          rw [numbered_cons, numbered_cons, ihrest hrest]
          by_cases husable : Usable r child
          · rw [if_pos husable, if_pos husable, ih (hchild husable)]
          · rw [if_neg husable, if_neg husable]

theorem numbered_mono {stack' : Nat} (hle : stack ≤ stack')
    (children : List ChildEntityCreationInfo) :
    numbered r stack children ≤ numbered r stack' children := by
  induction hle with
  | refl => exact Nat.le_refl _
  | step _ ih => exact Nat.le_trans ih (numbered_le_succ _ _)

theorem numbered_eq {stack' : Nat} (h : Nests r stack children) (hle : stack ≤ stack') :
    numbered r stack' children = numbered r stack children := by
  induction hle with
  | refl => rfl
  | step hle ih => exact (numbered_eq_succ (h.mono hle)).trans ih

/-- A family that fits on the stack takes no more ids, however much stack there is. -/
theorem taken_le {info : EntityInfo} (h : Nests r stack (r.childTypes info.type)) (stack' : Nat) :
    taken r stack' info ≤ taken r (stack + 1) info := by
  rw [taken, taken, Nat.add_sub_cancel]
  refine Nat.add_le_add_right ?_ _
  rcases Nat.le_total (stack' - 1) stack with hle | hle
  · exact numbered_mono hle _
  · exact Nat.le_of_eq (numbered_eq h hle)

end

end Process

namespace Tables

/-! ## What can be registered -/

variable {t t' : Tables}

theorem finite_of_register {op : RegisterOp} (ht : {type | t.childTypes type ≠ none}.Finite)
    (hop : t.register op = some t') : {type | t'.childTypes type ≠ none}.Finite := by
  cases op with
  | entity type cls =>
      cases hop
      exact ht
  | children type children =>
      obtain ⟨stored, _, rfl⟩ := Option.map_eq_some_iff.mp hop
      refine (ht.insert type).subset fun other hother => ?_
      by_cases heq : other = type
      · exact Or.inl heq
      · refine Or.inr fun hnone => hother ?_
        exact (if_neg heq).trans hnone

/-- Game code registers children of finitely many types. -/
theorem finite_of_run {ops : List RegisterOp} (hrun : Runs.run register {} ops = some t) :
    {type | t.childTypes type ≠ none}.Finite := by
  have hempty : {type | ({} : Tables).childTypes type ≠ none}.Finite := by
    have hnone : {type | ({} : Tables).childTypes type ≠ none} = ∅ :=
      Set.eq_empty_of_forall_notMem fun type htype => htype rfl
    rw [hnone]
    exact Set.finite_empty
  have hstep : ∀ (t : Tables) (op : RegisterOp) (t' : Tables),
      {type | t.childTypes type ≠ none}.Finite → t.register op = some t' →
      {type | t'.childTypes type ≠ none}.Finite := fun _ _ _ ht hop => finite_of_register ht hop
  exact Runs.run_invariant hstep hrun hempty

end Tables

namespace Process

/-! ## When a creation ends -/

/-- A server has ids for the whole family, however deep it goes. -/
def Numerable (s : Process) (info : EntityInfo) : Prop :=
  ∀ stack, s.scene.ID.toInt + taken s.scene.registry stack info ≤ 2147483647

section
variable {r : Registry} {s : Process} {info : EntityInfo} {spawnInfo : Packet}

theorem acyclic_iff (hfinite : {type | r.childTypes type ≠ []}.Finite) (type : StdString) :
    Acyclic r type ↔ ∃ n, Nests r n (r.childTypes type) := by
  have hsub : {type | ∃ type', Below r type' type} ⊆ {type | r.childTypes type ≠ []} := by
    intro type htype hnone
    obtain ⟨type', child, hchild, _⟩ := htype
    rw [hnone] at hchild
    cases hchild
  rw [Acyclic, ← Forest.acc_iff_of_finite (hfinite.subset hsub)]
  constructor
  · exact nests_of_acc
  · intro h
    obtain ⟨n, hn⟩ := h
    exact acc_of_nests hn

/-- Where nothing is numbered, all that a creation can lack is stack. -/
theorem createUnnumbered_terminates {I : Process → Prop}
    {send : EntityInfo → Packet → ProcessM Unit} (hregistry : ∀ s, I s → s.scene.registry = r)
    (hsend : ∀ info spawnInfo, spawnInfo.Sound → ∀ s, I s →
      ∃ s', send info spawnInfo s = (.ok (), s') ∧ I s') (hsound : spawnInfo.Sound) (hs : I s) :
    (∃ stack, Returns (createUnnumbered send stack info spawnInfo) s) ↔
      (Creatable r info → ∃ n, Nests r n (r.childTypes info.type)) := by
  constructor
  · intro h hcreatable
    obtain ⟨stack, hreturns⟩ := h
    cases stack with
    | zero => exact absurd hreturns (Fallible.not_returns_fail _ _)
    | succ stack =>
        exact ⟨stack,
          (createUnnumbered_returns hregistry hsend stack info hsound hs).mp hreturns hcreatable⟩
  · intro h
    by_cases hcreatable : Creatable r info
    · obtain ⟨n, hn⟩ := h hcreatable
      exact ⟨n + 1,
        (createUnnumbered_returns hregistry hsend n info hsound hs).mpr fun _ => hn⟩
    · exact ⟨1, (createUnnumbered_returns hregistry hsend 0 info hsound hs).mpr
        fun hcreatable' => absurd hcreatable' hcreatable⟩

/-- A server needs ids as well. -/
theorem createNetworkedEntity_terminates (hs : ServerOf r s) (hsound : spawnInfo.Sound) :
    (∃ stack, Returns (createNetworkedEntity stack info spawnInfo) s) ↔
      (Creatable r info → (∃ n, Nests r n (r.childTypes info.type)) ∧ s.Numerable info) := by
  have hregistry : s.scene.registry = r := hs.registry_eq
  constructor
  · intro h hcreatable
    obtain ⟨stack, hreturns⟩ := h
    obtain ⟨hstack, haffords⟩ := (createNetworkedEntity_returns_iff hs hsound).mp hreturns
    rw [hregistry] at haffords
    obtain ⟨hnests, hroom⟩ := haffords hcreatable
    refine ⟨⟨_, hnests⟩, fun stack' => ?_⟩
    have hle : taken r stack' info ≤ taken r (stack - 1 + 1) info := taken_le hnests stack'
    have hsame : stack - 1 + 1 = stack := Nat.sub_add_cancel (Nat.one_le_iff_ne_zero.mpr hstack)
    rw [hsame] at hle
    rw [hregistry]
    omega
  · intro h
    by_cases hcreatable : Creatable r info
    · obtain ⟨⟨n, hn⟩, hroom⟩ := h hcreatable
      refine ⟨n + 1, (createNetworkedEntity_returns_iff hs hsound).mpr ⟨Nat.succ_ne_zero n, ?_⟩⟩
      rw [hregistry]
      intro _
      have hroom' := hroom (n + 1)
      rw [hregistry] at hroom'
      exact ⟨hn, hroom'⟩
    · refine ⟨1, (createNetworkedEntity_returns_iff hs hsound).mpr ⟨Nat.one_ne_zero, ?_⟩⟩
      rw [hregistry]
      exact fun hcreatable' => absurd hcreatable' hcreatable

/-- **When a creation ends.**  With what game code has registered, in every networking mode:
exactly if no type that it comes to is below itself, and a server has ids for all it makes. -/
theorem createIn_terminates_iff {ops : List RegisterOp} {t : Tables}
    (hrun : Runs.run Tables.register {} ops = some t)
    {rpcs : StdString → StdString → Option EntityRPC}
    (hregistry : s.scene.registry = t.registry rpcs) (hkept : Kept s.scene) (offline : Bool)
    (info : EntityInfo) (hsound : spawnInfo.Sound) :
    (∃ stack, Returns (createIn offline stack info spawnInfo) s) ↔
      (Creatable s.scene.registry info → Acyclic s.scene.registry info.type ∧
        (offline = false → s.role ≠ .client → s.Numerable info)) := by
  have hfinite : {type | s.scene.registry.childTypes type ≠ []}.Finite := by
    refine (Tables.finite_of_run hrun).subset fun type htype hnone => htype ?_
    rw [hregistry]
    change (t.childTypes type).getD [] = []
    rw [hnone]
    rfl
  rw [acyclic_iff hfinite]
  cases offline with
  | true =>
      have hsend : ∀ info spawnInfo, spawnInfo.Sound → ∀ u : Process,
          u.scene.registry = s.scene.registry → ∃ u', sendNowhere info spawnInfo u = (.ok (), u') ∧
            u'.scene.registry = s.scene.registry :=
        fun _ _ hsound _ hu => sendNowhere_ends hsound hu
      have hoffline : (∃ stack, Returns (createUnnumbered sendNowhere stack info spawnInfo) s) ↔
          _ :=
        createUnnumbered_terminates (fun _ hu => hu) hsend hsound rfl
      simpa [createIn] using hoffline
  | false =>
      have honline : ∀ stack, createIn false stack info spawnInfo =
          createNetworkedEntity stack info spawnInfo := fun _ => rfl
      simp only [honline]
      by_cases hclient : s.role = .client
      · have hs : ClientOf s.scene.registry s := ⟨hclient, rfl⟩
        have hsame : ∀ stack, Returns (createNetworkedEntity stack info spawnInfo) s ↔
            Returns (createUnnumbered sendCreation stack info spawnInfo) s := fun stack => by
          rw [Returns, Returns, createNetworkedEntity_eq_unnumbered stack info spawnInfo hsound hs]
        simp only [hsame]
        rw [createUnnumbered_terminates (fun _ hu => ClientOf.registry_eq hu)
          (fun _ _ hsound _ hu => sendCreation_ends hsound hu) hsound hs]
        simp [hclient]
      · have hs : ServerOf s.scene.registry s := ⟨hclient, rfl, hkept⟩
        rw [createNetworkedEntity_terminates hs hsound]
        simp [hclient]

end

end Process

/-! ## A family, and a type that is its own child -/

namespace Sample

/-- An `A` comes with a `C`. -/
def registrations : List RegisterOp :=
  [.entity (letter 65) {}, .entity (letter 67) {}, .children (letter 65) [child]]

/-- An `A` that comes with another one. -/
def itself : ChildEntityCreationInfo :=
  { type := letter 65, name := letter 66, spawnInfo := ofHeader {}, sound := sound_blank }

def ownChild : List RegisterOp := [.entity (letter 65) {}, .children (letter 65) [itself]]

/-- A server that has just been started. -/
def server (t : Tables) : Process :=
  { role := .server, id := 0, scene := { registry := t.registry fun _ _ => none } }

end Sample

namespace Process

/-- An `A` and its `C` are created on a server. -/
theorem createIn_terminates_registrations : ∃ t,
    Runs.run Tables.register {} Sample.registrations = some t ∧
      Acyclic (Sample.server t).scene.registry (Sample.letter 65) ∧
      (Sample.server t).Numerable (Sample.info 0 0) := by
  have hany : (Runs.run Tables.register {} Sample.registrations).any (fun t =>
      (createIn false 2 (Sample.info 0 0) (ofHeader {})
        (Sample.server t)).1.toBool &&
      (t.builders (Sample.letter 65)).isSome) = true := by decide +kernel
  obtain ⟨t, hrun, hboth⟩ := (Option.any_eq_true _ _).mp hany
  obtain ⟨hends, hbuilder⟩ := Bool.and_eq_true_iff.mp hboth
  have hreturns : Returns (createIn false 2 (Sample.info 0 0) (ofHeader {}))
      (Sample.server t) := by
    cases hresult : createIn false 2 (Sample.info 0 0) (ofHeader {})
        (Sample.server t) with
    | mk result s' =>
        rw [hresult] at hends
        cases result with
        | error e => cases hends
        | ok done => exact ⟨done, s', hresult⟩
  obtain ⟨hacyclic, hroom⟩ := (createIn_terminates_iff hrun rfl (Session.kept_empty _) false
    (Sample.info 0 0) Sample.sound_blank).mp ⟨2, hreturns⟩ ⟨by decide, hbuilder⟩
  have hrole : (Sample.server t).role ≠ .client := Role.noConfusion
  exact ⟨t, hrun, hacyclic, hroom rfl hrole⟩

/-- Not all that can be registered can be created. -/
theorem not_always_terminates : ¬ ∀ (ops : List RegisterOp) (t : Tables),
    Runs.run Tables.register {} ops = some t →
    ∀ (rpcs : StdString → StdString → Option EntityRPC) (s : Process),
    s.scene.registry = t.registry rpcs → Kept s.scene →
    ∀ (offline : Bool) (info : EntityInfo) (spawnInfo : Packet), spawnInfo.Sound →
      ∃ stack, Returns (createIn offline stack info spawnInfo) s := by
  intro hall
  have hany : (Runs.run Tables.register {} Sample.ownChild).any (fun t =>
      decide (Creatable (Sample.server t).scene.registry (Sample.info 0 0)) &&
      ((Sample.server t).scene.registry.childTypes (Sample.letter 65)).any (fun child =>
        decide (Usable (Sample.server t).scene.registry child ∧
          child.type = Sample.letter 65))) = true := by
    decide +kernel
  obtain ⟨t, hrun, hboth⟩ := (Option.any_eq_true _ _).mp hany
  obtain ⟨hcreatable, hchildren⟩ := Bool.and_eq_true_iff.mp hboth
  obtain ⟨child, hchild, hitself⟩ := List.any_eq_true.mp hchildren
  obtain ⟨husable, htype⟩ := of_decide_eq_true hitself
  have hbelow : Below (Sample.server t).scene.registry (Sample.letter 65) (Sample.letter 65) :=
    ⟨child, hchild, husable, htype⟩
  have hs : ServerOf (Sample.server t).scene.registry (Sample.server t) :=
    ⟨Role.noConfusion, rfl, Session.kept_empty _⟩
  obtain ⟨⟨n, hn⟩, _⟩ := (createNetworkedEntity_terminates hs Sample.sound_blank).mp
    (hall _ t hrun _ _ rfl hs.kept false (Sample.info 0 0) (ofHeader {}) Sample.sound_blank)
    (of_decide_eq_true hcreatable)
  exact Forest.not_rel_of_acc (acc_of_nests hn) hbelow

end Process

end EnkiNet
