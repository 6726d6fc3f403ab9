import EnkiNet.EntityTrees

/-!
# A client's requests for entities

`createNetworkedEntity` on a remote client runs the same recursion over child types as on
the server.  No id is allocated there: every entity of the tree becomes a request of its
own, with the id 0 and, below the root, the parent 0 (`createAll_asks`).  The server then
creates the whole tree of the requested type for each of them.

So the server creates what the call asks for exactly when the type has no children
(`one_tree_iff`): while requests are handled, what has been created and what is still
on its way add up to the requests that the call has made (`Working`).
-/

namespace EnkiNet

open ByteStore Packet

/-- What a client asks for: an entity of an entry, with the forest of the types below it. -/
structure Request where
  parent : EntityID
  child : ChildEntityCreationInfo
  below : Forest ChildEntityCreationInfo

namespace Request

def tree (q : Request) : Forest ChildEntityCreationInfo := .cons q.child q.below .nil

def size (q : Request) : Nat := q.tree.size

/-- The entities that the server creates for the request. -/
def infos (c : ClientID) (next : EntityID) (q : Request) : List EntityInfo :=
  (plant c q.parent next q.tree).postorder.map Prod.fst

theorem length_infos (c : ClientID) (next : EntityID) (q : Request) :
    (q.infos c next).length = q.size := by
  rw [infos, List.length_map, Forest.length_postorder, size_plant, size]

end Request

/-- The requests that a client makes for a forest of types, with a parent for its roots. -/
def asked : (parent : EntityID) → Forest ChildEntityCreationInfo → List Request
  | _, .nil => []
  | parent, .cons child below beside =>
      asked 0 below ++ ⟨parent, child, below⟩ :: asked parent beside

/-- More is asked for than there is. -/
theorem size_le_asked (parent : EntityID) (t : Forest ChildEntityCreationInfo) :
    t.size ≤ ((asked parent t).map Request.size).sum := by
  induction t generalizing parent with
  | nil => exact Nat.zero_le _
  | cons child below beside ihbelow ihbeside =>
      have hbeside := ihbeside parent
      have hself : (Request.mk parent child below).size = below.size + 1 + 0 := rfl
      rw [asked, List.map_append, List.map_cons, List.sum_append, List.sum_cons, hself, Forest.size]
      omega

/-- The datagram or packet asks for this. -/
def Asks (r : Registry) (q : Request) (m : Except Fault Message) : Prop :=
  ∃ (owner : ClientID) (spawnInfo : Packet), spawnInfo.Sound ∧
    m = .ok (.creation (q.child.entity 0 owner q.parent) spawnInfo) ∧
    Process.Usable r q.child ∧ Forest.Unfolds r.children (r.children q.child) q.below

namespace Process

/-! ## The client's side -/

section

variable {r : Registry} {stack : Nat} {owner : ClientID} {parent : EntityID} {s s' : Process}

/-- A client in which networking has been enabled. -/
structure Joined (r : Registry) (s : Process) : Prop where
  role_eq : s.role = .client
  networkReady : s.scene.networkReady
  registry_eq : s.scene.registry = r

theorem Joined.of_frame (hs : Joined r s) (h : Frame s s') : Joined r s' where
  role_eq := h.role_eq.trans hs.role_eq
  networkReady := h.ready_eq.trans hs.networkReady
  registry_eq := h.registry_eq.trans hs.registry_eq

/-- The owner that a client fills in. -/
def claimed (id owner : ClientID) : ClientID := if owner = 0 then id else owner

/-- **One entity becomes one request.** -/
theorem sendCreation_client (owner : ClientID) (parent : EntityID) (hs : Joined r s)
    (child : ChildEntityCreationInfo) :
    ∃ s', sendCreation (child.entity 0 owner parent) child.spawnInfo s = (.ok (), s') ∧
      Requested (.creation (child.entity 0 (claimed s.id owner) parent)
        (received child.spawnInfo.bytes)) s s' := by
  have hown : s.ownID = s.id := by
    rw [ownID, if_neg (by rw [hs.role_eq]; simp)]
  obtain ⟨w, w', hinfo, hspawn, hmeans, _, hwire⟩ :=
    creation_written (child.entity 0 (claimed s.id owner) parent) child.sound
  obtain ⟨data, hdata⟩ := hwire s.now
  have howner : (if (child.entity 0 owner parent).ownerID = 0 ∧ s.scene.networkReady then
      { child.entity 0 owner parent with ownerID := s.ownID } else child.entity 0 owner parent) =
        child.entity 0 (claimed s.id owner) parent := by
    have hsame : (child.entity 0 owner parent).ownerID = owner := rfl
    rw [hsame, hown, claimed]
    by_cases h : owner = 0
    · rw [if_pos ⟨h, hs.networkReady⟩, if_pos h]
      rfl
    · rw [if_neg fun hboth => h hboth.1, if_neg h]
  have hsend : ∃ s', sendToServer w' s = (.ok (stamped s.now w'), s') := by
    rw [sendToServer, Fallible.bind_get, bind_stamp, bind_wireBytes hdata]
    exact ⟨_, rfl⟩
  obtain ⟨s', hsend⟩ := hsend
  refine ⟨s', ?_, sendToServer_ok hmeans hsend⟩
  rw [sendCreation, Fallible.bind_get]
  dsimp only
  rw [howner, if_pos hs.networkReady, bind_onPacket hinfo]
  dsimp only
  rw [bind_onPacket hspawn, if_pos hs.role_eq, Fallible.bind_ok hsend]
  rfl

/-- One level of the recursion. -/
theorem createNetworkedEntity_client (hs : Joined r s) {child : ChildEntityCreationInfo}
    (husable : Usable r child) :
    createNetworkedEntity (stack + 1) (child.entity 0 owner parent) child.spawnInfo s =
      (do
        createAll stack owner 0 (r.children child)
        sendCreation (child.entity 0 owner parent) child.spawnInfo : ProcessM Unit) s := by
  have hcan : ¬ (¬ (child.entity 0 owner parent).Named ∨
      s.scene.registry.builders (child.entity 0 owner parent).type = none) := by
    rw [hs.registry_eq, not_or, not_not]
    exact ⟨husable.1, Option.isSome_iff_ne_none.mp husable.2⟩
  rw [createNetworkedEntity, Fallible.bind_get, if_neg hcan,
    if_neg (fun h => h.1 hs.role_eq), createFamily, Fallible.bind_get, hs.registry_eq]
  rfl

/-- These requests are on their way to the server in addition. -/
structure Asked (r : Registry) (qs : List Request) (s s' : Process) : Prop where
  frame : Frame s s'
  scene_eq : s'.scene = s.scene
  posted : ∃ ds, pending s' 1 = pending s 1 ++ ds ∧
    List.Forall₂ (Asks r) qs (ds.map fun d => messageOfData d.data)

theorem Asked.nil (s : Process) : Asked r [] s s :=
  ⟨Frame.refl s, rfl, [], (List.append_nil _).symm, .nil⟩

theorem Asked.trans {qs more : List Request} {t : Process} (h : Asked r qs s t)
    (h' : Asked r more t s') : Asked r (qs ++ more) s s' := by
  obtain ⟨ds, hds, hasks⟩ := h.posted
  obtain ⟨es, hes, hasks'⟩ := h'.posted
  refine ⟨h.frame.trans h'.frame, h'.scene_eq.trans h.scene_eq, ds ++ es, ?_, ?_⟩
  · rw [hes, hds, List.append_assoc]
  · rw [List.map_append]
    exact List.rel_append hasks hasks'

theorem Asked.of_requested {q : Request} (husable : Usable r q.child)
    (hbelow : Forest.Unfolds r.children (r.children q.child) q.below)
    (h : Requested (.creation (q.child.entity 0 owner q.parent) (received q.child.spawnInfo.bytes))
      s s') : Asked r [q] s s' := by
  obtain ⟨d, _, hdata, hpending⟩ := h.posted
  exact ⟨h.frame, h.scene_eq, [d], hpending,
    .cons ⟨owner, received q.child.spawnInfo.bytes, q.child.sound, hdata, husable, hbelow⟩ .nil⟩

/-- **What a client's call asks for**, by induction on the forest. -/
theorem createAll_asks {children : List ChildEntityCreationInfo}
    {t : Forest ChildEntityCreationInfo} (ht : Forest.Unfolds r.children children t)
    (husable : ∀ child ∈ t.preorder, Usable r child) (hs : Joined r s)
    (hrun : createAll stack owner parent children s = (.ok (), s')) :
    Asked r (asked parent t) s s' := by
  induction ht generalizing stack parent s s' with
  | nil =>
      cases hrun
      exact Asked.nil s
  | @cons child rest below beside hbelow hbeside ihbelow ihbeside =>
      obtain ⟨_, s₁, hone, hrest⟩ := Fallible.bind_eq_ok hrun
      cases stack with
      | zero => cases hone
      | succ stack =>
      obtain ⟨hself, hdown, hbesides⟩ := Forest.forall_mem_preorder_cons.mp husable
      replace hone := (createNetworkedEntity_client hs hself).symm.trans hone
      obtain ⟨_, u, hchildren, hlast⟩ := Fallible.bind_eq_ok hone
      have hfirst := ihbelow hdown hs hchildren
      have hu := hs.of_frame hfirst.frame
      obtain ⟨u', hsend, hrequested⟩ := sendCreation_client owner parent hu child
      rw [hsend] at hlast
      cases hlast
      have hnode : Asked r [⟨parent, child, below⟩] u s₁ :=
        Asked.of_requested hself hbelow hrequested
      have hothers := ihbeside hbesides (hu.of_frame hnode.frame) hrest
      exact hfirst.trans (hnode.trans hothers)

/-- The call returns when there is a nested call for each level. -/
theorem createAll_asks_returns {children : List ChildEntityCreationInfo}
    {t : Forest ChildEntityCreationInfo} (ht : Forest.Unfolds r.children children t)
    (husable : ∀ child ∈ t.preorder, Usable r child) (hs : Joined r s) (hdeep : t.height ≤ stack) :
    ∃ s', createAll stack owner parent children s = (.ok (), s') := by
  induction ht generalizing stack parent s with
  | nil => exact ⟨s, rfl⟩
  | @cons child rest below beside hbelow hbeside ihbelow ihbeside =>
      have hheight : (Forest.cons child below beside).height =
          max (below.height + 1) beside.height := rfl
      rw [hheight] at hdeep
      obtain ⟨stack, rfl⟩ : ∃ k, stack = k + 1 := ⟨stack - 1, by omega⟩
      obtain ⟨hself, hdown, hbesides⟩ := Forest.forall_mem_preorder_cons.mp husable
      have hchildren : ∃ u, createAll stack owner 0 (r.children child) s = (.ok (), u) :=
        ihbelow hdown hs (by omega)
      obtain ⟨u, hchildren⟩ := hchildren
      have hu := hs.of_frame (createAll_asks hbelow hdown hs hchildren).frame
      obtain ⟨s₁, hsend, hrequested⟩ := sendCreation_client owner parent hu child
      have hone : createNetworkedEntity (stack + 1) (child.entity 0 owner parent)
        child.spawnInfo s =
          (.ok (), s₁) := by
        rw [createNetworkedEntity_client hs hself, Fallible.bind_ok hchildren]
        exact hsend
      have hothers : ∃ s', createAll (stack + 1) owner parent rest s₁ = (.ok (), s') :=
        ihbeside hbesides (hu.of_frame hrequested.frame) (by omega)
      obtain ⟨s', hrest⟩ := hothers
      exact ⟨s', (Fallible.bind_ok hone _).trans hrest⟩

/-! ## The server's side -/

/-- These entities have been created in the process. -/
structure Grown (infos : List EntityInfo) (s s' : Process) : Prop where
  spawned : (networkSpawns s'.effects).map Prod.fst =
    (networkSpawns s.effects).map Prod.fst ++ infos
  held : ∀ id, 0 < id → s'.scene.held id =
    infos.foldl (fun held info => if info.ID = id then some info else held) (s.scene.held id)

theorem Grown.nil (s : Process) : Grown [] s s := ⟨(List.append_nil _).symm, fun _ _ => rfl⟩

theorem Grown.trans {infos more : List EntityInfo} {t : Process} (h : Grown infos s t)
    (h' : Grown more t s') : Grown (infos ++ more) s s' where
  spawned := by rw [h'.spawned, h.spawned, List.append_assoc]
  held id hid := by rw [h'.held id hid, h.held id hid, List.foldl_append]

theorem Grown.of_same {infos : List EntityInfo} {t : Process} (h : Grown infos s t)
    (heffects : s'.effects = t.effects) (hscene : s'.scene = t.scene) : Grown infos s s' where
  spawned := by rw [heffects, h.spawned]
  held id hid := by rw [hscene, h.held id hid]

theorem storedAfter_eq (spawns : List (EntityInfo × Packet)) (id : EntityID)
    (held : Option EntityInfo) : storedAfter spawns id held =
      (spawns.map Prod.fst).foldl (fun held info => if info.ID = id then some info else held)
        held := by
  rw [storedAfter, List.foldl_map]

theorem Spread.grown {spawns : List (EntityInfo × Packet)} (h : Spread spawns s s') :
    Grown (spawns.map Prod.fst) s s' where
  spawned := by
    rw [h.spawned, List.map_append, List.map_map]
    rfl
  held id hid := by rw [h.held id hid, storedAfter_eq]

/-- What the server answers to requests, and the counter afterwards. -/
def answer (c : ClientID) (acc : List EntityInfo × EntityID) (q : Request) :
    List EntityInfo × EntityID :=
  (acc.1 ++ q.infos c acc.2, acc.2 + Int32.ofNat q.size)

def answers (c : ClientID) (next : EntityID) (qs : List Request) : List EntityInfo × EntityID :=
  qs.foldl (answer c) ([], next)

theorem length_answers (c : ClientID) (next : EntityID) (qs : List Request) :
    (answers c next qs).1.length = (qs.map Request.size).sum := by
  have hall : ∀ acc : List EntityInfo × EntityID,
      (qs.foldl (answer c) acc).1.length = acc.1.length + (qs.map Request.size).sum := by
    induction qs with
    | nil => exact fun _ => rfl
    | cons q qs ih =>
        intro acc
        rw [List.foldl_cons, ih, answer, List.length_append, Request.length_infos, List.map_cons,
          List.sum_cons, Nat.add_assoc]
  rw [answers, hall, List.length_nil, Nat.zero_add]

theorem answers_snoc (c : ClientID) (next : EntityID) (qs : List Request) (q : Request) :
    answers c next (qs ++ [q]) = answer c (answers c next qs) q := by
  rw [answers, List.foldl_append]
  rfl

theorem toInt_answers {c : ClientID} {next : EntityID} {qs : List Request}
    (h : next.toInt + (qs.map Request.size).sum ≤ 2147483647) :
    (answers c next qs).2.toInt = next.toInt + (qs.map Request.size).sum := by
  induction qs using List.reverseRecOn with
  | nil => exact (Int.add_zero _).symm
  | append_singleton qs q ih =>
      rw [List.map_append, List.sum_append, List.map_singleton, List.sum_singleton] at h ⊢
      have hbefore := ih (by omega)
      rw [answers_snoc, answer, toInt_add_ofNat (by omega), hbefore]
      omega

/-- **A request is answered with the whole tree of its type.** -/
theorem serverHandler_asks {hook : EntityID → List WriteOp} {q : Request} {p : Packet}
    (hregistry : r.Sensible) (hs : Hosting s) (hr : s.scene.registry = r)
    (hsender : p.info.senderID ≠ 0) (hasks : Asks r q (messageOf p))
    (hrun : serverHandler stack hook p s = (.ok (), s')) :
    Grown (q.infos p.info.senderID s.scene.ID) s s' ∧
      s'.scene.ID = s.scene.ID + Int32.ofNat q.size := by
  obtain ⟨owner, spawnInfo, hsound, hm, husable, hbelow⟩ := hasks
  have htype := type_of_creation hm
  rw [Session.serverHandler_creation htype hm] at hrun
  set entry : ChildEntityCreationInfo := { q.child with spawnInfo := spawnInfo, sound := hsound }
  have ht : Forest.Unfolds r.children [entry] (.cons entry q.below .nil) := .cons hbelow .nil
  have hall := hregistry.usable_of_unfolds ht husable
  have hroot : createAll stack p.info.senderID q.parent [entry] s = (.ok (), s') :=
    (Session.createAll_root hsound rfl s).trans hrun
  obtain ⟨hspread, hcounter⟩ := createAll_spread ht hall hs hr hroot
  have hresolved : resolved p.info.senderID = p.info.senderID := if_neg hsender
  rw [hresolved] at hspread
  refine ⟨?_, ?_⟩
  · have hsame : q.infos p.info.senderID s.scene.ID =
        (plant p.info.senderID q.parent s.scene.ID
          (.cons entry q.below .nil)).postorder.map Prod.fst := by
      simp only [Request.infos, Request.tree, plant, Forest.postorder, List.map_append,
        List.map_cons]
      rfl
    rw [hsame]
    exact hspread.grown
  · have hup : s'.scene.ID.toInt < 2147483648 := Int32.toInt_lt _
    have hsize : q.size = (Forest.cons entry q.below .nil).size := rfl
    apply Int32.toInt_inj.mp
    rw [hcounter, hsize, toInt_add_ofNat (by omega)]

end

end Process

namespace Session

open Process

/-- The event handles a packet that is on its way. -/
def Event.Handles : Event → Prop
  | .receive _ _ | .serve _ _ | .deliver _ _ => True
  | _ => False

instance : DecidablePred Event.Handles
  | .receive _ _ | .serve _ _ | .deliver _ _ => .isTrue trivial
  | .connect .. | .disconnect .. | .send .. | .hostCall .. | .peerCall .. => .isFalse not_false

/-- Nothing is on its way to the server. -/
def Served (s : Session) : Prop :=
  s.queue = [] ∧ ∀ c ∈ s.host.connected, (s.peer c).pending 1 = []

instance (s : Session) : Decidable s.Served :=
  have : Decidable (∀ c ∈ s.host.connected, (s.peer c).pending 1 = []) := List.decidableBAll _ _
  inferInstanceAs (Decidable (_ ∧ _))

/-- What is on its way from the client to the server, the oldest first. -/
def inFlight (s : Session) (c : ClientID) : List (Except Fault Message) :=
  s.queue.map messageOf ++ ((s.peer c).pending 1).map fun d => messageOfData d.data

/-- The new networked entities at the host are those of the tree. -/
structure OneTree (tree : Forest (EntityInfo × Packet)) (s t : Session) : Prop where
  created : ∃ new, (networkSpawns t.host.effects).map Prod.fst =
    (networkSpawns s.host.effects).map Prod.fst ++ new ∧ new.Perm (tree.preorder.map Prod.fst)
  stored : ∀ id, 0 < id → t.host.scene.held id =
    storedAfter tree.postorder id (s.host.scene.held id)

/-- What the host would create if it were called with the info on the client's behalf. -/
def onBehalf (registry : Registry) (c : ClientID) (info : EntityInfo) (next : EntityID)
    (t : Forest ChildEntityCreationInfo) : Forest (EntityInfo × Packet) :=
  if Creatable registry info then plant c info.parentID next t else .nil

/-! ## Clients are ready -/

def Online (s : Session) : Prop := ∀ c ∈ s.host.connected, (s.peer c).scene.networkReady

section

variable {s s' : Session} {c : ClientID}

theorem Online.set_peer {p : Process} (hs : s.Online) (h : Frame (s.peer c) p) :
    Online (s.setPeer c p) := by
  intro c' hc'
  by_cases heq : c' = c
  · subst heq
    rw [setPeer_peer_self, h.ready_eq]
    exact hs c' hc'
  · rw [setPeer_peer_ne heq]
    exact hs c' hc'

theorem Online.turn (hs : s.Online) (h : Turn Policy.any s s') : s'.Online := by
  cases h with
  | host h hmove hs' =>
      subst hs'
      intro c hc
      exact hs c (hmove.frame.connected_eq ▸ hc)
  | peer c p hc hmove hs' => exact hs' ▸ hs.set_peer hmove.frame
  | connect c sentAt receivedAt hc hzero hone hs' =>
      subst hs'
      intro c' hc'
      by_cases heq : c' = c
      · simp [connect, heq, newcomer]
      · have hold : c' ∈ s.host.connected :=
          (List.mem_append.mp hc').resolve_right fun h => heq (List.mem_singleton.mp h)
        simpa [connect, heq] using hs c' hold
  | disconnect c sentAt receivedAt hc hs' =>
      subst hs'
      exact fun c' hc' => hs c' (List.mem_of_mem_erase hc')
  | send c data hc hasks hs' => exact hs' ▸ hs.set_peer ⟨rfl, rfl, rfl, rfl, rfl⟩
  | receive c t d rest p hc hpending hp hs' =>
      subst hs'
      exact hs.set_peer ⟨rfl, rfl, rfl, rfl, rfl⟩
  | pop p rest hqueue hp hs' => exact hs' ▸ hs
  | welcome p rest h hqueue hp hjoin hsnapshot htold hs' =>
      subst hs'
      intro c hc
      exact hs c (htold.frame.connected_eq ▸ hc)
  | deliver c d rest m p hc hpending hm hhandled hs' =>
      subst hs'
      exact hs.set_peer hhandled.frame

theorem online_of_run {registry : Registry} {es : List Event}
    (hrun : Runs.run step (start registry) es = some s) : s.Online := by
  have hone : ∀ (t : Session) (e : Event) (t' : Session), (t.Obeys Policy.any ∧ t.Online) →
      t.step e = some t' → t'.Obeys Policy.any ∧ t'.Online := by
    intro t e t' ht hstep
    have hturns := step_turns ht.1 (Policy.any_permits t e) hstep
    clear hstep
    induction hturns with
    | refl => exact ht
    | tail _ hlast ih => exact ⟨ih.1.turn hlast, ih.2.turn hlast⟩
  have hstart : (start registry).Obeys Policy.any ∧ (start registry).Online :=
    ⟨start_obeys registry, fun _ hc => absurd hc List.not_mem_nil⟩
  exact (Runs.run_invariant hone hrun hstart).2

/-! ## Requests are handled -/

/-- Since `s` a client has made these requests.  Some of them have been answered, and the
others are on their way, in this order. -/
structure Working (registry : Registry) (c : ClientID) (qs : List Request) (s t : Session) :
    Prop where
  obeys : t.Obeys Policy.any
  registry_eq : t.host.scene.registry = registry
  connected : c ∈ t.host.connected
  others : ∀ c' ∈ t.host.connected, c' ≠ c → (t.peer c').pending 1 = []
  senders : ∀ p ∈ t.queue, p.info.senderID = c
  progress : ∃ done todo, qs = done ++ todo ∧
    Grown (answers c s.host.scene.ID done).1 s.host t.host ∧
    t.host.scene.ID = (answers c s.host.scene.ID done).2 ∧
    List.Forall₂ (Asks registry) todo (t.inFlight c)

variable {registry : Registry} {qs : List Request} {t t' : Session}

theorem Working.asks_of_mem (h : Working registry c qs s t) {m : Except Fault Message}
    (hm : m ∈ t.inFlight c) : ∃ q, Asks registry q m := by
  obtain ⟨done, todo, -, -, -, htodo⟩ := h.progress
  generalize t.inFlight c = ms at hm htodo
  induction htodo with
  | nil => cases hm
  | @cons q _ _ _ hq _ ih =>
      rcases List.mem_cons.mp hm with rfl | hm
      · exact ⟨q, hq⟩
      · exact ih hm

/-- A client handles a packet. -/
theorem Working.deliver {c' : ClientID} {d : Datagram} {m : Message} {p : Process}
    (h : Working registry c qs s t) (hobeys : Obeys Policy.any
      { t.setPeer c' p with host := t.host.dropNext c' })
    (hhandled : Handled d.origin m (t.peer c') p) :
    Working registry c qs s { t.setPeer c' p with host := t.host.dropNext c' } := by
  have hpending : ∀ c₁, ((t.setPeer c' p).peer c₁).pending 1 = (t.peer c₁).pending 1 := by
    intro c₁
    by_cases heq : c₁ = c'
    · subst heq
      rw [setPeer_peer_self, pending, hhandled.outbox_eq, pending]
    · rw [setPeer_peer_ne heq]
  obtain ⟨done, todo, hall, hgrown, hcounter, htodo⟩ := h.progress
  refine ⟨hobeys, h.registry_eq, h.connected, ?_, h.senders, done, todo, hall,
    hgrown.of_same rfl rfl, hcounter, ?_⟩
  · intro c₁ hc₁ hne
    exact (hpending c₁).trans (h.others c₁ hc₁ hne)
  · change List.Forall₂ _ todo (t.queue.map messageOf ++
      (((t.setPeer c' p).peer c).pending 1).map fun d => messageOfData d.data)
    rw [hpending]
    exact htodo

/-- The server takes a packet from the client into its queue. -/
theorem Working.receive {c' : ClientID} {d : Datagram} {rest : List Datagram} {p : Packet}
    {receivedAt : UInt32} (h : Working registry c qs s t) (hobeys : Obeys Policy.any
      { t.setPeer c' ((t.peer c').dropNext 1) with queue := t.queue ++ [p] })
    (hc' : c' ∈ t.host.connected) (hpending : (t.peer c').pending 1 = d :: rest)
    (hp : onClientDataReceived c' d.data receivedAt = .ok p) :
    Working registry c qs s
      { t.setPeer c' ((t.peer c').dropNext 1) with queue := t.queue ++ [p] } := by
  by_cases heq : c' = c
  · subst heq
    obtain ⟨_, _, hsender, hmessage⟩ := onClientDataReceived_ok hp
    obtain ⟨done, todo, hall, hgrown, hcounter, htodo⟩ := h.progress
    refine ⟨hobeys, h.registry_eq, h.connected, ?_, ?_, done, todo, hall, hgrown, hcounter, ?_⟩
    · intro c₁ hc₁ hne
      exact (congrArg (pending · 1) (setPeer_peer_ne hne)).trans (h.others c₁ hc₁ hne)
    · intro q hq
      rcases List.mem_append.mp hq with hq | hq
      · exact h.senders q hq
      · cases List.mem_singleton.mp hq
        exact hsender
    · have hrest : ((t.peer c').dropNext 1).pending 1 = rest := by
        rw [pending_dropNext, if_pos rfl, hpending]
        rfl
      have hsame : inFlight { t.setPeer c' ((t.peer c').dropNext 1) with queue := t.queue ++ [p] }
          c' = t.inFlight c' := by
        simp only [inFlight, setPeer_peer_self, hrest, hpending, List.map_append, List.map_cons,
          List.map_nil, hmessage, List.append_assoc, List.cons_append, List.nil_append]
      rw [hsame]
      exact htodo
  · rw [h.others c' hc' heq] at hpending
    cases hpending

/-- The server answers the oldest request. -/
theorem Working.serve {stack : Nat} {hooks : Hooks} {p : Packet} {rest : List Packet}
    {host : Process} (hregistry : registry.Sensible) (h : Working registry c qs s t)
    (hobeys : Obeys Policy.any { t with host := host, queue := rest })
    (hqueue : t.queue = p :: rest)
    (hframe : Frame t.host host)
    (hrun : serverHandler stack hooks.script p t.host = (.ok (), host)) :
    Working registry c qs s { t with host := host, queue := rest } := by
  have hsender : p.info.senderID = c := h.senders p (hqueue ▸ List.mem_cons_self)
  have hnonzero : p.info.senderID ≠ 0 := by
    intro hzero
    exact h.obeys.not_zero (hzero ▸ hsender.symm ▸ h.connected)
  obtain ⟨done, todo, hall, hgrown, hcounter, htodo⟩ := h.progress
  have hflight : t.inFlight c =
      messageOf p :: inFlight { t with host := host, queue := rest } c := by
    rw [inFlight, hqueue, List.map_cons, List.cons_append]
    rfl
  rw [hflight] at htodo
  obtain _ | @⟨q, _, todo, _, hq, hothers⟩ := htodo
  obtain ⟨hone, hmore⟩ :=
    serverHandler_asks hregistry h.obeys.hosting h.registry_eq hnonzero hq hrun
  rw [hsender, hcounter] at hone
  refine ⟨hobeys, hframe.registry_eq.trans h.registry_eq, hframe.connected_eq.symm ▸ h.connected,
    ?_, ?_, done ++ [q], todo, ?_, ?_, ?_, hothers⟩
  · intro c' hc' hne
    exact h.others c' (hframe.connected_eq ▸ hc') hne
  · exact fun q hq => h.senders q (hqueue ▸ List.mem_cons_of_mem p hq)
  · rw [hall, List.append_assoc, List.singleton_append]
  · rw [answers_snoc]
    exact hgrown.trans hone
  · rw [answers_snoc]
    exact hmore.trans (by rw [hcounter]; rfl)

/-- **One event.** -/
theorem Working.step {e : Event} (hregistry : registry.Sensible) (h : Working registry c qs s t)
    (he : e.Handles) (hstep : t.step e = some t') : Working registry c qs s t' := by
  have hobeys := (obeys_of_step h.obeys hstep).1
  cases step_outcome h.obeys (Policy.any_permits t e) hstep with
  | receive c' receivedAt d rest p hc' hpending hp => exact h.receive hobeys hc' hpending hp
  | serve stack hooks p rest host hqueue hp hrun hmoves =>
      exact h.serve hregistry hobeys hqueue (frame_of_moves hmoves) hrun
  | welcome stack hooks p rest host hqueue hp hjoin hsnapshot htold =>
      have hmem : messageOf p ∈ t.inFlight c :=
        List.mem_append_left _ (List.mem_map_of_mem (hqueue ▸ List.mem_cons_self))
      obtain ⟨q, owner, spawnInfo, _, hm, _⟩ := h.asks_of_mem hmem
      rw [type_of_creation hm] at hp
      cases hp
  | deliver c' receivedAt d rest m p hc' hpending hm hhandled => exact h.deliver hobeys hhandled
  | connect | disconnect | send | hostCall | peerCall => cases he

theorem Working.run {es : List Event} (hregistry : registry.Sensible)
    (h : Working registry c qs s t) (hes : ∀ e ∈ es, e.Handles)
    (hrun : Runs.run Session.step t es = some t') : Working registry c qs s t' := by
  induction es generalizing t with
  | nil =>
      cases hrun
      exact h
  | cons e es ih =>
      obtain ⟨u, hstep, hrest⟩ := Runs.run_cons_some hrun
      exact ih (h.step hregistry (hes e List.mem_cons_self) hstep)
        (fun e' he' => hes e' (List.mem_cons_of_mem e he')) hrest

/-- When nothing is on its way every request has been answered. -/
theorem Working.all_answered (h : Working registry c qs s t) (hserved : t.Served) :
    Grown (answers c s.host.scene.ID qs).1 s.host t.host := by
  obtain ⟨done, todo, hall, hgrown, _, htodo⟩ := h.progress
  have hflight : t.inFlight c = [] := by
    rw [inFlight, hserved.1, hserved.2 c h.connected]
    rfl
  rw [hflight] at htodo
  cases htodo
  rw [hall, List.append_nil]
  exact hgrown

/-! ## Everything can be handled -/

/-- A packet that is on its way to the server gets into its queue. -/
theorem receive_some {d : Datagram} {rest : List Datagram} {m : Message}
    (hc : c ∈ t.host.connected) (hpending : (t.peer c).pending 1 = d :: rest)
    (hm : messageOfData d.data = .ok m) :
    ∃ p, t.step (.receive c 0) =
      some { t.setPeer c ((t.peer c).dropNext 1) with queue := t.queue ++ [p] } := by
  have hlen : headerSize ≤ d.data.length := by
    by_contra hshort
    rw [messageOfData, ofData, if_pos (Nat.not_le.mp hshort)] at hm
    cases hm
  obtain ⟨p, hp⟩ : ∃ p, onClientDataReceived c d.data 0 = .ok p := by
    rw [onClientDataReceived, ofData_eq hlen]
    exact ⟨_, rfl⟩
  exact ⟨p, by simp only [Session.step, if_pos hc, hpending, hp]⟩

/-- The server can answer the oldest request. -/
theorem Working.serve_some {p : Packet} {rest : List Packet} (hregistry : registry.Sensible)
    (h : Working registry c qs s t) (hqueue : t.queue = p :: rest)
    (hroom : s.host.scene.ID.toInt + (qs.map Request.size).sum ≤ 2147483647) :
    ∃ stack host, t.step (.serve stack .silent) = some { t with host := host, queue := rest } := by
  obtain ⟨done, todo, hall, _, hcounter, htodo⟩ := h.progress
  rw [inFlight, hqueue, List.map_cons, List.cons_append] at htodo
  obtain _ | @⟨q, _, todo, _, hq, _⟩ := htodo
  obtain ⟨owner, spawnInfo, hsound, hm, husable, hbelow⟩ := hq
  rw [hall, List.map_append, List.map_cons, List.sum_append, List.sum_cons] at hroom
  have hnow : t.host.scene.ID.toInt = s.host.scene.ID.toInt + (done.map Request.size).sum := by
    rw [hcounter, toInt_answers (by omega)]
  have hroot : Forest.Unfolds registry.children [{ q.child with spawnInfo, sound := hsound }]
      (.cons { q.child with spawnInfo, sound := hsound } q.below .nil) := .cons hbelow .nil
  have hsize : q.size = (Forest.cons
      { q.child with spawnInfo, sound := hsound } q.below .nil).size := rfl
  have hreturns : ∃ host, createAll q.tree.height p.info.senderID q.parent
      [{ q.child with spawnInfo, sound := hsound }] t.host = (.ok (), host) :=
    createAll_returns hroot (hregistry.usable_of_unfolds hroot husable) h.obeys.hosting
      h.registry_eq (by omega) (Nat.le_refl _)
  obtain ⟨host, hhost⟩ := hreturns
  refine ⟨q.tree.height, host, ?_⟩
  have hrun : serverHandler q.tree.height Hooks.silent.script p t.host = (.ok (), host) := by
    rw [serverHandler_creation (type_of_creation hm) hm]
    exact (createAll_root hsound rfl t.host).symm.trans hhost
  simp only [Session.step, hqueue, after, hrun]
  rfl

/-- **Everything that is on its way can be handled** if the ids do not run out.  Every
event takes a packet one step further. -/
theorem Working.finish (hregistry : registry.Sensible) (h : Working registry c qs s t)
    (hroom : s.host.scene.ID.toInt + (qs.map Request.size).sum ≤ 2147483647) :
    ∃ es u, (∀ e ∈ es, e.Handles) ∧ Runs.run Session.step t es = some u ∧ u.Served := by
  generalize hn : (t.inFlight c).length + ((t.peer c).pending 1).length = n
  induction n using Nat.strong_induction_on generalizing t with
  | _ n ih =>
  have hnext : ∀ (e : Event) (u : Session), t.step e = some u → e.Handles →
      (u.inFlight c).length + ((u.peer c).pending 1).length < n →
      ∃ es u, (∀ e ∈ es, e.Handles) ∧ Runs.run Session.step t es = some u ∧ u.Served := by
    intro e u hstep he hless
    obtain ⟨es, v, hes, hrun, hserved⟩ := ih _ hless (h.step hregistry he hstep) rfl
    refine ⟨e :: es, v, List.forall_mem_cons.mpr ⟨he, hes⟩, ?_, hserved⟩
    rw [Runs.run_cons hstep, hrun]
  cases hpending : (t.peer c).pending 1 with
  | cons d rest =>
      have hmem : messageOfData d.data ∈ t.inFlight c :=
        List.mem_append_right _ (List.mem_map.mpr ⟨d, hpending ▸ List.mem_cons_self, rfl⟩)
      obtain ⟨q, owner, spawnInfo, _, hm, _⟩ := h.asks_of_mem hmem
      obtain ⟨p, hstep⟩ := receive_some h.connected hpending hm
      refine hnext _ _ hstep trivial ?_
      have hrest : ((t.peer c).dropNext 1).pending 1 = rest := by
        rw [pending_dropNext, if_pos rfl, hpending]
        rfl
      simp only [inFlight, setPeer_peer_self, hrest, hpending, List.length_append, List.length_map,
        List.length_cons, List.length_nil] at hn ⊢
      omega
  | nil =>
      cases hqueue : t.queue with
      | cons p rest =>
          obtain ⟨stack, host, hstep⟩ := h.serve_some hregistry hqueue hroom
          refine hnext _ _ hstep trivial ?_
          simp only [inFlight, hqueue, hpending, List.length_append, List.length_map,
            List.length_cons, List.length_nil] at hn ⊢
          omega
      | nil =>
          refine ⟨[], t, fun _ he => absurd he List.not_mem_nil, rfl, hqueue, ?_⟩
          intro c' hc'
          by_cases heq : c' = c
          · rw [heq, hpending]
          · exact h.others c' hc' heq

/-! ## The call -/

section

variable {es : List Event} {stack : Nat} {hooks : Hooks} {info : EntityInfo} {spawnInfo : Packet}
  {sound : spawnInfo.Sound} {forest : Forest ChildEntityCreationInfo}

theorem refused {p : Process} {k : Nat} (h : ¬ Creatable p.scene.registry info) :
    createNetworkedEntity (k + 1) info spawnInfo p = (.ok (), p) := by
  have hrefused : ¬ info.Named ∨ p.scene.registry.builders info.type = none := by
    rw [← Option.not_isSome_iff_eq_none]
    exact not_and_or.mp h
  rw [createNetworkedEntity, Fallible.bind_get, if_pos hrefused]
  rfl

theorem joined_of_run (hrun : Runs.run Session.step (start registry) es = some s)
    (hc : c ∈ s.host.connected) : Process.Joined registry (s.peer c) := by
  obtain ⟨hobeys, hsame⟩ := obeys_of_run (start_obeys registry) hrun
  have hmember := hobeys.member c hc
  exact ⟨hmember.role_eq, online_of_run hrun c hc, hmember.registry_eq.trans hsame⟩

/-- The call returns. -/
theorem call_returns (hregistry : registry.Sensible)
    (hrun : Runs.run Session.step (start registry) es = some s) (hc : c ∈ s.host.connected)
    (hnew : info.ID = 0) (ht : Forest.Unfolds registry.children [info.entry spawnInfo sound] forest)
    (hdeep : forest.height ≤ stack) :
    ∃ t, s.step (.peerCall c stack hooks (.createNetworkedEntity info spawnInfo sound)) =
      some t := by
  have hjoined := joined_of_run hrun hc
  have hreturns : ∃ p, createNetworkedEntity stack info spawnInfo (s.peer c) = (.ok (), p) := by
    by_cases hcreatable : Creatable registry info
    · rw [← createAll_root sound hnew]
      exact createAll_asks_returns ht (hregistry.usable_of_unfolds ht hcreatable) hjoined hdeep
    · obtain ⟨k, rfl⟩ : ∃ k, stack = k + 1 := by
        cases ht with
        | cons hbelow hbeside =>
            rw [Forest.height] at hdeep
            exact ⟨stack - 1, by omega⟩
      exact ⟨_, refused (hjoined.registry_eq.symm ▸ hcreatable)⟩
  obtain ⟨p, hp⟩ := hreturns
  refine ⟨s.setPeer c p, ?_⟩
  simp only [Session.step, if_pos hc, GameCall.run, after, hp]
  rfl

/-- What the client's call leaves. -/
theorem working_of_call (hregistry : registry.Sensible)
    (hrun : Runs.run Session.step (start registry) es = some s) (hserved : s.Served)
    (hnew : info.ID = 0) (ht : Forest.Unfolds registry.children [info.entry spawnInfo sound] forest)
    (hstep : s.step (.peerCall c stack hooks (.createNetworkedEntity info spawnInfo sound)) =
      some t) :
    Working registry c (if Creatable registry info then EnkiNet.asked info.parentID forest else [])
      s t := by
  obtain ⟨hobeys, hsame⟩ := obeys_of_run (start_obeys registry) hrun
  have hobeys' := (obeys_of_step hobeys hstep).1
  cases step_outcome hobeys (Policy.any_permits s _) hstep with
  | peerCall _ _ _ _ p hc hcall hmoves =>
  have hjoined := joined_of_run hrun hc
  change createNetworkedEntity stack info spawnInfo (s.peer c) = (.ok (), p) at hcall
  have hasked : Asked registry
      (if Creatable registry info then EnkiNet.asked info.parentID forest else [])
        (s.peer c) p := by
    by_cases hcreatable : Creatable registry info
    · rw [if_pos hcreatable]
      exact createAll_asks ht (hregistry.usable_of_unfolds ht hcreatable) hjoined
        ((createAll_root sound hnew (s.peer c)).trans hcall)
    · rw [if_neg hcreatable]
      cases stack with
      | zero => cases hcall
      | succ stack =>
          rw [refused (hjoined.registry_eq.symm ▸ hcreatable)] at hcall
          cases hcall
          exact Asked.nil _
  obtain ⟨ds, hds, hasks⟩ := hasked.posted
  refine ⟨hobeys', hsame, hc, ?_, ?_, [], _, rfl, Grown.nil _, rfl, ?_⟩
  · intro c' hc' hne
    rw [setPeer_peer_ne hne]
    exact hserved.2 c' hc'
  · intro q hq
    rw [setPeer_queue, hserved.1] at hq
    cases hq
  · rw [inFlight, setPeer_queue, hserved.1, setPeer_peer_self, hds, hserved.2 c hc]
    exact hasks

end

/-- What is EnkiNet.asked for is one tree only if nothing is below the root. -/
theorem oneTree_iff {info : EntityInfo} {root : ChildEntityCreationInfo}
    {forest : Forest ChildEntityCreationInfo}
    (ht : Forest.Unfolds registry.children [root] forest)
    (hgrown : Grown (answers c s.host.scene.ID (EnkiNet.asked info.parentID forest)).1
      s.host t.host) :
    OneTree (plant c info.parentID s.host.scene.ID forest) s t ↔ registry.children root = [] := by
  obtain _ | @⟨_, _, below, _, hbelow, hbeside⟩ := ht
  cases hbeside
  have hasked : EnkiNet.asked info.parentID (.cons root below .nil) =
      EnkiNet.asked 0 below ++ [⟨info.parentID, root, below⟩] := rfl
  constructor
  · rintro ⟨⟨new, hnew, hperm⟩, _⟩
    have hlength := congrArg List.length (List.append_cancel_left (hnew.symm.trans hgrown.spawned))
    have hmore := size_le_asked 0 below
    have hself : (Request.mk info.parentID root below).size = below.size + 1 + 0 := rfl
    have hsize : (Forest.cons root below .nil).size = below.size + 1 + 0 := rfl
    rw [hperm.length_eq, List.length_map, Forest.length_preorder, size_plant, length_answers,
      hasked,
      List.map_append, List.sum_append, List.map_singleton, List.sum_singleton, hself, hsize]
      at hlength
    cases hbelow' : below with
    | nil =>
        rw [hbelow'] at hbelow
        exact hbelow.roots_eq.symm
    | cons child more others =>
        rw [hbelow', Forest.size] at hmore
        rw [hbelow', Forest.size] at hlength
        omega
  · intro hnone
    rw [hnone] at hbelow
    cases hbelow
    have hinfos :
        (answers c s.host.scene.ID (EnkiNet.asked info.parentID (.cons root .nil .nil))).1 =
        (plant c info.parentID s.host.scene.ID (.cons root .nil .nil)).postorder.map Prod.fst := rfl
    rw [hinfos] at hgrown
    refine ⟨⟨_, hgrown.spawned, ?_⟩, ?_⟩
    · exact (Forest.postorder_perm_preorder _).map _
    · intro id hid
      rw [hgrown.held id hid, storedAfter_eq]

end

/-- **A client's call for a new entity yields one tree exactly when its type has no
children** (or the call is refused).  The call returns if the stack is deep enough, and
what it asks for can be handled if the ids do not run out. -/
theorem one_tree_iff {registry : Registry} {es : List Event} {s : Session} {c : ClientID}
    {stack : Nat} {hooks : Hooks} {info : EntityInfo} {spawnInfo : Packet}
    {sound : spawnInfo.Sound} {forest : Forest ChildEntityCreationInfo}
    (hregistry : registry.Sensible)
    (hrun : Runs.run step (start registry) es = some s) (hc : c ∈ s.host.connected)
    (hserved : s.Served) (hnew : info.ID = 0)
    (ht : Forest.Unfolds registry.children [info.entry spawnInfo sound] forest) :
    (forest.height ≤ stack →
      ∃ t, s.step (.peerCall c stack hooks (.createNetworkedEntity info spawnInfo sound)) =
        some t) ∧
    ∀ t, s.step (.peerCall c stack hooks (.createNetworkedEntity info spawnInfo sound)) = some t →
      (s.host.scene.ID.toInt + ((EnkiNet.asked info.parentID forest).map Request.size).sum ≤
          2147483647 →
        ∃ later u, (∀ e ∈ later, e.Handles) ∧ Runs.run step t later = some u ∧ u.Served) ∧
      ∀ later u, (∀ e ∈ later, e.Handles) → Runs.run step t later = some u → u.Served →
        (OneTree (onBehalf registry c info s.host.scene.ID forest) s u ↔
          ¬ Creatable registry info ∨ registry.childTypes info.type = []) := by
  refine ⟨call_returns hregistry hrun hc hnew ht, ?_⟩
  intro t hstep
  have hworking := working_of_call hregistry hrun hserved hnew ht hstep
  refine ⟨?_, ?_⟩
  · intro hroom
    apply hworking.finish hregistry
    split
    · exact hroom
    · have hup : s.host.scene.ID.toInt < 2147483648 := Int32.toInt_lt _
      simp only [List.map_nil, List.sum_nil]
      omega
  · intro later u hlater hrunlater hdone
    have hall := (hworking.run hregistry hlater hrunlater).all_answered hdone
    by_cases hcreatable : Creatable registry info
    · rw [if_pos hcreatable] at hall
      rw [onBehalf, if_pos hcreatable]
      have hiff := oneTree_iff ht hall
      exact hiff.trans ⟨Or.inr, fun h => h.resolve_left (not_not_intro hcreatable)⟩
    · rw [if_neg hcreatable] at hall
      rw [onBehalf, if_neg hcreatable]
      refine iff_of_true ⟨⟨[], hall.spawned, .refl _⟩, hall.held⟩ (Or.inl hcreatable)

/-- An entity of a type that has no children. -/
def childless : EntityInfo := { type := Sample.letter 67, name := Sample.letter 66 }

def lone : Event :=
  .peerCall 2 5 .silent (.createNetworkedEntity childless (ofHeader {}) Sample.child.sound)

theorem one_tree_iff_lone :
    ∃ s t u tree, Runs.run step (start Sample.family) [.connect 2 0 0, .serve 5 .silent] = some s ∧
      s.step lone = some t ∧ Runs.run step t [.receive 2 0, .serve 5 .silent] = some u ∧
      tree.preorder.map (fun e => e.1.type) = [Sample.letter 67] ∧ OneTree tree s u := by
  have hsome : (Runs.run step (start Sample.family) [.connect 2 0 0, .serve 5 .silent]).any
      (fun s => s.Served ∧ 2 ∈ s.host.connected ∧ (s.step lone).any fun t =>
        (Runs.run step t [.receive 2 0, .serve 5 .silent]).any fun u => u.Served) = true := by
    decide +kernel
  obtain ⟨s, hrun, hs⟩ := (Option.any_eq_true _ _).mp hsome
  obtain ⟨hserved, hc, hs⟩ := of_decide_eq_true hs
  obtain ⟨t, hstep, ht⟩ := (Option.any_eq_true _ _).mp hs
  obtain ⟨u, hlater, hu⟩ := (Option.any_eq_true _ _).mp ht
  have hleaf : Forest.Unfolds Sample.family.children
      [childless.entry (ofHeader {}) Sample.child.sound] (.cons Sample.child .nil .nil) :=
    .cons .nil .nil
  obtain ⟨_, hall⟩ := one_tree_iff Sample.family_sensible hrun hc hserved rfl hleaf
  refine ⟨s, t, u, _, hrun, hstep, hlater, ?_, ((hall t hstep).2 _ u (by decide) hlater
    (of_decide_eq_true hu)).mpr (Or.inr rfl)⟩
  rfl

/-- Client 2 creates an `A`, and a `C` with it. -/
def twice : List Event :=
  [.connect 2 0 0, .serve 5 .silent, .peerCall 2 5 .silent Sample.create, .receive 2 0,
    .receive 2 0, .serve 5 .silent, .serve 5 .silent, .deliver 2 0, .deliver 2 0, .deliver 2 0]

/-- **A child is created twice**, and once without its parent. -/
theorem child_created_twice :
    ∃ u, Runs.run step (start Sample.family) twice = some u ∧ u.Served ∧ u.host.pending 2 = [] ∧
      (networkSpawns u.host.effects).map (fun e => (e.1.type, e.1.ID, e.1.parentID)) =
        [(Sample.letter 67, 1, 0), (Sample.letter 67, 3, 2), (Sample.letter 65, 2, 0)] :=
  Runs.exists_of_any (by decide +kernel)

end Session

end EnkiNet
