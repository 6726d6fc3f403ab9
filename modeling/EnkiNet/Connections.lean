import EnkiNet.Births

/-!
# Connections and owners

An entity stores its owner as a bare client id.  When a client disconnects its id becomes
free and its entities stay: whoever gets the id next owns them (`authority_survives`).
The server deletes nothing by itself, that is left to game code.

`authority_within_connection` is what holds when game code does so in time.  If nothing
is left of the earlier uses of an id when it is given out, every owner check that the new
client passes is about an entity of its own connection.  The proof follows the births of
the server's entities (`step_grows`): what has this owner in the end and was not there at
the beginning has been created for it in between.
-/

namespace EnkiNet

open ByteStore Packet Process

namespace Process

/-- What the server's handler reads from an `ENTITY_RPC`. -/
def readRequest : PacketM (EntityInfo × StdString) := do
  let info ← getEntityInfo
  let name ← getString
  return (info, name)

/-- A call that only the owner may ask for. -/
def OwnerOnly (r : Registry) (info : EntityInfo) (name : StdString) : Prop :=
  ∃ rpc ∈ r.entityRpcs info.type name, rpc.rpctype = .remote ∨ rpc.rpctype = .remoteAndLocal

instance (r : Registry) (info : EntityInfo) (name : StdString) :
    Decidable (OwnerOnly r info name) :=
  inferInstanceAs (Decidable (∃ rpc ∈ _, _))

/-- The entity of which the packet's sender is taken for the owner, where the server's
handler compares the two. -/
def ownerCheck (s : Process) (p : Packet) : Option EntityInfo :=
  match p.header.type with
  | .entityDeletion =>
      match (getScalar 4 p).1 with
      | .ok id =>
          (s.scene.held (Int32.ofBitVec id)).filter fun info => info.ownerID = p.info.senderID
      | .error _ => none
  | .entityRpc =>
      match (readRequest p).1 with
      | .ok (info, name) =>
          if OwnerOnly s.scene.registry info name then
            (s.scene.held info.ID).filter fun held => info = held ∧ info.ownerID = p.info.senderID
          else none
      | .error _ => none
  | _ => none

theorem ownerCheck_some {s : Process} {p : Packet} {info : EntityInfo}
    (h : s.ownerCheck p = some info) :
    info.ownerID = p.info.senderID ∧ ∃ id, s.scene.held id = some info := by
  unfold ownerCheck at h
  split at h
  · split at h
    · next id _ =>
      obtain ⟨hheld, howner⟩ := Option.filter_eq_some_iff.mp h
      exact ⟨of_decide_eq_true howner, _, hheld⟩
    · cases h
  · split at h
    · next asked name _ =>
      split at h
      · obtain ⟨hheld, hsame⟩ := Option.filter_eq_some_iff.mp h
        obtain ⟨rfl, howner⟩ := of_decide_eq_true hsame
        exact ⟨howner, _, hheld⟩
      · cases h
    · cases h
  · cases h

/-- A deletion that does not pass the check has no effect. -/
theorem deletion_refused {stack : Nat} {hook : EntityID → List WriteOp} {p : Packet}
    {s s' : Process} (htype : p.header.type = .entityDeletion) (hcheck : s.ownerCheck p = none)
    (h : serverHandler stack hook p s = (.ok (), s')) : s' = s := by
  simp only [serverHandler, htype] at h
  obtain ⟨id, q, hid, h⟩ := bind_onPacket_ok h
  have hinfo : q.info = p.info := (reads_getScalar 4).info_eq hid
  dsimp only at h
  rw [Fallible.bind_get] at h
  rcases hent : s.scene.entities[Int32.ofBitVec id]? with _ | ent
  · rw [hent] at h
    cases h
    rfl
  rw [hent] at h
  dsimp only at h
  split at h
  · next howner =>
    rw [hinfo] at howner
    rw [ownerCheck, htype, hid] at hcheck
    simp [Scenegraph.held, hent, howner] at hcheck
  · cases h
    rfl

/-- A call that does not pass the check has no effect. -/
theorem rpc_refused {p q : Packet} {s s' : Process} {info : EntityInfo} {name : StdString}
    (htype : p.header.type = .entityRpc) (hread : readRequest p = (.ok (info, name), q))
    (howners : OwnerOnly s.scene.registry info name) (hcheck : s.ownerCheck p = none)
    (h : routeRPC p s = (.ok (), s')) : s' = s := by
  obtain ⟨_, r, hinfo, hread'⟩ := Fallible.bind_eq_ok hread
  obtain ⟨_, r', hname, hend⟩ := Fallible.bind_eq_ok hread'
  cases hend
  have hsender : q.info = p.info := (reads_getString.info_eq hname).trans
    (reads_getEntityInfo.info_eq hinfo)
  rw [routeRPC, bind_onPacket hinfo] at h
  dsimp only at h
  rw [bind_onPacket hname, Fallible.bind_get] at h
  dsimp only at h
  obtain ⟨rpc, hrpc, hmode⟩ := howners
  rw [hrpc] at h
  rcases hent : s.scene.entities[info.ID]? with _ | ent
  · rw [hent] at h
    cases h
    rfl
  rw [hent] at h
  dsimp only at h
  split at h
  · next hsame =>
    have hother : info.ownerID ≠ q.info.senderID := by
      intro howner
      rw [hsender] at howner
      have howners : OwnerOnly s.scene.registry info name := ⟨rpc, hrpc, hmode⟩
      rw [ownerCheck, htype, hread] at hcheck
      simp [if_pos howners, Scenegraph.held, hent, ← hsame, howner] at hcheck
    rcases hmode with hmode | hmode
    · rw [hmode] at h
      dsimp only at h
      rw [if_neg hother] at h
      cases h
      rfl
    · rw [hmode] at h
      dsimp only at h
      rw [if_neg hother] at h
      cases h
      rfl
  · cases h
    rfl

theorem resolved_eq {o c : ClientID} (hone : c ≠ 1) (h : resolved o = c) : o = c := by
  unfold resolved at h
  split at h
  · exact absurd h.symm hone
  · exact h

end Process

namespace Session

/-- The owner check that the server's next packet passes: the sender and the entity. -/
def passed (s : Session) : Option (ClientID × EntityInfo) := do
  let p ← s.queue.head?
  let info ← s.host.ownerCheck p
  return (p.info.senderID, info)

/-- The event creates entities for a client: at its own request, other than the `old`
ones, or by a call of the host with the client as owner. -/
def CreatesFor (s : Session) (old : List Packet) (c : ClientID) : Event → Prop
  | .serve _ _ => ∃ p ∈ s.queue.head?, p ∉ old ∧ p.header.type = .entityCreation ∧
      p.info.senderID = c
  | .hostCall _ _ (.createNetworkedEntity info _ _) => info.ownerID = c
  | .hostCall _ _ (.createEntity info _ _) => info.ownerID = c
  | _ => False

/-- Some event of the run has created this entity for the client. -/
def CreatedIn (c : ClientID) (info : EntityInfo) (s : Session) (old : List Packet)
    (es : List Event) : Prop :=
  ∃ before e after t t' new, es = before ++ e :: after ∧ Runs.run step s before = some t ∧
    t.step e = some t' ∧ t.CreatesFor old c e ∧
    spawns t'.host.effects = spawns t.host.effects ++ new ∧ info ∈ new

/-- Nothing is left of an earlier use of the id. -/
structure Clean (s : Session) (c : ClientID) : Prop where
  no_entity : ∀ id info, s.host.scene.held id = some info → info.ownerID ≠ c
  no_request : ∀ p ∈ s.queue, p.header.type = .entityCreation → p.info.senderID ≠ c

/-! ## Births of the server's entities -/

section

variable {s s' : Session} {e : Event} {c : ClientID} {old : List Packet}

theorem Obeys.hosted {π : Policy} (hs : s.Obeys π) : Hosted s.host :=
  ⟨hs.role_eq, hs.host.host_id hs.role_eq, hs.networkReady⟩

/-- What game code does on the server. -/
theorem hostCall_growing {stack : Nat} {hooks : Hooks} (call : GameCall) (hone : c ≠ 1) :
    Growing (fun o => o = c → s.CreatesFor old c (.hostCall stack hooks call))
      (call.run stack hooks) := by
  cases call with
  | createEntity info fresh spawnInfo =>
      exact Fallible.Moves.bind (growing_createEntity spawnInfo fun h => h) fun _ =>
        Fallible.Moves.pure ()
  | createNetworkedEntity info spawnInfo sound =>
      refine (growing_createNetworkedEntity stack info sound).mono ?_
      rintro _ rfl howner
      exact resolved_eq hone howner
  | deleteEntity id => exact growing_deleteEntity id
  | update => exact growing_update
  | networkTick => exact growing_networkTick hooks.representable
  | callRPC id name arguments representable =>
      refine growing_get fun s _ => ?_
      split
      · exact Fallible.Moves.pure ()
      · exact growing_callRPC representable
  | setNetworkTickRate id rate =>
      change Growing _ (modifyScene fun g =>
        { g with entities := g.entities.modify id fun ent => { ent with networkTickRate := rate } })
      refine growing_modifyScene (fun _ => rfl) fun g k info h => ?_
      rw [Scenegraph.held, getElem?_modify_rate] at h
      split at h
      · next heq =>
        subst heq
        rw [Scenegraph.held, ← h]
        cases g.entities[id]? <;> rfl
      · exact h
  | elapse now =>
      exact growing_modify (fun _ hs => ⟨hs.role_eq, hs.id_eq, hs.networkReady⟩) fun _ =>
        Grows.of_same rfl fun _ _ h => h

/-- **One event.**  Entities of a client are born when they are created for it. -/
theorem step_grows (hs : s.Obeys Policy.any) (hone : c ≠ 1)
    (hold : ∀ p ∈ old, p.header.type = .entityCreation → p.info.senderID ≠ c)
    (hstep : s.step e = some s') :
    Grows (fun o => o = c → s.CreatesFor old c e) s.host s'.host := by
  cases step_outcome hs (Policy.any_permits s e) hstep with
  | serve stack hooks p rest host hqueue hp hrun hmoves =>
      by_cases htype : p.header.type = .entityCreation
      · obtain ⟨info, spawnInfo, hm⟩ := creation_of_served htype hrun
        obtain ⟨_, _, _, hspawn⟩ := reads_of_creation htype hm
        rw [serverHandler_creation htype hm] at hrun
        have hgrows := (growing_createNetworkedEntity stack _ (getPacket_sound hspawn)).grows
          hs.hosted hrun
        refine hgrows.mono ?_
        rintro _ rfl howner
        have hsender : p.info.senderID = c := resolved_eq hone howner
        exact ⟨p, by rw [hqueue]; rfl, fun hmem => hold p hmem htype hsender, htype, hsender⟩
      · exact (growing_serverHandler htype hp).grows hs.hosted hrun
  | welcome stack hooks p rest host hqueue hp hjoin hsnapshot htold =>
      refine Grows.of_same ?_ fun id info h => ?_
      · have hnone : spawns (s.stored.map (.snapshot p.info.senderID ·)) = [] := by
          rw [spawns, List.filterMap_map, List.filterMap_eq_nil_iff]
          intro _ _
          rfl
        rw [htold.effects_eq, spawns_append, hnone, List.append_nil]
      · rwa [htold.scene_eq] at h
  | hostCall stack hooks call host hrun hmoves =>
      exact (hostCall_growing call hone).grows hs.hosted hrun
  | connect | disconnect | send | receive | deliver | peerCall =>
      exact Grows.of_same rfl fun _ _ h => h

/-- **Whole runs**, by induction on the run. -/
theorem held_of_run {es : List Event} {t : Session} {id : EntityID} {info : EntityInfo}
    (hs : s.Obeys Policy.any) (hone : info.ownerID ≠ 1)
    (hold : ∀ p ∈ old, p.header.type = .entityCreation → p.info.senderID ≠ info.ownerID)
    (hrun : Runs.run step s es = some t) (hheld : t.host.scene.held id = some info) :
    s.host.scene.held id = some info ∨ CreatedIn info.ownerID info s old es := by
  induction es generalizing s with
  | nil =>
      cases hrun
      exact Or.inl hheld
  | cons e es ih =>
      obtain ⟨u, hstep, hrest⟩ := Runs.run_cons_some hrun
      rcases ih (obeys_of_step hs hstep).1 hrest with hu | hcreated
      · obtain ⟨new, hnew, howner, hborn⟩ := step_grows hs hone hold hstep
        refine (hborn id info hu).imp_right fun hinfo => ?_
        exact ⟨[], e, es, s, u, new, rfl, rfl, hstep, howner info hinfo rfl, hnew, hinfo⟩
      · obtain ⟨before, e', after, v, v', new, hsplit, hbefore, hlast⟩ := hcreated
        refine Or.inr ⟨e :: before, e', after, v, v', new, ?_, ?_, hlast⟩
        · rw [hsplit, List.cons_append]
        · rw [Runs.run_cons hstep, hbefore]

end

/-- **Authority within a connection.**  If nothing is left of an id when a client connects
under it, an owner check that the client passes is about an entity that has been created
for it since. -/
theorem authority_within_connection {registry : Registry} {es later : List Event}
    {s s₁ t : Session} {c : ClientID} {sentAt receivedAt : UInt32} {info : EntityInfo}
    (hrun : Runs.run step (start registry) es = some s)
    (hconnect : s.step (.connect c sentAt receivedAt) = some s₁) (hclean : s.Clean c)
    (hlater : Runs.run step s₁ later = some t) (hpassed : t.passed = some (c, info)) :
    CreatedIn c info s₁ s.queue later := by
  obtain ⟨hobeys, _⟩ := obeys_of_run (start_obeys registry) hrun
  obtain ⟨p, _, hp⟩ := Option.bind_eq_some_iff.mp hpassed
  obtain ⟨_, hcheck, hpair⟩ := Option.bind_eq_some_iff.mp hp
  cases hpair
  obtain ⟨howner, id, hheld⟩ := ownerCheck_some hcheck
  have hobeys₁ := (obeys_of_step hobeys hconnect).1
  cases step_outcome hobeys (Policy.any_permits s _) hconnect with
  | connect c sentAt receivedAt hc hzero hone =>
      rw [← howner] at hclean hone hlater ⊢
      rcases held_of_run (howner ▸ hobeys₁) hone hclean.no_request hlater hheld with
        hbefore | hcreated
      · exact absurd rfl (hclean.no_entity id info hbefore)
      · exact hcreated

/-- Client 2 connects, asks for an entity, and asks for its deletion. -/
def ownDeletion : List Event :=
  [.serve 5 .silent, .peerCall 2 5 .silent Sample.create, .receive 2 0, .serve 5 .silent,
    .deliver 2 0, .peerCall 2 5 .silent (.deleteEntity 1), .receive 2 0]

theorem authority_within_connection_own : ∃ s₁ t,
    (start Sample.registry).step (.connect 2 0 0) = some s₁ ∧
      Runs.run step s₁ ownDeletion = some t ∧ t.passed = some (2, Sample.info 1 2) ∧
      CreatedIn 2 (Sample.info 1 2) s₁ [] ownDeletion := by
  obtain ⟨s₁, hconnect, hrest⟩ : ∃ s₁, (start Sample.registry).step (.connect 2 0 0) = some s₁ ∧
      (Runs.run step s₁ ownDeletion).any (fun t => t.passed = some (2, Sample.info 1 2)) = true :=
    ⟨_, rfl, by decide +kernel⟩
  obtain ⟨t, hlater, hpassed⟩ := Runs.exists_of_any hrest
  have hclean : (start Sample.registry).Clean 2 := by
    refine ⟨fun id info h => ?_, fun p hp => absurd hp List.not_mem_nil⟩
    simp [start, Scenegraph.held] at h
  exact ⟨s₁, t, hconnect, hlater, hpassed,
    authority_within_connection (Runs.run_nil _) hconnect hclean hlater hpassed⟩

/-- A client has created an entity and has gone, and its id has become free. -/
def departed : List Event :=
  [.connect 2 0 0, .serve 5 .silent, .peerCall 2 5 .silent Sample.create, .receive 2 0,
    .serve 5 .silent, .disconnect 2 0 0, .serve 5 .silent]

/-- The next client with the id asks for a deletion. -/
def inherited : List Event :=
  [.serve 5 .silent, .send 2 (Sample.bytes .entityDeletion (putScalar (k := 4) 1#32)), .receive 2 0]

/-- **Authority survives a connection.**  The next client with the id passes the check for
an entity that was created before it connected. -/
theorem authority_survives : ∃ s s₁ t,
    Runs.run step (start Sample.registry) departed = some s ∧
      s.step (.connect 2 0 0) = some s₁ ∧ Runs.run step s₁ inherited = some t ∧
      2 ∈ t.host.connected ∧ t.passed = some (2, Sample.info 1 2) ∧
      spawns t.host.effects = spawns s.host.effects ∧ Sample.info 1 2 ∈ spawns s.host.effects := by
  have hany : (Runs.run step (start Sample.registry) departed).any (fun s =>
      (s.step (.connect 2 0 0)).any fun s₁ => (Runs.run step s₁ inherited).any fun t =>
        2 ∈ t.host.connected ∧ t.passed = some (2, Sample.info 1 2) ∧
          spawns t.host.effects = spawns s.host.effects ∧
          Sample.info 1 2 ∈ spawns s.host.effects) = true := by decide +kernel
  obtain ⟨s, hs, hany⟩ := (Option.any_eq_true _ _).mp hany
  obtain ⟨s₁, hs₁, hany⟩ := (Option.any_eq_true _ _).mp hany
  obtain ⟨t, ht, hall⟩ := (Option.any_eq_true _ _).mp hany
  exact ⟨s, s₁, t, hs, hs₁, ht, of_decide_eq_true hall⟩

end Session

end EnkiNet
