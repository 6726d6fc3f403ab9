import EnkiNet.Births
import EnkiNet.Cascade
import EnkiNet.Registration
import EnkiNet.Rejection

/-!
# The table of entities

A scenegraph has its entities in a map from ids to pointers, and all its loops go through the
pointers.  `operator[]` of the map makes an entry with a null pointer for an id that is not there,
so whoever uses it has to store an entity or to know that there is one.  The entries of this model
are entities; a program that comes to a null pointer ends in `nullDereference`.

`NullFree x` says that a program does not end so, and that is how all of them are, but for the
handler of a client, which creates an entity and relies on it, and `deleteEntity`, which uses
`operator[]` without a check.  `tables_sound_iff` says what this comes to in a run.
-/

namespace EnkiNet

open ByteStore Packet
open Fallible (Returns)

/-- The program does not dereference a null pointer, whatever the state. -/
def NullFree {σ α : Type} (x : Fallible Fault σ α) : Prop :=
  Fallible.Avoids (.undefined .nullDereference) x

/-! ## Packets -/

/-- An exception is not a null pointer. -/
theorem Catchable.nullFree {α : Type} {x : PacketM α} (hx : Catchable x) : NullFree x :=
  hx.avoids fun h => h

/-- The header of an inner packet may be cut short, but the packet is an object. -/
theorem nullFree_getPacket : NullFree getPacket :=
  faults_getPacket.avoids Fault.not_ofReading_nullDereference

/-! ## The handler of a client -/

namespace Process

section

variable {α β : Type}

/-- What was read from a packet, or written to one, is known afterwards. -/
theorem onPacket_ne_null {x : PacketM α} {p : Packet} {f : α × Packet → ProcessM β} {s : Process}
    (hx : (x p).1 ≠ .error (.undefined .nullDereference))
    (hf : ∀ a q, x p = (.ok a, q) → (f (a, q) s).1 ≠ .error (.undefined .nullDereference)) :
    ((onPacket x p >>= f) s).1 ≠ .error (.undefined .nullDereference) := by
  rcases hrun : x p with ⟨e | a, q⟩
  · have hfail : onPacket x p s = (.error e, s) := by
      rw [onPacket, hrun]
    rw [hrun] at hx
    rw [Fallible.bind_error hfail]
    exact fun h => hx (congrArg Except.error (Except.error.inj h))
  · rw [bind_onPacket hrun]
    exact hf a q hrun

/-- A program that goes on with what a packet operation gave. -/
theorem nullFree_onPacket {x : PacketM α} {p : Packet} {f : α × Packet → ProcessM β}
    (hx : (x p).1 ≠ .error (.undefined .nullDereference))
    (hf : ∀ a q, x p = (.ok a, q) → NullFree (f (a, q))) : NullFree (onPacket x p >>= f) :=
  fun s => onPacket_ne_null hx fun a q hrun => hf a q hrun s

/-- The bytes of a packet are copied from a vector, not through a pointer. -/
theorem nullFree_wireBytes (p : Packet) : NullFree (wireBytes p) := by
  intro s
  rw [wireBytes, wire]
  split
  · exact fun h => by cases h
  · next e he =>
    split at he
    · cases he
    · cases he
      exact fun h => by cases h

/-- Writing the timestamp comes before everything else that is done. -/
theorem nullFree_stamp {p : Packet} {f : Packet → ProcessM β}
    (hf : ∀ t, NullFree (f (stamped t p))) : NullFree (stamp p >>= f) := by
  intro s
  rw [bind_stamp]
  exact hf s.now s

end

/-- Local ids run out with an exception. -/
theorem nullFree_nextLocalID : NullFree nextLocalID := by
  refine Fallible.Avoids.get fun s => Fallible.Avoids.ite (fun _ => ?_) fun _ => ?_
  · exact Fallible.Avoids.fail fun h => by cases h
  · exact (Fallible.Avoids.modify _).bind fun _ => Fallible.Avoids.pure _

/-- `createEntity` stores the entity that the factory made before it uses it. -/
theorem nullFree_createEntity (info : EntityInfo) (spawnInfo : Packet) :
    NullFree (createEntity info spawnInfo) := by
  refine Fallible.Avoids.get fun s => Fallible.Avoids.ite (fun _ => Fallible.Avoids.pure _)
    fun _ => ?_
  split
  · exact Fallible.Avoids.pure _
  · next cls _ =>
    have hstore : ∀ ent : Entity, NullFree (do
        modifyScene fun g => g.setEntity ent.info.ID ent
        record (.onSpawn ent.info spawnInfo)
        return some ent : ProcessM (Option Entity)) := fun ent =>
      (Fallible.Avoids.modify _).bind fun _ => (Fallible.Avoids.modify _).bind fun _ =>
        Fallible.Avoids.pure _
    refine Fallible.Avoids.ite (fun _ => ?_) fun _ => ?_
    · exact nullFree_nextLocalID.bind fun ID => hstore ⟨{ info with ID := ID }, false, _⟩
    · exact hstore ⟨{ info with ID := info.ID }, false, _⟩

theorem nullFree_readCall (r : Registry) : NullFree (readCall r) :=
  (faults_readCall r).avoids Fault.not_ofReading_nullDereference

/-- A call that cannot be read ends in the exception that it is caught by, or in no call. -/
theorem nullFree_receiveRPC (p : Packet) (target : EntityInfo) :
    NullFree (receiveRPC p target) := by
  refine Fallible.Avoids.get fun s => Fallible.Avoids.ite (fun _ => Fallible.Avoids.pure ())
    fun _ => ?_
  have hread := nullFree_readCall s.scene.registry p
  split
  · exact Fallible.Avoids.modify _
  · exact Fallible.Avoids.pure ()
  · next u hu =>
    rw [hu] at hread
    exact Fallible.Avoids.fail fun h => hread (congrArg Except.error h)
  · exact Fallible.Avoids.pure ()

/-- An entity that is not in the map by now has just been created. -/
theorem nullFree_deserializeOnConnection (origin : ClientID) (ent : Entity) :
    NullFree (deserializeOnConnection origin ent) := by
  refine Fallible.Avoids.get fun s => ?_
  split
  · exact Fallible.Avoids.modify _
  · exact Fallible.Avoids.modify _

/-- The handler creates an entity and relies on it. -/
theorem restore_ne_null {origin : ClientID} {info : EntityInfo} {s : Process}
    (hcreatable : Creatable s.scene.registry info) (spawnInfo : Packet) :
    ((createEntity info spawnInfo >>= fun ent =>
      match ent with
      | none => Fallible.fail (.undefined .nullDereference)
      | some ent => deserializeOnConnection origin ent) s).1 ≠
        .error (.undefined .nullDereference) := by
  refine Fallible.error_bind_ne (nullFree_createEntity info spawnInfo s) fun ent t hrun => ?_
  rcases createEntity_ok hrun with ⟨_, _, hnot⟩ | ⟨ent, rfl, _⟩
  · exact absurd hcreatable hnot
  · exact nullFree_deserializeOnConnection origin ent t

/-- What the packet restores can be created. -/
def Restorable (r : Registry) (p : Packet) : Prop :=
  ∀ info, messageOf p = .ok (.restore info) → Creatable r info

theorem clientHandler_ne_null {origin : ClientID} {p : Packet} {s : Process}
    (hp : Restorable s.scene.registry p) :
    (clientHandler origin p s).1 ≠ .error (.undefined .nullDereference) := by
  cases htype : p.header.type with
  | entityCreation =>
      simp only [clientHandler, htype]
      refine nullFree_onPacket (catchable_getEntityInfo.nullFree _) (fun info q _ => ?_) s
      refine nullFree_onPacket (nullFree_getPacket _) fun spawnInfo q' _ => Fallible.Avoids.get
        fun s => ?_
      exact (Fallible.Avoids.modify _).bind fun _ => (nullFree_createEntity _ _).bind fun _ =>
        Fallible.Avoids.pure ()
  | entityCreationOnConnection =>
      simp only [clientHandler, htype]
      refine onPacket_ne_null (catchable_getEntityInfo.nullFree _) fun info q hread => ?_
      have hm : messageOf p = .ok (.restore info) :=
        (messageOf_info_iff .restore (by rw [htype]; rfl)).mpr ⟨info, q, hread, rfl⟩
      dsimp only
      rw [Fallible.bind_get, record, Fallible.bind_modify]
      refine restore_ne_null ?_ _
      exact hp info hm
  | entityUpdate =>
      simp only [clientHandler, htype]
      refine nullFree_onPacket (catchable_getEntityInfo.nullFree _) (fun info q _ => ?_) s
      refine Fallible.Avoids.get fun s => ?_
      split
      · exact Fallible.Avoids.pure ()
      · exact Fallible.Avoids.ite (fun _ => Fallible.Avoids.modify _) fun _ =>
          Fallible.Avoids.pure ()
  | entityRpc =>
      simp only [clientHandler, htype]
      refine nullFree_onPacket (catchable_getEntityInfo.nullFree _) (fun info q _ => ?_) s
      refine Fallible.Avoids.get fun s => ?_
      split
      · exact Fallible.Avoids.pure ()
      · exact Fallible.Avoids.ite (fun _ => nullFree_receiveRPC _ _) fun _ =>
          Fallible.Avoids.pure ()
  | entityDeletion =>
      simp only [clientHandler, htype]
      refine nullFree_onPacket ((catchable_getScalar 4).nullFree _) (fun id q _ => ?_) s
      refine Fallible.Avoids.get fun s => ?_
      exact Fallible.Avoids.ite (fun _ => Fallible.Avoids.modify _) fun _ => Fallible.Avoids.pure ()
  | _ =>
      simp only [clientHandler, htype]
      exact fun h => by cases h

/-! ## Sending -/

/-- The packet restores nothing, whoever gets it. -/
def RestoresNothing (p : Packet) : Prop :=
    ∀ info, messageOf p.resetReadPosition ≠ .ok (.restore info)

/-- A packet that is something else than a restoration asks for none. -/
theorem restoresNothing_of_message {p : Packet} {m : Message} (h : Says p m)
    (hm : ∀ info, m ≠ .restore info) : RestoresNothing p :=
  (births_of_message (o := fun _ => True) h hm fun _ _ _ => trivial).no_snapshot

/-- Only ENTITY_CREATION_ON_CONNECTION restores an entity. -/
theorem restoresNothing_of_type {p : Packet} (h : p.header.type ≠ .entityCreationOnConnection) :
    RestoresNothing p :=
  fun _ hm => h (type_of_restore (p := p.resetReadPosition) hm)

section

variable {p : Packet}

/-- The handler of a client creates an entity without using it afterwards. -/
theorem RestoresNothing.clientHandler (hp : RestoresNothing p) (origin : ClientID)
    (i : PacketInfo) :
    NullFree (clientHandler origin { p.resetReadPosition with info := i }) := by
  intro s
  refine clientHandler_ne_null fun info hm => absurd ?_ (hp info)
  rw [← messageOf_info p.resetReadPosition i]
  exact hm

/-- The timestamp is no part of what is asked for. -/
theorem RestoresNothing.stamped (hp : RestoresNothing p) (t : UInt32) :
    RestoresNothing (stamped t p) := by
  intro info hm
  rw [messageOf_stamped] at hm
  exact hp info hm

theorem nullFree_postIf (predicate : ClientID → Bool) (origin : ClientID) (p : Packet) :
    NullFree (postIf predicate origin p) :=
  Fallible.Avoids.get fun _ => Fallible.Avoids.ite (fun _ => Fallible.Avoids.pure ()) fun _ =>
    (nullFree_wireBytes p).bind fun _ => Fallible.Avoids.modify _

/-- The server's own client handles the packet at once. -/
theorem nullFree_loopback (origin : ClientID) (hp : RestoresNothing p) :
    NullFree (loopback origin p) :=
  Fallible.Avoids.get fun _ => hp.clientHandler origin _

theorem nullFree_sendPacketToAllClients (origin : ClientID) (hp : RestoresNothing p) :
    NullFree (sendPacketToAllClients origin p) :=
  Fallible.Avoids.get fun _ => nullFree_stamp fun t => (Fallible.Avoids.modify _).bind fun _ =>
    (nullFree_postIf _ _ _).bind fun _ =>
      Fallible.Avoids.ite (fun _ => nullFree_loopback origin (hp.stamped t)) fun _ =>
        Fallible.Avoids.pure ()

theorem nullFree_sendPacketToAllExceptOneClient (origin excluded : ClientID)
    (hp : RestoresNothing p) : NullFree (sendPacketToAllExceptOneClient origin excluded p) :=
  Fallible.Avoids.get fun _ => nullFree_stamp fun t => (nullFree_postIf _ _ _).bind fun _ =>
    Fallible.Avoids.ite (fun _ => nullFree_loopback origin (hp.stamped t)) fun _ =>
      Fallible.Avoids.pure ()

theorem nullFree_sendPacketToOneClient (origin client : ClientID) (hp : RestoresNothing p) :
    NullFree (sendPacketToOneClient origin client p) :=
  Fallible.Avoids.get fun _ => nullFree_stamp fun t =>
    Fallible.Avoids.ite (fun _ => (hp.stamped t).clientHandler origin _) fun _ =>
      (nullFree_wireBytes _).bind fun _ => Fallible.Avoids.modify _

theorem nullFree_sendToServer (p : Packet) : NullFree (sendToServer p) :=
  Fallible.Avoids.get fun _ => nullFree_stamp fun _ => (nullFree_wireBytes _).bind fun _ =>
    (Fallible.Avoids.modify _).bind fun _ => Fallible.Avoids.pure _

/-! ## The handler of a server -/

theorem nullFree_nextID : NullFree nextID := by
  refine Fallible.Avoids.get fun s => Fallible.Avoids.ite (fun _ => ?_) fun _ => ?_
  · exact Fallible.Avoids.fail fun h => by cases h
  · exact (Fallible.Avoids.modify _).bind fun _ => Fallible.Avoids.pure _

/-- Announcing a creation writes two values and broadcasts. -/
theorem nullFree_sendCreation (info : EntityInfo) {spawnInfo : Packet} (hsound : spawnInfo.Sound) :
    NullFree (sendCreation info spawnInfo) := by
  refine Fallible.Avoids.get fun s => ?_
  dsimp only
  refine Fallible.Avoids.ite (fun _ => ?_) fun _ => Fallible.Avoids.pure ()
  refine nullFree_onPacket ((catchable_putEntityInfo _).nullFree _) fun _ q hinfo => ?_
  refine nullFree_onPacket ((catchable_putPacket _).nullFree _) fun _ w hspawn => ?_
  refine Fallible.Avoids.ite (fun _ => ?_) fun _ => (Fallible.Avoids.modify _).bind fun _ => ?_
  · exact (nullFree_sendToServer _).bind fun _ => Fallible.Avoids.pure ()
  · exact nullFree_sendPacketToAllClients _
      (restoresNothing_of_message (says_creation hsound hinfo hspawn) (by simp))

/-- By induction on the room for nested calls. -/
theorem nullFree_createNetworkedEntity (stack : Nat) (info : EntityInfo) {spawnInfo : Packet}
    (hsound : spawnInfo.Sound) : NullFree (createNetworkedEntity stack info spawnInfo) := by
  induction stack generalizing info spawnInfo with
  | zero => exact Fallible.Avoids.fail Fault.noConfusion
  | succ stack ih =>
      have hfamily : ∀ info : EntityInfo,
          NullFree (createFamily (createNetworkedEntity stack) info spawnInfo) := by
        intro info
        refine Fallible.Avoids.get fun s => Fallible.Avoids.bind ?_ fun _ =>
          nullFree_sendCreation _ hsound
        exact Fallible.Avoids.forEach fun child _ => ih _ child.sound
      rw [createNetworkedEntity]
      refine Fallible.Avoids.get fun s => Fallible.Avoids.ite (fun _ => Fallible.Avoids.pure ())
        fun _ => ?_
      exact Fallible.Avoids.ite
        (fun _ => nullFree_nextID.bind fun id => hfamily { info with ID := id }) fun _ =>
        hfamily info

/-- Calls are routed by the owner id in the packet, not through the entity. -/
theorem nullFree_routeRPC (htype : p.header.type = .entityRpc) : NullFree (routeRPC p) := by
  refine nullFree_onPacket (catchable_getEntityInfo.nullFree _) fun info q hinfo => ?_
  refine nullFree_onPacket (catchable_getString.nullFree _) fun name q' hname => ?_
  have htype' : q'.header.type = .entityRpc := by
    rw [reads_getString.header_eq hname, reads_getEntityInfo.header_eq hinfo, htype]
  have hq : RestoresNothing q' :=
    restoresNothing_of_type (by rw [htype']; exact PacketType.noConfusion)
  have hothers := nullFree_sendPacketToAllExceptOneClient q'.info.senderID q'.info.senderID hq
  refine Fallible.Avoids.get fun s => ?_
  split
  · exact Fallible.Avoids.fail Fault.noConfusion
  split
  · exact Fallible.Avoids.pure ()
  refine Fallible.Avoids.ite (fun _ => ?_) fun _ => Fallible.Avoids.pure ()
  split
  · exact Fallible.Avoids.pure ()
  · exact Fallible.Avoids.ite (fun _ => Fallible.Avoids.pure ()) fun _ =>
      nullFree_sendPacketToOneClient _ _ hq
  · exact Fallible.Avoids.ite (fun _ => hothers) fun _ => Fallible.Avoids.pure ()
  · exact Fallible.Avoids.ite (fun _ => hothers) fun _ => Fallible.Avoids.pure ()
  · exact hothers
  · exact hothers

/-- What is sent to other processes does not come back. -/
theorem sendPacketToOneClient_ne_null {origin client : ClientID} {s : Process}
    (hremote : ¬ (s.role = .host ∧ client = 1)) :
    (sendPacketToOneClient origin client p s).1 ≠ .error (.undefined .nullDereference) := by
  rw [sendPacketToOneClient, Fallible.bind_get, bind_stamp, if_neg hremote]
  have hsend : NullFree (do
      let data ← wireBytes (stamped s.now p)
      post [client] { origin := origin, data := data } : ProcessM Unit) :=
    (nullFree_wireBytes _).bind fun _ => Fallible.Avoids.modify _
  exact hsend s

/-- One turn of the loop over the entities. -/
theorem snapshot_ne_null {script : List WriteOp} {info : EntityInfo} {origin client : ClientID}
    {s : Process} (hrep : WriteOp.AllRepresentable script)
    (hcreatable : Creatable s.scene.registry info) (hID : info.ID ≠ 0) :
    ((onPacket (putEntityInfo info) (ofHeader { type := .entityCreationOnConnection }) >>=
      fun r => onPacket (WriteOp.performAll script) r.2 >>= fun q =>
        record (.snapshot client info) >>= fun _ => sendPacketToOneClient origin client q.2) s).1 ≠
      .error (.undefined .nullDereference) := by
  by_cases hlocal : s.role = .host ∧ client = 1
  · exact ((snapshot_returns hrep hcreatable hID).mpr fun h => absurd hlocal h).ne_error
  · obtain ⟨w, hinfo, hw, _, _⟩ := mirrors_entityInfo info _
      (wellWritten_ofHeader { type := .entityCreationOnConnection })
    obtain ⟨w', hscript, _, _, _⟩ := WriteOp.mirrorsAll script hrep w hw
    rw [bind_onPacket hinfo, bind_onPacket hscript, record, Fallible.bind_modify]
    exact sendPacketToOneClient_ne_null hlocal

/-- The snapshot for a new client goes through the map's own entities. -/
theorem sendAllNetworkedEntitiesToClient_ne_null {hook : EntityID → List WriteOp}
    (hrep : ∀ id : EntityID, WriteOp.AllRepresentable (hook id)) (client : ClientID) {s : Process}
    (hs : Kept s.scene) :
    (sendAllNetworkedEntitiesToClient hook client s).1 ≠ .error (.undefined .nullDereference) := by
  rw [sendAllNetworkedEntitiesToClient, Fallible.bind_get]
  split
  · refine Fallible.forEach_ne_error (Q := fun t : Process => t.scene.registry = s.scene.registry)
      ?_ ?_ rfl
    · intro entry hentry t ht
      have hent := Std.TreeMap.mem_toList_iff_getElem?_eq_some.mp (List.mem_reverse.mp hentry)
      obtain ⟨hid, hne, hcreatable⟩ := hs.stored entry.1 entry.2 hent
      exact snapshot_ne_null (hrep entry.1) (ht.symm ▸ hcreatable) (hid.symm ▸ hne)
    · intro entry _ t t' ht hrun
      obtain ⟨_, _, _, hrun⟩ := bind_onPacket_ok hrun
      obtain ⟨_, q, _, hrun⟩ := bind_onPacket_ok hrun
      dsimp only at hrun
      rw [record, Fallible.bind_modify] at hrun
      exact (sendPacketToOneClient_frame hrun).2.trans ht
  · intro h
    cases h

/-- The handler of a server meets no null pointer in a kept table. -/
theorem serverHandler_ne_null (stack : Nat) (hooks : Hooks) (p : Packet) {s : Process}
    (hs : Kept s.scene) :
    (serverHandler stack hooks.script p s).1 ≠ .error (.undefined .nullDereference) := by
  cases htype : p.header.type with
  | entityCreation =>
      simp only [serverHandler, htype]
      refine nullFree_onPacket (catchable_getEntityInfo.nullFree _) (fun info q _ => ?_) s
      refine nullFree_onPacket (nullFree_getPacket _) fun spawnInfo q' hspawn => ?_
      exact nullFree_createNetworkedEntity _ _ (getPacket_sound hspawn)
  | connected =>
      simp only [serverHandler, htype]
      exact sendAllNetworkedEntitiesToClient_ne_null hooks.representable _ hs
  | entityUpdate =>
      have hp : RestoresNothing p :=
        restoresNothing_of_type (by rw [htype]; exact PacketType.noConfusion)
      simp only [serverHandler, htype]
      exact nullFree_sendPacketToAllExceptOneClient _ _ hp s
  | entityRpc =>
      simp only [serverHandler, htype]
      exact nullFree_routeRPC htype s
  | entityDeletion =>
      simp only [serverHandler, htype]
      refine nullFree_onPacket ((catchable_getScalar 4).nullFree _) (fun id q hid => ?_) s
      have htype' : q.header.type = .entityDeletion := by
        rw [(reads_getScalar 4).header_eq hid, htype]
      have hq : RestoresNothing q :=
        restoresNothing_of_type (by rw [htype']; exact PacketType.noConfusion)
      refine Fallible.Avoids.get fun s => ?_
      split
      · exact Fallible.Avoids.pure ()
      · exact Fallible.Avoids.ite (fun _ => nullFree_sendPacketToAllClients _ hq) fun _ =>
          Fallible.Avoids.pure ()
  | _ =>
      simp only [serverHandler, htype]
      exact fun h => by cases h

end

/-! ## Deleting and updating -/

/-- `deleteEntity` comes back exactly for an id of the table. -/
theorem deleteEntity_returns_iff {id : EntityID} {s : Process} :
    Returns (deleteEntity id) s ↔ s.scene.entityExists id := by
  rw [Scenegraph.entityExists, Std.TreeMap.contains_eq_isSome_getElem?]
  cases hent : s.scene.entities[id]? with
  | none =>
      refine iff_of_false (fun h => ?_) Bool.false_ne_true
      rw [deleteEntity, Fallible.returns_bind_get, hent] at h
      exact Fallible.not_returns_fail _ _ h
  | some ent =>
      obtain ⟨s', hrun, _⟩ := deleteEntity_ends hent
      exact iff_of_true ⟨(), s', hrun⟩ rfl

/-- An id that is not in use is the one thing that is not checked. -/
theorem deleteEntity_unknown {id : EntityID} {s : Process} (h : ¬ s.scene.entityExists id) :
    deleteEntity id s = (.error (.undefined .nullDereference), s) := by
  rw [Scenegraph.entityExists, Std.TreeMap.contains_eq_isSome_getElem?,
    Option.not_isSome_iff_eq_none] at h
  rw [deleteEntity, Fallible.bind_get, h]
  rfl

/-- `deleteEntity` marks; it holds on to every entry. -/
theorem held_deleteEntity {id : EntityID} {s s' : Process} (h : deleteEntity id s = (.ok (), s'))
    (other : EntityID) : s'.scene.held other = s.scene.held other := by
  have hexists := deleteEntity_returns_iff.mp ⟨(), s', h⟩
  rw [Scenegraph.entityExists, Std.TreeMap.contains_eq_isSome_getElem?] at hexists
  obtain ⟨ent, hent⟩ := Option.isSome_iff_exists.mp hexists
  obtain ⟨t, hrun, hdeleted⟩ := deleteEntity_ends hent
  obtain rfl : s' = t := congrArg Prod.snd (h.symm.trans hrun)
  rw [hdeleted.scene_eq]
  split
  · exact Scenegraph.held_flag _ _ _
  · rfl

/-- **Updates go through.**  What the loop deletes is there: it is about to be updated. -/
theorem update_returns {s : Process} (hs : Kept s.scene) : Returns update s := by
  have hloop : Returns (Fallible.forEach s.scene.entities.toList fun entry => do
      let s ← Fallible.get
      if entry.2.info.parentID = 0 ∨ s.scene.entityExists entry.2.info.parentID then return ()
      else deleteEntity entry.2.info.ID : ProcessM Unit) s := by
    refine (Fallible.returns_forEach
      (Q := fun t : Process => ∀ id : EntityID, t.scene.held id = s.scene.held id)
      (P := fun _ => True) ?_ ?_ fun _ => rfl).mpr fun _ _ => trivial
    · intro entry hentry t ht
      have hent := Std.TreeMap.mem_toList_iff_getElem?_eq_some.mp hentry
      refine iff_of_true ?_ trivial
      rw [Fallible.returns_bind_get]
      split
      · exact Fallible.returns_pure _ _
      · rw [deleteEntity_returns_iff, entityExists_iff, (hs.stored entry.1 entry.2 hent).1, ht,
          Scenegraph.held, hent]
        rfl
    · intro entry _ t t' ht hrun id
      rw [Fallible.bind_get] at hrun
      split at hrun
      · cases hrun
        exact ht id
      · exact (held_deleteEntity hrun id).trans (ht id)
  obtain ⟨_, t, hrun⟩ := hloop
  rw [update, Fallible.returns_bind_get, Fallible.returns_bind_ok hrun]
  exact Fallible.returns_modify _ _

end Process

/-! ## What is asked of the table -/

namespace Scenegraph

variable (g : Scenegraph)

/-- The entities whose hooks `input` and `draw` call, in this order. -/
def hooked : List Entity := g.entities.toList.map Prod.snd

/-- The loop of the find functions. -/
def findEntities (p : Entity → Bool) : List Entity := g.hooked.filter p

def findEntitiesByType (type : StdString) : List Entity :=
  g.findEntities fun ent => ent.info.type = type

def findEntitiesByName (name : StdString) : List Entity :=
  g.findEntities fun ent => ent.info.name = name

def findEntitiesByOwner (owner : ClientID) : List Entity :=
  g.findEntities fun ent => ent.info.ownerID = owner

def findEntitiesByParent (parent : EntityID) : List Entity :=
  g.findEntities fun ent => ent.info.parentID = parent

def findEntitiesByPredicate (predicate : Entity → Bool) : List Entity := g.findEntities predicate

/-- The loop of the functions that find one; `none` is the null pointer. -/
def findEntity (p : Entity → Bool) : Option Entity := g.hooked.find? p

def findEntityByType (type : StdString) : Option Entity :=
  g.findEntity fun ent => ent.info.type = type

def findEntityByName (name : StdString) : Option Entity :=
  g.findEntity fun ent => ent.info.name = name

def findEntityByPredicate (predicate : Entity → Bool) : Option Entity := g.findEntity predicate

end Scenegraph

namespace Process

/-- Every entry is an entity with the id it is stored under, a name and a type; `update` gets
through, and so does the deletion of what is there; and what `input`, `draw` and the find functions
come across is what is stored. -/
structure TableSound (s : Process) : Prop where
  stored : ∀ (id : EntityID) (ent : Entity), s.scene.entities[id]? = some ent →
    ent.info.ID = id ∧ ent.info.Named
  updates : Returns update s
  deletes : ∀ id : EntityID, s.scene.entityExists id → Returns (deleteEntity id) s
  hooked : ∀ ent : Entity, ent ∈ s.scene.hooked ↔ s.scene.entities[ent.info.ID]? = some ent
  found : ∀ (p : Entity → Bool) (ent : Entity), ent ∈ s.scene.findEntities p ↔
    s.scene.entities[ent.info.ID]? = some ent ∧ p ent
  first : ∀ (p : Entity → Bool) (ent : Entity), s.scene.findEntity p = some ent →
    s.scene.entities[ent.info.ID]? = some ent ∧ p ent

/-- The loops come across what is stored. -/
theorem mem_hooked {s : Process} (hs : Kept s.scene) {ent : Entity} :
    ent ∈ s.scene.hooked ↔ s.scene.entities[ent.info.ID]? = some ent := by
  rw [Scenegraph.hooked, List.mem_map]
  constructor
  · intro h
    obtain ⟨entry, hentry, rfl⟩ := h
    have hent := Std.TreeMap.mem_toList_iff_getElem?_eq_some.mp hentry
    rw [(hs.stored entry.1 entry.2 hent).1]
    exact hent
  · intro hent
    exact ⟨(ent.info.ID, ent), Std.TreeMap.mem_toList_iff_getElem?_eq_some.mpr hent, rfl⟩

/-- Kept entries are entries with an entity. -/
theorem tableSound_of_kept {s : Process} (hs : Kept s.scene) : TableSound s where
  stored id ent hent := by
    obtain ⟨hid, _, hcreatable⟩ := hs.stored id ent hent
    exact ⟨hid, hcreatable.1⟩
  updates := update_returns hs
  deletes _ hexists := deleteEntity_returns_iff.mpr hexists
  hooked _ := mem_hooked hs
  found p ent := by
    rw [Scenegraph.findEntities, List.mem_filter, mem_hooked hs]
  first _ _ hfirst :=
    ⟨(mem_hooked hs).mp (List.mem_of_find?_eq_some hfirst), List.find?_some hfirst⟩

end Process

/-! ## Runs -/

/-- `registerEntity`. -/
def Registry.registerEntity (r : Registry) (type : StdString) (cls : EntityClass) : Registry :=
  { r with builders := fun other => if other = type then some cls else r.builders other }

/-- It does to the tables that a scenegraph works with what it does to its maps. -/
theorem Tables.registry_registerEntity (t : Tables) (type : StdString) (cls : EntityClass)
    (rpcs : StdString → StdString → Option EntityRPC) :
    (t.registerEntity type cls).registry rpcs = (t.registry rpcs).registerEntity type cls := rfl

/-- What could be created can be created still. -/
theorem Process.Creatable.registerEntity {r : Registry} {info : EntityInfo} (h : Creatable r info)
    (type : StdString) (cls : EntityClass) : Creatable (r.registerEntity type cls) info := by
  refine ⟨h.1, ?_⟩
  change (if info.type = type then some cls else r.builders info.type).isSome = true
  split
  · rfl
  · exact h.2

namespace Process

/-- What happens to a process and its entities. -/
inductive TableEvent
  | registerEntity (type : StdString) (cls : EntityClass)
  | createEntity (info : EntityInfo) (spawnInfo : Packet)
  | deleteEntity (id : EntityID)
  | update
  | enableNetworking
  | connect (c : ClientID) (hc : c ≠ 1)
  | disconnect (c : ClientID)
  | elapse (now : UInt32)
  /-- A packet comes to the server. -/
  | serve (stack : Nat) (hooks : Hooks) (p : Packet)
  /-- A packet comes to the client. -/
  | handle (origin : ClientID) (p : Packet)

namespace TableEvent

def run : TableEvent → ProcessM Unit
  | registerEntity type cls =>
      modifyScene fun g => { g with registry := g.registry.registerEntity type cls }
  | createEntity info spawnInfo => do
      let _ ← Process.createEntity info spawnInfo
  | deleteEntity id => Process.deleteEntity id
  | update => Process.update
  | enableNetworking => modifyScene fun g => { g with networkReady := true }
  | connect c _ => Fallible.modify fun s => { s with connected := s.connected ++ [c] }
  | disconnect c => Fallible.modify fun s => { s with connected := s.connected.erase c }
  | elapse now => Fallible.modify fun s => { s with now := now }
  | serve stack hooks p => serverHandler stack hooks.script p
  | handle origin p => clientHandler origin p

/-- There is no next state after a fault. -/
def step (s : Process) (e : TableEvent) : Option Process :=
  match e.run s with
  | (.ok _, s') => some s'
  | (.error _, _) => none

/-- A packet that comes to a client restores what can be created, if it restores anything. -/
def WellFormed (s : Process) : TableEvent → Prop
  | handle _ p => Restorable s.scene.registry p
  | _ => True

/-- What is expected of a step: it does not dereference a null pointer, and the deletion of what is
not there leaves the table as it is. -/
structure Behaves (s : Process) (e : TableEvent) : Prop where
  live : (e.run s).1 ≠ .error (.undefined .nullDereference)
  unknown : ∀ id, e = deleteEntity id → ¬ s.scene.entityExists id →
    ∃ s', e.run s = (.ok (), s') ∧ s'.scene.entities = s.scene.entities

/-- What is deleted is there. -/
def Known (s : Process) : TableEvent → Prop
  | deleteEntity id => s.scene.entityExists id
  | _ => True

instance (s : Process) : (e : TableEvent) → Decidable (Known s e)
  | deleteEntity _ => inferInstanceAs (Decidable (_ = true))
  | registerEntity _ _ | createEntity _ _ | update | enableNetworking | connect _ _ | disconnect _
  | elapse _ | serve _ _ _ | handle _ _ => .isTrue trivial

theorem step_eq_some {s s' : Process} {e : TableEvent} (h : step s e = some s') :
    e.run s = (.ok (), s') := by
  rw [step] at h
  split at h
  · next heq =>
    cases h
    exact heq
  · cases h

/-- **What a step preserves.** -/
theorem preserving_run (e : TableEvent) : Preserving e.run := by
  cases e with
  | registerEntity type cls =>
      refine preserving_modify (fun s hs => ⟨hs.localID_neg, hs.ID_pos, ?_⟩) fun _ => rfl
      intro id ent hent
      obtain ⟨hid, hne, hcreatable⟩ := hs.stored id ent hent
      exact ⟨hid, hne, hcreatable.registerEntity type cls⟩
  | createEntity info spawnInfo =>
      exact Fallible.Moves.bind (preserving_createEntity _ _) fun _ => Fallible.Moves.pure ()
  | deleteEntity id => exact preserving_deleteEntity id
  | update => exact preserving_update
  | enableNetworking =>
      exact preserving_modify (fun s hs => ⟨hs.localID_neg, hs.ID_pos, hs.stored⟩) fun _ => rfl
  | connect c hc =>
      refine Preserving.of ?_
      intro s _ s' hs hrun
      cases hrun
      exact (Occurs.connect c hc).sane hs
  | disconnect c =>
      refine Preserving.of ?_
      intro s _ s' hs hrun
      cases hrun
      exact (Occurs.disconnect c).sane hs
  | elapse now => exact preserving_modify (fun _ h => h) fun _ => rfl
  | serve stack hooks p => exact preserving_serverHandler stack hooks.script p
  | handle origin p => exact preserving_clientHandler origin p

/-- Every event keeps the table sane. -/
theorem step_sane {s s' : Process} {e : TableEvent} (hs : Sane s) (h : step s e = some s') :
    Sane s' :=
  (preserving_run e).sane hs (step_eq_some h)

/-- **What a step is expected to do, it does**, unless it deletes what is not there. -/
theorem behaves_iff {s : Process} {e : TableEvent} (hs : Sane s) (he : WellFormed s e) :
    Behaves s e ↔ Known s e := by
  have hother : (e.run s).1 ≠ .error (.undefined .nullDereference) →
      (∀ id, e ≠ deleteEntity id) → Behaves s e := fun hlive hne =>
    ⟨hlive, fun id heq => absurd heq (hne id)⟩
  cases e with
  | deleteEntity id =>
      constructor
      · intro hbehaves
        by_contra hunknown
        refine hbehaves.live ?_
        rw [run, deleteEntity_unknown hunknown]
      · intro hexists
        have hreturns : Returns (Process.deleteEntity id) s := deleteEntity_returns_iff.mpr hexists
        refine ⟨hreturns.ne_error, ?_⟩
        intro other heq hunknown
        cases heq
        exact absurd hexists hunknown
  | registerEntity type cls =>
      exact iff_of_true (hother (Fallible.returns_modify _ _).ne_error (by simp)) trivial
  | createEntity info spawnInfo =>
      refine iff_of_true (hother ?_ (by simp)) trivial
      have hcreate : NullFree (do let _ ← Process.createEntity info spawnInfo : ProcessM Unit) :=
        (nullFree_createEntity info spawnInfo).bind fun _ => Fallible.Avoids.pure ()
      exact hcreate s
  | update => exact iff_of_true (hother (update_returns hs.kept).ne_error (by simp)) trivial
  | enableNetworking =>
      exact iff_of_true (hother (Fallible.returns_modify _ _).ne_error (by simp)) trivial
  | connect c hc =>
      exact iff_of_true (hother (Fallible.returns_modify _ _).ne_error (by simp)) trivial
  | disconnect c =>
      exact iff_of_true (hother (Fallible.returns_modify _ _).ne_error (by simp)) trivial
  | elapse now =>
      exact iff_of_true (hother (Fallible.returns_modify _ _).ne_error (by simp)) trivial
  | serve stack hooks p =>
      exact iff_of_true (hother (serverHandler_ne_null stack hooks p hs.kept) (by simp)) trivial
  | handle origin p => exact iff_of_true (hother (clientHandler_ne_null he) (by simp)) trivial

end TableEvent

/-- A process with a scenegraph that has just been constructed. -/
def constructed (role : Role) (id : ClientID) (registry : Registry) : Process :=
  { role := role, id := id, scene := { registry := registry, networkReady := false } }

/-- A new process has an empty table. -/
theorem sane_constructed (role : Role) (id : ClientID) (registry : Registry) :
    Sane (constructed role id registry) := by
  obtain ⟨hkept, hnot⟩ := sane_started role id registry
  exact ⟨⟨hkept.localID_neg, hkept.ID_pos, hkept.stored⟩, hnot⟩

section
open TableEvent

/-- **The table of entities is sound**, whatever happens, and all goes as it should if and only if
nothing is deleted that is not there. -/
theorem tables_sound_iff (role : Role) (id : ClientID) (registry : Registry) {es : List TableEvent}
    (hwell : Runs.Meets step WellFormed (constructed role id registry) es) :
    (Runs.Always step TableSound (constructed role id registry) es ∧
      Runs.Meets step Behaves (constructed role id registry) es) ↔
      Runs.Meets step Known (constructed role id registry) es := by
  have hsound : Runs.Always step TableSound (constructed role id registry) es :=
    Runs.always_of_invariant (fun _ _ _ hs hstep => step_sane hs hstep)
      (fun _ hs => tableSound_of_kept hs.kept) (sane_constructed role id registry) es
  rw [and_iff_right hsound]
  exact Runs.meets_congr_of_meets (fun _ _ _ hs hstep => step_sane hs hstep)
    (fun _ _ hs he => behaves_iff hs he) (sane_constructed role id registry) hwell

/-- A type is registered and two entities are created, one of them with an id that is given; a
packet deletes an entity that is not there, and game code one that is. -/
def tended : List TableEvent :=
  [.enableNetworking, .registerEntity (Sample.letter 65) {}, .createEntity (Sample.info 0 1)
    (ofHeader {}),
    .createEntity (Sample.info 5 2) (ofHeader {}), .handle 1 (received idleDeletion),
    .deleteEntity (-1), .update, .deleteEntity 5, .update]

theorem tables_sound_iff_tended :
    Runs.Always step TableSound (constructed .host 1 {}) tended ∧
      Runs.Meets step Behaves (constructed .host 1 {}) tended := by
  have hidle : messageOf (received idleDeletion) = .ok (.deletion 7) := by decide +kernel
  have hrestorable : ∀ r, Restorable r (received idleDeletion) := by
    intro r info hm
    rw [hidle] at hm
    cases hm
  have hwell : Runs.Meets step WellFormed (constructed .host 1 {}) tended :=
    ⟨trivial, fun _ _ => ⟨trivial, fun _ _ => ⟨trivial, fun _ _ => ⟨trivial, fun _ _ =>
      ⟨hrestorable _, fun _ _ => ⟨trivial, fun _ _ => ⟨trivial, fun _ _ => ⟨trivial, fun _ _ =>
        ⟨trivial, fun _ _ => trivial⟩⟩⟩⟩⟩⟩⟩⟩⟩
  exact (tables_sound_iff .host 1 {} hwell).mpr (by decide +kernel)

/-- Game code deletes an entity that is not there. -/
theorem not_tables_sound : ¬ ∀ (role : Role) (id : ClientID) (registry : Registry)
    (es : List TableEvent), Runs.Meets step WellFormed (constructed role id registry) es →
      Runs.Always step TableSound (constructed role id registry) es ∧
        Runs.Meets step Behaves (constructed role id registry) es := by
  intro h
  have hbehaves := (h .host 1 {} [.deleteEntity 7] ⟨trivial, fun _ _ => trivial⟩).2.1
  refine hbehaves.live ?_
  rfl

end

end Process

end EnkiNet
