import EnkiNet.Costs

/-!
# The life of a process

A process starts with its tables, and clients connect to it and leave, packets are handled
and game code makes calls, in any order (`Occurs`).  Whatever the packets and the calls
are, entities stay stored under their own ids and the counters keep their signs (`Sane`):
`Preserving x` says that a program does not change this, and no program of the library
does.
-/

namespace EnkiNet

open ByteStore Packet

namespace Process

/-- What holds of a process at all times. -/
structure Sane (s : Process) : Prop where
  kept : Kept s.scene
  /-- The id 1 is that of the host's own client. -/
  not_connected : 1 ∉ s.connected

/-- The program leaves a sane process sane. -/
def Preserving {α : Type} (x : ProcessM α) : Prop :=
  Fallible.Moves Sane (fun _ _ => True) x

section

variable {α β : Type}

/-! ## Rules -/

/-- It is enough to look at the runs that succeed. -/
theorem Preserving.of {x : ProcessM α} (h : ∀ s a s', Sane s → x s = (.ok a, s') → Sane s') :
    Preserving x :=
  Fallible.Moves.single fun s a s' hs hrun => ⟨trivial, h s a s' hs hrun⟩

/-- What the property is for. -/
theorem Preserving.sane {x : ProcessM α} (h : Preserving x) {s s' : Process} {a : α} (hs : Sane s)
    (hrun : x s = (.ok a, s')) : Sane s' :=
  (h s a s' hs hrun).2

/-- Looking at the state changes nothing. -/
theorem preserving_get {f : Process → ProcessM β} (hf : ∀ s, Preserving (f s)) :
    Preserving (Fallible.get >>= f) :=
  Fallible.Moves.get fun s b s' hs hrun => hf s s b s' hs hrun

/-- Neither does work on a packet that is a local variable. -/
theorem preserving_onPacket {x : PacketM α} {p : Packet} {f : α × Packet → ProcessM β}
    (hf : ∀ r, Preserving (f r)) : Preserving (onPacket x p >>= f) := by
  refine Fallible.Moves.bind (Fallible.Moves.of_same ?_) hf
  intro s r s' hrun
  exact (onPacket_ok hrun).2

/-- The time stamp is put into the packet, not into the process. -/
theorem preserving_stamp {p : Packet} {f : Packet → ProcessM β} (hf : ∀ q, Preserving (f q)) :
    Preserving (stamp p >>= f) := by
  refine Fallible.Moves.bind (Fallible.Moves.of_same ?_) hf
  intro s q s' hrun
  cases hrun
  rfl

/-- A change that keeps the scenegraph in order and the connections as they are. -/
theorem preserving_modify {f : Process → Process} (hkept : ∀ s, Kept s.scene → Kept (f s).scene)
    (hconnected : ∀ s, (f s).connected = s.connected) : Preserving (Fallible.modify f) := by
  refine Preserving.of ?_
  intro s a s' hs hrun
  cases hrun
  exact ⟨hkept s hs.kept, hconnected s ▸ hs.not_connected⟩

/-- The record of effects is no part of what is kept. -/
theorem preserving_record (e : Effect) : Preserving (record e) :=
  preserving_modify (fun _ h => h) fun _ => rfl

/-- Nor is what has been posted. -/
theorem preserving_post (dests : List ClientID) (d : Datagram) : Preserving (post dests d) :=
  preserving_modify (fun _ h => h) fun _ => rfl

theorem preserving_wireBytes {p : Packet} {f : List Byte → ProcessM β}
    (hf : ∀ data, Preserving (f data)) : Preserving (wireBytes p >>= f) := by
  intro s b s' hs hrun
  obtain ⟨data, _, hrest⟩ := bind_wireBytes_ok hrun
  exact hf data s b s' hs hrest

/-- Marking an entity for removal keeps it under its id. -/
theorem preserving_flag (id : EntityID) : Preserving (modifyScene fun g => g.flag id) :=
  preserving_modify (fun s => (handled_flag 1 id s).kept) fun _ => rfl

end

/-! ## Handling and sending -/

/-- A new entity is stored under its own id. -/
theorem preserving_createEntity (info : EntityInfo) (spawnInfo : Packet) :
    Preserving (createEntity info spawnInfo) := by
  refine Preserving.of ?_
  intro s r s' hs hrun
  rcases createEntity_ok hrun with ⟨_, rfl, _⟩ | ⟨ent, _, hcreated⟩
  · exact hs
  · exact ⟨hcreated.kept hs.kept, hcreated.frame.connected_eq ▸ hs.not_connected⟩

/-- The client's handler, branch by branch. -/
theorem preserving_clientHandler (origin : ClientID) (p : Packet) :
    Preserving (clientHandler origin p) := by
  refine Preserving.of ?_
  intro s _ s' hs hrun
  obtain ⟨m, _, hhandled⟩ := clientHandler_ok hrun
  exact ⟨hhandled.kept hs.kept, hhandled.frame.connected_eq ▸ hs.not_connected⟩

theorem preserving_receiveRPC (p : Packet) (target : EntityInfo) :
    Preserving (receiveRPC p target) := by
  refine Preserving.of ?_
  intro s _ s' hs hrun
  rcases receiveRPC_ok hrun with rfl | ⟨name, arguments, rfl⟩
  · exact hs
  · exact ⟨hs.kept, hs.not_connected⟩

theorem preserving_postIf (predicate : ClientID → Bool) (origin : ClientID) (p : Packet) :
    Preserving (postIf predicate origin p) :=
  preserving_get fun _ => Fallible.Moves.ite (fun _ => Fallible.Moves.pure ()) fun _ =>
    preserving_wireBytes fun _ => preserving_post _ _

/-- What the server passes to its own client is handled there. -/
theorem preserving_loopback (origin : ClientID) (p : Packet) : Preserving (loopback origin p) :=
  preserving_get fun _ => preserving_clientHandler origin _

theorem preserving_sendPacketToOneClient (origin client : ClientID) (p : Packet) :
    Preserving (sendPacketToOneClient origin client p) :=
  preserving_get fun _ => preserving_stamp fun _ =>
    Fallible.Moves.ite (fun _ => preserving_clientHandler origin _) fun _ =>
      preserving_wireBytes fun _ => preserving_post _ _

/-- The send functions of a server post, and hand over to the local client. -/
theorem preserving_sendPacketToAllClients (origin : ClientID) (p : Packet) :
    Preserving (sendPacketToAllClients origin p) :=
  preserving_get fun _ => preserving_stamp fun _ =>
    Fallible.Moves.bind (preserving_modify (fun _ h => h) fun _ => rfl) fun _ =>
      Fallible.Moves.bind (preserving_postIf _ _ _) fun _ =>
        Fallible.Moves.ite (fun _ => preserving_loopback origin _) fun _ => Fallible.Moves.pure ()

theorem preserving_sendPacketToAllExceptOneClient (origin excluded : ClientID) (p : Packet) :
    Preserving (sendPacketToAllExceptOneClient origin excluded p) :=
  preserving_get fun _ => preserving_stamp fun _ =>
    Fallible.Moves.bind (preserving_postIf _ _ _) fun _ =>
      Fallible.Moves.ite (fun _ => preserving_loopback origin _) fun _ => Fallible.Moves.pure ()

theorem preserving_sendToServer (p : Packet) : Preserving (sendToServer p) :=
  preserving_get fun _ => preserving_stamp fun _ => preserving_wireBytes fun _ =>
    Fallible.Moves.bind (preserving_post _ _) fun _ => Fallible.Moves.pure _

/-! ## Creating and deleting -/

/-- The counter stays positive: it does not pass `INT_MAX`. -/
theorem preserving_nextID : Preserving nextID := by
  refine Preserving.of ?_
  intro s id s' hs hrun
  obtain ⟨hmax, _, rfl⟩ := nextID_ok hrun
  exact ⟨⟨hs.kept.localID_neg, Int32.lt_trans hs.kept.ID_pos (lt_add_one hmax), hs.kept.stored⟩,
    hs.not_connected⟩

theorem preserving_sendCreation (info : EntityInfo) (spawnInfo : Packet) :
    Preserving (sendCreation info spawnInfo) := by
  refine preserving_get fun s => Fallible.Moves.ite (fun _ => ?_) fun _ => Fallible.Moves.pure ()
  refine preserving_onPacket fun _ => preserving_onPacket fun _ => ?_
  refine Fallible.Moves.ite (fun _ => ?_) fun _ => ?_
  · exact Fallible.Moves.bind (preserving_sendToServer _) fun _ => Fallible.Moves.pure ()
  · exact Fallible.Moves.bind (preserving_record _) fun _ => preserving_sendPacketToAllClients _ _

/-- By induction on the depth of the child types. -/
theorem preserving_createNetworkedEntity (stack : Nat) (info : EntityInfo) (spawnInfo : Packet) :
    Preserving (createNetworkedEntity stack info spawnInfo) := by
  induction stack generalizing info spawnInfo with
  | zero => exact Fallible.Moves.fail _
  | succ stack ih =>
      have hfamily : ∀ info : EntityInfo,
          Preserving (createFamily (createNetworkedEntity stack) info spawnInfo) := by
        intro info
        refine preserving_get fun s => Fallible.Moves.bind ?_ fun _ => preserving_sendCreation _ _
        exact Fallible.Moves.forEach fun child _ => ih _ child.spawnInfo
      rw [createNetworkedEntity]
      refine preserving_get fun s => Fallible.Moves.ite (fun _ => Fallible.Moves.pure ())
        fun _ => ?_
      refine Fallible.Moves.ite (fun _ => ?_) fun _ => hfamily info
      exact Fallible.Moves.bind preserving_nextID fun id => hfamily { info with ID := id }

theorem preserving_deleteEntity (id : EntityID) : Preserving (deleteEntity id) := by
  refine preserving_get fun s => ?_
  split
  · exact Fallible.Moves.fail _
  refine Fallible.Moves.ite (fun _ => preserving_flag id) fun _ => ?_
  refine Fallible.Moves.ite (fun _ => preserving_onPacket fun _ => ?_) fun _ =>
    Fallible.Moves.pure ()
  refine Fallible.Moves.ite (fun _ => ?_) fun _ => preserving_sendPacketToAllClients _ _
  exact Fallible.Moves.bind (preserving_sendToServer _) fun _ => Fallible.Moves.pure ()

/-- The orphans are deleted, then what is marked is erased. -/
theorem preserving_update : Preserving update := by
  refine preserving_get fun s => Fallible.Moves.bind (Fallible.Moves.forEach fun entry _ => ?_)
    fun _ => preserving_modify (fun s => (quiet_eraseFlagged (π := Policy.any) s).kept) fun _ => rfl
  exact preserving_get fun _ => Fallible.Moves.ite (fun _ => Fallible.Moves.pure ()) fun _ =>
    preserving_deleteEntity _

/-! ## The server's handler -/

section

variable (stack : Nat) (hook : EntityID → List WriteOp)

theorem preserving_sendAllNetworkedEntitiesToClient (client : ClientID) :
    Preserving (sendAllNetworkedEntitiesToClient hook client) := by
  refine preserving_get fun s => Fallible.Moves.ite (fun _ => ?_) fun _ => Fallible.Moves.pure ()
  refine Fallible.Moves.forEach fun entry _ => ?_
  refine preserving_onPacket fun _ => preserving_onPacket fun _ => ?_
  exact Fallible.Moves.bind (preserving_record _) fun _ => preserving_sendPacketToOneClient _ _ _

theorem preserving_dispatch (type : RPCType) (owner : ClientID) (p : Packet) :
    Preserving (dispatch type owner p) := by
  have hothers := preserving_sendPacketToAllExceptOneClient p.info.senderID p.info.senderID p
  cases type with
  | onlyLocal => exact Fallible.Moves.pure ()
  | master =>
      exact Fallible.Moves.ite (fun _ => Fallible.Moves.pure ()) fun _ =>
        preserving_sendPacketToOneClient _ _ _
  | remote | remoteAndLocal =>
      exact Fallible.Moves.ite (fun _ => hothers) fun _ => Fallible.Moves.pure ()
  | masterAndRemote | all => exact hothers

theorem preserving_routeRPC (p : Packet) : Preserving (routeRPC p) := by
  refine preserving_onPacket fun r => preserving_onPacket fun q => preserving_get fun s => ?_
  split
  · exact Fallible.Moves.fail _
  next rpc _ =>
  split
  · exact Fallible.Moves.pure ()
  · exact Fallible.Moves.ite (fun _ => preserving_dispatch rpc.rpctype _ _) fun _ =>
      Fallible.Moves.pure ()

/-- The server's handler, branch by branch. -/
theorem preserving_serverHandler (p : Packet) : Preserving (serverHandler stack hook p) := by
  rw [serverHandler]
  cases p.header.type with
  | entityCreation =>
      exact preserving_onPacket fun _ => preserving_onPacket fun _ =>
        preserving_createNetworkedEntity _ _ _
  | connected => exact preserving_sendAllNetworkedEntitiesToClient hook _
  | entityUpdate => exact preserving_sendPacketToAllExceptOneClient _ _ _
  | entityRpc => exact preserving_routeRPC p
  | entityDeletion =>
      refine preserving_onPacket fun _ => preserving_get fun s => ?_
      split
      · exact Fallible.Moves.pure ()
      · exact Fallible.Moves.ite (fun _ => preserving_sendPacketToAllClients _ _) fun _ =>
          Fallible.Moves.pure ()
  | _ => exact Fallible.Moves.pure ()

/-! ## Calls by game code -/

theorem preserving_sendPacket (p : Packet) : Preserving (sendPacket stack hook p) := by
  refine preserving_get fun s => Fallible.Moves.ite (fun _ => ?_) fun _ => preserving_sendToServer p
  refine preserving_stamp fun _ => Fallible.Moves.bind (preserving_serverHandler stack hook _)
    fun _ => ?_
  exact Fallible.Moves.pure _

theorem preserving_tickEntities (entries : List (EntityID × Entity)) (p : Packet) :
    Preserving (tickEntities stack hook entries p) := by
  induction entries generalizing p with
  | nil => exact Fallible.Moves.pure ()
  | cons entry rest ih =>
      obtain ⟨id, ent⟩ := entry
      refine preserving_get fun s => Fallible.Moves.ite (fun _ => ?_) fun _ => ih p
      refine preserving_onPacket fun _ => preserving_onPacket fun _ => ?_
      refine Fallible.Moves.bind (preserving_record _) fun _ => ?_
      exact Fallible.Moves.bind (preserving_sendPacket stack hook _) ih

/-- A tick serializes entities and sends the packets. -/
theorem preserving_networkTick : Preserving (networkTick stack hook) := by
  refine Fallible.Moves.bind (preserving_modify (fun s hs => ?_) fun _ => rfl) fun _ =>
    preserving_get fun s => preserving_tickEntities stack hook _ _
  exact ⟨hs.localID_neg, hs.ID_pos, hs.stored⟩

theorem preserving_callRPC (target : Entity) (name : StdString) (arguments : List WriteOp) :
    Preserving (callRPC stack hook target name arguments) := by
  refine preserving_get fun s => Fallible.Moves.ite (fun _ => Fallible.Moves.pure ()) fun _ => ?_
  split
  · exact Fallible.Moves.pure ()
  · next rpc _ =>
    have hlast : ∀ q : Packet, Preserving (if (RPCInfo rpc.rpctype (s.isOwner target)).1 then
        receiveRPC q target.info else return ()) := fun q =>
      Fallible.Moves.ite (fun _ => preserving_receiveRPC q _) fun _ => Fallible.Moves.pure ()
    refine preserving_onPacket fun _ => preserving_onPacket fun _ => preserving_onPacket fun _ => ?_
    dsimp only
    exact Fallible.Moves.ite
      (fun _ => Fallible.Moves.bind (preserving_sendPacket stack hook _) hlast) fun _ =>
        Fallible.Moves.bind (Fallible.Moves.pure _) hlast

end

/-- **Whatever game code does.** -/
theorem preserving_run (stack : Nat) (hooks : Hooks) (call : GameCall) :
    Preserving (call.run stack hooks) := by
  cases call with
  | createEntity info fresh spawnInfo =>
      exact Fallible.Moves.bind (preserving_createEntity _ _) fun _ => Fallible.Moves.pure ()
  | createNetworkedEntity info spawnInfo sound => exact preserving_createNetworkedEntity _ _ _
  | deleteEntity id => exact preserving_deleteEntity id
  | update => exact preserving_update
  | networkTick => exact preserving_networkTick _ _
  | callRPC id name arguments representable =>
      refine preserving_get fun s => ?_
      split
      · exact Fallible.Moves.pure ()
      · exact preserving_callRPC _ _ _ _ _
  | setNetworkTickRate id rate =>
      exact preserving_modify (fun s => (Session.quiet_rate (π := Policy.any) s id rate).kept)
        fun _ => rfl
  | elapse now => exact preserving_modify (fun _ h => h) fun _ => rfl

/-! ## Lives -/

/-- What can happen to a process.  What comes from the network is any packet at all. -/
inductive Occurs (s : Process) : Process → Prop
  | connect (c : ClientID) (hc : c ≠ 1) : Occurs s { s with connected := s.connected ++ [c] }
  | disconnect (c : ClientID) : Occurs s { s with connected := s.connected.erase c }
  /-- The transport takes what it has been handed. -/
  | transmit (outbox : List (ClientID × Datagram)) : Occurs s { s with outbox := outbox }
  | serve {s' : Process} (stack : Nat) (hooks : Hooks) (p : Packet)
      (h : serverHandler stack hooks.script p s = (.ok (), s')) : Occurs s s'
  | handle {s' : Process} (origin : ClientID) (p : Packet)
      (h : clientHandler origin p s = (.ok (), s')) : Occurs s s'
  | call {s' : Process} (stack : Nat) (hooks : Hooks) (call : GameCall)
      (h : call.run stack hooks s = (.ok (), s')) : Occurs s s'

/-- A process that has just been started. -/
def started (role : Role) (id : ClientID) (registry : Registry) : Process :=
  { role := role, id := id, scene := { registry := registry } }

/-- What has come of a process since it was started. -/
def Reached (s : Process) : Prop :=
  ∃ role id registry, Relation.ReflTransGen Occurs (started role id registry) s

/-- One thing that happens. -/
theorem Occurs.sane {s s' : Process} (h : Occurs s s') (hs : Sane s) : Sane s' := by
  cases h with
  | connect c hc =>
      refine ⟨hs.kept, ?_⟩
      intro hmem
      rcases List.mem_append.mp hmem with hold | hnew
      · exact hs.not_connected hold
      · exact hc (List.mem_singleton.mp hnew).symm
  | disconnect c => exact ⟨hs.kept, fun hmem => hs.not_connected (List.mem_of_mem_erase hmem)⟩
  | transmit outbox => exact ⟨hs.kept, hs.not_connected⟩
  | serve stack hooks p h => exact (preserving_serverHandler stack hooks.script p).sane hs h
  | handle origin p h => exact (preserving_clientHandler origin p).sane hs h
  | call stack hooks call h => exact (preserving_run stack hooks call).sane hs h

/-- A process that has just started is in order. -/
theorem sane_started (role : Role) (id : ClientID) (registry : Registry) :
    Sane (started role id registry) :=
  ⟨Session.kept_empty registry, List.not_mem_nil⟩

/-- **A process is sane all its life.** -/
theorem Reached.sane {s : Process} (h : s.Reached) : Sane s := by
  obtain ⟨role, id, registry, hpath⟩ := h
  induction hpath with
  | refl => exact sane_started role id registry
  | tail _ hlast ih => exact hlast.sane ih

end Process

end EnkiNet
