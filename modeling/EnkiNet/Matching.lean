import EnkiNet.Completion

/-!
# Entity RPCs run on a matching entity

A client's handler parses an `ENTITY_RPC` twice.  It reads the info, finds the entity under
the info's id and compares the two, and `RPCManager::receive` reads the packet again from
its start to find the function, by the type that it reads then.  The instance comes from the
first reading and the function from the second; since what is handed over to a handler has not
been read before, both read the same (`clientHandler_matches`).
-/

namespace EnkiNet

open ByteStore Packet

/-! ## Registered functions -/

/-- A member function that has been registered as an entity RPC, and the class that `wrapEntity`
casts the instance to. -/
structure MemberRPC (Class : Type) extends EntityRPC where
  cls : Class
  function : Nat

/-- A call of `RPCManager::add` with a type of entities. -/
structure EntityRegistration (Class : Type) where
  type : StdString
  name : StdString
  rpc : MemberRPC Class

/-- `entity_rpcs`. -/
structure EntityRpcs (Class : Type) where
  find : StdString → StdString → Option (MemberRPC Class) := fun _ _ => none

/-- A function is called on an instance. -/
structure Execution (Class : Type) where
  target : Entity
  name : StdString
  rpc : MemberRPC Class
  arguments : List Value

abbrev Executed (Class : Type) : Type := Attempt (Execution Class)

variable {Class : Type}

def Execution.effect (call : Execution Class) : Effect :=
  .execute call.target.info call.name call.arguments

/-- `RPCUtil::wrapEntity`.  What the function does is up to the game: `game` is the exception
that it throws, if it does. -/
def MemberRPC.wrapEntity (rpc : MemberRPC Class) (game : Execution Class → Option String)
    (name : StdString) (p : Packet) (target : Entity) : Executed Class :=
  match ReadOp.performAll rpc.parameters p with
  | (.error e, _) => (.error e, [])
  | (.ok arguments, _) =>
      match game ⟨target, name, rpc, arguments⟩ with
      | none => (.ok (), [⟨target, name, rpc, arguments⟩])
      | some what => (.error (.runtimeError what), [⟨target, name, rpc, arguments⟩])

namespace EntityRpcs

/-- The table as the registry has it, which knows no classes. -/
def erase (rpcs : EntityRpcs Class) (type name : StdString) : Option EntityRPC :=
  (rpcs.find type name).map MemberRPC.toEntityRPC

/-- `RPCManager::add`: a name keeps the function that it has. -/
def add (rpcs : EntityRpcs Class) (r : EntityRegistration Class) : EntityRpcs Class :=
  match rpcs.find r.type r.name with
  | some _ => rpcs
  | none =>
      { find := fun type name =>
          if type = r.type ∧ name = r.name then some r.rpc else rpcs.find type name }

def registered (registrations : List (EntityRegistration Class)) : EntityRpcs Class :=
  registrations.foldl add {}

/-- What `RPCManager::receive(Packet, Entity*)` tries. -/
def tryReceive (rpcs : EntityRpcs Class) (game : Execution Class → Option String) (p : Packet)
    (target : Entity) : Executed Class :=
  if p.bytes.length ≤ p.bytesRead then (.ok (), [])
  else
    match getEntityInfo p with
    | (.error e, _) => (.error e, [])
    | (.ok info, p) =>
        match getString p with
        | (.error e, _) => (.error e, [])
        | (.ok name, p) =>
            match rpcs.find info.type name with
            | none => (.ok (), [])
            | some rpc => rpc.wrapEntity game name p target

def receive (rpcs : EntityRpcs Class) (game : Execution Class → Option String) (p : Packet)
    (target : Entity) : Executed Class :=
  (rpcs.tryReceive game p target).catchException

/-- The branch for `ENTITY_RPC` of the client's handler. -/
def handle (rpcs : EntityRpcs Class) (game : Execution Class → Option String) (g : Scenegraph)
    (p : Packet) : Executed Class :=
  match getEntityInfo p with
  | (.error e, _) => (.error e, [])
  | (.ok info, p) =>
      match g.entities[info.ID]? with
      | none => (.ok (), [])
      | some ent =>
          if info = ent.info then rpcs.receive game p.resetReadPosition ent else (.ok (), [])

end EntityRpcs

/-- A packet as it is given to a client's handler: by a `ClientStandard`, which makes it of bytes
that the transport has delivered, or by a send function of a `ServerHost`. -/
inductive Delivered : Packet → Prop
  | standard {receivedAt : UInt32} {data : List Byte} {p : Packet}
      (h : Session.arriving receivedAt data = .ok p) : Delivered p
  | host (now : UInt32) (p : Packet) (i : PacketInfo) :
      Delivered { (Process.stamped now p).resetReadPosition with info := i }

/-- The call that a packet asks for: on the entity that the packet is about, of the function that
is registered first under the entity's type and the packet's name. -/
structure AskedFor (registrations : List (EntityRegistration Class)) (g : Scenegraph) (p : Packet)
    (call : Execution Class) : Prop where
  read : ∃ info q q', getEntityInfo p = (.ok info, q) ∧ getString q = (.ok call.name, q') ∧
    g.entities[info.ID]? = some call.target ∧ call.target.info = info
  function : ∃ r, registrations.find? (fun r => r.type = call.target.info.type ∧
    r.name = call.name) = some r ∧ r.rpc = call.rpc

namespace EntityRpcs

/-! ## Registering -/

/-- Later registrations do not replace earlier ones. -/
theorem find_foldl (registrations : List (EntityRegistration Class)) (rpcs : EntityRpcs Class)
    (type name : StdString) :
    (registrations.foldl add rpcs).find type name = (rpcs.find type name).or
      ((registrations.find? fun r => r.type = type ∧
        r.name = name).map EntityRegistration.rpc) := by
  induction registrations generalizing rpcs with
  | nil => simp
  | cons r rest ih =>
      rw [List.foldl_cons, ih, add]
      by_cases hkey : r.type = type ∧ r.name = name
      · obtain ⟨rfl, rfl⟩ := hkey
        cases hknown : rpcs.find r.type r.name with
        | none => simp
        | some rpc => simp [hknown]
      · have hother : ¬ (type = r.type ∧ name = r.name) := fun h => hkey ⟨h.1.symm, h.2.symm⟩
        rw [List.find?_cons_of_neg (by simpa using hkey)]
        cases rpcs.find r.type r.name with
        | none => exact congrArg (Option.or · _) (if_neg hother)
        | some rpc => rfl

/-- A name of a type has the function that was registered under it first. -/
theorem find_registered (registrations : List (EntityRegistration Class))
    (type name : StdString) :
    (registered registrations).find type name =
      (registrations.find? fun r => r.type = type ∧ r.name = name).map EntityRegistration.rpc :=
  find_foldl registrations {} type name

/-! ## What is called -/

/-- A wrapper calls its function once or not at all. -/
theorem calls_wrapEntity (rpc : MemberRPC Class) (game : Execution Class → Option String)
    (name : StdString) (p : Packet) (target : Entity) :
    (rpc.wrapEntity game name p target).2 = [] ∨
      ∃ arguments, (rpc.wrapEntity game name p target).2 = [⟨target, name, rpc, arguments⟩] := by
  rw [MemberRPC.wrapEntity]
  rcases ReadOp.performAll rpc.parameters p with ⟨e | arguments, q⟩
  · exact Or.inl rfl
  · refine Or.inr ⟨arguments, ?_⟩
    dsimp only
    cases game ⟨target, name, rpc, arguments⟩ with
    | none => rfl
    | some what => rfl

/-- `receive` calls nothing, or the function under the type and the name that it reads. -/
theorem calls_receive (rpcs : EntityRpcs Class) (game : Execution Class → Option String)
    (p : Packet) (target : Entity) :
    (rpcs.receive game p target).2 = [] ∨ ∃ info q name q' rpc arguments,
      getEntityInfo p = (.ok info, q) ∧ getString q = (.ok name, q') ∧
        rpcs.find info.type name = some rpc ∧
        (rpcs.receive game p target).2 = [⟨target, name, rpc, arguments⟩] := by
  rw [receive, Attempt.catchException_calls, tryReceive]
  split
  · exact Or.inl rfl
  rcases hinfo : getEntityInfo p with ⟨e | info, q⟩
  · exact Or.inl rfl
  rcases hname : getString q with ⟨e | name, q'⟩
  · exact Or.inl (by simp only [hname])
  simp only [hname]
  cases hrpc : rpcs.find info.type name with
  | none => exact Or.inl rfl
  | some rpc =>
      rcases calls_wrapEntity rpc game name q' target with
        hnone | ⟨arguments, hone⟩
      · exact Or.inl hnone
      · exact Or.inr ⟨info, q, name, q', rpc, arguments, rfl, hname, hrpc, hone⟩

end EntityRpcs

/-! ## Reading twice -/

/-- A packet has not been read before it is handed over. -/
theorem Delivered.unread {p : Packet} (h : Delivered p) : p.resetReadPosition = p := by
  cases h with
  | @standard receivedAt data p h =>
      by_cases hlen : headerSize ≤ data.length
      · rw [Session.arriving, ofData_eq hlen] at h
        cases h
        rfl
      · rw [Session.arriving, ofData, if_pos (Nat.not_le.mp hlen)] at h
        cases h
  | host now p i => rfl

namespace EntityRpcs

/-- The second reading starts where the first one did. -/
theorem calls_handle (rpcs : EntityRpcs Class) (game : Execution Class → Option String)
    (g : Scenegraph) {p : Packet} (hp : Delivered p) :
    (rpcs.handle game g p).2 = [] ∨ ∃ info q name q' ent rpc arguments,
      getEntityInfo p = (.ok info, q) ∧ getString q = (.ok name, q') ∧
        g.entities[info.ID]? = some ent ∧ ent.info = info ∧
        rpcs.find ent.info.type name = some rpc ∧
        (rpcs.handle game g p).2 = [⟨ent, name, rpc, arguments⟩] := by
  rw [handle]
  rcases hinfo : getEntityInfo p with ⟨e | info, q⟩
  · exact Or.inl rfl
  dsimp only
  cases hent : g.entities[info.ID]? with
  | none => exact Or.inl rfl
  | some ent =>
      dsimp only
      by_cases hmatch : info = ent.info
      · rw [if_pos hmatch, Process.reset_of_getEntityInfo hinfo, hp.unread]
        rcases rpcs.calls_receive game p ent with
          hnone | ⟨info', q', name, q'', rpc, arguments, hinfo', hname, hrpc, hone⟩
        · exact Or.inl hnone
        · rw [hinfo] at hinfo'
          cases hinfo'
          rw [hmatch] at hrpc
          exact Or.inr ⟨info, q, name, q'', ent, rpc, arguments, rfl, hname, hent,
            hmatch.symm, hrpc,
            hone⟩
      · rw [if_neg hmatch]
        exact Or.inl rfl

end EntityRpcs

namespace Process

variable {rpcs : EntityRpcs Class} {s : Process}

/-- Behind a read that fails nothing is handled. -/
theorem bind_onPacket_fail {α β : Type} {x : PacketM α} {p q : Packet} {e : Fault}
    (h : x p = (.error e, q)) (f : α × Packet → ProcessM β) (s : Process) :
    (onPacket x p >>= f) s = (.error e, s) := by
  apply Fallible.bind_error
  rw [onPacket, h]

variable (Class) in
/-- A call that cannot be read is treated as the manager's `catch` treats it. -/
theorem receiveRPC_of_error {p : Packet} {target : EntityInfo} {e : Fault}
    (hmore : ¬ p.bytes.length ≤ p.bytesRead) (hread : (readCall s.scene.registry p).1 = .error e) :
    receiveRPC p target s =
      ((Attempt.catchException ((.error e, []) : Executed Class)).1, s) := by
  -- reading needs no stack
  have hshallow : e ≠ .stackOverflow := fun he =>
    (faults_readCall s.scene.registry).avoids Fault.not_ofReading_stackOverflow p
      (hread.trans (congrArg Except.error he))
  rw [receiveRPC, Fallible.bind_get, if_neg hmore]
  simp only [hread]
  cases e with
  | stackOverflow => exact absurd rfl hshallow
  | _ => rfl

/-- A call that can be read is made if its name is known. -/
theorem receiveRPC_of_ok {p : Packet} {target : EntityInfo} {name : StdString}
    {arguments : Option (List Value)} (hmore : ¬ p.bytes.length ≤ p.bytesRead)
    (hread : (readCall s.scene.registry p).1 = .ok (name, arguments)) :
    receiveRPC p target s = (.ok (), { s with
      effects := s.effects ++ arguments.toList.map (Effect.execute target name) }) := by
  rw [receiveRPC, Fallible.bind_get, if_neg hmore]
  simp only [hread]
  cases arguments with
  | none => exact Prod.ext rfl (by rw [Option.toList_none, List.map_nil, List.append_nil]; rfl)
  | some arguments => rfl

/-- The process model has the same handler: it keeps a record of what is called. -/
theorem receiveRPC_eq (game : Execution Class → Option String)
    (hrpcs : s.scene.registry.entityRpcs = rpcs.erase) (p : Packet) (target : Entity) :
    receiveRPC p target.info s = ((rpcs.receive game p target).1,
      { s with effects := s.effects ++ (rpcs.receive game p target).2.map Execution.effect }) := by
  have hnothing : s = { s with effects := s.effects ++ [] } := by rw [List.append_nil]
  by_cases hmore : p.bytes.length ≤ p.bytesRead
  · rw [receiveRPC, Fallible.bind_get, if_pos hmore, EntityRpcs.receive, EntityRpcs.tryReceive,
      if_pos hmore]
    exact Prod.ext rfl hnothing
  have hfailed : ∀ {e : Fault}, (readCall s.scene.registry p).1 = .error e →
      rpcs.tryReceive game p target = (.error e, []) →
      receiveRPC p target.info s = ((rpcs.receive game p target).1, { s with
        effects := s.effects ++ (rpcs.receive game p target).2.map Execution.effect }) := by
    intro e hread htry
    rw [receiveRPC_of_error Class hmore hread, EntityRpcs.receive, htry]
    refine Prod.ext rfl ?_
    rw [Attempt.catchException_calls]
    exact hnothing
  rcases hinfo : getEntityInfo p with ⟨e | info, q⟩
  · refine hfailed (e := e) ?_ ?_
    · rw [readCall, Fallible.bind_error hinfo]
    · rw [EntityRpcs.tryReceive, if_neg hmore, hinfo]
  rcases hname : getString q with ⟨e | name, q'⟩
  · refine hfailed (e := e) ?_ ?_
    · rw [readCall, Fallible.bind_ok hinfo, Fallible.bind_error hname]
    · rw [EntityRpcs.tryReceive, if_neg hmore, hinfo]
      simp only [hname]
  have htable : s.scene.registry.entityRpcs info.type name =
      (rpcs.find info.type name).map MemberRPC.toEntityRPC := by
    rw [hrpcs, EntityRpcs.erase]
  cases hrpc : rpcs.find info.type name with
  | none =>
      rw [hrpc, Option.map_none] at htable
      have hread : (readCall s.scene.registry p).1 = .ok (name, none) := by
        rw [readCall, Fallible.bind_ok hinfo, Fallible.bind_ok hname]
        simp only [htable]
        rfl
      have htry : rpcs.tryReceive game p target = (.ok (), []) := by
        rw [EntityRpcs.tryReceive, if_neg hmore, hinfo]
        simp only [hname, hrpc]
      rw [receiveRPC_of_ok hmore hread, EntityRpcs.receive, htry]
      rfl
  | some rpc =>
      rw [hrpc, Option.map_some] at htable
      have htry : rpcs.tryReceive game p target = rpc.wrapEntity game name q' target := by
        rw [EntityRpcs.tryReceive, if_neg hmore, hinfo]
        simp only [hname, hrpc]
      rcases hall : ReadOp.performAll rpc.parameters q' with ⟨e | arguments, q''⟩
      · refine hfailed (e := e) ?_ ?_
        · rw [readCall, Fallible.bind_ok hinfo, Fallible.bind_ok hname]
          simp only [htable]
          rw [Fallible.bind_error hall]
        · rw [htry, MemberRPC.wrapEntity, hall]
      · have hread : (readCall s.scene.registry p).1 = .ok (name, some arguments) := by
          rw [readCall, Fallible.bind_ok hinfo, Fallible.bind_ok hname]
          simp only [htable]
          rw [Fallible.bind_ok hall]
          rfl
        rw [receiveRPC_of_ok hmore hread, EntityRpcs.receive, htry, MemberRPC.wrapEntity, hall]
        dsimp only
        cases game ⟨target, name, rpc, arguments⟩ with
        | none => rfl
        | some what => rfl

/-- For a call the handler of a client is the manager of the class functions. -/
theorem clientHandler_entityRpc (game : Execution Class → Option String)
    (hrpcs : s.scene.registry.entityRpcs = rpcs.erase) {p : Packet}
    (htype : p.header.type = .entityRpc) (origin : ClientID) :
    clientHandler origin p s = ((rpcs.handle game s.scene p).1,
      { s with effects := s.effects ++ (rpcs.handle game s.scene p).2.map Execution.effect }) := by
  have hnothing : s = { s with effects := s.effects ++ [] } := by rw [List.append_nil]
  simp only [clientHandler, htype]
  rw [EntityRpcs.handle]
  rcases hinfo : getEntityInfo p with ⟨e | info, q⟩
  · rw [bind_onPacket_fail hinfo]
    exact Prod.ext rfl hnothing
  rw [bind_onPacket hinfo]
  dsimp only
  rw [Fallible.bind_get]
  cases hent : s.scene.entities[info.ID]? with
  | none => exact Prod.ext rfl hnothing
  | some ent =>
      dsimp only
      by_cases hmatch : info = ent.info
      · rw [if_pos hmatch, if_pos hmatch]
        exact receiveRPC_eq game hrpcs q.resetReadPosition ent
      · rw [if_neg hmatch, if_neg hmatch]
        exact Prod.ext rfl hnothing

/-- **Entity RPCs run on a matching entity.**  Whatever arrives, there is one call at most, it is
the one that the packet asks for, and the entities are left alone.  If all functions that are
registered for a type are members of one class, the instance is cast to the class of its own
type. -/
theorem clientHandler_matches (registrations : List (EntityRegistration Class))
    (game : Execution Class → Option String) {p : Packet} (hp : Delivered p)
    (htype : p.header.type = .entityRpc) {s : Process}
    (hrpcs : s.scene.registry.entityRpcs = (EntityRpcs.registered registrations).erase)
    (origin : ClientID) :
    ∃ result calls, (EntityRpcs.registered registrations).handle game s.scene p = (result, calls) ∧
      clientHandler origin p s =
        (result, { s with effects := s.effects ++ calls.map Execution.effect }) ∧
      calls.length ≤ 1 ∧ (∀ call ∈ calls, AskedFor registrations s.scene p call) ∧
      ∀ classOf : StdString → Class, (∀ r ∈ registrations, r.rpc.cls = classOf r.type) →
        ∀ call ∈ calls, call.rpc.cls = classOf call.target.info.type := by
  have hsame := clientHandler_entityRpc game hrpcs htype origin
  have hcalls := (EntityRpcs.registered registrations).calls_handle game s.scene hp
  rcases hhandle : (EntityRpcs.registered registrations).handle game s.scene p with ⟨result, calls⟩
  rw [hhandle] at hsame hcalls
  refine ⟨result, calls, rfl, hsame, ?_⟩
  rcases hcalls with
    hnone | ⟨info, q, name, q', ent, rpc, arguments, hinfo, hname, hent, heq, hrpc, hone⟩
  · rw [show calls = [] from hnone]
    exact ⟨Nat.zero_le 1, List.forall_mem_nil _, fun _ _ => List.forall_mem_nil _⟩
  · obtain ⟨r, hr, hfunction⟩ := Option.map_eq_some_iff.mp
      ((EntityRpcs.find_registered registrations ent.info.type name).symm.trans hrpc)
    have hasked : AskedFor registrations s.scene p ⟨ent, name, rpc, arguments⟩ :=
      { read := ⟨info, q, q', hinfo, hname, hent, heq⟩, function := ⟨r, hr, hfunction⟩ }
    rw [show calls = _ from hone]
    refine ⟨Nat.le_refl 1, List.forall_mem_singleton.mpr hasked, fun classOf hclass => ?_⟩
    refine List.forall_mem_singleton.mpr ?_
    have hkey := List.find?_some hr
    calc rpc.cls = r.rpc.cls := congrArg MemberRPC.cls hfunction.symm
      _ = classOf r.type := hclass r (List.mem_of_find?_eq_some hr)
      _ = classOf ent.info.type := congrArg classOf (of_decide_eq_true hkey).1

/-! ## A call -/

/-- A function without parameters, for entities of the type `A`. -/
def Sample.shout : EntityRegistration Bool where
  type := Sample.letter 65
  name := Sample.letter 67
  rpc := { rpctype := .all, parameters := [], cls := true, function := 0 }

/-- A client that has one entity. -/
def Sample.listener : Process :=
  { role := .client, id := 2
    scene := ({ registry :=
      { entityRpcs := (EntityRpcs.registered [Sample.shout]).erase } } : Scenegraph).setEntity 1
        { info := Sample.info 1 2 } }

/-- A call of the function on the entity. -/
def Sample.shouted : List Byte :=
  Sample.bytes .entityRpc (do putEntityInfo (Sample.info 1 2); putString (Sample.letter 67))

/-- A client that is told to shout calls the one function that is asked for. -/
theorem clientHandler_matches_shouted : ∃ (p : Packet) (calls : List (Execution Bool)),
    Session.arriving 0 Sample.shouted = .ok p ∧
      (clientHandler 1 p Sample.listener).2.effects = calls.map Execution.effect ∧
      calls.length = 1 ∧ ∀ call ∈ calls, AskedFor [Sample.shout] Sample.listener.scene p call := by
  have hlong : headerSize ≤ Sample.shouted.length := by decide +kernel
  have hsome : ∃ p, Session.arriving 0 Sample.shouted = .ok p := by
    rw [Session.arriving, ofData_eq hlong]
    exact ⟨_, rfl⟩
  obtain ⟨p, hp⟩ := hsome
  have hheard : (Session.arriving 0 Sample.shouted).toOption.all (fun p =>
      decide (p.header.type = .entityRpc) &&
        decide ((clientHandler 1 p Sample.listener).2.effects.length = 1)) = true := by
    decide +kernel
  rw [hp, Except.toOption, Option.all_some, Bool.and_eq_true_iff] at hheard
  obtain ⟨result, calls, _, hrun, _, hasked, _⟩ := clientHandler_matches [Sample.shout]
    (fun _ => none) (Delivered.standard hp) (of_decide_eq_true hheard.1)
    (show Sample.listener.scene.registry.entityRpcs = _ from rfl) 1
  have heffects : (clientHandler 1 p Sample.listener).2.effects = calls.map Execution.effect := by
    rw [hrun]
    rfl
  have hone : (calls.map Execution.effect).length = 1 := heffects ▸ of_decide_eq_true hheard.2
  exact ⟨p, calls, hp, heffects, List.length_map Execution.effect ▸ hone, hasked⟩

end Process

end EnkiNet
