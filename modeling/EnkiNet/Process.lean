import EnkiNet.Scenegraph

/-!
# One process: handlers and send functions

A process runs a scenegraph next to a server, a client, or both: a listen server
(`ServerHost` with `ClientHost`), a dedicated server (`ServerStandard`) or a remote
client (`ClientStandard`).  What it hands to the transport is its `outbox`.  Inside
a listen server the client's handler is called by the send functions themselves,
so the handlers are defined first, in the order in which they can call each other.

Game code takes part through the hooks of entities.  What a hook writes to a packet
is any script; a hook that is called leaves a record in `effects`, which no code
reads, and so do the library's own decisions about entities.  What goes to all
clients is recorded in `broadcasts` in the same way.  A datagram carries
the id of the process whose packet it is, or is relayed, for the same purpose.
-/

namespace EnkiNet

open ByteStore Packet

/-! ## State -/

inductive Role
  | host
  | server
  | client
  deriving DecidableEq, Repr

/-- What the transport carries; `origin` is the process that first sent it. -/
structure Datagram where
  origin : ClientID
  data : List Byte
  deriving DecidableEq, Repr

/-- What has happened to entities.  `held` is the info stored under the entity's id
just before. -/
inductive Effect
  | onSpawn (info : EntityInfo) (spawnInfo : Packet)
  | deserializeOnTick (target : EntityInfo) (origin : ClientID)
  | deserializeOnConnection (target : EntityInfo) (origin : ClientID)
  | execute (target : EntityInfo) (name : StdString) (arguments : List Value)
  /-- An `ENTITY_CREATION` is about to be sent to all clients. -/
  | announce (info : EntityInfo) (held : Option EntityInfo)
  /-- A client handler is about to act on an `ENTITY_CREATION`. -/
  | spawn (info : EntityInfo) (held : Option EntityInfo)
  /-- A client handler is about to act on an `ENTITY_CREATION_ON_CONNECTION`. -/
  | restore (info : EntityInfo) (held : Option EntityInfo)
  /-- `sendAllNetworkedEntitiesToClient` is about to send a packet about an entity. -/
  | snapshot (client : ClientID) (info : EntityInfo)
  /-- The network tick is about to send a packet about an entity. -/
  | tick (info : EntityInfo)

structure Process where
  role : Role
  id : ClientID
  scene : Scenegraph := {}
  connected : List ClientID := []
  now : UInt32 := 0
  outbox : List (ClientID × Datagram) := []
  effects : List Effect := []
  /-- What `sendPacketToAllClients` has sent, as a record. -/
  broadcasts : List Packet := []

abbrev ProcessM (α : Type) : Type := Fallible Fault Process α

namespace Process

def record (e : Effect) : ProcessM Unit :=
  Fallible.modify fun s => { s with effects := s.effects ++ [e] }

def recordBroadcast (p : Packet) : ProcessM Unit :=
  Fallible.modify fun s => { s with broadcasts := s.broadcasts ++ [p] }

def modifyScene (f : Scenegraph → Scenegraph) : ProcessM Unit :=
  Fallible.modify fun s => { s with scene := f s.scene }

/-- An operation on a packet that is a local variable of the process. -/
def onPacket {α : Type} (x : PacketM α) (p : Packet) : ProcessM (α × Packet) := fun s =>
  match x p with
  | (.ok a, p') => (.ok (a, p'), s)
  | (.error e, _) => (.error e, s)

/-- Hand bytes to the transport, for the clients with these ids. -/
def post (dests : List ClientID) (d : Datagram) : ProcessM Unit :=
  Fallible.modify fun s => { s with outbox := s.outbox ++ dests.map fun c => (c, d) }

/-- The bytes that the transport would copy out of a packet. -/
def wireBytes (p : Packet) : ProcessM (List Byte) := fun s =>
  match p.wire with
  | .ok data => (.ok data, s)
  | .error e => (.error e, s)

/-- Every send function first stamps the header with the time. -/
def stamp (p : Packet) : ProcessM Packet := fun s =>
  (.ok (p.setHeader { p.header with timeSent := s.now }), s)

/-! ## Creating entities -/

/-- The number of a local entity; below the least `int` it overflows. -/
def nextLocalID : ProcessM EntityID := do
  let s ← Fallible.get
  if s.scene.localID = Int32.minValue then Fallible.fail (.undefined .signedOverflow)
  else do
    modifyScene fun g => { g with localID := g.localID - 1 }
    return s.scene.localID

/-- The number of a networked entity; above the greatest `int` it overflows. -/
def nextID : ProcessM EntityID := do
  let s ← Fallible.get
  if s.scene.ID = Int32.maxValue then Fallible.fail (.undefined .signedOverflow)
  else do
    modifyScene fun g => { g with ID := g.ID + 1 }
    return s.scene.ID

/-- `Scenegraph::createEntity`; `none` is the null pointer. -/
def createEntity (info : EntityInfo) (spawnInfo : Packet) : ProcessM (Option Entity) := do
  let s ← Fallible.get
  if ¬ info.Named then return none
  else
    match s.scene.registry.builders info.type with
    | none => return none
    | some cls => do
        let ID ← if info.ID = 0 then nextLocalID else pure info.ID
        let ent : Entity := {
          info := { info with ID := ID }
          networkTickRate := cls.networkTickRate }
        modifyScene fun g => g.setEntity ID ent
        record (.onSpawn ent.info spawnInfo)
        return some ent

/-! ## Handling packets as a client -/

/-- What `RPCManager::receive(p, instance)` and the wrapper that it calls read: the name
and, if a function is registered under it, the function's arguments. -/
def readCall (r : Registry) : PacketM (StdString × Option (List Value)) := do
  let info ← getEntityInfo
  let name ← getString
  match r.entityRpcs info.type name with
  | none => return (name, none)
  | some rpc => do
      let arguments ← ReadOp.performAll rpc.parameters
      return (name, some arguments)

/-- `RPCManager::receive(p, instance)`.  A thrown exception is caught; the function is
called when its parameters have been read. -/
def receiveRPC (p : Packet) (target : EntityInfo) : ProcessM Unit := do
  let s ← Fallible.get
  if p.bytes.length ≤ p.bytesRead then return ()
  else
    match (readCall s.scene.registry p).1 with
    | .ok (name, some arguments) => record (.execute target name arguments)
    | .ok (_, none) => return ()
    | .error (.undefined u) => Fallible.fail (.undefined u)
    | .error _ => return ()

/-- The call of the hook `deserializeOnConnection` of an entity that was just created. -/
def deserializeOnConnection (origin : ClientID) (ent : Entity) : ProcessM Unit := do
  let s ← Fallible.get
  match s.scene.registry.builders ent.info.type with
  | some { overridesOnConnection := true, .. } =>
      record (.deserializeOnConnection ent.info origin)
  | _ => record (.deserializeOnTick ent.info origin)

/-- The client's handler in `Scenegraph::enableNetworking`. -/
def clientHandler (origin : ClientID) (p : Packet) : ProcessM Unit :=
  match p.header.type with
  | .entityCreation => do
      let (info, p) ← onPacket getEntityInfo p
      let (spawnInfo, _) ← onPacket getPacket p
      let s ← Fallible.get
      record (.spawn info (s.scene.held info.ID))
      let _ ← createEntity info spawnInfo
  | .entityCreationOnConnection => do
      let (info, _) ← onPacket getEntityInfo p
      let s ← Fallible.get
      record (.restore info (s.scene.held info.ID))
      let ent ← createEntity info (ofHeader {})
      match ent with
      | none => Fallible.fail (.undefined .nullDereference)
      | some ent => deserializeOnConnection origin ent
  | .entityUpdate => do
      let (info, _) ← onPacket getEntityInfo p
      let s ← Fallible.get
      match s.scene.entities[info.ID]? with
      | none => return ()
      | some ent =>
          if info = ent.info then record (.deserializeOnTick ent.info origin)
          else return ()
  | .entityRpc => do
      let (info, p) ← onPacket getEntityInfo p
      let s ← Fallible.get
      match s.scene.entities[info.ID]? with
      | none => return ()
      | some ent =>
          if info = ent.info then receiveRPC p.resetReadPosition ent.info
          else return ()
  | .entityDeletion => do
      let (id, _) ← onPacket (getScalar 4) p
      let id := Int32.ofBitVec id
      let s ← Fallible.get
      if s.scene.entityExists id then modifyScene fun g => g.flag id
      else return ()
  | _ => return ()

/-! ## Sending as a server -/

/-- What `ServerHost` does with a packet for its own client, when it stamps the
packet's info first. -/
def loopback (origin : ClientID) (p : Packet) : ProcessM Unit := do
  let s ← Fallible.get
  clientHandler origin
    { p.resetReadPosition with info := { senderID := 1, timeReceived := s.now } }

/-- `send_packet_to_all_if`, which the send functions skip when nobody is connected. -/
def postIf (predicate : ClientID → Bool) (origin : ClientID) (p : Packet) : ProcessM Unit := do
  let s ← Fallible.get
  if s.connected = [] then return ()
  else do
    let data ← wireBytes p
    post (s.connected.filter predicate) { origin := origin, data := data }

/-- `sendPacketToOneClient` of both servers. -/
def sendPacketToOneClient (origin client : ClientID) (p : Packet) : ProcessM Unit := do
  let s ← Fallible.get
  let p ← stamp p
  if s.role = .host ∧ client = 1 then clientHandler origin p.resetReadPosition
  else do
    let data ← wireBytes p
    post [client] { origin := origin, data := data }

/-- `sendPacketToAllClients` of both servers. -/
def sendPacketToAllClients (origin : ClientID) (p : Packet) : ProcessM Unit := do
  let s ← Fallible.get
  let p ← stamp p
  recordBroadcast p
  postIf (fun _ => true) origin p
  if s.role = .host then loopback origin p else return ()

/-- `sendPacketToAllExceptOneClient` of both servers. -/
def sendPacketToAllExceptOneClient (origin excluded : ClientID) (p : Packet) : ProcessM Unit := do
  let s ← Fallible.get
  let p ← stamp p
  postIf (fun c => c ≠ excluded) origin p
  if s.role = .host ∧ excluded ≠ 1 then loopback origin p else return ()

/-- `ClientStandard::sendPacket`, returning the packet it leaves.  A client sends to
the server only, which goes by the id 1. -/
def sendToServer (p : Packet) : ProcessM Packet := do
  let s ← Fallible.get
  let p ← stamp p
  let data ← wireBytes p
  post [1] { origin := s.id, data := data }
  return p

/-! ## Creating and deleting networked entities -/

/-- `game_data->network_manager->client->getID()` where there is a client, else 1. -/
def ownID (s : Process) : ClientID := if s.role = .server then 1 else s.id

/-- The end of `Scenegraph::createNetworkedEntity`, after the loop over the child
types.  Where there is no server, the client is a `ClientStandard`. -/
def sendCreation (info : EntityInfo) (spawnInfo : Packet) : ProcessM Unit := do
  let s ← Fallible.get
  let info : EntityInfo :=
    if info.ownerID = 0 ∧ s.scene.networkReady then { info with ownerID := s.ownID } else info
  if s.scene.networkReady then do
    let (_, p) ← onPacket (putEntityInfo info) (ofHeader { type := .entityCreation })
    let (_, p) ← onPacket (putPacket spawnInfo) p
    if s.role = .client then do
      let _ ← sendToServer p
    else do
      record (.announce info (s.scene.held info.ID))
      sendPacketToAllClients s.ownID p
  else return ()

/-- The loop over the child types in `Scenegraph::createNetworkedEntity` and what comes
after it; `create` is the recursive call. -/
def createFamily (create : EntityInfo → Packet → ProcessM Unit) (info : EntityInfo)
    (spawnInfo : Packet) : ProcessM Unit := do
  let s ← Fallible.get
  Fallible.forEach (s.scene.registry.childTypes info.type) fun child =>
    create
      { type := child.type
        name := child.name
        ID := 0
        ownerID := info.ownerID
        parentID := info.ID }
      child.spawnInfo
  sendCreation info spawnInfo

/-- `Scenegraph::createNetworkedEntity`.  Child types are created first, so a cycle of
them recurses until the stack is full; `stack` is the number of nested calls that
fit. -/
def createNetworkedEntity : (stack : Nat) → EntityInfo → Packet → ProcessM Unit
  | 0, _, _ => Fallible.fail .stackOverflow
  | stack + 1, info, spawnInfo => do
      let s ← Fallible.get
      if ¬ info.Named ∨ s.scene.registry.builders info.type = none then return ()
      else if s.role ≠ .client ∧ info.ID = 0 then do
        let ID ← nextID
        createFamily (createNetworkedEntity stack) { info with ID := ID } spawnInfo
      else createFamily (createNetworkedEntity stack) info spawnInfo

/-- `Scenegraph::deleteEntity`; `entities[id]` of a missing id is a null pointer. -/
def deleteEntity (id : EntityID) : ProcessM Unit := do
  let s ← Fallible.get
  match s.scene.entities[id]? with
  | none => Fallible.fail (.undefined .nullDereference)
  | some ent =>
      if ent.info.ID < 0 then modifyScene fun g => g.flag id
      else if s.scene.networkReady then do
        let (_, p) ← onPacket (putScalar (k := 4) id.toBitVec)
          (ofHeader { type := .entityDeletion })
        if s.role = .client then do
          let _ ← sendToServer p
        else sendPacketToAllClients s.ownID p
      else return ()

/-- `Scenegraph::update`, with update hooks that leave the scenegraph alone. -/
def update : ProcessM Unit := do
  let s ← Fallible.get
  Fallible.forEach s.scene.entities.toList fun (_, ent) => do
    let s ← Fallible.get
    if ent.info.parentID = 0 ∨ s.scene.entityExists ent.info.parentID then return ()
    else deleteEntity ent.info.ID
  modifyScene Scenegraph.eraseFlagged

/-! ## Handling packets as a server -/

/-- `Scenegraph::sendAllNetworkedEntitiesToClient`, from the greatest id to the least.
`hook` is what each entity's `serializeOnConnection` writes. -/
def sendAllNetworkedEntitiesToClient (hook : EntityID → List WriteOp) (client : ClientID) :
    ProcessM Unit := do
  let s ← Fallible.get
  if s.scene.networkReady ∧ s.role ≠ .client then
    Fallible.forEach s.scene.entities.toList.reverse fun (id, ent) => do
      let (_, p) ← onPacket (putEntityInfo ent.info)
        (ofHeader { type := .entityCreationOnConnection })
      let (_, p) ← onPacket (WriteOp.performAll (hook id)) p
      record (.snapshot client ent.info)
      sendPacketToOneClient s.ownID client p
  else return ()

/-- The branch for `ENTITY_RPC` of the server's handler. -/
def routeRPC (p : Packet) : ProcessM Unit := do
  let (info, p) ← onPacket getEntityInfo p
  let (name, p) ← onPacket getString p
  let s ← Fallible.get
  match s.scene.registry.entityRpcs info.type name with
  | none => Fallible.fail .outOfRange
  | some rpc =>
      match s.scene.entities[info.ID]? with
      | none => return ()
      | some ent =>
          if info = ent.info then
            match rpc.rpctype with
            | .onlyLocal => return ()
            | .master =>
                if info.ownerID = p.info.senderID then return ()
                else sendPacketToOneClient p.info.senderID info.ownerID p
            | .remote | .remoteAndLocal =>
                if info.ownerID = p.info.senderID then
                  sendPacketToAllExceptOneClient p.info.senderID p.info.senderID p
                else return ()
            | .masterAndRemote | .all =>
                sendPacketToAllExceptOneClient p.info.senderID p.info.senderID p
          else return ()

/-- The server's handler in `Scenegraph::enableNetworking`. -/
def serverHandler (stack : Nat) (hook : EntityID → List WriteOp) (p : Packet) : ProcessM Unit :=
  match p.header.type with
  | .entityCreation => do
      let (info, p) ← onPacket getEntityInfo p
      let (spawnInfo, p) ← onPacket getPacket p
      createNetworkedEntity stack { info with ownerID := p.info.senderID } spawnInfo
  | .connected => sendAllNetworkedEntitiesToClient hook p.info.senderID
  | .entityUpdate => sendPacketToAllExceptOneClient p.info.senderID p.info.senderID p
  | .entityRpc => routeRPC p
  | .entityDeletion => do
      let (id, p) ← onPacket (getScalar 4) p
      let s ← Fallible.get
      match s.scene.entities[Int32.ofBitVec id]? with
      | none => return ()
      | some ent =>
          if ent.info.ownerID = p.info.senderID then sendPacketToAllClients p.info.senderID p
          else return ()
  | _ => return ()

/-! ## Sending as a client -/

/-- `Client::sendPacket`, returning the packet it leaves.  A `ClientHost` emits the
packet to the handlers of its server. -/
def sendPacket (stack : Nat) (hook : EntityID → List WriteOp) (p : Packet) : ProcessM Packet := do
  let s ← Fallible.get
  if s.role = .host then do
    let p ← stamp p
    let p : Packet := { p with info := { senderID := s.id, timeReceived := s.now } }
    serverHandler stack hook p
    return p
  else sendToServer p

/-- `Entity::isOwner`. -/
def isOwner (s : Process) (ent : Entity) : Bool :=
  if ent.info.ID < 0 then true
  else if s.role = .server then ent.info.ownerID = 0
  else s.id = ent.info.ownerID

/-- Whether the network tick serializes an entity. -/
def isDue (s : Process) (ent : Entity) : Prop :=
  s.isOwner ent ∧ 0 < ent.networkTickRate ∧
    s.scene.totalNetworkTicks % ent.networkTickRate = 0

instance (s : Process) (ent : Entity) : Decidable (s.isDue ent) :=
  inferInstanceAs (Decidable (_ ∧ _))

/-- The loop of the network tick; one packet is cleared and written again for each
entity. -/
def tickEntities (stack : Nat) (hook : EntityID → List WriteOp) :
    List (EntityID × Entity) → Packet → ProcessM Unit
  | [], _ => return ()
  | (id, ent) :: rest, p => do
      let s ← Fallible.get
      if s.isDue ent then do
        let (_, p) ← onPacket (putEntityInfo ent.info) p.clear
        let (_, p) ← onPacket (WriteOp.performAll (hook id)) p
        record (.tick ent.info)
        let p ← sendPacket stack hook p
        tickEntities stack hook rest p
      else tickEntities stack hook rest p

/-- The handler of `on_network_tick`, which only a process with a client has. -/
def networkTick (stack : Nat) (hook : EntityID → List WriteOp) : ProcessM Unit := do
  modifyScene fun g => { g with totalNetworkTicks := g.totalNetworkTicks + 1 }
  let s ← Fallible.get
  tickEntities stack hook s.scene.entities.toList (ofHeader { type := .entityUpdate })

/-- `RPCManager::call` with a network manager, on an entity of this scenegraph.
`arguments` are the values in the order in which `fillPacket` writes them. -/
def callRPC (stack : Nat) (hook : EntityID → List WriteOp) (target : Entity) (name : StdString)
    (arguments : List WriteOp) : ProcessM Unit := do
  let s ← Fallible.get
  if s.role = .server then return ()
  else
    match s.scene.registry.entityRpcs target.info.type name with
    | none => return ()
    | some rpc => do
        let plan := RPCInfo rpc.rpctype (s.isOwner target)
        let (_, p) ← onPacket (putEntityInfo target.info) (ofHeader { type := .entityRpc })
        let (_, p) ← onPacket (putString name) p
        let (_, p) ← onPacket (WriteOp.performAll arguments) p
        let p ← if plan.2 then sendPacket stack hook p else pure p
        if plan.1 then receiveRPC p target.info else return ()

end Process

end EnkiNet
