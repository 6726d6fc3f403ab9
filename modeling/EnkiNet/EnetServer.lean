import EnkiNet.Channels
import EnkiNet.ClientIds

/-!
# The server's transport and its threads

`enetpp::server` keeps ENet in a worker thread.  The worker makes a `ClientInfo` for each
connection and passes what ENet reports through an event queue to the thread that calls
`consume_events`; what the game sends goes the other way through a packet queue.  Client
objects and outgoing packets are on the heap and passed by pointer, so an object is a
number here, which is never used again, and a deleted object stays deleted.  What an
assertion of the source would stop, and what touches a deleted object, is a `Violation`
that is written down.

The events of a run are steps of the threads, in any order: the worker's two loops, turn by
turn where another thread can come in between, the loop of `consume_events`, the send
functions and `Server::update`.  A step is taken as a whole, though not all of them exclude
each other in the source: `consume_events` and `send_packet_to_all_if` share no lock for
`_connected_clients`, nor do the worker and the game for `free_ids`.  ENet itself, which is
not modelled, reports for each peer a connection, then any packets, then the disconnection.

`object_safety` is about client objects, in every run; `stopListening` then deletes each of them
once (`stop_deletes_each_once`).
-/

namespace EnkiNet

open ByteStore Packet

/-- `ENetPeer::state`, as far as it matters here: a peer whose disconnection has not been
reported yet need not be connected any more. -/
inductive PeerState
  | disconnected
  | connected
  | zombie
  deriving DecidableEq, Repr

structure ENetPeer where
  state : PeerState := .disconnected
  /-- A client object, or the null pointer. -/
  data : Option Nat := none
  deriving DecidableEq, Repr

/-- An outgoing packet.  ENet counts the peers that still need it. -/
structure ENetPacket where
  data : List Byte
  referenceCount : Nat := 0
  destroyed : Bool := false
  deriving DecidableEq, Repr

/-- `server_queued_packet`. -/
structure QueuedPacket where
  channelID : UInt8
  packet : Nat
  clientID : ClientID
  deriving DecidableEq, Repr

/-- The type of a `server_event`, with the data of a received packet. -/
inductive EventType
  | connect
  | receive (data : List Byte)
  | disconnect
  deriving DecidableEq, Repr

/-- What the handlers will see of an event: the type of its packet and what is behind the header. -/
def EventType.view : EventType → PacketType × List Byte
  | .connect => (.connected, [])
  | .receive data => ((PacketHeader.ofBytes data).type, data.drop headerSize)
  | .disconnect => (.disconnected, [])

def packetView (p : Packet) : PacketType × List Byte := (p.header.type, p.bytes.drop headerSize)

inductive Violation
  /-- `assert(e.peer->data == nullptr)`. -/
  | peerHasData
  /-- `assert(iter != _thread_peer_map.end())`. -/
  | notInPeerMap
  /-- `assert(iter->second == e.peer)`. -/
  | otherPeerInMap
  /-- `assert(iter != _connected_clients.end())`. -/
  | clientNotConnected
  | deletedClient
  | destroyedPacket
  deriving DecidableEq, Repr

/-- An `enetpp::server` and the `ServerHost` or `ServerStandard` that owns it.  A pair of an
event queue is the client object and the event's type. -/
structure EnetServer where
  peers : Nat → ENetPeer := fun _ => {}
  /-- Every client object ever made, `none` once it is deleted. -/
  clients : List (Option ClientID) := []
  packets : List ENetPacket := []
  threadPeerMap : AList (fun _ : ClientID => Nat) := ∅
  connectedClients : List Nat := []
  packetQueue : List QueuedPacket := []
  eventQueue : List (Nat × EventType) := []
  eventQueueCopy : List (Nat × EventType) := []
  nextUid : ClientID := 2
  freeIds : List ClientID := []
  /-- `Server::packets`. -/
  received : List Packet := []
  /-- What `Server::update` has emitted, as a record. -/
  emitted : List Packet := []
  /-- What `enet_peer_send` has taken for a peer, as a record. -/
  sent : List (Nat × List Byte) := []
  violations : List Violation := []

namespace EnetServer

def violate (v : Violation) (s : EnetServer) : EnetServer :=
  { s with violations := s.violations ++ [v] }

/-- `assert`. -/
def check (holds : Prop) [Decidable holds] (v : Violation) (s : EnetServer) : EnetServer :=
  if holds then s else s.violate v

/-- `client->get_id()`; `none` for an object that has been deleted. -/
def getID (s : EnetServer) (client : Nat) : Option ClientID := s.clients[client]?.join

/-- `delete client`. -/
def deleteClient (s : EnetServer) (client : Nat) : EnetServer :=
  if s.getID client = none then s.violate .deletedClient
  else { s with clients := s.clients.set client none }

/-- `enet_packet_destroy`. -/
def destroyPacket (s : EnetServer) (packet : Nat) : EnetServer :=
  match s.packets[packet]? with
  | some { data, referenceCount, destroyed := false } =>
      { s with packets := s.packets.set packet { data, referenceCount, destroyed := true } }
  | _ => s.violate .destroyedPacket

/-! ## Sending -/

/-- `send_packet_to`. -/
def sendPacketTo (client : ClientID) (channel : UInt8) (data : List Byte) (s : EnetServer) :
    EnetServer :=
  { s with
    packets := s.packets ++ [{ data := data }]
    packetQueue := s.packetQueue ++ [⟨channel, s.packets.length, client⟩] }

/-- One turn of the loop in `send_packet_to_all_if`, with its flag `queued`. -/
def emplaceIf (predicate : ClientID → Bool) (channel : UInt8) (packet : Nat) :
    EnetServer × Bool → Nat → EnetServer × Bool
  | (s, queued), client =>
      match s.getID client with
      | none => (s.violate .deletedClient, queued)
      | some id =>
          if predicate id then
            ({ s with packetQueue := s.packetQueue ++ [⟨channel, packet, id⟩] }, true)
          else (s, queued)

/-- `send_packet_to_all_if`. -/
def sendPacketToAllIf (predicate : ClientID → Bool) (channel : UInt8) (data : List Byte)
    (s : EnetServer) : EnetServer :=
  let packet := s.packets.length
  let created := { s with packets := s.packets ++ [{ data := data }] }
  let (s, queued) := s.connectedClients.foldl (emplaceIf predicate channel packet) (created, false)
  if queued then s else s.destroyPacket packet

/-- One turn of the loop in `send_queued_packets_in_thread`.  `accepts` is what
`enet_peer_send` says to a peer that is connected. -/
def sendQueuedPacket (accepts : Nat → UInt8 → List Byte → Bool) (s : EnetServer)
    (qp : QueuedPacket) : EnetServer :=
  match s.threadPeerMap.lookup qp.clientID with
  | none => s
  | some peer =>
      if (s.peers peer).state = .connected then
        match s.packets[qp.packet]? with
        | some { data, referenceCount, destroyed := false } =>
            if accepts peer qp.channelID data then
              { s with
                packets := s.packets.set qp.packet { data, referenceCount := referenceCount + 1 }
                sent := s.sent ++ [(peer, data)] }
            else if referenceCount = 0 then s.destroyPacket qp.packet
            else s
        | _ => s.violate .destroyedPacket
      else s

/-- `send_queued_packets_in_thread`. -/
def sendQueuedPackets (accepts : Nat → UInt8 → List Byte → Bool) (s : EnetServer) : EnetServer :=
  s.packetQueue.foldl (sendQueuedPacket accepts) { s with packetQueue := [] }

/-- ENet no longer needs a packet for one of the peers. -/
def release (packet : Nat) (s : EnetServer) : Option EnetServer :=
  match s.packets[packet]? with
  | some { data, referenceCount := n + 1, destroyed := false } =>
      some { s with packets :=
        s.packets.set packet { data, referenceCount := n, destroyed := n = 0 } }
  | _ => none

/-! ## The worker's events -/

/-- `getNextUID`. -/
def getNextUID (s : EnetServer) : ClientID × EnetServer :=
  match s.freeIds with
  | [] => (s.nextUid, { s with nextUid := s.nextUid + 1 })
  | id :: rest => (id, { s with freeIds := rest })

/-- The packet that tells a client its id, as it is sent. -/
def initializedPacket (id : ClientID) (sentAt : UInt32) : Packet :=
  let p := (putScalar (k := 4) id.toBitVec (ofHeader { type := .clientInitialized })).2
  p.setHeader { p.header with timeSent := sentAt }

def initializedData (id : ClientID) (sentAt : UInt32) : List Byte :=
  let p := initializedPacket id sentAt
  p.bytes.take p.bytesWritten

/-- The `client_init` lambda.  A `ServerHost` would emit a packet for the id 1 to its own client. -/
def clientInit (kind : ServerKind) (sentAt : UInt32) (s : EnetServer) : ClientID × EnetServer :=
  let (id, s) := s.getNextUID
  if kind = .host ∧ id = 1 then (id, s)
  else (id, s.sendPacketTo id 0 (initializedData id sentAt))

/-- `handle_connect_event_in_thread`. -/
def handleConnectEvent (kind : ServerKind) (sentAt : UInt32) (peer : Nat) (s : EnetServer) :
    EnetServer :=
  let client := s.clients.length
  let (id, s) := s.clientInit kind sentAt
  let s := s.check ((s.peers peer).data = none) .peerHasData
  { s with
    clients := s.clients ++ [some id]
    peers := Function.update s.peers peer { state := .connected, data := some client }
    threadPeerMap := s.threadPeerMap.insert id peer
    eventQueue := s.eventQueue ++ [(client, .connect)] }

/-- `handle_receive_event_in_thread`. -/
def handleReceiveEvent (peer : Nat) (data : List Byte) (s : EnetServer) : EnetServer :=
  match (s.peers peer).data with
  | none => s
  | some client => { s with eventQueue := s.eventQueue ++ [(client, .receive data)] }

/-- What `handle_disconnect_event_in_thread` does with `_thread_peer_map`. -/
def erasePeer (peer : Nat) (client : Nat) (s : EnetServer) : EnetServer :=
  match s.getID client with
  | none => s.violate .deletedClient
  | some id =>
      match s.threadPeerMap.lookup id with
      | none => s.violate .notInPeerMap
      | some other =>
          { s.check (other = peer) .otherPeerInMap with
            threadPeerMap := s.threadPeerMap.erase id }

/-- `handle_disconnect_event_in_thread`. -/
def handleDisconnectEvent (peer : Nat) (s : EnetServer) : EnetServer :=
  match (s.peers peer).data with
  | none => { s with peers := Function.update s.peers peer {} }
  | some client =>
      let s := s.erasePeer peer client
      { s with
        peers := Function.update s.peers peer {}
        eventQueue := s.eventQueue ++ [(client, .disconnect)] }

/-! ## The consumer -/

/-- `pushPacket`. -/
def pushPacket (p : Packet) (s : EnetServer) : EnetServer :=
    { s with received := s.received ++ [p] }

/-- One turn of the loop in `consume_events`, after the event has been read and with the lambdas
that `processPackets` passes; `none` where a received packet is too short to be one. -/
def handleEvent (sentAt receivedAt : UInt32) (client : Nat) (type : EventType) (s : EnetServer) :
    Option EnetServer :=
  match type with
  | .connect =>
      let s := { s with connectedClients := s.connectedClients ++ [client] }
      match s.getID client with
      | none => some (s.violate .deletedClient)
      | some id => some (s.pushPacket (onClientConnected id sentAt receivedAt))
  | .disconnect =>
      let s := s.check (client ∈ s.connectedClients) .clientNotConnected
      let s := { s with connectedClients := s.connectedClients.erase client }
      match s.getID client with
      | none => some (s.violate .deletedClient)
      | some id =>
          some ((s.deleteClient client).pushPacket (onClientDisconnected id sentAt receivedAt))
  | .receive data =>
      match s.getID client with
      | none => some (s.violate .deletedClient)
      | some id =>
          match onClientDataReceived id data receivedAt with
          | .ok p => some (s.pushPacket p)
          | .error _ => none

/-- The handler that the constructor connects to `on_packet_received`. -/
def onPacketReceived (p : Packet) (s : EnetServer) : EnetServer :=
  if p.header.type = .disconnected then { s with freeIds := s.freeIds ++ [p.info.senderID] }
  else s

/-! ## Steps -/

inductive Event
  /-- ENet reports a connection, a packet, a disconnection to the worker. -/
  | connect (peer : Nat) (sentAt : UInt32)
  | receive (peer : Nat) (data : List Byte)
  | disconnect (peer : Nat)
  /-- A peer is lost; its disconnection is reported later. -/
  | lose (peer : Nat)
  | sendQueuedPackets
  | release (packet : Nat)
  /-- The start of `consume_events`: the queue is copied and emptied. -/
  | takeEvents
  | handleEvent (sentAt receivedAt : UInt32)
  /-- `Server::update`, one packet of it. -/
  | update
  | sendPacketTo (client : ClientID) (channel : UInt8) (data : List Byte)
  | sendPacketToAllIf (predicate : ClientID → Bool) (channel : UInt8) (data : List Byte)
  /-- The host's own client sends a packet. -/
  | localPacket (p : Packet) (sentAt receivedAt : UInt32)

section
variable (kind : ServerKind) (accepts : Nat → UInt8 → List Byte → Bool)

/-- `none` where ENet would not report the event, where a queue is empty, and where there is no
local client. -/
def step (s : EnetServer) : Event → Option EnetServer
  | .connect peer sentAt =>
      if (s.peers peer).state = .disconnected then some (s.handleConnectEvent kind sentAt peer) else
        none
  | .receive peer data =>
      if (s.peers peer).state = .disconnected then none else some (s.handleReceiveEvent peer data)
  | .disconnect peer =>
      if (s.peers peer).state = .disconnected then none else some (s.handleDisconnectEvent peer)
  | .lose peer =>
      if (s.peers peer).state = .disconnected then none
      else some { s with
        peers := Function.update s.peers peer { s.peers peer with state := .zombie } }
  | .sendQueuedPackets => some (s.sendQueuedPackets accepts)
  | .release packet => s.release packet
  | .takeEvents =>
      -- the loop of the last call has ended, which is what its assertion says
      if s.eventQueueCopy = [] then some { s with eventQueueCopy := s.eventQueue, eventQueue := [] }
      else none
  | .handleEvent sentAt receivedAt =>
      match s.eventQueueCopy with
      | [] => none
      | (client, type) :: rest =>
          handleEvent sentAt receivedAt client type { s with eventQueueCopy := rest }
  | .update =>
      match s.received with
      | [] => none
      | p :: rest => some (onPacketReceived p
        { s with received := rest, emitted := s.emitted ++ [p] })
  | .sendPacketTo client channel data => some (s.sendPacketTo client channel data)
  | .sendPacketToAllIf predicate channel data => some (s.sendPacketToAllIf predicate channel data)
  | .localPacket p sentAt receivedAt =>
      match kind with
      | .host => some (s.onPacketReceived (stampByClientHost sentAt receivedAt p))
      | .standard => none

end

/-! ## Stopping -/

/-- `destroy_unhandled_event_data`. -/
def destroyUnhandledEventData (s : EnetServer) : Nat × EventType → EnetServer
  | (client, .connect) => s.deleteClient client
  | _ => s

/-- `disconnect_all_peers_in_thread`. -/
def disconnectAllPeers (s : EnetServer) : EnetServer :=
  { s with
    peers := s.threadPeerMap.entries.foldl
      (fun peers entry => Function.update peers entry.2 {}) s.peers
    threadPeerMap := ∅ }

/-- `stop_listening`, whose first lines wait for the worker to disconnect all peers. -/
def stopListening (s : EnetServer) : EnetServer :=
  let s := s.disconnectAllPeers
  let s := { s.packetQueue.foldl (fun s qp => s.destroyPacket qp.packet) s with packetQueue := [] }
  let s := { s.eventQueue.foldl destroyUnhandledEventData s with eventQueue := [] }
  { s.connectedClients.foldl deleteClient s with connectedClients := [] }

end EnetServer

end EnkiNet
