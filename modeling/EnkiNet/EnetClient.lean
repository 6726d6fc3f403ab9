import EnkiNet.EnetServer
import EnkiNet.Timestamps

/-!
# The client's transport and its threads

`enetpp::client` is the other end of `enetpp::server`: a worker thread that owns the one peer, a
queue of events for the thread that calls `consume_events`, and a queue of packets for the
worker.  An `EnetClient` begins with the constructor of the `ClientStandard` that owns it, which
calls `connect`.  ENet reports a connection, then any packets, then the disconnection, or
the disconnection at once; it takes packets only in between.

`disconnect` is called in two places, by `consume_events` when it has handled the disconnection and
by the destructor of the `ClientStandard`.  It waits for the worker to end, so that what it does
then comes after all that the worker does.  What else the destructor does is no part of a run.

`events_in_order` follows every event to the handlers, `packets_owned` every outgoing packet to its
end.
-/

namespace EnkiNet

open ByteStore Packet

/-- Where the worker is in `run_in_thread`. -/
inductive Worker
  | starting
  | running
  | disconnecting
  /-- Out of the loop: it sleeps, and has yet to destroy its host. -/
  | finishing
  | ended
  deriving DecidableEq, Repr

/-- The worker takes no more turns of its loop. -/
def Worker.left : Worker → Bool
  | .finishing | .ended => true
  | _ => false

/-- What ENet has made of the client's peer. -/
inductive Link
  | connecting
  | connected
  | zombie
  deriving DecidableEq, Repr

structure EnetClient where
  worker : Worker := .starting
  link : Link := .connecting
  /-- `_thread != nullptr`. -/
  thread : Bool := true
  shouldExitThread : Bool := false
  /-- The game is in `send_packet`, past the look at `_thread`. -/
  sending : Bool := false
  packets : List ENetPacket := []
  packetQueue : List (UInt8 × Nat) := []
  eventQueue : List EventType := []
  eventQueueCopy : List EventType := []
  /-- `is_disconnected`, while `consume_events` is under way. -/
  isDisconnected : Option Bool := none
  id : ClientID := 0
  connectedToServer : Bool := false
  /-- `Client::packets`. -/
  received : List Packet := []
  /-- What `Client::update` has emitted, as a record. -/
  emitted : List Packet := []
  /-- What `enet_peer_send` has taken, as a record. -/
  sent : List (List Byte) := []
  /-- Something has touched a destroyed packet. -/
  misused : Bool := false

namespace EnetClient

/-! ## The worker -/

/-- `enet_packet_destroy`. -/
def destroyPacket (s : EnetClient) (packet : Nat) : EnetClient :=
  match s.packets[packet]? with
  | some { data, referenceCount, destroyed := false } =>
      { s with packets := s.packets.set packet { data, referenceCount, destroyed := true } }
  | _ => { s with misused := true }

/-- One turn of the loop in `send_queued_packets_in_thread`.  `accepts` is what `enet_peer_send`
says on a connection that is up. -/
def sendQueuedPacket (accepts : UInt8 → List Byte → Bool) (s : EnetClient) (qp : UInt8 × Nat) :
    EnetClient :=
  match s.packets[qp.2]? with
  | some { data, referenceCount, destroyed := false } =>
      if s.link = .connected ∧ accepts qp.1 data then
        { s with
          packets := s.packets.set qp.2 { data, referenceCount := referenceCount + 1 }
          sent := s.sent ++ [data] }
      else if referenceCount = 0 then s.destroyPacket qp.2
      else s
  | _ => { s with misused := true }

/-- `send_queued_packets_in_thread`. -/
def sendQueuedPackets (accepts : UInt8 → List Byte → Bool) (s : EnetClient) : EnetClient :=
  s.packetQueue.foldl (sendQueuedPacket accepts) { s with packetQueue := [] }

/-- ENet no longer needs a packet. -/
def release (packet : Nat) (s : EnetClient) : Option EnetClient :=
  match s.packets[packet]? with
  | some { data, referenceCount := n + 1, destroyed := false } =>
      some { s with packets :=
        s.packets.set packet { data, referenceCount := n, destroyed := n = 0 } }
  | _ => none

/-- The end of `run_in_thread`: with its host, ENet lets go of what it still has. -/
def endWorker (s : EnetClient) : EnetClient :=
  { s with
    worker := .ended
    packets := s.packets.map fun p =>
      if p.referenceCount = 0 then p else { p with referenceCount := 0, destroyed := true } }

/-! ## The consumer -/

/-- One turn of the loop in `consume_events`, with the lambdas that `processPackets` passes; `none`
where a received packet is too short to be one. -/
def handleEvent (sentAt receivedAt : UInt32) (type : EventType) (s : EnetClient) :
    Option EnetClient :=
  match type with
  | .connect => some { s with
      connectedToServer := true
      received := s.received ++ [onConnected sentAt receivedAt] }
  | .disconnect => some { s with
      connectedToServer := false
      isDisconnected := some true
      received := s.received ++ [onDisconnected sentAt receivedAt] }
  | .receive data =>
      match onDataReceived s.id data receivedAt with
      | .ok (id, p) => some { s with id := id, received := s.received ++ [p] }
      | .error _ => none

/-- What `disconnect` does after the worker has ended. -/
def disconnect (s : EnetClient) : EnetClient :=
  let s := { s with thread := false, shouldExitThread := true }
  let s := { s.packetQueue.foldl (fun s qp => s.destroyPacket qp.2) s with packetQueue := [] }
  { s with eventQueue := [] }

/-- `isConnected` of the `ClientStandard`. -/
def isConnected (s : EnetClient) : Bool := s.thread && s.connectedToServer

/-! ## Steps -/

inductive Event
  /-- The worker has made its host and its peer, or it could not. -/
  | start (made : Bool)
  /-- ENet reports the connection, a packet, the disconnection to the worker. -/
  | connect
  | receive (data : List Byte)
  | disconnect
  /-- The connection is lost; that is reported later. -/
  | lose
  /-- The worker sees `_should_exit_thread`. -/
  | noticeExit
  /-- `enet_peer_disconnect` took too long. -/
  | giveUp
  /-- The last thing that the worker does. -/
  | destroyHost
  | sendQueuedPackets
  | release (packet : Nat)
  /-- The start of `consume_events`. -/
  | takeEvents
  | handleEvent (sentAt receivedAt : UInt32)
  /-- The end of `consume_events`. -/
  | finishEvents
  /-- `Client::update`, one packet of it. -/
  | update
  /-- `send_packet` looks at `_thread`, and then puts the packet into the queue. -/
  | checkThread
  | sendPacket (channel : UInt8) (data : List Byte)
  /-- The destructor tells the worker to exit. -/
  | exit
  deriving DecidableEq, Repr

section
variable (accepts : UInt8 → List Byte → Bool)

/-- `none` where ENet would not report the event, where a queue is empty, where a thread waits, and
where the game sends without a worker, which an assertion forbids. -/
def step (s : EnetClient) : Event → Option EnetClient
  | .start made =>
      if s.worker = .starting then
        some (if made then { s with worker := .running } else s.endWorker)
      else none
  | .connect =>
      if s.worker = .running ∧ s.link = .connecting then
        some { s with link := .connected, eventQueue := s.eventQueue ++ [.connect] }
      else none
  | .receive data =>
      if s.worker = .running ∧ s.link = .connected then
        some { s with eventQueue := s.eventQueue ++ [.receive data] }
      else none
  | .disconnect =>
      if s.worker = .running ∨ s.worker = .disconnecting then
        some { s with worker := .finishing, eventQueue := s.eventQueue ++ [.disconnect] }
      else none
  | .lose => if s.worker = .running then some { s with link := .zombie } else none
  | .noticeExit =>
      if s.worker = .running ∧ s.shouldExitThread then some { s with worker := .disconnecting }
      else none
  | .giveUp => if s.worker = .disconnecting then some { s with worker := .finishing } else none
  | .destroyHost => if s.worker = .finishing then some s.endWorker else none
  | .sendQueuedPackets => if s.worker = .running then some (s.sendQueuedPackets accepts) else none
  | .release packet => s.release packet
  | .takeEvents =>
      if s.isDisconnected = none ∧ s.eventQueue ≠ [] then
        some { s with
          isDisconnected := some false
          eventQueueCopy := s.eventQueue
          eventQueue := [] }
      else none
  | .handleEvent sentAt receivedAt =>
      match s.eventQueueCopy with
      | [] => none
      | type :: rest => handleEvent sentAt receivedAt type { s with eventQueueCopy := rest }
  | .finishEvents =>
      match s.isDisconnected, s.eventQueueCopy with
      | some false, [] => some { s with isDisconnected := none }
      | some true, [] =>
          -- `disconnect` joins the worker first
          if s.worker = .ended then some { s.disconnect with isDisconnected := none } else none
      | _, _ => none
  | .update =>
      match s.received with
      | [] => none
      | p :: rest => some { s with received := rest, emitted := s.emitted ++ [p] }
  | .checkThread => if s.thread ∧ ¬ s.sending then some { s with sending := true } else none
  | .sendPacket channel data =>
      if s.sending then
        some { s with
          sending := false
          packets := s.packets ++ [{ data := data }]
          packetQueue := s.packetQueue ++ [(channel, s.packets.length)] }
      else none
  | .exit => some { s with shouldExitThread := true }

end

end EnetClient

end EnkiNet
