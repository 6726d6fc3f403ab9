import EnkiNet.ClientIds
import EnkiNet.Operations

/-!
# Host sessions

A listen server (`ServerHost` with its `ClientHost`) and the remote clients that are
connected to it.  The transport is reliable and keeps the order of what each sender
sends to each receiver: what is in flight from one process to another is what the
sender's `outbox` still holds for it.

An event is one thing that happens: a client connects or disconnects, the server
receives a datagram into its queue or serves the next packet of the queue, a client
handles the next datagram from the server, game code calls the library somewhere,
or a client sends bytes that no library function has made.  An event that ends in an
exception that nobody catches, or in undefined behaviour, has no next state.

Clients that are connected have distinct ids: nobody connects under an id while another
client has it, although `getNextUID` can hand one out once that client has sent a packet of
type `DISCONNECTED`.  A client knows its id from the start here; in the source it is the
first packet that the server sends to it.
-/

namespace EnkiNet

open ByteStore Packet

/-- What the hooks `serializeOnTick` and `serializeOnConnection` of each entity write. -/
structure Hooks where
  script : EntityID → List WriteOp
  representable : ∀ id, WriteOp.AllRepresentable (script id)

def Hooks.silent : Hooks := ⟨fun _ => [], fun _ => trivial⟩

/-- What game code does in a process. -/
inductive GameCall
  /-- An entity that no other process is to know. -/
  | createEntity (info : EntityInfo) (fresh : info.ID = 0) (spawnInfo : Packet)
  | createNetworkedEntity (info : EntityInfo) (spawnInfo : Packet) (sound : spawnInfo.Sound)
  | deleteEntity (id : EntityID)
  | update
  | networkTick
  | callRPC (id : EntityID) (name : StdString) (arguments : List WriteOp)
      (representable : WriteOp.AllRepresentable arguments)
  | setNetworkTickRate (id : EntityID) (rate : UInt32)
  | elapse (now : UInt32)

/-- `stack` is the room for nested calls. -/
def GameCall.run (stack : Nat) (hooks : Hooks) : GameCall → ProcessM Unit
  | .createEntity info _ spawnInfo => do
      let _ ← Process.createEntity info spawnInfo
  | .createNetworkedEntity info spawnInfo _ => Process.createNetworkedEntity stack info spawnInfo
  | .deleteEntity id => Process.deleteEntity id
  | .update => Process.update
  | .networkTick => Process.networkTick stack hooks.script
  | .callRPC id name arguments _ => do
      let s ← Fallible.get
      match s.scene.entities[id]? with
      | none => return ()
      | some target => Process.callRPC stack hooks.script target name arguments
  | .setNetworkTickRate id rate =>
      Process.modifyScene fun g =>
        { g with entities := g.entities.modify id fun ent => { ent with networkTickRate := rate } }
  | .elapse now => Fallible.modify fun s => { s with now := now }

structure Session where
  host : Process
  /-- The process of a connected client. -/
  peer : ClientID → Process
  /-- `Server::packets`. -/
  queue : List Packet := []

namespace Session

inductive Event
  | connect (c : ClientID) (sentAt receivedAt : UInt32)
  | disconnect (c : ClientID) (sentAt receivedAt : UInt32)
  /-- The client sends bytes of its own making. -/
  | send (c : ClientID) (data : List Byte)
  /-- `processPackets` of the server, one datagram of it. -/
  | receive (c : ClientID) (receivedAt : UInt32)
  /-- `Server::update`, one packet of it. -/
  | serve (stack : Nat) (hooks : Hooks)
  /-- `processPackets` and `update` of a client, one datagram of them. -/
  | deliver (c : ClientID) (receivedAt : UInt32)
  | hostCall (stack : Nat) (hooks : Hooks) (call : GameCall)
  | peerCall (c : ClientID) (stack : Nat) (hooks : Hooks) (call : GameCall)

end Session

namespace Process

/-- The process after a program that succeeds. -/
def after (x : ProcessM Unit) (s : Process) : Option Process :=
  match x s with
  | (.ok (), s') => some s'
  | (.error _, _) => none

/-- Take the oldest datagram for `c` out of the outbox. -/
def dropNext (c : ClientID) (s : Process) : Process :=
  { s with outbox := s.outbox.eraseP fun (dest, _) => dest = c }

/-- Drop everything for `c`: a new client gets nothing that was for an earlier one of its id.  The
transport drops nothing; in a queue there what waits under the id would go to the new client. -/
def forget (c : ClientID) (s : Process) : Process :=
  { s with outbox := s.outbox.filter fun (dest, _) => dest ≠ c }

end Process

namespace Session

/-- The session in which no client has connected yet. -/
def start (registry : Registry) : Session where
  host := { role := .host, id := 1, scene := { registry := registry } }
  peer _ := { role := .client, id := 0 }

/-- The process of a client that has just connected. -/
def newcomer (registry : Registry) (c : ClientID) : Process :=
  { role := .client, id := c, scene := { registry := registry } }

def connect (s : Session) (c : ClientID) (sentAt receivedAt : UInt32) : Session where
  host := { s.host.forget c with connected := s.host.connected ++ [c] }
  peer := Function.update s.peer c (newcomer s.host.scene.registry c)
  queue := s.queue ++ [onClientConnected c sentAt receivedAt]

def disconnect (s : Session) (c : ClientID) (sentAt receivedAt : UInt32) : Session where
  host := { s.host with connected := s.host.connected.erase c }
  peer := s.peer
  queue := s.queue ++ [onClientDisconnected c sentAt receivedAt]

/-- The session with another state of one client. -/
def setPeer (s : Session) (c : ClientID) (p : Process) : Session :=
  { s with peer := Function.update s.peer c p }

/-- A packet as a client's `on_data_received` makes it. -/
def arriving (receivedAt : UInt32) (data : List Byte) : Except Fault Packet := do
  let p ← ofData data
  return { p with
    info := {
      senderID := 1
      timeReceived := if p.header.timeSent > receivedAt then p.header.timeSent else receivedAt } }

def step (s : Session) : Event → Option Session
  | .connect c sentAt receivedAt =>
      if c ∈ s.host.connected ∨ c = 0 ∨ c = 1 then none
      else some (s.connect c sentAt receivedAt)
  | .disconnect c sentAt receivedAt =>
      if c ∈ s.host.connected then some (s.disconnect c sentAt receivedAt) else none
  | .send c data =>
      if c ∈ s.host.connected then
        some (s.setPeer c { s.peer c with
          outbox := (s.peer c).outbox ++ [(1, { origin := c, data := data })] })
      else none
  | .receive c receivedAt =>
      if c ∈ s.host.connected then
        match (s.peer c).pending 1 with
        | [] => none
        | d :: _ =>
            match onClientDataReceived c d.data receivedAt with
            | .ok p =>
                some { s.setPeer c ((s.peer c).dropNext 1) with queue := s.queue ++ [p] }
            | .error _ => none
      else none
  | .serve stack hooks =>
      match s.queue with
      | [] => none
      | p :: rest => do
          let host ← s.host.after (Process.serverHandler stack hooks.script p)
          return { s with host := host, queue := rest }
  | .deliver c receivedAt =>
      if c ∈ s.host.connected then
        match s.host.pending c with
        | [] => none
        | d :: _ =>
            match arriving receivedAt d.data with
            | .ok p => do
                let peer ← (s.peer c).after (Process.clientHandler d.origin p)
                return { s.setPeer c peer with host := s.host.dropNext c }
            | .error _ => none
      else none
  | .hostCall stack hooks call => do
      let host ← s.host.after (call.run stack hooks)
      return { s with host := host }
  | .peerCall c stack hooks call =>
      if c ∈ s.host.connected then do
        let peer ← (s.peer c).after (call.run stack hooks)
        return s.setPeer c peer
      else none

/-! ## Small facts -/

section
variable {s : Session} {c c' : ClientID} {p : Process}

@[simp] theorem setPeer_host : (s.setPeer c p).host = s.host := rfl
@[simp] theorem setPeer_queue : (s.setPeer c p).queue = s.queue := rfl

@[simp] theorem setPeer_peer_self : (s.setPeer c p).peer c = p := by simp [setPeer]

theorem setPeer_peer_ne (h : c' ≠ c) : (s.setPeer c p).peer c' = s.peer c' := by
  simp [setPeer, h]

end

end Session

namespace Process

theorem after_eq_some {x : ProcessM Unit} {s s' : Process} (h : s.after x = some s') :
    x s = (.ok (), s') := by
  unfold after at h
  split at h
  · next hx =>
    cases h
    exact hx
  · cases h

theorem pending_dropNext (s : Process) (c c' : ClientID) :
    (s.dropNext c).pending c' = if c' = c then (s.pending c).tail else s.pending c' := by
  simp only [dropNext, pending]
  induction s.outbox with
  | nil => split <;> rfl
  | cons entry rest ih =>
      obtain ⟨dest, d⟩ := entry
      by_cases hdest : dest = c
      · by_cases hc : c' = c
        · simp [hdest, hc]
        · simp [hdest, hc, Ne.symm hc]
      · by_cases hc : c' = c
        · subst hc
          simpa [List.eraseP_cons, hdest] using ih
        · by_cases hdest' : dest = c'
          · simpa [List.eraseP_cons, hdest, hc, hdest'] using ih
          · simpa [List.eraseP_cons, hdest, hc, hdest'] using ih

theorem pending_forget (s : Process) (c c' : ClientID) :
    (s.forget c).pending c' = if c' = c then [] else s.pending c' := by
  simp only [forget, pending, List.filterMap_filter]
  split
  · next h =>
    rw [List.filterMap_eq_nil_iff]
    rintro ⟨dest, d⟩ _
    by_cases hdest : dest = c <;> simp [hdest, h]
  · next h =>
    apply List.filterMap_congr
    rintro ⟨dest, d⟩ _
    by_cases hdest : dest = c
    · simp [hdest, Ne.symm h]
    · simp [hdest]

end Process

/-! ## A sample game -/

namespace Sample

def letter (b : Byte) : StdString := ⟨[b], by simp⟩

/-- One class of entities, with the hooks that `Entity` itself has. -/
def registry : Registry where
  builders type := if type = letter 65 then some {} else none

def info (id : EntityID) (owner : ClientID) : EntityInfo :=
  { type := letter 65, name := letter 66, ID := id, ownerID := owner }

/-- The bytes that a client puts on the wire after these writes. -/
def bytes (type : PacketType) (write : PacketM Unit) : List Byte :=
  let p := (write (ofHeader { type := type })).2
  p.bytes.take p.bytesWritten

theorem sound_blank : (ofHeader {}).Sound := by decide +kernel

/-- `createNetworkedEntity` with an info that leaves the id and the owner open. -/
def create : GameCall :=
  .createNetworkedEntity (info 0 0) (ofHeader {}) sound_blank

end Sample

end EnkiNet
