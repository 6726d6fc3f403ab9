import EnkiNet.Process
import EnkiNet.Runs

/-!
# Starting and stopping

`NetworkManager` owns a server, a client or both, which the game starts and stops.  Three others
go through its two pointers: its own thread, which takes packets from the transport, the handlers
that `Scenegraph::enableNetworking` has connected, and the halves of a listen server, each of
which keeps a raw pointer to the other.  An object is a number here, which is not used again.

The game's calls come in any order, and between any two of them the network thread takes any
number of its steps: it tests a pointer, dereferences it, and works with the object.  A server has
a thread of its own, the worker of the transport, which makes the `ENetHost` that the destructor of
the server reads.  An assertion that fails ends the program, so such a call cannot be taken.

`sound_iff_careful` says which calls keep every pointer valid that is used without a test, and when
a stop finds the host.
-/

namespace EnkiNet

/-- A server or a client on the heap. -/
structure Endpoint where
  object : Nat
  /-- `ServerHost::client` or `ClientHost::server`; the other classes have no such member. -/
  partner : Option Nat := none
  deriving DecidableEq, Repr

/-- Where `runThreadedNetwork` is. -/
inductive NetworkThread
  /-- At `while (!exit_thread)`. -/
  | loop
  /-- At `if (server)`. -/
  | checkServer
  /-- Before the pointer in `server->processPackets()` is read. -/
  | callServer
  | inServer (object : Nat)
  | checkClient
  | callClient
  | inClient (object : Nat)
  | stopped
  deriving DecidableEq, Repr

structure NetworkManager where
  server : Option Endpoint := none
  client : Option Endpoint := none
  /-- Whether `enet_host` of the server is there. -/
  enetHost : Bool := false
  /-- The number of the next object. -/
  next : Nat := 0
  thread : NetworkThread := .loop
  exitThread : Bool := false
  /-- `Scenegraph::network_ready`. -/
  networkReady : Bool := false
  /-- The server whose signal holds the handler of `mc1`. -/
  serverHandler : Option Nat := none
  /-- The client whose signal holds the handler of `mc2`. -/
  clientHandler : Option Nat := none
  /-- Whether `on_network_tick` holds the handler of `mc3`. -/
  tickHandler : Bool := false
  /-- How often a null pointer or a destroyed object has been used, as a record. -/
  violations : Nat := 0
  deriving DecidableEq, Repr

namespace NetworkManager

def violate (s : NetworkManager) : NetworkManager := { s with violations := s.violations + 1 }

/-- The use of an object that this endpoint may be. -/
def touch (object : Nat) (e : Option Endpoint) (s : NetworkManager) : NetworkManager :=
  if e.map Endpoint.object = some object then s else s.violate

/-! ## Starting and stopping -/

/-- `startHost`; the assertions hold where it can be called, those of `start_listening` too. -/
def startHost (s : NetworkManager) : NetworkManager :=
  { s with
    server := some ⟨s.next, some (s.next + 1)⟩
    client := some ⟨s.next + 1, some s.next⟩
    enetHost := false
    next := s.next + 2 }

def startServer (s : NetworkManager) : NetworkManager :=
  { s with server := some ⟨s.next, none⟩, enetHost := false, next := s.next + 1 }

def startClient (s : NetworkManager) : NetworkManager :=
  { s with client := some ⟨s.next, none⟩, next := s.next + 1 }

/-- The destructors of both servers log the statistics in `*server.enet_host`, whatever it is. -/
def unhosted (s : NetworkManager) : Nat := if s.server.isSome ∧ ¬ s.enetHost then 1 else 0

def stopServer (s : NetworkManager) : NetworkManager :=
  { s with server := none, violations := s.violations + s.unhosted }

def stopClient (s : NetworkManager) : NetworkManager := { s with client := none }

def stopHost (s : NetworkManager) : NetworkManager := s.stopClient.stopServer

/-- `Scenegraph::enableNetworking`. -/
def enableNetworking (s : NetworkManager) : NetworkManager :=
  if s.networkReady then s
  else if s.server = none ∧ s.client = none then s
  else
    { s with
      networkReady := true
      serverHandler := s.server.map Endpoint.object
      clientHandler := s.client.map Endpoint.object
      tickHandler := s.client.isSome }

/-! ## Using the pointers -/

/-- A send function of the server that calls the handlers of a local client. -/
def serverSends (s : NetworkManager) : NetworkManager :=
  match s.server with
  | none => s.violate
  | some { partner := some client, .. } => s.touch client s.client
  | some { partner := none, .. } => s

/-- `client->sendPacket`. -/
def clientSends (s : NetworkManager) : NetworkManager :=
  match s.client with
  | none => s.violate
  | some { partner := some server, .. } => s.touch server s.server
  | some { partner := none, .. } => s

/-- The end of `Scenegraph::createNetworkedEntity` and of `Scenegraph::deleteEntity`. -/
def announce (s : NetworkManager) : NetworkManager :=
  if s.networkReady then
    if s.server.isSome then s.serverSends
    else if s.client.isSome then s.clientSends
    else s
  else s

/-- `RPCManager::call` of a function that is to be called elsewhere too; `connected` is what
`ClientStandard::isConnected` says. -/
def callRPC (connected : Bool) (s : NetworkManager) : NetworkManager :=
  match s.client with
  | none => s
  | some client => if client.partner.isSome ∨ connected then s.clientSends else s

/-- Whether the scenegraph handles what the server receives. -/
def ServerHeard (s : NetworkManager) : Prop :=
  ∃ server ∈ s.server, s.serverHandler = some server.object

def ClientHeard (s : NetworkManager) : Prop :=
  ∃ client ∈ s.client, s.clientHandler = some client.object

instance (s : NetworkManager) : Decidable s.ServerHeard :=
  inferInstanceAs (Decidable (∃ server ∈ s.server, s.serverHandler = some server.object))

instance (s : NetworkManager) : Decidable s.ClientHeard :=
  inferInstanceAs (Decidable (∃ client ∈ s.client, s.clientHandler = some client.object))

/-- The test before `on_network_tick` is emitted.  `others` says that
`server->getConnectedClients()` is not empty. -/
def emitsTick (others connected : Bool) (s : NetworkManager) : Bool :=
  match s.server, s.client with
  | some _, client => others || client.isSome
  | none, some client => client.partner.isSome || connected
  | none, none => false

/-- `update`.  The server's handler may answer a packet through a send function; no branch of the
client's handler sends.  A tick that is due sends where an entity is. -/
def update (answers due others connected sends : Bool) (s : NetworkManager) : NetworkManager :=
  let served := if s.ServerHeard ∧ answers then s.serverSends else s
  if due ∧ served.emitsTick others connected ∧ served.tickHandler ∧ sends then
    served.clientSends
  else served

/-! ## The network thread -/

/-- One step of `runThreadedNetwork`. -/
def runThreadedNetwork (s : NetworkManager) : Option NetworkManager :=
  match s.thread with
  | .loop => some { s with thread := if s.exitThread then .stopped else .checkServer }
  | .checkServer => some { s with thread := if s.server.isSome then .callServer else .checkClient }
  | .callServer =>
      match s.server with
      | none => some { s.violate with thread := .checkClient }
      | some server => some { s with thread := .inServer server.object }
  | .inServer object => some { s.touch object s.server with thread := .checkClient }
  | .checkClient => some { s with thread := if s.client.isSome then .callClient else .loop }
  | .callClient =>
      match s.client with
      | none => some { s.violate with thread := .loop }
      | some client => some { s with thread := .inClient client.object }
  | .inClient object => some { s.touch object s.client with thread := .loop }
  | .stopped => none

/-! ## Runs -/

/-- What the game does. -/
inductive Call
  | startHost
  | startServer
  | startClient
  | stopServer
  | stopClient
  | stopHost
  | enableNetworking
  | announce
  | callRPC (connected : Bool)
  | update (answers due others connected sends : Bool)

def call (s : NetworkManager) : Call → Option NetworkManager
  | .startHost => if s.server = none ∧ s.client = none then some s.startHost else none
  | .startServer => if s.server = none then some s.startServer else none
  | .startClient => if s.server = none ∧ s.client = none then some s.startClient else none
  | .stopServer => some s.stopServer
  | .stopClient => some s.stopClient
  | .stopHost => some s.stopHost
  | .enableNetworking => some s.enableNetworking
  | .announce => some s.announce
  | .callRPC connected => some (s.callRPC connected)
  | .update answers due others connected sends =>
      some (s.update answers due others connected sends)

inductive Event
  | call (c : Call)
  | thread
  /-- The worker of the server has made the host.  Where `enet_host_create` fails this never
  comes. -/
  | listen
  /-- The destructor tells the thread to stop. -/
  | exit
  /-- The thread has been joined, and the destructor goes on. -/
  | destroy

def step (s : NetworkManager) : Event → Option NetworkManager
  | .call c => if s.exitThread then none else s.call c
  | .thread => s.runThreadedNetwork
  | .listen =>
      if s.server.isSome ∧ ¬ s.enetHost then some { s with enetHost := true } else none
  | .exit => if s.exitThread then none else some { s with exitThread := true }
  | .destroy =>
      if s.exitThread ∧ s.thread = .stopped then some s.stopServer.stopClient else none

/-! ## Pointers that are used without a test -/

/-- The object that the thread works with, or is about to, is there. -/
def ThreadSafe (s : NetworkManager) : Prop :=
  match s.thread with
  | .callServer => s.server.isSome
  | .inServer object => s.server.map Endpoint.object = some object
  | .callClient => s.client.isSome
  | .inClient object => s.client.map Endpoint.object = some object
  | _ => True

/-- Every pointer that is used without a test is valid. -/
structure Sound (s : NetworkManager) : Prop where
  serverPartner : ∀ server ∈ s.server, ∀ client ∈ server.partner,
    s.client.map Endpoint.object = some client
  clientPartner : ∀ client ∈ s.client, ∀ server ∈ client.partner,
    s.server.map Endpoint.object = some server
  /-- A tick that is emitted for the remote clients of a server is sent by the client. -/
  tick : s.tickHandler → s.server.isSome → s.client.isSome
  thread : s.ThreadSafe

/-- The thread has tested `server` and is not done with it. -/
def busyWithServer (s : NetworkManager) : Bool :=
  match s.thread with
  | .callServer | .inServer _ => true
  | _ => false

def busyWithClient (s : NetworkManager) : Bool :=
  match s.thread with
  | .callClient | .inClient _ => true
  | _ => false

/-- What keeps the pointers valid: a listen server is stopped as a whole, nothing is stopped under
the network thread, and no server runs without a client once a client has been connected to the
tick. -/
def Careful (s : NetworkManager) : Event → Prop
  | .call .stopServer =>
      s.server.isSome → ¬ s.busyWithServer ∧ ∀ client ∈ s.client, client.partner = none
  | .call .stopClient =>
      s.client.isSome → ¬ s.busyWithClient ∧ (∀ server ∈ s.server, server.partner = none) ∧
        (s.tickHandler → s.server = none)
  | .call .stopHost =>
      (s.server.isSome → ¬ s.busyWithServer) ∧ (s.client.isSome → ¬ s.busyWithClient)
  | .call .startServer => s.tickHandler → s.client.isSome
  | _ => True

def Event.stopsServer : Event → Bool
  | .call .stopServer | .call .stopHost | .destroy => true
  | _ => false

/-- A server that is stopped has its host. -/
def Hosted (s : NetworkManager) (e : Event) : Prop :=
  e.stopsServer → s.server.isSome → s.enetHost

section
variable {s s' : NetworkManager}

/-- An object that is still the current one can be used. -/
theorem touch_of_alive {object : Nat} {e : Option Endpoint}
    (h : e.map Endpoint.object = some object) : s.touch object e = s :=
  if_pos h

/-- A sound manager sends through a server that is there. -/
theorem Sound.serverSends_eq (hs : s.Sound) (h : s.server.isSome) : s.serverSends = s := by
  obtain ⟨server, hserver⟩ := Option.isSome_iff_exists.mp h
  obtain ⟨object, partner⟩ := server
  rw [serverSends, hserver]
  cases partner with
  | none => rfl
  | some client => exact touch_of_alive (hs.serverPartner _ hserver _ rfl)

/-- A sound manager sends through a client that is there. -/
theorem Sound.clientSends_eq (hs : s.Sound) (h : s.client.isSome) : s.clientSends = s := by
  obtain ⟨client, hclient⟩ := Option.isSome_iff_exists.mp h
  obtain ⟨object, partner⟩ := client
  rw [clientSends, hclient]
  cases partner with
  | none => rfl
  | some server => exact touch_of_alive (hs.clientPartner _ hclient _ rfl)

/-- Creating and deleting networked entities. -/
theorem Sound.announce_eq (hs : s.Sound) : s.announce = s := by
  rw [announce]
  split
  · split
    · next hserver => exact hs.serverSends_eq hserver
    · split
      · next hclient => exact hs.clientSends_eq hclient
      · rfl
  · rfl

/-- Calling a procedure is no misuse in a sound state. -/
theorem Sound.callRPC_eq (hs : s.Sound) (connected : Bool) : s.callRPC connected = s := by
  rw [callRPC]
  cases hclient : s.client with
  | none => rfl
  | some client =>
      have hsome : s.client.isSome := Option.isSome_iff_exists.mpr ⟨client, hclient⟩
      dsimp only
      split
      · exact hs.clientSends_eq hsome
      · rfl

/-- The test before a tick and the handler's own being there leave no tick without a client. -/
theorem Sound.client_of_tick (hs : s.Sound) {others connected : Bool}
    (htick : s.emitsTick others connected) (hhandler : s.tickHandler) : s.client.isSome := by
  rw [emitsTick] at htick
  cases hserver : s.server with
  | some server => exact hs.tick hhandler (by rw [hserver]; rfl)
  | none =>
      rw [hserver] at htick
      cases hclient : s.client with
      | none => simp [hclient] at htick
      | some client => rfl

/-- `update` is no misuse in a sound state. -/
theorem Sound.update_eq (hs : s.Sound) (answers due others connected sends : Bool) :
    s.update answers due others connected sends = s := by
  have hserved : (if s.ServerHeard ∧ answers then s.serverSends else s) = s := by
    split
    · next h =>
      obtain ⟨server, hserver, _⟩ := h.1
      exact hs.serverSends_eq (Option.isSome_iff_exists.mpr ⟨server, hserver⟩)
    · rfl
  rw [update, hserved]
  split
  · next h => exact hs.clientSends_eq (hs.client_of_tick h.2.1 h.2.2.1)
  · rfl

/-! ## What each step does to them -/

/-- Soundness does not depend on where a thread stands that may stand there. -/
theorem Sound.of_thread (hs : s.Sound) {thread : NetworkThread}
    (h : ({ s with thread := thread } : NetworkManager).ThreadSafe) :
    ({ s with thread := thread } : NetworkManager).Sound :=
  ⟨hs.serverPartner, hs.clientPartner, hs.tick, h⟩

/-- **The network thread harms nothing.** -/
theorem Sound.runThreadedNetwork (hs : s.Sound) (hstep : s.runThreadedNetwork = some s') :
    s'.Sound ∧ s'.violations = s.violations := by
  have hsafe := hs.thread
  rw [NetworkManager.runThreadedNetwork] at hstep
  rw [ThreadSafe] at hsafe
  cases hthread : s.thread with
  | loop =>
      rw [hthread] at hstep
      cases hstep
      refine ⟨hs.of_thread ?_, rfl⟩
      rw [ThreadSafe]
      cases s.exitThread <;> trivial
  | checkServer =>
      rw [hthread] at hstep
      cases hstep
      refine ⟨hs.of_thread ?_, rfl⟩
      rw [ThreadSafe]
      cases hserver : s.server with
      | none => trivial
      | some server => rfl
  | callServer =>
      simp only [hthread] at hsafe hstep
      split at hstep
      · next hserver =>
        rw [hserver] at hsafe
        cases hsafe
      · next server hserver =>
        cases hstep
        refine ⟨hs.of_thread ?_, rfl⟩
        change s.server.map Endpoint.object = some server.object
        rw [hserver, Option.map_some]
  | inServer object =>
      simp only [hthread] at hsafe hstep
      rw [touch_of_alive hsafe] at hstep
      cases hstep
      exact ⟨hs.of_thread trivial, rfl⟩
  | checkClient =>
      rw [hthread] at hstep
      cases hstep
      refine ⟨hs.of_thread ?_, rfl⟩
      rw [ThreadSafe]
      cases hclient : s.client with
      | none => trivial
      | some client => rfl
  | callClient =>
      simp only [hthread] at hsafe hstep
      split at hstep
      · next hclient =>
        rw [hclient] at hsafe
        cases hsafe
      · next client hclient =>
        cases hstep
        refine ⟨hs.of_thread ?_, rfl⟩
        change s.client.map Endpoint.object = some client.object
        rw [hclient, Option.map_some]
  | inClient object =>
      simp only [hthread] at hsafe hstep
      rw [touch_of_alive hsafe] at hstep
      cases hstep
      exact ⟨hs.of_thread trivial, rfl⟩
  | stopped =>
      rw [hthread] at hstep
      cases hstep

/-- The thread minds only what it is busy with. -/
theorem ThreadSafe.of_eq (h : s.ThreadSafe) (hthread : s'.thread = s.thread)
    (hserver : s.busyWithServer → s'.server = s.server)
    (hclient : s.busyWithClient → s'.client = s.client) : s'.ThreadSafe := by
  rw [ThreadSafe] at h ⊢
  rw [busyWithServer] at hserver
  rw [busyWithClient] at hclient
  rw [hthread]
  cases hat : s.thread with
  | callServer | inServer object =>
      simp only [hat] at h hserver ⊢
      rwa [hserver trivial]
  | callClient | inClient object =>
      simp only [hat] at h hclient ⊢
      rwa [hclient trivial]
  | loop | checkServer | checkClient | stopped => trivial

/-- A thread in the server has a server. -/
theorem ThreadSafe.server (h : s.ThreadSafe) (hbusy : s.busyWithServer) : s.server.isSome := by
  rw [ThreadSafe] at h
  rw [busyWithServer] at hbusy
  cases hat : s.thread with
  | callServer => simpa only [hat] using h
  | inServer object =>
      simp only [hat] at h
      rw [← Option.isSome_map (f := Endpoint.object), h]
      rfl
  | loop | checkServer | checkClient | stopped | callClient | inClient object =>
      simp [hat] at hbusy

/-- A thread in the client has a client. -/
theorem ThreadSafe.client (h : s.ThreadSafe) (hbusy : s.busyWithClient) : s.client.isSome := by
  rw [ThreadSafe] at h
  rw [busyWithClient] at hbusy
  cases hat : s.thread with
  | callClient => simpa only [hat] using h
  | inClient object =>
      simp only [hat] at h
      rw [← Option.isSome_map (f := Endpoint.object), h]
      rfl
  | loop | checkServer | checkClient | stopped | callServer | inServer object =>
      simp [hat] at hbusy

/-- The destructor is safe exactly if the host has been made. -/
theorem unhosted_eq_zero_iff : s.unhosted = 0 ↔ (s.server.isSome → s.enetHost) := by
  rw [unhosted]
  split
  · next h =>
    refine iff_of_false Nat.one_ne_zero fun hhost => h.2 (hhost h.1)
  · next h =>
    refine iff_of_true rfl fun hserver => ?_
    by_contra hnone
    exact h ⟨hserver, hnone⟩

/-- Stopping what is not there does nothing. -/
theorem stopServer_eq_self (h : s.server = none) : s.stopServer = s := by
  have hnothing : s.unhosted = 0 := by
    rw [unhosted_eq_zero_iff, h]
    exact fun hsome => by cases hsome
  rw [stopServer, hnothing, Nat.add_zero, ← h]

theorem stopClient_eq_self (h : s.client = none) : s.stopClient = s := by
  rw [stopClient, ← h]

/-- Stopping the server is safe exactly while the thread is not in it. -/
theorem Sound.stopServer_iff (hs : s.Sound) :
    s.stopServer.Sound ↔ s.Careful (.call .stopServer) := by
  constructor
  · intro h hsome
    refine ⟨fun hbusy => ?_, fun client hclient => ?_⟩
    · have hthere : s.stopServer.server.isSome := h.thread.server hbusy
      cases hthere
    · cases hpartner : client.partner with
      | none => rfl
      | some server =>
          have hthere := h.clientPartner client hclient server hpartner
          cases hthere
  · intro h
    cases hserver : s.server with
    | none => rwa [stopServer_eq_self hserver]
    | some server =>
        obtain ⟨hbusy, hpartner⟩ := h (by rw [hserver]; rfl)
        refine ⟨fun _ hnone => (by cases hnone), fun client hclient a ha => ?_,
          fun _ hnone => (by cases hnone), ?_⟩
        · rw [hpartner client hclient] at ha
          cases ha
        · exact hs.thread.of_eq rfl (fun h => absurd h hbusy) fun _ => rfl

/-- Stopping the client is safe exactly while the thread is not in it. -/
theorem Sound.stopClient_iff (hs : s.Sound) :
    s.stopClient.Sound ↔ s.Careful (.call .stopClient) := by
  constructor
  · intro h hsome
    refine ⟨fun hbusy => ?_, fun server hserver => ?_, fun htick => ?_⟩
    · have hthere : s.stopClient.client.isSome := h.thread.client hbusy
      cases hthere
    · cases hpartner : server.partner with
      | none => rfl
      | some client =>
          have hthere := h.serverPartner server hserver client hpartner
          cases hthere
    · cases hserver : s.server with
      | none => rfl
      | some server =>
          have hthere := h.tick htick (Option.isSome_iff_exists.mpr ⟨server, hserver⟩)
          cases hthere
  · intro h
    cases hclient : s.client with
    | none => rwa [stopClient_eq_self hclient]
    | some client =>
        obtain ⟨hbusy, hpartner, htick⟩ := h (by rw [hclient]; rfl)
        refine ⟨fun server hserver a ha => ?_, fun _ hnone => (by cases hnone),
          fun hhandler hserver => ?_, ?_⟩
        · rw [hpartner server hserver] at ha
          cases ha
        · have hnone : s.server = none := htick hhandler
          have hsome : s.server.isSome := hserver
          rw [hnone] at hsome
          cases hsome
        · exact hs.thread.of_eq rfl (fun _ => rfl) fun h => absurd h hbusy

/-- Stopping the host is stopping both. -/
theorem Sound.stopHost_iff (hs : s.Sound) : s.stopHost.Sound ↔ s.Careful (.call .stopHost) := by
  constructor
  · intro h
    refine ⟨fun _ hbusy => ?_, fun _ hbusy => ?_⟩
    · have hthere : s.stopHost.server.isSome := h.thread.server hbusy
      cases hthere
    · have hthere : s.stopHost.client.isSome := h.thread.client hbusy
      cases hthere
  · intro h
    refine ⟨fun _ hnone => (by cases hnone), fun _ hnone => (by cases hnone),
      fun _ hnone => (by cases hnone), hs.thread.of_eq rfl (fun hbusy => ?_) fun hbusy => ?_⟩
    · exact absurd hbusy (h.1 (hs.thread.server hbusy))
    · exact absurd hbusy (h.2 (hs.thread.client hbusy))

/-- Starting a server is safe where the thread may find it. -/
theorem Sound.startServer_iff (hs : s.Sound) (hserver : s.server = none) :
    s.startServer.Sound ↔ s.Careful (.call .startServer) := by
  constructor
  · exact fun h htick => h.tick htick rfl
  · intro h
    refine ⟨fun server heq client hclient => ?_, fun client hclient server ha => ?_,
      fun htick _ => h htick, hs.thread.of_eq rfl (fun hbusy => ?_) fun _ => rfl⟩
    · cases heq
      cases hclient
    · have hthere := hs.clientPartner client hclient server ha
      rw [hserver] at hthere
      cases hthere
    · have hthere := hs.thread.server hbusy
      rw [hserver] at hthere
      cases hthere

/-- A client can be started where there is none. -/
theorem Sound.startClient (hs : s.Sound) (hserver : s.server = none) (hclient : s.client = none) :
    s.startClient.Sound := by
  refine ⟨fun server heq => ?_, fun client heq server ha => ?_, fun _ _ => rfl,
    hs.thread.of_eq rfl (fun _ => rfl) fun hbusy => ?_⟩
  · have hnone : s.server = some server := heq
    rw [hserver] at hnone
    cases hnone
  · cases heq
    cases ha
  · have hthere := hs.thread.client hbusy
    rw [hclient] at hthere
    cases hthere

/-- A host can be started where there is none. -/
theorem Sound.startHost (hs : s.Sound) (hserver : s.server = none) (hclient : s.client = none) :
    s.startHost.Sound := by
  refine ⟨fun server heq client ha => ?_, fun client heq server ha => ?_, fun _ _ => rfl,
    hs.thread.of_eq rfl (fun hbusy => ?_) fun hbusy => ?_⟩
  · cases heq
    cases ha
    rfl
  · cases heq
    cases ha
    rfl
  · have hthere := hs.thread.server hbusy
    rw [hserver] at hthere
    cases hthere
  · have hthere := hs.thread.client hbusy
    rw [hclient] at hthere
    cases hthere

/-- The thread starts at its first check. -/
theorem Sound.enableNetworking (hs : s.Sound) : s.enableNetworking.Sound := by
  rw [NetworkManager.enableNetworking]
  split
  · exact hs
  · split
    · exact hs
    · exact ⟨hs.serverPartner, hs.clientPartner, fun h _ => h, hs.thread⟩

/-- **One step.**  It keeps the pointers valid exactly if it is careful. -/
theorem Sound.step_iff (hs : s.Sound) {e : Event} (hstep : s.step e = some s') :
    s'.Sound ↔ s.Careful e := by
  cases e with
  | thread => exact iff_of_true (hs.runThreadedNetwork hstep).1 trivial
  | listen =>
      rw [step] at hstep
      split at hstep
      · cases hstep
        exact iff_of_true ⟨hs.serverPartner, hs.clientPartner, hs.tick, hs.thread⟩ trivial
      · cases hstep
  | exit =>
      rw [step] at hstep
      split at hstep
      · cases hstep
      · cases hstep
        exact iff_of_true ⟨hs.serverPartner, hs.clientPartner, hs.tick, hs.thread⟩ trivial
  | destroy =>
      rw [step] at hstep
      split at hstep
      · next h =>
        cases hstep
        refine iff_of_true ⟨fun _ hnone => (by cases hnone), fun _ hnone => (by cases hnone),
          fun _ hnone => (by cases hnone), ?_⟩ trivial
        rw [ThreadSafe]
        simp only [stopServer, stopClient, h.2]
      · cases hstep
  | call c =>
      rw [step] at hstep
      split at hstep
      · cases hstep
      cases c with
      | startHost =>
          rw [call] at hstep
          split at hstep
          · next h =>
            cases hstep
            exact iff_of_true (hs.startHost h.1 h.2) trivial
          · cases hstep
      | startServer =>
          rw [call] at hstep
          split at hstep
          · next h =>
            cases hstep
            exact hs.startServer_iff h
          · cases hstep
      | startClient =>
          rw [call] at hstep
          split at hstep
          · next h =>
            cases hstep
            exact iff_of_true (hs.startClient h.1 h.2) trivial
          · cases hstep
      | stopServer =>
          cases hstep
          exact hs.stopServer_iff
      | stopClient =>
          cases hstep
          exact hs.stopClient_iff
      | stopHost =>
          cases hstep
          exact hs.stopHost_iff
      | enableNetworking =>
          cases hstep
          exact iff_of_true hs.enableNetworking trivial
      | announce =>
          cases hstep
          rw [hs.announce_eq]
          exact iff_of_true hs trivial
      | callRPC connected =>
          cases hstep
          rw [hs.callRPC_eq]
          exact iff_of_true hs trivial
      | update answers due others connected sends =>
          cases hstep
          rw [hs.update_eq]
          exact iff_of_true hs trivial

/-- Where every pointer is valid, all that a step can use in vain is the host of a server. -/
theorem Sound.violations_eq (hs : s.Sound) {e : Event} (hstep : s.step e = some s') :
    s'.violations = s.violations + if e.stopsServer then s.unhosted else 0 := by
  cases e with
  | thread => exact (hs.runThreadedNetwork hstep).2
  | listen =>
      rw [step] at hstep
      split at hstep
      · cases hstep
        rfl
      · cases hstep
  | exit =>
      rw [step] at hstep
      split at hstep
      · cases hstep
      · cases hstep
        rfl
  | destroy =>
      rw [step] at hstep
      split at hstep
      · cases hstep
        rfl
      · cases hstep
  | call c =>
      rw [step] at hstep
      split at hstep
      · cases hstep
      cases c with
      | startHost | startServer | startClient =>
          rw [call] at hstep
          split at hstep
          · cases hstep
            rfl
          · cases hstep
      | stopServer | stopClient | stopHost =>
          cases hstep
          rfl
      | enableNetworking =>
          cases hstep
          rw [NetworkManager.enableNetworking]
          split
          · rfl
          · split <;> rfl
      | announce =>
          cases hstep
          rw [hs.announce_eq]
          rfl
      | callRPC connected =>
          cases hstep
          rw [hs.callRPC_eq]
          rfl
      | update answers due others connected sends =>
          cases hstep
          rw [hs.update_eq]
          rfl

/-- A step marks a misuse exactly if it stops a server whose host was never made. -/
theorem Sound.violations_iff (hs : s.Sound) {e : Event} (hstep : s.step e = some s') :
    s'.violations = s.violations ↔ s.Hosted e := by
  rw [hs.violations_eq hstep, Nat.add_eq_left, Hosted]
  cases e.stopsServer with
  | false => exact iff_of_true rfl fun hno => by cases hno
  | true => exact unhosted_eq_zero_iff.trans ⟨fun h _ => h, fun h => h rfl⟩

/-- The manager starts with nothing to misuse. -/
theorem sound_start : Sound {} :=
  ⟨fun _ hnone => (by cases hnone), fun _ hnone => (by cases hnone), fun h => (by cases h), trivial⟩

/-- **When the pointers are valid.**  In the states of a run they are exactly if each step of it is
careful.  Nothing is ever used that is not there, by the destructor neither, exactly if each server
that is stopped has its host besides. -/
theorem sound_iff_careful (es : List Event) (t : NetworkManager)
    (hrun : Runs.run step {} es = some t) :
    (Runs.Always step Sound {} es ↔ Runs.Meets step Careful {} es) ∧
      (Runs.Always step (fun s => s.Sound ∧ s.violations = 0) {} es ↔
        Runs.Meets step (fun s e => s.Careful e ∧ s.Hosted e) {} es) := by
  refine ⟨?_, ?_⟩
  · exact Runs.always_iff_meets (fun _ => True) (fun _ _ _ _ _ _ => trivial)
      (fun s e s' _ hs hstep => hs.step_iff hstep) hrun trivial sound_start
  · refine Runs.always_iff_meets (fun _ => True) (fun _ _ _ _ _ _ => trivial) ?_ hrun trivial
      ⟨sound_start, rfl⟩
    intro s e s' _ hs hstep
    have hused := hs.1.violations_iff hstep
    rw [hs.2] at hused
    exact and_congr (hs.1.step_iff hstep) hused

/-- A listen server is started, announces an entity, and is destroyed with the manager. -/
def hosting : List Event :=
  [.call .startHost, .thread, .call .enableNetworking, .thread, .listen, .thread, .call .announce,
    .thread, .call (.update true true true false true), .thread, .exit, .thread, .thread, .thread,
    .destroy]

theorem sound_iff_careful_hosting :
    ∃ t, Runs.run step {} hosting = some t ∧
      (Runs.Always step Sound {} hosting ↔ Runs.Meets step Careful {} hosting) ∧
      (Runs.Always step (fun s => s.Sound ∧ s.violations = 0) {} hosting ↔
        Runs.Meets step (fun s e => s.Careful e ∧ s.Hosted e) {} hosting) := by
  obtain ⟨t, ht⟩ := Option.isSome_iff_exists.mp
    (show (Runs.run step {} hosting).isSome = true by decide)
  exact ⟨t, ht, sound_iff_careful hosting t ht⟩

/-- Where the port is taken the worker makes no host, and the stop dereferences a null pointer. -/
example : (Runs.run step {} [.call .startServer, .call .stopServer]).map violations = some 1 := by
  decide

end

end NetworkManager

end EnkiNet
