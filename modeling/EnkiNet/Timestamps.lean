import EnkiNet.Calls
import EnkiNet.ClientIds
import EnkiNet.Loopback

/-!
# Time stamps and senders

Every packet that reaches a handler carries two times, the one in its header at which it
was sent and the one in its info at which it was received.  Each path to the handlers
sets them at its own places.  A `Station` is the network side of one process: its
clock, the queues between the transport and the handlers, and a record of what has been
emitted, which no code reads.  Game code can send any packet at all, so packets that
were received earlier are among those that are sent.

* `Station.Stamped` is what every path provides, except one;
* `timely_iff`: a packet is received before it was sent, or a client sees another sender
  than the server, in precisely the runs in which `sendPacketToOneClient` passes a packet
  with such an info to the host's client;
* `routeRPC_keeps_info`: the scenegraph does that with the calls it relays to its host.
-/

namespace EnkiNet

open ByteStore Packet

/-! ## Packets made by a remote client -/

/-- The `on_connected` lambda. -/
def onConnected (sentAt receivedAt : UInt32) : Packet :=
  { ofHeader { type := .connected, timeSent := sentAt } with
    info := { senderID := 1, timeReceived := receivedAt } }

def onDisconnected (sentAt receivedAt : UInt32) : Packet :=
  { ofHeader { type := .disconnected, timeSent := sentAt } with
    info := { senderID := 1, timeReceived := receivedAt } }

/-- The `on_data_received` lambda, with the id that the client has afterwards. -/
def onDataReceived (id : ClientID) (data : List Byte) (receivedAt : UInt32) :
    Except Fault (ClientID × Packet) := do
  let p ← ofData data
  let p' : Packet := { p.resetReadPosition with
    info := {
      senderID := 1
      timeReceived := if p.header.timeSent > receivedAt then p.header.timeSent else receivedAt } }
  if p.header.type = .clientInitialized then do
    let v ← (getScalar 4 p).1
    return (UInt32.ofBitVec v, p')
  else return (id, p')

/-! ## The network side of a process -/

/-- The signal that a packet is emitted on. -/
inductive OnPacketReceived
  | server
  | client
  deriving DecidableEq, Repr

structure Station where
  role : Role
  now : UInt32 := 0
  id : ClientID := 0
  serverPackets : List Packet := []
  clientPackets : List Packet := []
  emissions : List (OnPacketReceived × Packet) := []
  deriving DecidableEq, Repr

namespace Station

inductive Event
  | onClientConnected (id : ClientID) (sentAt receivedAt : UInt32)
  | onClientDisconnected (id : ClientID) (sentAt receivedAt : UInt32)
  | onClientDataReceived (id : ClientID) (data : List Byte) (receivedAt : UInt32)
  | onConnected (sentAt receivedAt : UInt32)
  | onDisconnected (sentAt receivedAt : UInt32)
  | onDataReceived (data : List Byte) (receivedAt : UInt32)
  /-- One turn of the loop in `Server::update`, with whether a handler throws. -/
  | serverUpdate (throws : Bool)
  | clientUpdate (throws : Bool)
  | sendPacket (p : Packet) (sentAt receivedAt : UInt32)
  | sendPacketToOneClient (client : ClientID) (p : Packet) (sentAt : UInt32)
  | sendPacketToAllClients (p : Packet) (sentAt : UInt32)
  | sendPacketToSomeClients (predicate : ClientID → Bool) (p : Packet) (sentAt : UInt32)
  | sendPacketToAllExceptOneClient (excluded : ClientID) (p : Packet) (sentAt : UInt32)

/-- Read the clock twice; it never decreases. -/
def readClock (sentAt receivedAt : UInt32) (s : Station) : Option Station :=
  if s.now ≤ sentAt ∧ sentAt ≤ receivedAt then some { s with now := receivedAt } else none

def pushServer (p : Packet) (s : Station) : Station :=
  { s with serverPackets := s.serverPackets ++ [p] }

def pushClient (p : Packet) (s : Station) : Station :=
  { s with clientPackets := s.clientPackets ++ [p] }

def emit (signal : OnPacketReceived) (p : Packet) (s : Station) : Station :=
  { s with emissions := s.emissions ++ [(signal, p)] }

/-- `none` where the clock would go back, where the process has no such server or
client, and where a received packet cannot be read. -/
def step (s : Station) : Event → Option Station
  | .onClientConnected id sentAt receivedAt =>
      if s.role = .client then none
      else (s.readClock sentAt receivedAt).map
        (pushServer (EnkiNet.onClientConnected id sentAt receivedAt))
  | .onClientDisconnected id sentAt receivedAt =>
      if s.role = .client then none
      else (s.readClock sentAt receivedAt).map
        (pushServer (EnkiNet.onClientDisconnected id sentAt receivedAt))
  | .onClientDataReceived id data receivedAt =>
      if s.role = .client then none
      else
        match EnkiNet.onClientDataReceived id data receivedAt with
        | .error _ => none
        | .ok p => (s.readClock receivedAt receivedAt).map (pushServer p)
  | .onConnected sentAt receivedAt =>
      if s.role = .client then (s.readClock sentAt receivedAt).map
        (pushClient (EnkiNet.onConnected sentAt receivedAt))
      else none
  | .onDisconnected sentAt receivedAt =>
      if s.role = .client then (s.readClock sentAt receivedAt).map
        (pushClient (EnkiNet.onDisconnected sentAt receivedAt))
      else none
  | .onDataReceived data receivedAt =>
      if s.role = .client then
        match EnkiNet.onDataReceived s.id data receivedAt with
        | .error _ => none
        | .ok (id, p) => (s.readClock receivedAt receivedAt).map fun s =>
            pushClient p { s with id := id }
      else none
  | .serverUpdate throws =>
      match s.serverPackets with
      | [] => none
      | p :: rest => some (emit .server p { s with serverPackets := if throws then p :: rest else
        rest })
  | .clientUpdate throws =>
      match s.clientPackets with
      | [] => none
      | p :: rest =>
          -- the front has been moved from
          let left := { p with bytes := [] }
          some (emit .client p { s with clientPackets := if throws then left :: rest else rest })
  | .sendPacket p sentAt receivedAt =>
      (s.readClock sentAt receivedAt).map fun s =>
        if s.role = .host then emit .server (stampByClientHost sentAt receivedAt p) s else s
  | .sendPacketToOneClient client p sentAt =>
      if s.role = .client then none
      else (s.readClock sentAt sentAt).map fun s =>
        if s.role = .host ∧ client = 1 then emit .client (emittedToOneClient sentAt p) s else s
  | .sendPacketToAllClients p sentAt =>
      if s.role = .client then none
      else (s.readClock sentAt sentAt).map fun s =>
        if s.role = .host then emit .client (emittedToClient sentAt p) s else s
  | .sendPacketToSomeClients predicate p sentAt =>
      if s.role = .client then none
      else (s.readClock sentAt sentAt).map fun s =>
        if s.role = .host ∧ predicate 1 then emit .client (emittedToClient sentAt p) s else s
  | .sendPacketToAllExceptOneClient excluded p sentAt =>
      if s.role = .client then none
      else (s.readClock sentAt sentAt).map fun s =>
        if s.role = .host ∧ excluded ≠ 1 then emit .client (emittedToClient sentAt p) s else s

/-- A packet as the handlers of the signal should see it. -/
def Stamped (signal : OnPacketReceived) (p : Packet) : Prop :=
  p.header.timeSent ≤ p.info.timeReceived ∧ (signal = .client → p.info.senderID = 1)

/-- Nothing was received before it was sent, and clients hear from the server only. -/
def Timely (s : Station) : Prop := ∀ e ∈ s.emissions, Stamped e.1 e.2

instance (signal : OnPacketReceived) (p : Packet) : Decidable (Stamped signal p) :=
  inferInstanceAs (Decidable (_ ∧ _))

instance (s : Station) : Decidable s.Timely :=
  List.decidableBAll (fun e : OnPacketReceived × Packet => Stamped e.1 e.2) s.emissions

/-- A packet for the host's client alone has been received from the server, and not
before now. -/
def KeepsInfo (s : Station) : Event → Prop
  | .sendPacketToOneClient client p sentAt =>
      s.role = .host → client = 1 → sentAt ≤ p.info.timeReceived ∧ p.info.senderID = 1
  | _ => True

/-! ## What each path provides -/

/-- What the server gets out of the transport has both times. -/
theorem stamped_onClientDataReceived {id : ClientID} {data : List Byte} {receivedAt : UInt32}
    {p : Packet} (h : EnkiNet.onClientDataReceived id data receivedAt = .ok p) :
    Stamped .server p := by
  unfold EnkiNet.onClientDataReceived at h
  rcases hdata : ofData data with e | q
  · rw [hdata] at h
    cases h
  · rw [hdata] at h
    cases h
    refine ⟨?_, by simp⟩
    change q.header.timeSent ≤ if q.header.timeSent > receivedAt then _ else _
    split
    · exact UInt32.le_refl _
    · next hlate => exact UInt32.not_lt.mp hlate

/-- What a client gets out of the transport has both times. -/
theorem stamped_onDataReceived {id id' : ClientID} {data : List Byte} {receivedAt : UInt32}
    {p : Packet} (h : EnkiNet.onDataReceived id data receivedAt = .ok (id', p)) :
    Stamped .client p := by
  unfold EnkiNet.onDataReceived at h
  rcases hdata : ofData data with e | q
  · rw [hdata] at h
    cases h
  rw [hdata] at h
  have hp : p = { q.resetReadPosition with
      info := {
        senderID := 1
        timeReceived :=
          if q.header.timeSent > receivedAt then q.header.timeSent else receivedAt } } := by
    change (if q.header.type = .clientInitialized then _ else _) = _ at h
    split at h
    · rcases hid : (getScalar 4 q).1 with e | v
      · rw [hid] at h
        cases h
      · rw [hid] at h
        cases h
        rfl
    · cases h
      rfl
  rw [hp]
  refine ⟨?_, fun _ => rfl⟩
  change q.header.timeSent ≤ if q.header.timeSent > receivedAt then _ else _
  split
  · exact UInt32.le_refl _
  · next hlate => exact UInt32.not_lt.mp hlate

/-- The host's own client gets the time of sending as both. -/
theorem stamped_emittedToClient (sentAt : UInt32) (p : Packet) :
    Stamped .client (emittedToClient sentAt p) := ⟨UInt32.le_refl _, fun _ => rfl⟩

/-- The packet keeps the info that it comes with. -/
theorem stamped_emittedToOneClient (sentAt : UInt32) (p : Packet) :
    Stamped .client (emittedToOneClient sentAt p) ↔
      sentAt ≤ p.info.timeReceived ∧ p.info.senderID = 1 :=
  and_congr_right fun _ => ⟨fun h => h rfl, fun h _ => h⟩

/-! ## Whole runs -/

/-- The queues hold packets as the handlers should see them. -/
structure Punctual (s : Station) : Prop where
  timely : s.Timely
  server : ∀ p ∈ s.serverPackets, Stamped .server p
  client : ∀ p ∈ s.clientPackets, Stamped .client p

namespace Punctual

variable {s s' : Station} {p : Packet} {sentAt receivedAt : UInt32}

/-- Reading the clock is no emission. -/
theorem readClock (h : s.Punctual) (hclock : s.readClock sentAt receivedAt = some s') :
    s'.Punctual ∧ s'.role = s.role ∧ sentAt ≤ receivedAt := by
  unfold Station.readClock at hclock
  split at hclock
  · next hle =>
    cases hclock
    exact ⟨⟨h.timely, h.server, h.client⟩, rfl, hle.2⟩
  · cases hclock

/-- A packet waits with its times. -/
theorem pushServer (h : s.Punctual) (hp : Stamped .server p) : (s.pushServer p).Punctual where
  timely := h.timely
  server q hq := by
    rcases List.mem_append.mp hq with hold | hnew
    · exact h.server q hold
    · rwa [List.mem_singleton.mp hnew]
  client := h.client

/-- A packet waits with its times. -/
theorem pushClient (h : s.Punctual) (hp : Stamped .client p) : (s.pushClient p).Punctual where
  timely := h.timely
  server := h.server
  client q hq := by
    rcases List.mem_append.mp hq with hold | hnew
    · exact h.client q hold
    · rwa [List.mem_singleton.mp hnew]

/-- What is emitted had its times. -/
theorem emit {signal : OnPacketReceived} (h : s.Punctual) (hp : Stamped signal p) :
    (s.emit signal p).Punctual where
  timely e he := by
    rcases List.mem_append.mp he with hold | hnew
    · exact h.timely e hold
    · rwa [List.mem_singleton.mp hnew]
  server := h.server
  client := h.client

end Punctual

/-- What the send functions of the server have in common. -/
theorem Punctual.send {s s' : Station} {p : Packet} {sentAt : UInt32} (who : Role → Prop)
    [DecidablePred who] (h : s.Punctual)
    (hp : who s.role → Stamped .client p)
    (hstep : (s.readClock sentAt sentAt).map
      (fun t => if who t.role then t.emit .client p else t) = some s') : s'.Punctual := by
  obtain ⟨t, hclock, rfl⟩ := Option.map_eq_some_iff.mp hstep
  obtain ⟨ht, hrole, _⟩ := h.readClock hclock
  split
  · next hwho => exact ht.emit (hp (hrole ▸ hwho))
  · exact ht

/-- **One step.** -/
theorem step_punctual {s s' : Station} {e : Event} (h : s.Punctual) (hok : s.KeepsInfo e)
    (hstep : s.step e = some s') : s'.Punctual := by
  cases e with
  | onClientConnected id sentAt receivedAt =>
      obtain ⟨_, hstep⟩ := Option.ite_none_left_eq_some.mp hstep
      obtain ⟨t, hclock, rfl⟩ := Option.map_eq_some_iff.mp hstep
      obtain ⟨ht, _, hle⟩ := h.readClock hclock
      exact ht.pushServer ⟨hle, by simp⟩
  | onClientDisconnected id sentAt receivedAt =>
      obtain ⟨_, hstep⟩ := Option.ite_none_left_eq_some.mp hstep
      obtain ⟨t, hclock, rfl⟩ := Option.map_eq_some_iff.mp hstep
      obtain ⟨ht, _, hle⟩ := h.readClock hclock
      exact ht.pushServer ⟨hle, by simp⟩
  | onClientDataReceived id data receivedAt =>
      obtain ⟨_, hstep⟩ := Option.ite_none_left_eq_some.mp hstep
      split at hstep
      · cases hstep
      · next p hp =>
        obtain ⟨t, hclock, rfl⟩ := Option.map_eq_some_iff.mp hstep
        exact (h.readClock hclock).1.pushServer (stamped_onClientDataReceived hp)
  | onConnected sentAt receivedAt =>
      obtain ⟨_, hstep⟩ := Option.ite_none_right_eq_some.mp hstep
      obtain ⟨t, hclock, rfl⟩ := Option.map_eq_some_iff.mp hstep
      obtain ⟨ht, _, hle⟩ := h.readClock hclock
      exact ht.pushClient ⟨hle, fun _ => rfl⟩
  | onDisconnected sentAt receivedAt =>
      obtain ⟨_, hstep⟩ := Option.ite_none_right_eq_some.mp hstep
      obtain ⟨t, hclock, rfl⟩ := Option.map_eq_some_iff.mp hstep
      obtain ⟨ht, _, hle⟩ := h.readClock hclock
      exact ht.pushClient ⟨hle, fun _ => rfl⟩
  | onDataReceived data receivedAt =>
      obtain ⟨_, hstep⟩ := Option.ite_none_right_eq_some.mp hstep
      split at hstep
      · cases hstep
      · next id p hp =>
        obtain ⟨t, hclock, rfl⟩ := Option.map_eq_some_iff.mp hstep
        have ht := (h.readClock hclock).1
        have hid : ({ t with id := id } : Station).Punctual := ⟨ht.timely, ht.server, ht.client⟩
        exact hid.pushClient (stamped_onDataReceived hp)
  | serverUpdate throws =>
      simp only [step] at hstep
      split at hstep
      · cases hstep
      · next p rest hqueue =>
        cases hstep
        have hall : ∀ q ∈ p :: rest, Stamped .server q := hqueue ▸ h.server
        refine Punctual.emit ⟨h.timely, fun q hq => hall q ?_, h.client⟩ (hall p List.mem_cons_self)
        cases throws
        · exact List.mem_cons_of_mem p hq
        · exact hq
  | clientUpdate throws =>
      simp only [step] at hstep
      split at hstep
      · cases hstep
      · next p rest hqueue =>
        cases hstep
        have hall : ∀ q ∈ p :: rest, Stamped .client q := hqueue ▸ h.client
        refine Punctual.emit ⟨h.timely, h.server, fun q hq => ?_⟩ (hall p List.mem_cons_self)
        cases throws
        · exact hall q (List.mem_cons_of_mem p hq)
        · -- what is left of the front has its header and its info
          rcases List.mem_cons.mp hq with rfl | hrest
          · exact hall p List.mem_cons_self
          · exact hall q (List.mem_cons_of_mem p hrest)
  | sendPacket p sentAt receivedAt =>
      obtain ⟨t, hclock, rfl⟩ := Option.map_eq_some_iff.mp hstep
      obtain ⟨ht, _, hle⟩ := h.readClock hclock
      split
      · exact ht.emit ⟨hle, by simp⟩
      · exact ht
  | sendPacketToOneClient client p sentAt =>
      obtain ⟨_, hstep⟩ := Option.ite_none_left_eq_some.mp hstep
      refine h.send (fun r => r = .host ∧ client = 1) (fun hwho => ?_) hstep
      exact (stamped_emittedToOneClient sentAt p).mpr (hok hwho.1 hwho.2)
  | sendPacketToAllClients p sentAt =>
      obtain ⟨_, hstep⟩ := Option.ite_none_left_eq_some.mp hstep
      exact h.send (fun r => r = .host) (fun _ => stamped_emittedToClient sentAt p) hstep
  | sendPacketToSomeClients predicate p sentAt =>
      obtain ⟨_, hstep⟩ := Option.ite_none_left_eq_some.mp hstep
      exact h.send (fun r => r = .host ∧ predicate 1)
        (fun _ => stamped_emittedToClient sentAt p) hstep
  | sendPacketToAllExceptOneClient excluded p sentAt =>
      obtain ⟨_, hstep⟩ := Option.ite_none_left_eq_some.mp hstep
      exact h.send (fun r => r = .host ∧ excluded ≠ 1)
        (fun _ => stamped_emittedToClient sentAt p) hstep

/-! ## Nothing that was emitted is forgotten -/

theorem readClock_emissions {s t : Station} {sentAt receivedAt : UInt32}
    (h : s.readClock sentAt receivedAt = some t) : t.emissions = s.emissions ∧ t.role = s.role := by
  obtain ⟨_, h⟩ := Option.ite_none_right_eq_some.mp h
  cases h
  exact ⟨rfl, rfl⟩

/-- What was emitted stays emitted, whatever the clock. -/
theorem emissions_of_clock {s s' : Station} {sentAt receivedAt : UInt32} {f : Station → Station}
    (h : (s.readClock sentAt receivedAt).map f = some s')
    (hf : ∀ t : Station, t.emissions <+: (f t).emissions) : s.emissions <+: s'.emissions := by
  obtain ⟨t, ht, rfl⟩ := Option.map_eq_some_iff.mp h
  rw [← (readClock_emissions ht).1]
  exact hf t

theorem emissions_of_emit {P : Prop} [Decidable P] (signal : OnPacketReceived) (p : Packet)
    (t : Station) : t.emissions <+: (if P then t.emit signal p else t).emissions := by
  split
  · exact List.prefix_append _ _
  · exact List.prefix_rfl

/-- A step emits at most one packet. -/
theorem emissions_of_step {s s' : Station} {e : Event} (h : s.step e = some s') :
    s.emissions <+: s'.emissions := by
  cases e with
  | onClientConnected id sentAt receivedAt =>
      exact emissions_of_clock (Option.ite_none_left_eq_some.mp h).2 fun _ => List.prefix_rfl
  | onClientDisconnected id sentAt receivedAt =>
      exact emissions_of_clock (Option.ite_none_left_eq_some.mp h).2 fun _ => List.prefix_rfl
  | onClientDataReceived id data receivedAt =>
      obtain ⟨_, h⟩ := Option.ite_none_left_eq_some.mp h
      split at h
      · cases h
      · exact emissions_of_clock h fun _ => List.prefix_rfl
  | onConnected sentAt receivedAt =>
      exact emissions_of_clock (Option.ite_none_right_eq_some.mp h).2 fun _ => List.prefix_rfl
  | onDisconnected sentAt receivedAt =>
      exact emissions_of_clock (Option.ite_none_right_eq_some.mp h).2 fun _ => List.prefix_rfl
  | onDataReceived data receivedAt =>
      obtain ⟨_, h⟩ := Option.ite_none_right_eq_some.mp h
      split at h
      · cases h
      · exact emissions_of_clock h fun _ => List.prefix_rfl
  | serverUpdate throws =>
      simp only [step] at h
      split at h
      · cases h
      · cases h
        exact List.prefix_append _ _
  | clientUpdate throws =>
      simp only [step] at h
      split at h
      · cases h
      · cases h
        exact List.prefix_append _ _
  | sendPacket p sentAt receivedAt =>
      exact emissions_of_clock h fun t => emissions_of_emit .server _ t
  | sendPacketToOneClient client p sentAt =>
      obtain ⟨_, h⟩ := Option.ite_none_left_eq_some.mp h
      exact emissions_of_clock h fun t => emissions_of_emit .client _ t
  | sendPacketToAllClients p sentAt =>
      obtain ⟨_, h⟩ := Option.ite_none_left_eq_some.mp h
      exact emissions_of_clock h fun t => emissions_of_emit .client _ t
  | sendPacketToSomeClients predicate p sentAt =>
      obtain ⟨_, h⟩ := Option.ite_none_left_eq_some.mp h
      exact emissions_of_clock h fun t => emissions_of_emit .client _ t
  | sendPacketToAllExceptOneClient excluded p sentAt =>
      obtain ⟨_, h⟩ := Option.ite_none_left_eq_some.mp h
      exact emissions_of_clock h fun t => emissions_of_emit .client _ t

/-- What was emitted stays emitted. -/
theorem emissions_of_run {s t : Station} {es : List Event} (h : Runs.run step s es = some t) :
    s.emissions <+: t.emissions := by
  have hone : ∀ (u : Station) (e : Event) (u' : Station), s.emissions <+: u.emissions →
      u.step e = some u' → s.emissions <+: u'.emissions := by
    intro u e u' hu hstep
    exact hu.trans (emissions_of_step hstep)
  exact Runs.run_invariant hone h List.prefix_rfl

/-- A packet with another info than `KeepsInfo` asks for stays among the emissions. -/
theorem Timely.keepsInfo {s s' t : Station} {e : Event} (ht : t.Timely)
    (hstep : s.step e = some s') (hrest : s'.emissions <+: t.emissions) : s.KeepsInfo e := by
  cases e with
  | sendPacketToOneClient client p sentAt =>
      intro hrole hclient
      obtain ⟨_, hstep⟩ := Option.ite_none_left_eq_some.mp hstep
      obtain ⟨u, hclock, rfl⟩ := Option.map_eq_some_iff.mp hstep
      have hhost : u.role = .host := (readClock_emissions hclock).2.trans hrole
      rw [if_pos ⟨hhost, hclient⟩] at hrest
      apply (stamped_emittedToOneClient sentAt p).mp
      apply ht (.client, emittedToOneClient sentAt p)
      exact hrest.subset (List.mem_append_right _ List.mem_cons_self)
  | _ => trivial

/-- A process that has just been started. -/
def start (role : Role) (now : UInt32) : Station :=
  { role := role, now := now, id := if role = .host then 1 else 0 }

/-- Nothing has been emitted yet. -/
theorem punctual_start (role : Role) (now : UInt32) : (start role now).Punctual :=
  ⟨nofun, nofun, nofun⟩

/-- **No packet is received before it was sent, and clients hear from the server only**,
precisely as long as `sendPacketToOneClient` is given no packet for the host's client
whose info says otherwise. -/
theorem timely_iff (role : Role) (now : UInt32) (es : List Event) (t : Station)
    (hrun : Runs.run step (start role now) es = some t) :
    t.Timely ↔ Runs.Meets step KeepsInfo (start role now) es := by
  constructor
  · intro ht
    refine Runs.meets_of_good Timely ?_ hrun ht
    intro u e u' rest v hstep hrest hv
    exact hv.keepsInfo hstep (emissions_of_run hrest)
  · intro hmeets
    exact (Runs.run_invariant_of_meets (fun _ _ _ h hok hstep => step_punctual h hok hstep) hmeets
      hrun (punctual_start role now)).timely

/-- The first eight bytes of a packet that asks for a call. -/
def callBytes : List Byte := [6, 0, 0, 0, 0, 0, 0, 0]

/-- The packet that the server makes from them. -/
def call : Packet := { received callBytes with info := { senderID := 2, timeReceived := 5 } }

/-- A client's call reaches the listen server and is passed on to the host's client. -/
def relay : List Event :=
  [.onClientConnected 2 3 4, .onClientDataReceived 2 callBytes 5, .serverUpdate false,
    .serverUpdate false, .sendPacketToOneClient 1 call 6]

/-- A host that relays an update to one client. -/
theorem timely_iff_relay :
    ∃ t, Runs.run step (start .host 0) relay = some t ∧
      (t.Timely ↔ Runs.Meets step KeepsInfo (start .host 0) relay) :=
  ⟨_, rfl, timely_iff .host 0 relay _ rfl⟩

/-- The host's client is told that its call came from client 2, and before it was sent. -/
theorem relay_travels_back :
    (∃ t, Runs.run step (start .host 0) relay = some t ∧
      (.client, emittedToOneClient 6 call) ∈ t.emissions ∧ ¬ t.Timely) ∧
    (emittedToOneClient 6 call).info.senderID = 2 ∧
    (emittedToOneClient 6 call).info.timeReceived <
      (emittedToOneClient 6 call).header.timeSent := by
  refine ⟨Runs.exists_of_any (by decide +kernel), by decide, by decide⟩

end Station

namespace Process

/-- A `Master` call on an entity of the host reaches the host's client with the info
that the server received it with. -/
theorem routeRPC_keeps_info {s : Process} {p q q' : Packet} {info : EntityInfo} {name : StdString}
    {rpc : EntityRPC} {ent : Entity} (hrole : s.role = .host)
    (hinfo : getEntityInfo p = (.ok info, q)) (hname : getString q = (.ok name, q'))
    (hrpc : s.scene.registry.entityRpcs info.type name = some rpc) (hmaster : rpc.rpctype = .master)
    (hent : s.scene.entities[info.ID]? = some ent) (hsame : info = ent.info)
    (howner : info.ownerID = 1) (hsender : p.info.senderID ≠ 1) :
    routeRPC p s = clientHandler p.info.senderID (emittedToOneClient s.now q') s ∧
      (emittedToOneClient s.now q').info = p.info := by
  have hkeep : q'.info = p.info := (reads_getString.info_eq hname).trans
    (reads_getEntityInfo.info_eq hinfo)
  refine ⟨?_, hkeep⟩
  rw [routeRPC, bind_onPacket hinfo]
  dsimp only
  rw [bind_onPacket hname, Fallible.bind_get]
  dsimp only
  rw [hrpc]
  dsimp only
  rw [hent]
  dsimp only
  rw [if_pos hsame, hmaster]
  dsimp only
  rw [howner, hkeep, if_neg (Ne.symm hsender), sendPacketToOneClient_host hrole]

end Process

end EnkiNet
