import EnkiNet.PacketBits
import EnkiNet.Runs

/-!
# Client ids

A server gives an id to a client inside the transport's connect callback
(`client_init`), from `free_ids` when that queue has one and from the counter
`next_uid` otherwise.  An id goes back to `free_ids` when a packet with the
header type `DISCONNECTED` reaches `on_packet_received`.  Between the two it
travels as a transport event and as a queued packet, and packets that clients
sent travel in the same queue.

`ServerHost` and `ServerStandard` have the same code here; only a `ServerHost` has
a `ClientHost` whose packets reach the handlers without any queue.

`ids_distinct` is the invariant of all runs in which nobody but the transport
announces a disconnection and the counter has not wrapped around;
`spoofed_disconnect` is a run in which a client does.
-/

namespace EnkiNet

open Packet

/-! ## Packets made from transport events -/

/-- An entry of the transport's event queue. -/
inductive TransportEvent
  | connected (id : ClientID)
  | disconnected (id : ClientID)
  | received (id : ClientID) (data : List ByteStore.Byte)
  deriving DecidableEq, Repr

/-- The `on_client_connected` lambda; the two times are two readings of the clock. -/
def onClientConnected (id : ClientID) (sentAt receivedAt : UInt32) : Packet :=
  { ofHeader { type := .connected, timeSent := sentAt } with
    info := { senderID := id, timeReceived := receivedAt } }

def onClientDisconnected (id : ClientID) (sentAt receivedAt : UInt32) : Packet :=
  { ofHeader { type := .disconnected, timeSent := sentAt } with
    info := { senderID := id, timeReceived := receivedAt } }

/-- The `on_client_data_received` lambda.  A packet is never received before it was
sent. -/
def onClientDataReceived (id : ClientID) (data : List ByteStore.Byte) (receivedAt : UInt32) :
    Except Fault Packet := do
  let p ← ofData data
  return { p with
    info := {
      senderID := id
      timeReceived := if p.header.timeSent > receivedAt then p.header.timeSent else receivedAt } }

def packetOfEvent (sentAt receivedAt : UInt32) : TransportEvent → Except Fault Packet
  | .connected id => .ok (onClientConnected id sentAt receivedAt)
  | .disconnected id => .ok (onClientDisconnected id sentAt receivedAt)
  | .received id data => onClientDataReceived id data receivedAt

/-- `ClientHost::sendPacket` up to the emission. -/
def stampByClientHost (sentAt receivedAt : UInt32) (p : Packet) : Packet :=
  { p.setHeader { p.header with timeSent := sentAt } with
    info := { senderID := 1, timeReceived := receivedAt } }

/-! ## The server -/

inductive ServerKind
  | host
  | standard
  deriving DecidableEq, Repr

/-- `live` are the clients whose connection is up, as the transport knows them. -/
structure IdServer where
  nextUid : ClientID := 2
  freeIds : List ClientID := []
  events : List TransportEvent := []
  packets : List Packet := []
  live : List ClientID := []
  deriving DecidableEq, Repr

namespace IdServer

def getNextUID (s : IdServer) : ClientID × IdServer :=
  match s.freeIds with
  | [] => (s.nextUid, { s with nextUid := s.nextUid + 1 })
  | id :: rest => (id, { s with freeIds := rest })

/-- The handler that the constructor connects to `on_packet_received`. -/
def onPacketReceived (s : IdServer) (p : Packet) : IdServer :=
  if p.header.type = .disconnected then { s with freeIds := s.freeIds ++ [p.info.senderID] }
  else s

/-- `Server::update`. -/
def update (s : IdServer) : IdServer :=
  s.packets.foldl onPacketReceived { s with packets := [] }

inductive Event
  | connect
  | disconnect (client : Nat)
  | data (client : Nat) (bytes : List ByteStore.Byte)
  | localPacket (p : Packet) (sentAt receivedAt : UInt32)
  /-- `processPackets`, one transport event of it. -/
  | consume (sentAt receivedAt : UInt32)
  | update

/-- `none` when there is no such client, local client or event, and where a received
packet is too short to be one. -/
def step (kind : ServerKind) (s : IdServer) : Event → Option IdServer
  | .connect =>
      let (id, s) := s.getNextUID
      some { s with live := s.live ++ [id], events := s.events ++ [.connected id] }
  | .disconnect client => do
      let id ← s.live[client]?
      return { s with
        live := s.live.eraseIdx client
        events := s.events ++ [.disconnected id] }
  | .data client bytes => do
      let id ← s.live[client]?
      return { s with events := s.events ++ [.received id bytes] }
  | .localPacket p sentAt receivedAt =>
      match kind with
      | .host => some (s.onPacketReceived (stampByClientHost sentAt receivedAt p))
      | .standard => none
  | .consume sentAt receivedAt =>
      match s.events with
      | [] => none
      | e :: rest =>
          match packetOfEvent sentAt receivedAt e with
          | .ok p => some { s with events := rest, packets := s.packets ++ [p] }
          | .error _ => none
  | .update => some s.update

/-- The ids of the live clients are pairwise distinct, and neither 0 nor 1. -/
structure Distinct (s : IdServer) : Prop where
  nodup : s.live.Nodup
  not_reserved : ∀ id ∈ s.live, id ≠ 0 ∧ id ≠ 1

/-- A connection finds a free id or a counter that has not wrapped around, and no
client and no local client sends a packet of the type that only the transport's
packets should have. -/
def Regular (s : IdServer) : Event → Prop
  | .connect => s.freeIds ≠ [] ∨ 2 ≤ s.nextUid.toNat
  | .data _ bytes => (PacketHeader.ofBytes bytes).type ≠ .disconnected
  | .localPacket p _ _ => p.header.type ≠ .disconnected
  | _ => True

instance (s : IdServer) : (e : Event) → Decidable (s.Regular e)
  | .connect => inferInstanceAs (Decidable (_ ∨ _))
  | .data .. => inferInstanceAs (Decidable (_ ≠ _))
  | .localPacket .. => inferInstanceAs (Decidable (_ ≠ _))
  | .disconnect _ => .isTrue trivial
  | .consume .. => .isTrue trivial
  | .update => .isTrue trivial

/-! ## The invariant -/

/-- The id that an event will free. -/
def freedByEvent : TransportEvent → Option ClientID
  | .disconnected id => some id
  | _ => none

/-- The id that a queued packet will free. -/
def freedByPacket (p : Packet) : Option ClientID :=
  if p.header.type = .disconnected then some p.info.senderID else none

/-- Every id that has been given out, at the place where it is now. -/
def given (s : IdServer) : List ClientID :=
  s.live ++ (s.events.filterMap freedByEvent ++ (s.packets.filterMap freedByPacket ++ s.freeIds))

/-- The ids below this bound may have been given out. -/
def bound (s : IdServer) : Nat := if s.nextUid.toNat = 0 then 2 ^ 32 else s.nextUid.toNat

/-- Each id is in one place only, and no client's packet is about to free one. -/
structure Accounted (s : IdServer) : Prop where
  nodup : s.given.Nodup
  in_range : ∀ id ∈ s.given, 2 ≤ id.toNat ∧ id.toNat < s.bound
  counter : s.nextUid.toNat = 0 ∨ 2 ≤ s.nextUid.toNat
  honest : ∀ id data, .received id data ∈ s.events →
    (PacketHeader.ofBytes data).type ≠ .disconnected

theorem Accounted.distinct {s : IdServer} (h : Accounted s) : Distinct s := by
  have hsub : ∀ id ∈ s.live, id ∈ s.given := fun id hid => List.mem_append_left _ hid
  refine ⟨(List.nodup_append.mp h.nodup).1, ?_⟩
  intro id hid
  have hrange := (h.in_range id (hsub id hid)).1
  constructor
  · rintro rfl
    exact absurd hrange (by decide)
  · rintro rfl
    exact absurd hrange (by decide)

/-- Ids that only change their place stay accounted for. -/
theorem Accounted.of_perm {s s' : IdServer} (h : Accounted s) (hperm : s'.given.Perm s.given)
    (hnext : s'.nextUid = s.nextUid)
    (hhonest : ∀ id data, .received id data ∈ s'.events →
      (PacketHeader.ofBytes data).type ≠ .disconnected) : Accounted s' where
  nodup := hperm.nodup_iff.mpr h.nodup
  in_range id hid := by
    rw [bound, hnext]
    exact h.in_range id (hperm.mem_iff.mp hid)
  counter := by
    rw [hnext]
    exact h.counter
  honest := hhonest

theorem accounted_initial : Accounted {} where
  nodup := List.nodup_nil
  in_range := nofun
  counter := Or.inr (by decide)
  honest := nofun

/-! ## One step -/

theorem foldl_onPacketReceived (ps : List Packet) (s : IdServer) :
    ps.foldl onPacketReceived s =
      { s with freeIds := s.freeIds ++ ps.filterMap freedByPacket } := by
  induction ps generalizing s with
  | nil => simp
  | cons p ps ih =>
      rw [List.foldl_cons, ih]
      by_cases hp : p.header.type = .disconnected
      · simp [onPacketReceived, freedByPacket, hp]
      · simp [onPacketReceived, freedByPacket, hp]

/-- A recycled id only changes its place; a fresh one is the old bound. -/
theorem Accounted.connect {s s' : IdServer} {id : ClientID} (h : Accounted s)
    (hregular : s.freeIds ≠ [] ∨ 2 ≤ s.nextUid.toNat) (hnext : s.getNextUID = (id, s')) :
    Accounted { s' with live := s'.live ++ [id], events := s'.events ++ [.connected id] } := by
  unfold getNextUID at hnext
  have hhonest : ∀ x data, .received x data ∈ s.events ++ [.connected id] →
      (PacketHeader.ofBytes data).type ≠ .disconnected := by
    intro x data hmem
    rcases List.mem_append.mp hmem with hold | hnew
    · exact h.honest x data hold
    · cases List.mem_singleton.mp hnew
  split at hnext
  · next hfree =>
    cases hnext
    have hlow : 2 ≤ s.nextUid.toNat := hregular.resolve_left (fun hne => hne hfree)
    have hbound : s.bound = s.nextUid.toNat := if_neg (by omega)
    have hperm : ({ s with
        nextUid := s.nextUid + 1
        live := s.live ++ [s.nextUid]
        events := s.events ++ [.connected s.nextUid] } : IdServer).given.Perm
          (s.nextUid :: s.given) := by
      simp only [given, List.filterMap_append, freedByEvent, List.filterMap_cons,
        List.filterMap_nil, List.append_nil, List.append_assoc]
      exact List.perm_middle
    have hfresh : s.nextUid ∉ s.given := by
      intro hmem
      have hlt := (h.in_range _ hmem).2
      omega
    have hwrap : (s.nextUid + 1).toNat = (s.nextUid.toNat + 1) % 2 ^ 32 := UInt32.toNat_add _ _
    have hlt := s.nextUid.toNat_lt
    have hgrow : s.nextUid.toNat < ({ s with
        nextUid := s.nextUid + 1
        live := s.live ++ [s.nextUid]
        events := s.events ++ [.connected s.nextUid] } : IdServer).bound := by
      simp only [bound, hwrap]
      split <;> omega
    refine ⟨hperm.nodup_iff.mpr (List.nodup_cons.mpr ⟨hfresh, h.nodup⟩), ?_, ?_, hhonest⟩
    · intro x hx
      rcases List.mem_cons.mp (hperm.mem_iff.mp hx) with rfl | hold
      · exact ⟨hlow, hgrow⟩
      · obtain ⟨hlo, hhi⟩ := h.in_range x hold
        exact ⟨hlo, Nat.lt_trans (by omega : x.toNat < s.nextUid.toNat) hgrow⟩
    · simp only [hwrap]
      omega
  · next id' rest hfree =>
    cases hnext
    refine h.of_perm ?_ rfl hhonest
    simp only [given, hfree, List.filterMap_append, freedByEvent, List.filterMap_cons,
      List.filterMap_nil, List.append_nil, List.append_assoc]
    refine List.Perm.append_left _ ?_
    rw [List.singleton_append, ← List.append_assoc, ← List.append_assoc]
    exact List.perm_middle.symm

/-- The packet made from an event frees the id that the event frees. -/
theorem freedByPacket_of_event {sentAt receivedAt : UInt32} {e : TransportEvent} {p : Packet}
    (hhonest : ∀ id data, e = .received id data →
      (PacketHeader.ofBytes data).type ≠ .disconnected)
    (hp : packetOfEvent sentAt receivedAt e = .ok p) : freedByPacket p = freedByEvent e := by
  cases e with
  | connected id =>
      cases hp
      rfl
  | disconnected id =>
      cases hp
      rfl
  | received id data =>
      simp only [packetOfEvent, onClientDataReceived, ofData] at hp
      split at hp
      · cases hp
      · cases hp
        exact if_neg (hhonest id data rfl)

/-- **One step.**  A regular step moves at most one id from one place to another. -/
theorem step_accounted {kind : ServerKind} {s s' : IdServer} {e : Event} (h : Accounted s)
    (hregular : s.Regular e) (hstep : step kind s e = some s') : Accounted s' := by
  cases e with
  | connect =>
      rcases hnext : s.getNextUID with ⟨id, s₁⟩
      simp only [step, hnext, Option.some.injEq] at hstep
      rw [← hstep]
      exact h.connect hregular hnext
  | disconnect client =>
      obtain ⟨id, hid, hs'⟩ := Option.bind_eq_some_iff.mp hstep
      cases hs'
      refine h.of_perm ?_ rfl ?_
      · obtain ⟨hlt, hget⟩ := List.getElem?_eq_some_iff.mp hid
        have hperm : (id :: s.live.eraseIdx client).Perm s.live := by
          rw [← hget]
          exact List.getElem_cons_eraseIdx_perm hlt
        simp only [given, List.filterMap_append, freedByEvent, List.filterMap_cons,
          List.filterMap_nil, List.append_assoc, List.singleton_append]
        refine List.Perm.trans ?_ (List.Perm.append_right _ hperm)
        rw [← List.append_assoc]
        refine List.perm_middle.trans (List.Perm.cons _ ?_)
        rw [List.append_assoc]
        exact List.Perm.refl _
      · intro x data hmem
        rcases List.mem_append.mp hmem with hold | hnew
        · exact h.honest x data hold
        · cases List.mem_singleton.mp hnew
  | data client bytes =>
      obtain ⟨id, _, hs'⟩ := Option.bind_eq_some_iff.mp hstep
      cases hs'
      refine h.of_perm ?_ rfl ?_
      · simp only [given, List.filterMap_append, freedByEvent, List.filterMap_cons,
          List.filterMap_nil, List.append_nil]
        exact List.Perm.refl _
      · intro x data hmem
        rcases List.mem_append.mp hmem with hold | hnew
        · exact h.honest x data hold
        · cases List.mem_singleton.mp hnew
          exact hregular
  | localPacket p sentAt receivedAt =>
      cases kind with
      | host =>
          have hkeep : s.onPacketReceived (stampByClientHost sentAt receivedAt p) = s :=
            if_neg hregular
          simp only [step, hkeep, Option.some.injEq] at hstep
          rwa [← hstep]
      | standard => cases hstep
  | consume sentAt receivedAt =>
      simp only [step] at hstep
      split at hstep
      · cases hstep
      next e rest hevents =>
      split at hstep
      · next p hp =>
        cases hstep
        have hhonest : ∀ id data, .received id data ∈ rest →
            (PacketHeader.ofBytes data).type ≠ .disconnected := by
          intro id data hmem
          exact h.honest id data (by rw [hevents]; exact List.mem_cons_of_mem _ hmem)
        have hfreed := freedByPacket_of_event (by
          intro id data he
          exact h.honest id data (by rw [hevents, he]; exact List.mem_cons_self)) hp
        refine h.of_perm ?_ rfl hhonest
        have hone : [p].filterMap freedByPacket = [e].filterMap freedByEvent := by
          simp only [List.filterMap_cons, List.filterMap_nil, hfreed]
        have hcons : e :: rest = [e] ++ rest := rfl
        simp only [given, hevents, List.filterMap_append, hone, List.append_assoc]
        rw [hcons, List.filterMap_append, List.append_assoc]
        refine List.Perm.append_left _ ?_
        exact (List.perm_append_comm_assoc _ _ _).append_left _ |>.trans
          (List.perm_append_comm_assoc _ _ _)
      · cases hstep
  | update =>
      simp only [step, update, foldl_onPacketReceived, Option.some.injEq] at hstep
      rw [← hstep]
      refine h.of_perm ?_ rfl h.honest
      simp only [given, List.filterMap_nil, List.nil_append]
      exact List.Perm.append_left _ (List.Perm.append_left _ List.perm_append_comm)

/-- **Ids of live clients are distinct.**  It holds in every state that a run of
regular steps reaches, on both kinds of server. -/
theorem ids_distinct (kind : ServerKind) (es : List Event) (s : IdServer)
    (hregular : Runs.Meets (step kind) Regular {} es) (hrun : Runs.run (step kind) {} es = some s) :
    Distinct s :=
  Accounted.distinct (Runs.run_invariant_of_meets
    (fun _ _ _ h hok hstep => step_accounted h hok hstep) hregular hrun accounted_initial)

/-- Two clients connect, and the first leaves in between. -/
def reconnection : List Event :=
  [.connect, .consume 0 0, .disconnect 0, .consume 1 1, .update, .connect]

theorem ids_distinct_reconnection :
    (Runs.run (step .host) {} reconnection).map live = some [2] ∧
      ∀ s, Runs.run (step .host) {} reconnection = some s → Distinct s := by
  refine ⟨by decide +kernel, ?_⟩
  intro s hrun
  exact ids_distinct .host reconnection s (by decide +kernel) hrun

/-- The first eight bytes of a packet whose header says `DISCONNECTED`. -/
def disconnectedBytes : List ByteStore.Byte := [4, 0, 0, 0, 0, 0, 0, 0]

/-- A client sends a packet of type `DISCONNECTED` and stays. -/
def spoof : List Event :=
  [.connect, .consume 0 0, .data 0 disconnectedBytes, .consume 0 0, .update, .connect]

/-- The id of the client that stayed is given to the next one, on both kinds of
server; a local client that does the same frees the reserved id 1. -/
theorem spoofed_disconnect :
    (∀ kind, (Runs.run (step kind) {} spoof).map live = some [2, 2]) ∧
      (Runs.run (step .host) {}
        [.localPacket (ofHeader { type := .disconnected }) 0 0, .connect]).map
        live = some [1] ∧
      ¬ ∀ kind es s, Runs.run (step kind) {} es = some s → Distinct s := by
  have hlive : ∀ kind, (Runs.run (step kind) {} spoof).map live = some [2, 2] := by
    intro kind
    cases kind
    · decide +kernel
    · decide +kernel
  refine ⟨hlive, by decide +kernel, ?_⟩
  intro hall
  obtain ⟨s, hrun, hids⟩ := Option.map_eq_some_iff.mp (hlive .standard)
  have hnodup := (hall .standard spoof s hrun).nodup
  rw [hids] at hnodup
  exact absurd hnodup (by decide)

end IdServer

end EnkiNet
