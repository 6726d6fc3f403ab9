import EnkiNet.Packet
import EnkiNet.Runs

/-!
# The packet queues of server and client

`Server` and `Client` keep the packets that the network thread pushes in a queue, and
`update` emits them to the connected handlers, front first.  Both classes emit the
front of the queue and pop it afterwards, so an exception that a handler throws leaves
`update` between the two.  They differ in what is left at the front: `Server::update`
emits a copy, `Client::update` moves the packet out of the queue.

Every packet is known by the number of pushes before it.  The inbox records what was
pushed and every call of `emit`; no code reads these records.

* `Progress`: what was emitted and what is waiting are what was pushed, in its order,
  unless the front has been emitted and is still there;
* `dispatch_iff`: emission is exactly once and in order in precisely the runs in which
  no `update` starts with such a front.
-/

namespace EnkiNet

/-- A packet of the queue, and how many were pushed before it. -/
structure Pushed where
  serial : Nat
  packet : Packet
  deriving DecidableEq, Repr

inductive QueueOwner
  | server
  | client
  deriving DecidableEq, Repr

/-- What the argument of `emit` leaves at the front of the queue: a `Packet` that has
been moved from has lost its buffer. -/
def QueueOwner.leftBehind (p : Pushed) : QueueOwner → Pushed
  | .server => p
  | .client => { p with packet := { p.packet with bytes := [] } }

/-- A connected handler, as far as the queue notices: whether it throws. -/
abbrev Slot : Type := Pushed → Bool

/-- `Signal::emit`: whether one of the slots, called in their order, throws. -/
def emit (slots : List Slot) (p : Pushed) : Bool := slots.any fun throws => throws p

structure Inbox where
  packets : List Pushed := []
  pushes : List Packet := []
  emissions : List Pushed := []
  deriving DecidableEq, Repr

namespace Inbox

def pushPacket (s : Inbox) (p : Packet) : Inbox :=
  { s with
    packets := s.packets ++ [⟨s.pushes.length, p⟩]
    pushes := s.pushes ++ [p] }

/-- The `while (!packets.empty())` loop: whether it ends normally, what it has emitted
and what it leaves in the queue. -/
def drain (owner : QueueOwner) (slots : List Slot) : List Pushed → Bool × List Pushed × List Pushed
  | [] => (true, [], [])
  | p :: rest =>
      if emit slots p then (false, [p], owner.leftBehind p :: rest)
      else
        let (returns, emitted, left) := drain owner slots rest
        (returns, p :: emitted, left)

/-- `Server::update` and `Client::update`. -/
def update (owner : QueueOwner) (slots : List Slot) (s : Inbox) : Inbox :=
  { s with
    packets := (drain owner slots s.packets).2.2
    emissions := s.emissions ++ (drain owner slots s.packets).2.1 }

/-- `update` is not left by an exception. -/
def Returns (owner : QueueOwner) (slots : List Slot) (s : Inbox) : Prop :=
  (drain owner slots s.packets).1 = true

/-- The mutex makes each of them one step.  The handlers may behave differently at
every update. -/
inductive Event
  | push (p : Packet)
  | update (slots : List Slot)

def step (owner : QueueOwner) (s : Inbox) : Event → Option Inbox
  | .push p => some (s.pushPacket p)
  | .update slots => some (s.update owner slots)

/-- Exactly-once dispatch so far: what was emitted are packets as they were pushed, in
the order of the pushes and none of them twice, and what was not is waiting. -/
structure Orderly (s : Inbox) : Prop where
  in_order : (s.emissions.map Pushed.serial).Pairwise (· < ·)
  unchanged : ∀ e ∈ s.emissions, s.pushes[e.serial]? = some e.packet
  waiting : ∀ i, i < s.pushes.length → (∃ e ∈ s.emissions, e.serial = i) ∨
    ∃ p ∈ s.packets, p.serial = i ∧ s.pushes[i]? = some p.packet

/-- No update starts with a front that has been emitted before. -/
def StartsFresh (s : Inbox) : Event → Prop
  | .push _ => True
  | .update _ => ∀ p ∈ s.packets.head?, ∀ e ∈ s.emissions, e.serial ≠ p.serial

/-! ## One update -/

/-- The loop emits everything, or it stops at the first packet that a handler throws on. -/
theorem drain_cases (owner : QueueOwner) (slots : List Slot) (ps : List Pushed) :
    drain owner slots ps = (true, ps, []) ∨
      ∃ before p after, ps = before ++ p :: after ∧
        drain owner slots ps = (false, before ++ [p], owner.leftBehind p :: after) := by
  induction ps with
  | nil => exact Or.inl rfl
  | cons p rest ih =>
      by_cases hthrow : emit slots p
      · exact Or.inr ⟨[], p, rest, rfl, if_pos hthrow⟩
      · rw [drain, if_neg hthrow]
        rcases ih with hall | ⟨before, q, after, rfl, hstop⟩
        · rw [hall]
          exact Or.inl rfl
        · rw [hstop]
          exact Or.inr ⟨p :: before, q, after, rfl, rfl⟩

/-- **An update that returns leaves the queue empty.** -/
theorem packets_of_returns {owner : QueueOwner} {slots : List Slot} {s : Inbox}
    (h : s.Returns owner slots) :
    (s.update owner slots).packets = [] ∧
      (s.update owner slots).emissions = s.emissions ++ s.packets := by
  unfold Returns at h
  unfold update
  rcases drain_cases owner slots s.packets with hall | ⟨_, _, _, _, hstop⟩
  · rw [hall]
    exact ⟨rfl, rfl⟩
  · rw [hstop] at h
    cases h

/-- Whatever is at the front is emitted first. -/
theorem head_emitted (owner : QueueOwner) (slots : List Slot) {s : Inbox} {p : Pushed}
    (h : p ∈ s.packets.head?) :
    ∃ more, (s.update owner slots).emissions = s.emissions ++ p :: more := by
  obtain ⟨rest, hrest⟩ := List.head?_eq_some_iff.mp h
  unfold update
  rcases drain_cases owner slots s.packets with hall | ⟨before, q, after, hsplit, hstop⟩
  · rw [hall, hrest]
    exact ⟨rest, rfl⟩
  · rw [hstop]
    rw [hsplit] at hrest
    cases before with
    | nil =>
        cases hrest
        exact ⟨[], rfl⟩
    | cons b before =>
        cases hrest
        exact ⟨before ++ [q], rfl⟩

/-! ## Accounting for every packet -/

/-- The packets that were pushed, with their numbers. -/
def numbered (ps : List Packet) : List Pushed := ps.mapIdx fun i p => ⟨i, p⟩

/-- A packet that is pushed gets the next number. -/
theorem numbered_concat (ps : List Packet) (p : Packet) :
    numbered (ps ++ [p]) = numbered ps ++ [⟨ps.length, p⟩] := by
  simp [numbered]

/-- A number belongs to the packet that was pushed then. -/
theorem getElem?_of_mem_numbered {ps : List Packet} {e : Pushed} (h : e ∈ numbered ps) :
    ps[e.serial]? = some e.packet := by
  obtain ⟨i, hi, rfl⟩ := List.mem_mapIdx.mp h
  exact List.getElem?_eq_getElem hi

theorem exists_mem_numbered {ps : List Packet} {i : Nat} (h : i < ps.length) :
    ∃ e ∈ numbered ps, e.serial = i :=
  ⟨⟨i, ps[i]⟩, List.mem_mapIdx.mpr ⟨i, h, rfl⟩, rfl⟩

/-- Numbers count up. -/
theorem serials_numbered (ps : List Packet) :
    ((numbered ps).map Pushed.serial).Pairwise (· < ·) := by
  have hserials : (numbered ps).map Pushed.serial = List.range ps.length := by
    apply List.ext_getElem
    · simp [numbered]
    · intro i _ _
      simp [numbered]
  rw [hserials]
  exact List.pairwise_lt_range

/-- Either everything that was pushed has been emitted or is waiting, or the front has
been emitted and is still there. -/
inductive Progress (s : Inbox) : Prop
  | steady (h : s.emissions ++ s.packets = numbered s.pushes)
  | interrupted (p front : Pushed) (rest : List Pushed) (hfront : s.packets = front :: rest)
      (hserial : p.serial = front.serial) (hmem : p ∈ s.emissions)
      (h : s.emissions ++ rest = numbered s.pushes)

/-- What a handler leaves behind is still the same packet. -/
theorem serial_leftBehind (owner : QueueOwner) (p : Pushed) :
    (owner.leftBehind p).serial = p.serial := by
  cases owner <;> rfl

/-- A push keeps the queue in progress. -/
theorem Progress.push {s : Inbox} (hs : s.Progress) (p : Packet) : (s.pushPacket p).Progress := by
  cases hs with
  | steady h =>
      apply Progress.steady
      rw [pushPacket, ← List.append_assoc, h, numbered_concat]
  | interrupted q front rest hfront hserial hmem h =>
      refine .interrupted q front (rest ++ [⟨s.pushes.length, p⟩]) ?_ hserial hmem ?_
      · rw [pushPacket, hfront, List.cons_append]
      · rw [pushPacket, ← List.append_assoc, h, numbered_concat]

/-- An update emits the packets from the front. -/
theorem Progress.update {s : Inbox} {owner : QueueOwner} {slots : List Slot} (hs : s.Progress)
    (hfresh : s.StartsFresh (.update slots)) : (s.update owner slots).Progress := by
  cases hs with
  | interrupted p front rest hfront hserial hmem h =>
      have hhead : front ∈ s.packets.head? := by
        rw [hfront]
        rfl
      exact absurd hserial (hfresh front hhead p hmem)
  | steady h =>
      unfold Inbox.update
      rcases drain_cases owner slots s.packets with hall | ⟨before, p, after, hsplit, hstop⟩
      · rw [hall]
        apply Progress.steady
        rw [List.append_nil, h]
      · rw [hstop]
        refine .interrupted p _ after rfl (serial_leftBehind owner p).symm (by simp) ?_
        rw [← h, hsplit]
        simp

/-- Progress is in order. -/
theorem Progress.orderly {s : Inbox} (hs : s.Progress) : s.Orderly := by
  have hemitted : ∀ rest, s.emissions ++ rest = numbered s.pushes →
      (s.emissions.map Pushed.serial).Pairwise (· < ·) ∧
        ∀ e ∈ s.emissions, s.pushes[e.serial]? = some e.packet := by
    intro rest h
    have hsub : s.emissions.Sublist (numbered s.pushes) := h ▸ List.sublist_append_left _ _
    refine ⟨(serials_numbered s.pushes).sublist (hsub.map _), ?_⟩
    intro e he
    exact getElem?_of_mem_numbered (hsub.subset he)
  have hcovers : ∀ rest, s.emissions ++ rest = numbered s.pushes → (∀ p ∈ rest, p ∈ s.packets) →
      ∀ i, i < s.pushes.length → (∃ e ∈ s.emissions, e.serial = i) ∨
        ∃ p ∈ s.packets, p.serial = i ∧ s.pushes[i]? = some p.packet := by
    intro rest h hrest i hi
    obtain ⟨e, he, rfl⟩ := exists_mem_numbered hi
    have hpushed := getElem?_of_mem_numbered he
    rw [← h] at he
    rcases List.mem_append.mp he with hold | hwait
    · exact Or.inl ⟨e, hold, rfl⟩
    · exact Or.inr ⟨e, hrest e hwait, rfl, hpushed⟩
  cases hs with
  | steady h => exact ⟨(hemitted _ h).1, (hemitted _ h).2, hcovers _ h fun _ hp => hp⟩
  | interrupted p front rest hfront hserial hmem h =>
      refine ⟨(hemitted _ h).1, (hemitted _ h).2, hcovers _ h ?_⟩
      intro q hq
      rw [hfront]
      exact List.mem_cons_of_mem front hq

/-! ## Whole runs -/

/-- Nothing that was emitted is forgotten. -/
theorem emissions_of_step {owner : QueueOwner} {s t : Inbox} {e : Event}
    (h : step owner s e = some t) : s.emissions <+: t.emissions := by
  cases e with
  | push p =>
      cases h
      exact List.prefix_rfl
  | update slots =>
      cases h
      exact List.prefix_append _ _

/-- What was emitted stays emitted. -/
theorem emissions_of_run {owner : QueueOwner} {s t : Inbox} {es : List Event}
    (h : Runs.run (step owner) s es = some t) : s.emissions <+: t.emissions := by
  have hone : ∀ (u : Inbox) (e : Event) (u' : Inbox), s.emissions <+: u.emissions →
      step owner u e = some u' → s.emissions <+: u'.emissions := by
    intro u e u' hu hstep
    exact hu.trans (emissions_of_step hstep)
  exact Runs.run_invariant hone h List.prefix_rfl

/-- An update that starts with an emitted front emits it again. -/
theorem Orderly.startsFresh {owner : QueueOwner} {s t u : Inbox} {e : Event} (hu : u.Orderly)
    (hstep : step owner s e = some t) (hrest : t.emissions <+: u.emissions) : s.StartsFresh e := by
  cases e with
  | push p => trivial
  | update slots =>
      intro p hp e he heq
      cases hstep
      obtain ⟨more, hmore⟩ := head_emitted owner slots hp
      have hsub := (hrest.sublist.map Pushed.serial)
      rw [hmore, List.map_append, List.map_cons] at hsub
      have hlt := List.pairwise_append.mp (hu.in_order.sublist hsub)
      have hself := hlt.2.2 e.serial (List.mem_map_of_mem he) p.serial List.mem_cons_self
      omega

/-- **Packets are dispatched exactly once and in order precisely as long as no update
starts with a packet that a handler has thrown on before.** -/
theorem dispatch_iff (owner : QueueOwner) (es : List Event) :
    ∃ t, Runs.run (step owner) {} es = some t ∧
      (t.Orderly ↔ Runs.Meets (step owner) StartsFresh {} es) ∧
      ∀ slots, t.Returns owner slots → (t.update owner slots).packets = [] := by
  have hgood : ∀ s t, Runs.run (step owner) s es = some t → s.Progress →
      (t.Orderly ↔ Runs.Meets (step owner) StartsFresh s es) := by
    intro s t hrun hs
    constructor
    · intro ht
      refine Runs.meets_of_good Orderly ?_ hrun ht
      intro u e u' rest v hstep hrest hv
      exact hv.startsFresh hstep (emissions_of_run hrest)
    · intro hmeets
      apply Progress.orderly
      refine Runs.run_invariant_of_meets ?_ hmeets hrun hs
      intro u e u' hu hfresh hstep
      cases e with
      | push p =>
          cases hstep
          exact hu.push p
      | update slots =>
          cases hstep
          exact hu.update hfresh
  have hruns : ∀ s, ∃ t, Runs.run (step owner) s es = some t := by
    clear hgood
    induction es with
    | nil => exact fun s => ⟨s, rfl⟩
    | cons e es ih =>
        intro s
        cases e with
        | push p => exact ih _
        | update slots => exact ih _
  obtain ⟨t, hrun⟩ := hruns {}
  exact ⟨t, hrun, hgood {} t hrun (.steady rfl), fun slots h => (packets_of_returns h).1⟩

/-- A handler throws once, and `update` is called again. -/
def retry : List Event :=
  [.push (.ofHeader {}), .update [fun _ => true], .update [fun _ => false]]

/-- The server emits the packet twice, the client what moving it has left of it. -/
theorem retry_emits_twice :
    (∃ t, Runs.run (step .server) {} retry = some t ∧
      t.emissions = [⟨0, .ofHeader {}⟩, ⟨0, .ofHeader {}⟩] ∧ ¬ t.Orderly) ∧
    ∃ t, Runs.run (step .client) {} retry = some t ∧
      t.emissions = [⟨0, .ofHeader {}⟩, ⟨0, { Packet.ofHeader {} with bytes := [] }⟩] ∧
      ¬ t.Orderly := by
  refine ⟨⟨_, rfl, rfl, fun h => ?_⟩, ⟨_, rfl, rfl, fun h => ?_⟩⟩
  · exact absurd h.in_order (by decide)
  · exact absurd h.in_order (by decide)

end Inbox

end EnkiNet
