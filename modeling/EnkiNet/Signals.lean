import EnkiNet.Runs

/-!
# Signals and connections

A signal keeps a list of slots, and a `Connection` is a weak pointer to the signal's
disconnector with the id of a slot.  Game code holds connections as objects of its own, and
copies them.  Here the signals of a program are numbered in the order in which they were made,
and the number of a signal stands for its disconnector; a signal that has been destroyed
leaves a gap.

Three fields are records that no code reads: how often `connect` has been called on a signal
(`made`), the how manieth of these calls a slot is of (`ordinal`), and which call a
`Connection` object comes from (`origin`).
-/

namespace EnkiNet

namespace Signals

/-- `Connection`.  A weak pointer is empty, or it points to a disconnector that may be gone. -/
structure Connection where
  dc : Option Nat := none
  slotID : UInt32 := 0
  deriving DecidableEq, Repr

/-- A call of `connect`, by the signal and its place among the calls on it. -/
structure Origin where
  signal : Nat
  ordinal : Nat
  deriving DecidableEq, Repr

/-- The connection that the call returned. -/
def Origin.connection (o : Origin) : Connection :=
  { dc := some o.signal, slotID := UInt32.ofNat o.ordinal }

variable {F A : Type}

/-- `Slot`; an empty `std::function` is `none`. -/
structure Slot (F : Type) where
  connection : Connection
  function : Option F
  ordinal : Nat
  deriving DecidableEq, Repr

structure Signal (F : Type) where
  slotIDCounter : UInt32 := 0
  slots : List (Slot F) := []
  made : Nat := 0
  deriving DecidableEq, Repr

/-- A `Connection` in the hands of game code. -/
structure Held where
  connection : Connection
  origin : Option Origin
  deriving DecidableEq, Repr

/-- The signals and the connections of a program. -/
structure Switchboard (F : Type) where
  signals : List (Option (Signal F)) := []
  connections : List Held := []
  deriving DecidableEq, Repr

namespace Switchboard

variable (b : Switchboard F)

/-- The signal of this number, if it exists. -/
def signal (k : Nat) : Option (Signal F) := (b.signals[k]?).join

def setSignal (k : Nat) (s : Option (Signal F)) : Switchboard F :=
  { b with signals := b.signals.set k s }

def setConnection (c : Nat) (h : Held) : Switchboard F :=
  { b with connections := b.connections.set c h }

/-- `weak_ptr::lock`. -/
def lock (dc : Option Nat) : Option Nat := dc.filter fun k => (b.signal k).isSome

/-- `Connection::operator bool`. -/
def isValid (c : Connection) : Bool := c.slotID ≠ 0 ∧ (b.lock c.dc).isSome

/-- `operator==`. -/
def same (lhs rhs : Connection) : Bool := lhs.slotID = rhs.slotID ∧ b.lock lhs.dc = b.lock rhs.dc

/-- The loop of `erase_if` in `Signal::disconnect`: the slots that stay, what has become of the
connection, and whether a slot has gone.  The slot that is found resets the connection
with which the next slots are compared. -/
def eraseSlots : Connection → Bool → List (Slot F) → List (Slot F) × Connection × Bool
  | c, valid, [] => ([], c, valid)
  | c, valid, slot :: rest =>
      if b.same c slot.connection then eraseSlots {} true rest
      else
        let after := eraseSlots c valid rest
        (slot :: after.1, after.2)

/-- `Signal::disconnect`, with what it leaves in the connection. -/
def disconnect (k : Nat) (s : Signal F) (c : Connection) : Switchboard F × Connection × Bool :=
  if b.isValid c then
    let after := b.eraseSlots c false s.slots
    (b.setSignal k (some { s with slots := after.1 }), after.2)
  else (b, c, false)

/-- `Signal::connect`: the signal and the connection that is returned. -/
def connected (k : Nat) (s : Signal F) (f : F) : Signal F × Connection :=
  let slotID := s.slotIDCounter + 1
  let connection : Connection := { dc := some k, slotID := slotID }
  ({ slotIDCounter := slotID
     slots := s.slots ++ [{ connection := connection, function := some f, ordinal := s.made + 1 }]
     made := s.made + 1 }, connection)

end Switchboard

/-- `Signal::emit`: the calls that it makes. -/
def Signal.emit (s : Signal F) (a : A) : List (F × A) :=
  s.slots.filterMap fun slot => slot.function.map fun f => (f, a)

/-! ## Histories -/

/-- What game code can do.  Objects are numbered in the order in which they are made. -/
inductive SignalOp (F A : Type)
  | makeSignal
  | destroySignal (k : Nat)
  /-- `Connection c;`, which leaves the id as it happens to be. -/
  | makeConnection (slotID : UInt32)
  | copyConnection (c : Nat)
  /-- `connect` with a function, which may be empty. -/
  | connect (k : Nat) (f : Option F)
  /-- `signal.disconnect(c)`. -/
  | disconnect (k c : Nat)
  /-- `c.disconnect()`. -/
  | disconnectSelf (c : Nat)
  | emit (k : Nat) (a : A)
  deriving DecidableEq, Repr

/-- What game code sees of an operation. -/
inductive SignalResult (F A : Type)
  | done
  | thrown (what : String)
  | disconnected (success : Bool)
  | called (calls : List (F × A))
  deriving DecidableEq, Repr

namespace Switchboard

/-- An operation on the object `c` with what it leaves in it. -/
def finish (c : Nat) (h : Held) (after : Switchboard F × Connection × Bool) :
    Switchboard F × SignalResult F A :=
  (after.1.setConnection c { h with connection := after.2.1 }, .disconnected after.2.2)

/-- The program has called `connect`, and holds what it returned. -/
def attach (b : Switchboard F) (k : Nat) (s : Signal F) (f : F) : Switchboard F :=
  let after := connected k s f
  let held : Held :=
    { connection := after.2, origin := some { signal := k, ordinal := s.made + 1 } }
  { b.setSignal k (some after.1) with connections := b.connections ++ [held] }

/-- An operation; it cannot be made on objects that do not exist. -/
def step (b : Switchboard F) : SignalOp F A → Option (Switchboard F × SignalResult F A)
  | .makeSignal => some ({ b with signals := b.signals ++ [some {}] }, .done)
  | .destroySignal k => (b.signal k).map fun _ => (b.setSignal k none, .done)
  | .makeConnection slotID =>
      let held : Held := { connection := { dc := none, slotID := slotID }, origin := none }
      some ({ b with connections := b.connections ++ [held] }, .done)
  | .copyConnection c =>
      (b.connections[c]?).map fun h => ({ b with connections := b.connections ++ [h] }, .done)
  | .connect k f =>
      (b.signal k).map fun s =>
        match f with
        | none => (b, .thrown "Invalid function")
        | some f => (b.attach k s f, .done)
  | .disconnect k c =>
      (b.signal k).bind fun s =>
        (b.connections[c]?).map fun h => finish c h (b.disconnect k s h.connection)
  | .disconnectSelf c =>
      (b.connections[c]?).map fun h =>
        match b.lock h.connection.dc with
        | some k =>
            match b.signal k with
            | some s => finish c h (b.disconnect k s h.connection)
            | none => (b, .disconnected false)
        | none => (b, .disconnected false)
  | .emit k a => (b.signal k).map fun s => (b, .called (s.emit a))

end Switchboard

namespace Switchboard

variable {b : Switchboard F} {k j : Nat} {s : Signal F}

/-! ## Looking up -/

/-- The signal with this number exists and has not been destroyed. -/
theorem signal_eq_some_iff : b.signal k = some s ↔ b.signals[k]? = some (some s) :=
  Option.join_eq_some_iff

theorem lt_length (h : b.signal k = some s) : k < b.signals.length :=
  (List.getElem?_eq_some_iff.mp (signal_eq_some_iff.mp h)).1

/-- Connections and signals are stored apart. -/
@[simp] theorem signal_setConnection (c : Nat) (h : Held) :
    (b.setConnection c h).signal k = b.signal k := rfl

/-- Another signal is put in the place of one. -/
theorem signal_setSignal (h : b.signal k = some s) (s' : Option (Signal F)) (j : Nat) :
    (b.setSignal k s').signal j = if j = k then s' else b.signal j := by
  rw [signal, setSignal, List.getElem?_set]
  by_cases heq : j = k
  · rw [if_pos heq.symm, if_pos heq, if_pos (lt_length h)]
    rfl
  · rw [if_neg fun h => heq h.symm, if_neg heq]
    rfl

/-- Putting back what was there changes nothing. -/
theorem setSignal_self (h : b.signal k = some s) : b.setSignal k (some s) = b := by
  obtain ⟨hlt, hget⟩ := List.getElem?_eq_some_iff.mp (signal_eq_some_iff.mp h)
  have hsame : b.signals.set k (some s) = b.signals := by
    rw [← hget]
    exact List.set_getElem_self hlt
  rw [setSignal, hsame]

theorem signal_makeSignal (j : Nat) :
    ({ b with signals := b.signals ++ [some {}] } : Switchboard F).signal j =
      if j = b.signals.length then some {} else b.signal j := by
  rw [signal, signal, List.getElem?_append]
  by_cases hlt : j < b.signals.length
  · rw [if_pos hlt, if_neg (Nat.ne_of_lt hlt)]
  · rw [if_neg hlt]
    by_cases heq : j = b.signals.length
    · rw [if_pos heq, heq, Nat.sub_self]
      rfl
    · rw [if_neg heq, List.getElem?_eq_none (by simp; omega), List.getElem?_eq_none (by omega)]

/-- The weak pointer of a signal that lives can be locked. -/
theorem lock_some (h : b.signal k = some s) : b.lock (some k) = some k := by
  rw [lock, Option.filter_some, h]
  rfl

/-- It can be locked only while its signal lives. -/
theorem lock_eq_some_iff (dc : Option Nat) :
    b.lock dc = some k ↔ dc = some k ∧ (b.signal k).isSome := by
  rw [lock, Option.filter_eq_some_iff]

/-- Only the first slot that is found goes: the connection has been reset when the next ones
are looked at. -/
theorem eraseSlots_eq (c : Connection) (slots : List (Slot F))
    (halive : ∀ slot ∈ slots, (b.lock slot.connection.dc).isSome) :
    b.eraseSlots c false slots = (slots.eraseP fun slot => b.same c slot.connection,
      if slots.any fun slot => b.same c slot.connection then {} else c,
      slots.any fun slot => b.same c slot.connection) := by
  have hreset : ∀ slots : List (Slot F), (∀ slot ∈ slots, (b.lock slot.connection.dc).isSome) →
      b.eraseSlots {} true slots = (slots, {}, true) := by
    intro slots halive
    induction slots with
    | nil => rfl
    | cons slot rest ih =>
        have hother : b.same {} slot.connection = false := by
          have hsome := halive slot List.mem_cons_self
          have hnone : b.lock none = none := rfl
          rw [same, hnone]
          refine decide_eq_false fun h => ?_
          rw [← h.2] at hsome
          cases hsome
        rw [eraseSlots, hother, ih fun slot hslot => halive slot (List.mem_cons_of_mem _ hslot)]
        rfl
  induction slots with
  | nil => rfl
  | cons slot rest ih =>
      have hrest : ∀ slot ∈ rest, (b.lock slot.connection.dc).isSome := fun slot hslot =>
        halive slot (List.mem_cons_of_mem _ hslot)
      rw [eraseSlots]
      cases hsame : b.same c slot.connection with
      | true => simp [hreset rest hrest, hsame]
      | false => simp [ih hrest, hsame]

/-- The signal has a slot for the connection. -/
def finds (b : Switchboard F) (s : Signal F) (c : Connection) : Bool :=
  b.isValid c && s.slots.any fun slot => b.same c slot.connection

/-- What is left of a signal that has lost a slot. -/
def without (b : Switchboard F) (s : Signal F) (c : Connection) : Signal F :=
  { s with slots := s.slots.eraseP fun slot => b.same c slot.connection }

theorem setConnection_self {c : Nat} {h : Held} (hh : b.connections[c]? = some h) :
    b.setConnection c h = b := by
  obtain ⟨hlt, hget⟩ := List.getElem?_eq_some_iff.mp hh
  have hsame : b.connections.set c h = b.connections := by
    rw [← hget]
    exact List.set_getElem_self hlt
  rw [setConnection, hsame]

/-- Where all slots are alive, `disconnect` takes out the slot it finds and empties the connection.
-/
theorem disconnect_eq (hs : b.signal k = some s)
    (halive : ∀ slot ∈ s.slots, (b.lock slot.connection.dc).isSome) (c : Connection) :
    b.disconnect k s c = if b.finds s c then (b.setSignal k (some (b.without s c)), {}, true)
      else (b, c, false) := by
  rw [disconnect, finds]
  cases hvalid : b.isValid c with
  | false => rfl
  | true =>
      rw [if_pos rfl, eraseSlots_eq c s.slots halive]
      cases hany : s.slots.any fun slot => b.same c slot.connection with
      | true => rfl
      | false =>
          have hkept : (s.slots.eraseP fun slot => b.same c slot.connection) = s.slots := by
            refine List.eraseP_of_forall_not fun slot hslot => ?_
            have hnot := List.any_eq_false.mp hany slot hslot
            exact hnot
          simp [hkept, setSignal_self hs]

/-! ## What a history keeps -/

end Switchboard

/-- The slots of a signal are those of different calls, in order, and its counter counts the
calls. -/
structure Signal.Ordered (s : Signal F) (k : Nat) : Prop where
  counter : s.slotIDCounter = UInt32.ofNat s.made
  connection : ∀ slot ∈ s.slots, slot.connection = (Origin.mk k slot.ordinal).connection
  function : ∀ slot ∈ s.slots, slot.function.isSome
  range : ∀ slot ∈ s.slots, 0 < slot.ordinal ∧ slot.ordinal ≤ s.made
  increasing : s.slots.Pairwise fun x y => x.ordinal < y.ordinal

/-- A connection points to a signal only if it comes from a call on it. -/
structure Held.Known (h : Held) (b : Switchboard F) : Prop where
  connection : h.connection.dc ≠ none → ∃ o, h.origin = some o ∧ h.connection = o.connection
  positive : ∀ o, h.origin = some o → 0 < o.ordinal
  made : ∀ o, h.origin = some o → o.signal < b.signals.length
  le_made : ∀ o, h.origin = some o → ∀ s, b.signal o.signal = some s → o.ordinal ≤ s.made

namespace Signal

variable {s : Signal F} {k : Nat}

/-- A signal without slots is ordered. -/
theorem ordered_new (k : Nat) : ({} : Signal F).Ordered k where
  counter := rfl
  connection := List.forall_mem_nil _
  function := List.forall_mem_nil _
  range := List.forall_mem_nil _
  increasing := List.Pairwise.nil

/-- A new slot has a greater number than those before it. -/
theorem Ordered.connected (h : s.Ordered k) (f : F) :
    (Switchboard.connected k s f).1.Ordered k := by
  have hcounter : s.slotIDCounter + 1 = UInt32.ofNat (s.made + 1) := by
    rw [h.counter, UInt32.ofNat_add]
    rfl
  refine ⟨hcounter, ?_, ?_, ?_, ?_⟩
  · intro slot hslot
    rcases List.mem_append.mp hslot with hold | hnew
    · exact h.connection slot hold
    · obtain rfl := List.mem_singleton.mp hnew
      rw [Origin.connection, ← hcounter]
  · intro slot hslot
    rcases List.mem_append.mp hslot with hold | hnew
    · exact h.function slot hold
    · obtain rfl := List.mem_singleton.mp hnew
      rfl
  · intro slot hslot
    rcases List.mem_append.mp hslot with hold | hnew
    · obtain ⟨hpos, hle⟩ := h.range slot hold
      exact ⟨hpos, Nat.le_succ_of_le hle⟩
    · obtain rfl := List.mem_singleton.mp hnew
      exact ⟨Nat.succ_pos _, Nat.le_refl _⟩
  · refine List.pairwise_append.mpr ⟨h.increasing, List.pairwise_singleton _ _, ?_⟩
    intro x hx y hy
    obtain rfl := List.mem_singleton.mp hy
    exact Nat.lt_succ_of_le (h.range x hx).2

/-- Taking a slot out keeps the order of the others. -/
theorem Ordered.without (h : s.Ordered k) (b : Switchboard F) (c : Connection) :
    (b.without s c).Ordered k := by
  have hsub : (b.without s c).slots.Sublist s.slots := List.eraseP_sublist
  exact {
    counter := h.counter
    connection := fun slot hslot => h.connection slot (hsub.subset hslot)
    function := fun slot hslot => h.function slot (hsub.subset hslot)
    range := fun slot hslot => h.range slot (hsub.subset hslot)
    increasing := h.increasing.sublist hsub }

end Signal

namespace Switchboard

/-- **What every history keeps.** -/
structure Wired (b : Switchboard F) : Prop where
  signals : ∀ k s, b.signal k = some s → s.Ordered k
  held : ∀ h ∈ b.connections, h.Known b

variable {b : Switchboard F} {k : Nat} {s : Signal F}

/-- Before anything is made. -/
theorem wired_empty : ({} : Switchboard F).Wired where
  signals := fun k s h => by simp [signal] at h
  held := List.forall_mem_nil _

/-- The slots of a signal belong to it, so they are alive as long as it is. -/
theorem Wired.alive (h : b.Wired) (hs : b.signal k = some s) :
    ∀ slot ∈ s.slots, (b.lock slot.connection.dc).isSome := by
  intro slot hslot
  rw [(h.signals k s hs).connection slot hslot]
  exact Option.isSome_of_eq_some (lock_some hs)

/-- The slot of a connection is found by the signal and the id. -/
theorem Wired.same_iff (h : b.Wired) (hs : b.signal k = some s) {slot : Slot F}
    (hslot : slot ∈ s.slots) (c : Connection) :
    b.same c slot.connection = true ↔ c = slot.connection := by
  have hlock : b.lock (some k) = some k := lock_some hs
  rw [(h.signals k s hs).connection slot hslot, same, decide_eq_true_iff]
  constructor
  · intro hsame
    have hdc : b.lock c.dc = some k := hsame.2.trans hlock
    rcases c with ⟨dc, slotID⟩
    have hto : dc = some k := ((lock_eq_some_iff dc).mp hdc).1
    have hid : slotID = UInt32.ofNat slot.ordinal := hsame.1
    rw [hto, hid]
    rfl
  · intro hc
    rw [hc]
    exact ⟨rfl, rfl⟩

/-! ## What an operation can do -/

/-- The connection `c`, which is `h`, has lost its slot. -/
def release (b : Switchboard F) (k : Nat) (s : Signal F) (c : Nat) (h : Held) : Switchboard F :=
  (b.setSignal k (some (b.without s h.connection))).setConnection c { h with connection := {} }

/-- An operation connects nothing and finds nothing to disconnect. -/
structure Idle (b : Switchboard F) (op : SignalOp F A) : Prop where
  connect : ∀ k f, op ≠ .connect k (some f)
  disconnect : ∀ k c s h, op = .disconnect k c ∨ op = .disconnectSelf c → b.signal k = some s →
    b.connections[c]? = some h → b.finds s h.connection = false

/-- **What an operation can do.** -/
inductive Turn (b : Switchboard F) : SignalOp F A → Switchboard F → Prop
  | idle {op : SignalOp F A} (hidle : b.Idle op) : Turn b op b
  | makeSignal : Turn b .makeSignal { b with signals := b.signals ++ [some {}] }
  | destroySignal {k : Nat} {s : Signal F} (hs : b.signal k = some s) :
      Turn b (.destroySignal k) (b.setSignal k none)
  | makeConnection (slotID : UInt32) :
      Turn b (.makeConnection slotID)
        { b with connections := b.connections ++ [⟨⟨none, slotID⟩, none⟩] }
  | copyConnection {c : Nat} {h : Held} (hh : b.connections[c]? = some h) :
      Turn b (.copyConnection c) { b with connections := b.connections ++ [h] }
  | connect {k : Nat} {s : Signal F} {f : F} (hs : b.signal k = some s) :
      Turn b (.connect k (some f)) (b.attach k s f)
  | disconnect {op : SignalOp F A} {k c : Nat} {s : Signal F} {h : Held}
      (hop : op = .disconnect k c ∨ op = .disconnectSelf c) (hs : b.signal k = some s)
      (hh : b.connections[c]? = some h) (hfinds : b.finds s h.connection = true) :
      Turn b op (b.release k s c h)

section
variable {c : Nat} {h : Held} {b' : Switchboard F} {op : SignalOp F A} {r : SignalResult F A}

/-- What `Signal::disconnect` does, where all is wired. -/
theorem step_disconnect (hb : b.Wired) (hs : b.signal k = some s)
    (hh : b.connections[c]? = some h) :
    b.step (.disconnect k c : SignalOp F A) =
      some (if b.finds s h.connection then (b.release k s c h, .disconnected true)
        else (b, .disconnected false)) := by
  rw [step, hs, Option.bind_some, hh, Option.map_some, disconnect_eq hs (hb.alive hs)]
  cases hfinds : b.finds s h.connection with
  | true => rfl
  | false =>
      have hself : b.setConnection c h = b := setConnection_self hh
      simp [finish, hself]

/-- `Connection::disconnect` asks the signal that it belongs to. -/
theorem step_disconnectSelf (hs : b.signal k = some s) (hh : b.connections[c]? = some h)
    (hlock : b.lock h.connection.dc = some k) :
    b.step (.disconnectSelf c : SignalOp F A) = b.step (.disconnect k c) := by
  rw [step, step, hh, Option.map_some, hs, Option.bind_some, Option.map_some, hlock]
  simp only [hs]

/-- Without a signal it does nothing. -/
theorem step_disconnectSelf_none (hh : b.connections[c]? = some h)
    (hlock : b.lock h.connection.dc = none) :
    b.step (.disconnectSelf c : SignalOp F A) = some (b, .disconnected false) := by
  rw [step, hh, Option.map_some, hlock]

/-- All other operations leave the slots as they are. -/
theorem idle_of_ne (hconnect : ∀ k f, op ≠ .connect k (some f))
    (hdisconnect : ∀ k c, op ≠ .disconnect k c) (hself : ∀ c, op ≠ .disconnectSelf c) :
    b.Idle op := by
  refine ⟨hconnect, fun k c s h hop => ?_⟩
  rcases hop with hop | hop
  · exact absurd hop (hdisconnect k c)
  · exact absurd hop (hself c)

/-- A connection that is found among the slots of a signal belongs to that signal. -/
theorem Wired.finds_dc (hb : b.Wired) (hs : b.signal k = some s) {c : Connection}
    (hfinds : b.finds s c = true) : c.dc = some k := by
  obtain ⟨slot, hslot, hsame⟩ := List.any_eq_true.mp (Bool.and_eq_true_iff.mp hfinds).2
  rw [(hb.same_iff hs hslot c).mp hsame, (hb.signals k s hs).connection slot hslot]
  rfl

/-- A disconnection is a release, or it finds nothing. -/
theorem turn_of_disconnect (hb : b.Wired) (hs : b.signal k = some s)
    (hh : b.connections[c]? = some h) (hop : op = .disconnect k c ∨ op = .disconnectSelf c ∧
    h.connection.dc = some k)
    (hstep : b.step (.disconnect k c : SignalOp F A) = some (b', r)) : b.Turn op b' := by
  rw [step_disconnect hb hs hh] at hstep
  cases hfinds : b.finds s h.connection with
  | true =>
      rw [hfinds] at hstep
      cases hstep
      exact .disconnect (hop.imp_right And.left) hs hh hfinds
  | false =>
      rw [hfinds] at hstep
      cases hstep
      refine .idle ⟨fun j f heq => ?_, fun j c' t h' hop' ht hh' => ?_⟩
      · rcases hop with hop | hop
        · rw [hop] at heq
          cases heq
        · rw [hop.1] at heq
          cases heq
      · rcases hop with hop | hop
        · obtain ⟨rfl, rfl⟩ : k = j ∧ c = c' := by simpa [hop] using hop'
          cases hs.symm.trans ht
          cases hh.symm.trans hh'
          exact hfinds
        · obtain rfl : c = c' := by simpa [hop.1] using hop'
          cases hh.symm.trans hh'
          by_contra hfound
          have hdc := hb.finds_dc ht (Bool.eq_true_of_not_eq_false hfound)
          rw [hop.2] at hdc
          cases hdc
          cases hs.symm.trans ht
          exact hfound hfinds

/-- **Inversion.**  A step attaches a slot, releases one, or leaves the slots alone. -/
theorem turn_of_step (hb : b.Wired) (hstep : b.step op = some (b', r)) : b.Turn op b' := by
  cases op with
  | makeSignal =>
      cases hstep
      exact .makeSignal
  | destroySignal k =>
      obtain ⟨s, hs, heq⟩ := Option.map_eq_some_iff.mp hstep
      cases heq
      exact .destroySignal hs
  | makeConnection slotID =>
      cases hstep
      exact .makeConnection slotID
  | copyConnection c =>
      obtain ⟨h, hh, heq⟩ := Option.map_eq_some_iff.mp hstep
      cases heq
      exact .copyConnection hh
  | connect k f =>
      obtain ⟨s, hs, heq⟩ := Option.map_eq_some_iff.mp hstep
      cases f with
      | none =>
          cases heq
          exact .idle (idle_of_ne (by simp) (by simp) (by simp))
      | some f =>
          cases heq
          exact .connect hs
  | disconnect k c =>
      obtain ⟨s, hs, htail⟩ := Option.bind_eq_some_iff.mp hstep
      obtain ⟨h, hh, _⟩ := Option.map_eq_some_iff.mp htail
      exact turn_of_disconnect hb hs hh (.inl rfl) hstep
  | disconnectSelf c =>
      obtain ⟨h, hh, _⟩ := Option.map_eq_some_iff.mp hstep
      cases hlock : b.lock h.connection.dc with
      | none =>
          rw [step_disconnectSelf_none hh hlock] at hstep
          cases hstep
          refine .idle ⟨by simp, fun k c' s h' hop hs hh' => ?_⟩
          obtain rfl : c = c' := by simpa using hop
          cases hh.symm.trans hh'
          by_contra hfound
          have hdc := hb.finds_dc hs (Bool.eq_true_of_not_eq_false hfound)
          have hlocked : b.lock (some k) = some k := lock_some hs
          rw [hdc, hlocked] at hlock
          cases hlock
      | some k =>
          obtain ⟨hdc, halive⟩ := (lock_eq_some_iff _).mp hlock
          obtain ⟨s, hs⟩ := Option.isSome_iff_exists.mp halive
          rw [step_disconnectSelf hs hh hlock] at hstep
          exact turn_of_disconnect hb hs hh (.inr ⟨rfl, hdc⟩) hstep
  | emit k a =>
      obtain ⟨s, hs, heq⟩ := Option.map_eq_some_iff.mp hstep
      cases heq
      exact .idle (idle_of_ne (by simp) (by simp) (by simp))

/-- Attaching a slot concerns one signal. -/
theorem signal_attach (hs : b.signal k = some s) (f : F) (j : Nat) :
    (b.attach k s f).signal j = if j = k then some (connected k s f).1 else b.signal j :=
  signal_setSignal hs _ j

/-- So does releasing one. -/
theorem signal_release (hs : b.signal k = some s) (c : Nat) (h : Held) (j : Nat) :
    (b.release k s c h).signal j =
      if j = k then some (b.without s h.connection) else b.signal j :=
  signal_setSignal hs _ j

theorem length_setSignal (k : Nat) (s : Option (Signal F)) :
    (b.setSignal k s).signals.length = b.signals.length := List.length_set

/-- Signals do not come back, and the counts of their calls only grow. -/
structure Grows (b b' : Switchboard F) : Prop where
  length : b.signals.length ≤ b'.signals.length
  made : ∀ k < b.signals.length, ∀ s', b'.signal k = some s' →
    ∃ s, b.signal k = some s ∧ s.made ≤ s'.made

/-- Numbers of slots are never handed out again. -/
theorem grows_setSignal (hs : b.signal k = some s) {s' : Option (Signal F)}
    (hmade : ∀ t, s' = some t → s.made ≤ t.made) : b.Grows (b.setSignal k s') where
  length := Nat.le_of_eq (length_setSignal k s').symm
  made := by
    intro j _ t ht
    rw [signal_setSignal hs] at ht
    by_cases hj : j = k
    · rw [if_pos hj] at ht
      exact ⟨s, hj ▸ hs, hmade t ht⟩
    · rw [if_neg hj] at ht
      exact ⟨t, ht, Nat.le_refl _⟩

/-- No step forgets how many slots have been made. -/
theorem Turn.grows (hturn : b.Turn op b') : b.Grows b' := by
  cases hturn with
  | idle hidle => exact ⟨Nat.le_refl _, fun j _ t ht => ⟨t, ht, Nat.le_refl _⟩⟩
  | makeSignal =>
      refine ⟨by simp, ?_⟩
      intro j hj t ht
      rw [signal_makeSignal, if_neg (Nat.ne_of_lt hj)] at ht
      exact ⟨t, ht, Nat.le_refl _⟩
  | destroySignal hs => exact grows_setSignal hs fun t ht => by cases ht
  | makeConnection slotID => exact ⟨Nat.le_refl _, fun j _ t ht => ⟨t, ht, Nat.le_refl _⟩⟩
  | copyConnection hh => exact ⟨Nat.le_refl _, fun j _ t ht => ⟨t, ht, Nat.le_refl _⟩⟩
  | @connect k s f hs =>
      have hgrows : b.Grows (b.setSignal k (some (connected k s f).1)) := by
        refine grows_setSignal hs fun t ht => ?_
        cases ht
        exact Nat.le_succ _
      exact ⟨hgrows.length, hgrows.made⟩
  | @disconnect _ k c s h hop hs hh hfinds =>
      have hgrows : b.Grows (b.setSignal k (some (b.without s h.connection))) := by
        refine grows_setSignal hs fun t ht => ?_
        cases ht
        exact Nat.le_refl _
      exact ⟨hgrows.length, hgrows.made⟩

/-- What was known stays known. -/
theorem known_of_grows (hgrows : b.Grows b') (hh : h.Known b) : h.Known b' where
  connection := hh.connection
  positive := hh.positive
  made := fun o ho => Nat.lt_of_lt_of_le (hh.made o ho) hgrows.length
  le_made := by
    intro o ho t ht
    obtain ⟨s, hs, hle⟩ := hgrows.made o.signal (hh.made o ho) t ht
    exact Nat.le_trans (hh.le_made o ho s hs) hle

/-- **One step.** -/
theorem Turn.wired (hturn : b.Turn op b') (hb : b.Wired) : b'.Wired := by
  have hgrows : b.Grows b' := hturn.grows
  have hold : ∀ h ∈ b.connections, h.Known b' := fun h hh => known_of_grows hgrows (hb.held h hh)
  cases hturn with
  | idle hidle => exact hb
  | makeSignal =>
      refine ⟨fun j t ht => ?_, hold⟩
      rw [signal_makeSignal] at ht
      by_cases hj : j = b.signals.length
      · rw [if_pos hj] at ht
        cases ht
        exact Signal.ordered_new j
      · rw [if_neg hj] at ht
        exact hb.signals j t ht
  | destroySignal hs =>
      refine ⟨fun j t ht => ?_, hold⟩
      rw [signal_setSignal hs] at ht
      split at ht
      · cases ht
      · exact hb.signals j t ht
  | makeConnection slotID =>
      refine ⟨hb.signals, fun h hh => ?_⟩
      rcases List.mem_append.mp hh with hin | hnew
      · exact hold h hin
      · obtain rfl := List.mem_singleton.mp hnew
        exact ⟨fun hdc => absurd rfl hdc, by simp, by simp, by simp⟩
  | copyConnection hh =>
      refine ⟨hb.signals, fun h hin => ?_⟩
      rcases List.mem_append.mp hin with hin | hnew
      · exact hold h hin
      · obtain rfl := List.mem_singleton.mp hnew
        exact hold _ (List.mem_of_getElem? hh)
  | @connect k s f hs =>
      have hordered : (connected k s f).1.Ordered k := (hb.signals k s hs).connected f
      refine ⟨fun j t ht => ?_, fun h hin => ?_⟩
      · rw [signal_attach hs] at ht
        by_cases hj : j = k
        · rw [if_pos hj] at ht
          cases ht
          rw [hj]
          exact hordered
        · rw [if_neg hj] at ht
          exact hb.signals j t ht
      · rcases List.mem_append.mp hin with hin | hnew
        · exact hold h hin
        · obtain rfl := List.mem_singleton.mp hnew
          have hid : (connected k s f).2 = (Origin.mk k (s.made + 1)).connection := by
            have hcounter : (connected k s f).1.slotIDCounter = UInt32.ofNat (s.made + 1) :=
              hordered.counter
            rw [Origin.connection, ← hcounter]
            rfl
          refine ⟨fun _ => ⟨_, rfl, hid⟩, fun o ho => ?_, fun o ho => ?_, fun o ho t ht => ?_⟩
          · cases ho
            exact Nat.succ_pos _
          · cases ho
            exact Nat.lt_of_lt_of_le (lt_length hs) hgrows.length
          · cases ho
            rw [signal_attach hs, if_pos rfl] at ht
            cases ht
            exact Nat.le_refl _
  | @disconnect _ k c s h hop hs hh hfinds =>
      refine ⟨fun j t ht => ?_, fun h' hin => ?_⟩
      · rw [signal_release hs] at ht
        by_cases hj : j = k
        · rw [if_pos hj] at ht
          cases ht
          rw [hj]
          exact (hb.signals k s hs).without b h.connection
        · rw [if_neg hj] at ht
          exact hb.signals j t ht
      · rcases List.mem_or_eq_of_mem_set hin with hin | heq
        · exact hold h' hin
        · have hknown : h.Known _ := hold h (List.mem_of_getElem? hh)
          rw [heq]
          exact ⟨fun hdc => absurd rfl hdc, hknown.positive, hknown.made, hknown.le_made⟩

/-! ## Histories -/

/-- What an operation makes of the program, whatever its result. -/
def next (b : Switchboard F) (op : SignalOp F A) : Option (Switchboard F) :=
  (b.step op).map Prod.fst

theorem turn_of_next (hb : b.Wired) (hnext : b.next op = some b') : b.Turn op b' := by
  obtain ⟨after, hstep, rfl⟩ := Option.map_eq_some_iff.mp hnext
  exact turn_of_step hb hstep

/-- **Every history keeps it.** -/
theorem wired_of_run {ops : List (SignalOp F A)} {t : Switchboard F}
    (hrun : Runs.run next ({} : Switchboard F) ops = some t) : t.Wired :=
  Runs.run_invariant (fun _ _ _ hb hnext => (turn_of_next hb hnext).wired hb) hrun wired_empty

end

end Switchboard

end Signals

end EnkiNet
