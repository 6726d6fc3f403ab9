import EnkiNet.Signals

/-!
# What a program of signals does

`Book` says what signals are for: a signal has a list of the handlers that are connected to it,
each under the call of `connect` that it came with, and a connection is that call.  To
disconnect is to strike out the handler that the connection was created for, and to emit is to
call those on the list.

The signals of the code count their slots in 32 bits, copy their connections about, and compare
a connection with the slots while it is being reset.  As long as no signal is connected to
2 ^ 32 times they do what the book says, over every history, with the same results
(`dispatch_exact`).
-/

open Runs

namespace EnkiNet

namespace Signals

variable {F A : Type}

/-- What is connected to a signal. -/
structure Ledger (F : Type) where
  made : Nat := 0
  connected : List (Nat × F) := []

/-- The signals that there have been and the connections that have been given out.  A
connection that comes from no call of `connect` is `none`. -/
structure Book (F : Type) where
  ledgers : List (Option (Ledger F)) := []
  connections : List (Option Origin) := []

namespace Book

variable (b : Book F)

def ledger (k : Nat) : Option (Ledger F) := (b.ledgers[k]?).join

def setLedger (k : Nat) (l : Option (Ledger F)) : Book F := { b with ledgers := b.ledgers.set k l }

/-- The handler of a connection is struck out, if it is still there. -/
def disconnect : Option Origin → Book F × SignalResult F A
  | none => (b, .disconnected false)
  | some o =>
      match b.ledger o.signal with
      | none => (b, .disconnected false)
      | some l =>
          if l.connected.any fun e => e.1 = o.ordinal then
            (b.setLedger o.signal
              (some { l with connected := l.connected.filter fun e => e.1 ≠ o.ordinal }),
              .disconnected true)
          else (b, .disconnected false)

def step : SignalOp F A → Option (Book F × SignalResult F A)
  | .makeSignal => some ({ b with ledgers := b.ledgers ++ [some {}] }, .done)
  | .destroySignal k => (b.ledger k).map fun _ => (b.setLedger k none, .done)
  | .makeConnection _ => some ({ b with connections := b.connections ++ [none] }, .done)
  | .copyConnection c =>
      (b.connections[c]?).map fun o => ({ b with connections := b.connections ++ [o] }, .done)
  | .connect k f =>
      (b.ledger k).map fun l =>
        match f with
        | none => (b, .thrown "Invalid function")
        | some f =>
            let after : Ledger F :=
              { made := l.made + 1, connected := l.connected ++ [(l.made + 1, f)] }
            ({ b.setLedger k (some after) with
                connections := b.connections ++ [some { signal := k, ordinal := l.made + 1 }] },
              .done)
  -- a signal disconnects only what was connected to it
  | .disconnect k c =>
      (b.ledger k).bind fun _ =>
        (b.connections[c]?).map fun o => b.disconnect (o.filter fun o => o.signal = k)
  | .disconnectSelf c => (b.connections[c]?).map fun o => b.disconnect o
  | .emit k a =>
      (b.ledger k).map fun l => (b, .called (l.connected.map fun e => (e.2, a)))

/-- The handlers of a signal are in the order in which they were connected, each once. -/
def InOrder : Prop :=
  ∀ k l, b.ledger k = some l →
    (l.connected.Pairwise fun x y => x.1 < y.1) ∧ ∀ e ∈ l.connected, e.1 ≤ l.made

end Book

/-- What the book says of a signal. -/
def Signal.ledger (s : Signal F) : Ledger F where
  made := s.made
  connected := s.slots.filterMap fun slot => slot.function.map fun f => (slot.ordinal, f)

/-- What the book says of the signals of a program. -/
def Switchboard.book (b : Switchboard F) : Book F where
  ledgers := b.signals.map (Option.map Signal.ledger)
  connections := b.connections.map Held.origin

/-- The operation connects a handler to the signal. -/
def SignalOp.connectsTo (k : Nat) : SignalOp F A → Bool
  | .connect j (some _) => j = k
  | _ => false

/-- How often a history connects a handler to the signal. -/
def connects (k : Nat) (ops : List (SignalOp F A)) : Nat := ops.countP (SignalOp.connectsTo k)

namespace Switchboard

variable {b b' : Switchboard F} {k c : Nat} {s : Signal F} {h : Held} {op : SignalOp F A}

/-! ## The ids stay apart -/

/-- How many handlers have been connected to the signal. -/
def made (b : Switchboard F) (k : Nat) : Nat := ((b.signal k).map Signal.made).getD 0

/-- A signal that is there counts its own connections. -/
theorem made_eq (hs : b.signal k = some s) : b.made k = s.made := by
  rw [made, hs]
  rfl

theorem made_setSignal (hs : b.signal k = some s) (s' : Option (Signal F)) (n : Nat)
    (hn : ∀ t, s' = some t → t.made ≤ s.made + n) (j : Nat) :
    (b.setSignal k s').made j ≤ b.made j + if k = j then n else 0 := by
  rw [made, signal_setSignal hs]
  by_cases hj : j = k
  · rw [if_pos hj, if_pos hj.symm, hj, made_eq hs]
    cases s' with
    | none => exact Nat.zero_le _
    | some t => exact hn t rfl
  · rw [if_neg hj, if_neg fun h => hj h.symm]
    exact Nat.le_refl _

/-- Only `connect` on a signal uses up one of its ordinals. -/
theorem Turn.made_le (hturn : b.Turn op b') (j : Nat) :
    b'.made j ≤ b.made j + if op.connectsTo j then 1 else 0 := by
  cases hturn with
  | idle hidle => exact Nat.le_add_right _ _
  | makeSignal =>
      rw [made, signal_makeSignal]
      split
      · exact Nat.zero_le _
      · exact Nat.le_add_right _ _
  | @destroySignal k s hs =>
      have hle := made_setSignal hs none 0 (fun t ht => by cases ht) j
      rw [ite_self, Nat.add_zero] at hle
      exact Nat.le_trans hle (Nat.le_add_right _ _)
  | makeConnection slotID => exact Nat.le_add_right _ _
  | copyConnection hh => exact Nat.le_add_right _ _
  | @connect k s f hs =>
      have hle := made_setSignal hs (some (connected k s f).1) 1
        (fun t ht => by cases ht; exact Nat.le_refl _) j
      have hsame : (if ((SignalOp.connect k (some f) : SignalOp F A).connectsTo j) = true
          then 1 else 0) = if k = j then 1 else 0 := by
        simp [SignalOp.connectsTo]
      rw [hsame]
      exact hle
  | @disconnect _ k c s h hop hs hh hfinds =>
      have hle := made_setSignal hs (some (b.without s h.connection)) 0
        (fun t ht => by cases ht; exact Nat.le_refl _) j
      rw [ite_self, Nat.add_zero] at hle
      exact Nat.le_trans hle (Nat.le_add_right _ _)

/-- The slot of a call of `connect` is still there. -/
def Connected (b : Switchboard F) (o : Origin) : Prop :=
  ∃ s, b.signal o.signal = some s ∧ ∃ slot ∈ s.slots, slot.ordinal = o.ordinal

/-- Whether a connection stands can be looked up. -/
theorem connected_iff_any (o : Origin) : b.Connected o ↔
    ((b.signal o.signal).any fun s => s.slots.any fun slot => slot.ordinal = o.ordinal) = true := by
  simp only [Connected, Option.any_eq_true, List.any_eq_true, decide_eq_true_eq]

instance (o : Origin) : Decidable (b.Connected o) :=
  decidable_of_iff' _ (connected_iff_any o)

/-- A connection object is as `connect` returned it for as long as the slot is there. -/
def Settled (b : Switchboard F) : Prop :=
  ∀ h ∈ b.connections, ∀ o, h.origin = some o → b.Connected o → h.connection = o.connection

/-- The ids of the slots of a signal have not come round. -/
def Small (b : Switchboard F) : Prop := ∀ k, b.made k < 2 ^ 32

/-- The slot of a call is the one with its connection. -/
theorem connection_inj {o o' : Origin} (hlt : o.ordinal < 2 ^ 32) (hlt' : o'.ordinal < 2 ^ 32) :
    o.connection = o'.connection ↔ o = o' := by
  constructor
  · intro heq
    have hsignal : o.signal = o'.signal := Option.some.inj (congrArg Connection.dc heq)
    have hid : UInt32.ofNat o.ordinal = UInt32.ofNat o'.ordinal :=
      congrArg Connection.slotID heq
    have hordinal : o.ordinal = o'.ordinal := by
      have hnat := congrArg UInt32.toNat hid
      rwa [UInt32.toNat_ofNat_of_lt' hlt, UInt32.toNat_ofNat_of_lt' hlt'] at hnat
    cases o
    cases o'
    exact Origin.mk.injEq .. ▸ ⟨hsignal, hordinal⟩
  · intro heq
    rw [heq]

section
variable (hb : b.Wired) (hsmall : b.Small) (hs : b.signal k = some s)
include hb hsmall hs

/-- No ordinal has wrapped. -/
theorem Wired.ordinal_lt {slot : Slot F} (hslot : slot ∈ s.slots) : slot.ordinal < 2 ^ 32 :=
  Nat.lt_of_le_of_lt ((hb.signals k s hs).range slot hslot).2 (made_eq hs ▸ hsmall k)

omit hs in
/-- A connection names an ordinal that was given out. -/
theorem Wired.origin_lt (hh : h ∈ b.connections) {o : Origin} (ho : h.origin = some o)
    (hs : b.signal o.signal = some s) : o.ordinal < 2 ^ 32 :=
  Nat.lt_of_le_of_lt ((hb.held h hh).le_made o ho s hs) (made_eq hs ▸ hsmall o.signal)

/-- A slot that is there has a live connection. -/
theorem Wired.isValid_slot {slot : Slot F} (hslot : slot ∈ s.slots) :
    b.isValid slot.connection = true := by
  have hpos : 0 < slot.ordinal := ((hb.signals k s hs).range slot hslot).1
  have hlt : slot.ordinal < 2 ^ 32 := hb.ordinal_lt hsmall hs hslot
  have hid : UInt32.ofNat slot.ordinal ≠ 0 := by
    intro heq
    have hnat : (UInt32.ofNat slot.ordinal).toNat = 0 := congrArg UInt32.toNat heq
    rw [UInt32.toNat_ofNat_of_lt' hlt] at hnat
    exact Nat.ne_of_gt hpos hnat
  have halive : (b.lock (some k)).isSome := Option.isSome_of_eq_some (lock_some hs)
  rw [(hb.signals k s hs).connection slot hslot]
  exact decide_eq_true ⟨hid, halive⟩

/-- A connection finds the slot of the call that it comes from. -/
theorem Wired.finds_iff (hh : h ∈ b.connections) :
    b.finds s h.connection = true ↔
      ∃ o, h.origin = some o ∧ o.signal = k ∧ h.connection = o.connection ∧ b.Connected o := by
  constructor
  · intro hfinds
    obtain ⟨slot, hslot, hsame⟩ := List.any_eq_true.mp (Bool.and_eq_true_iff.mp hfinds).2
    have hconnection : h.connection = (Origin.mk k slot.ordinal).connection :=
      ((hb.same_iff hs hslot _).mp hsame).trans ((hb.signals k s hs).connection slot hslot)
    have hdc : h.connection.dc ≠ none := by
      rw [hconnection]
      exact Option.some_ne_none k
    obtain ⟨o, ho, heq⟩ := (hb.held h hh).connection hdc
    have hsignal : o.signal = k :=
      Option.some.inj (congrArg Connection.dc (heq.symm.trans hconnection))
    have hcall : o = Origin.mk k slot.ordinal :=
      (connection_inj (hb.origin_lt hsmall hh ho (hsignal ▸ hs))
        (hb.ordinal_lt hsmall hs hslot)).mp (heq.symm.trans hconnection)
    refine ⟨o, ho, hsignal, heq, s, hsignal ▸ hs, slot, hslot, ?_⟩
    rw [hcall]
  · intro hcall
    obtain ⟨o, ho, hsignal, heq, t, ht, slot, hslot, hordinal⟩ := hcall
    rw [hsignal, hs] at ht
    cases ht
    have hslotconnection : slot.connection = o.connection := by
      rw [(hb.signals k s hs).connection slot hslot, hordinal, ← hsignal]
    have hvalid : b.isValid h.connection = true := by
      rw [heq, ← hslotconnection]
      exact hb.isValid_slot hsmall hs hslot
    refine Bool.and_eq_true_iff.mpr ⟨hvalid, List.any_eq_true.mpr ⟨slot, hslot, ?_⟩⟩
    rw [hb.same_iff hs hslot, heq, hslotconnection]

end

/-- Of elements with different keys one at most goes. -/
theorem eraseP_eq_filter {α : Type} {key : α → Nat} {n : Nat} {p : α → Bool} {l : List α}
    (hp : ∀ a ∈ l, p a = true ↔ key a = n) (hl : l.Pairwise fun x y => key x < key y) :
    l.eraseP p = l.filter fun a => key a ≠ n := by
  induction l with
  | nil => rfl
  | cons a rest ih =>
      obtain ⟨hlt, hrest⟩ := List.pairwise_cons.mp hl
      have hhead : p a = true ↔ key a = n := hp a List.mem_cons_self
      cases hpa : p a with
      | true =>
          have hkey : key a = n := hhead.mp hpa
          have hkeep : rest.filter (fun a => key a ≠ n) = rest := by
            refine List.filter_eq_self.mpr fun x hx => ?_
            have hx := hlt x hx
            exact decide_eq_true (by omega)
          rw [List.eraseP_cons_of_pos hpa, List.filter_cons_of_neg (by simp [hkey]), hkeep]
      | false =>
          have hkey : key a ≠ n := fun h => by simp [hhead.mpr h] at hpa
          rw [List.eraseP_cons_of_neg (by simp [hpa]),
            List.filter_cons_of_pos (by simp [hkey]),
            ih (fun x hx => hp x (List.mem_cons_of_mem _ hx)) hrest]

/-- What a connection takes from a signal is the slot of its own call. -/
theorem Wired.without_eq (hb : b.Wired) (hsmall : b.Small) {o : Origin}
    (hs : b.signal o.signal = some s) (hlt : o.ordinal < 2 ^ 32) :
    b.without s o.connection =
      { s with slots := s.slots.filter fun slot => slot.ordinal ≠ o.ordinal } := by
  have hordered : s.Ordered o.signal := hb.signals _ s hs
  have hsame : ∀ slot ∈ s.slots,
      b.same o.connection slot.connection = true ↔ slot.ordinal = o.ordinal := by
    intro slot hslot
    rw [hb.same_iff hs hslot, hordered.connection slot hslot,
      connection_inj hlt (hb.ordinal_lt hsmall hs hslot)]
    constructor
    · intro heq
      rw [heq]
    · intro heq
      rw [heq]
  rw [without, eraseP_eq_filter hsame hordered.increasing]

/-! ## What an operation connects and disconnects -/

/-- A new slot adds its own connection to those that stand. -/
theorem connected_attach (hs : b.signal k = some s) (f : F) (o : Origin) :
    (b.attach k s f).Connected o ↔
      b.Connected o ∨ o = { signal := k, ordinal := s.made + 1 } := by
  by_cases hk : o.signal = k
  · have hlookup : (b.attach k s f).signal o.signal = some (connected k s f).1 := by
      rw [signal_attach hs, if_pos hk]
    constructor
    · intro hconnected
      obtain ⟨t, ht, slot, hslot, hordinal⟩ := hconnected
      rw [hlookup] at ht
      cases ht
      rcases List.mem_append.mp hslot with hold | hnew
      · exact .inl ⟨s, hk ▸ hs, slot, hold, hordinal⟩
      · obtain rfl := List.mem_singleton.mp hnew
        cases o
        exact .inr (Origin.mk.injEq .. ▸ ⟨hk, hordinal.symm⟩)
    · intro hcases
      rcases hcases with hold | heq
      · obtain ⟨t, ht, slot, hslot, hordinal⟩ := hold
        rw [hk, hs] at ht
        cases ht
        exact ⟨_, hlookup, slot, List.mem_append_left _ hslot, hordinal⟩
      · refine ⟨_, hlookup, _, List.mem_append_right _ (List.mem_singleton.mpr rfl), ?_⟩
        rw [heq]
  · have hlookup : (b.attach k s f).signal o.signal = b.signal o.signal := by
      rw [signal_attach hs, if_neg hk]
    have hother : o ≠ { signal := k, ordinal := s.made + 1 } := by
      intro heq
      rw [heq] at hk
      exact hk rfl
    rw [Connected, hlookup, or_iff_left hother]
    exact Iff.rfl

/-- Disconnecting takes away the one connection that is meant. -/
theorem connected_release (hb : b.Wired) (hsmall : b.Small) {o : Origin}
    (hs : b.signal o.signal = some s) (hlt : o.ordinal < 2 ^ 32)
    (heq : h.connection = o.connection) (c : Nat) (o' : Origin) :
    (b.release o.signal s c h).Connected o' ↔ b.Connected o' ∧ o' ≠ o := by
  by_cases hk : o'.signal = o.signal
  · have hlookup : (b.release o.signal s c h).signal o'.signal =
        some { s with slots := s.slots.filter fun slot => slot.ordinal ≠ o.ordinal } := by
      rw [signal_release hs, if_pos hk, heq, hb.without_eq hsmall hs hlt]
    have hne : o' ≠ o ↔ o'.ordinal ≠ o.ordinal := by
      refine not_congr ⟨fun h => by rw [h], fun h => ?_⟩
      cases o
      cases o'
      exact Origin.mk.injEq .. ▸ ⟨hk, h⟩
    constructor
    · intro hconnected
      obtain ⟨t, ht, slot, hslot, hordinal⟩ := hconnected
      rw [hlookup] at ht
      cases ht
      obtain ⟨hin, hkept⟩ := List.mem_filter.mp hslot
      refine ⟨⟨s, hk ▸ hs, slot, hin, hordinal⟩, hne.mpr ?_⟩
      rw [← hordinal]
      exact of_decide_eq_true hkept
    · intro hconnected
      obtain ⟨⟨t, ht, slot, hslot, hordinal⟩, hother⟩ := hconnected
      rw [hk, hs] at ht
      cases ht
      refine ⟨_, hlookup, slot, List.mem_filter.mpr ⟨hslot, decide_eq_true ?_⟩, hordinal⟩
      rw [hordinal]
      exact hne.mp hother
  · have hlookup : (b.release o.signal s c h).signal o'.signal = b.signal o'.signal := by
      rw [signal_release hs, if_neg hk]
    have hother : o' ≠ o := fun heq => hk (congrArg Origin.signal heq)
    rw [Connected, hlookup, and_iff_left hother]
    exact Iff.rfl

/-- Every turn keeps the emptied connections apart from those that stand. -/
theorem Turn.settled (hturn : b.Turn op b') (hb : b.Wired) (hsmall : b.Small)
    (h : b.Settled) : b'.Settled := by
  cases hturn with
  | idle hidle => exact h
  | makeSignal =>
      intro h' hin o ho hconnected
      refine h h' hin o ho ?_
      obtain ⟨t, ht, hslot⟩ := hconnected
      rw [signal_makeSignal, if_neg (Nat.ne_of_lt ((hb.held h' hin).made o ho))] at ht
      exact ⟨t, ht, hslot⟩
  | @destroySignal k s hs =>
      intro h' hin o ho hconnected
      refine h h' hin o ho ?_
      obtain ⟨t, ht, hslot⟩ := hconnected
      rw [signal_setSignal hs] at ht
      split at ht
      · cases ht
      · exact ⟨t, ht, hslot⟩
  | makeConnection slotID =>
      intro h' hin o ho hconnected
      rcases List.mem_append.mp hin with hin | hnew
      · exact h h' hin o ho hconnected
      · obtain rfl := List.mem_singleton.mp hnew
        cases ho
  | copyConnection hh =>
      intro h' hin o ho hconnected
      rcases List.mem_append.mp hin with hin | hnew
      · exact h h' hin o ho hconnected
      · obtain rfl := List.mem_singleton.mp hnew
        exact h _ (List.mem_of_getElem? hh) o ho hconnected
  | @connect k s f hs =>
      intro h' hin o ho hconnected
      rcases List.mem_append.mp hin with hin | hnew
      · rcases (connected_attach hs f o).mp hconnected with hold | heq
        · exact h h' hin o ho hold
        · -- the new slot is of a later call than all connections so far
          have hle : o.ordinal ≤ s.made := (hb.held h' hin).le_made o ho s (heq ▸ hs)
          rw [heq] at hle
          exact absurd hle (Nat.not_succ_le_self _)
      · obtain rfl := List.mem_singleton.mp hnew
        cases ho
        have hcounter : s.slotIDCounter + 1 = UInt32.ofNat (s.made + 1) :=
          ((hb.signals k s hs).connected f).counter
        rw [Origin.connection, ← hcounter]
        rfl
  | @disconnect _ k c s h₀ hop hs hh hfinds =>
      have hmem : h₀ ∈ b.connections := List.mem_of_getElem? hh
      obtain ⟨o₀, ho₀, rfl, heq, _⟩ := (hb.finds_iff hsmall hs hmem).mp hfinds
      have hlt : o₀.ordinal < 2 ^ 32 := hb.origin_lt hsmall hmem ho₀ hs
      intro h' hin o ho hconnected
      obtain ⟨hold, hother⟩ := (connected_release hb hsmall hs hlt heq c o).mp hconnected
      rcases List.mem_or_eq_of_mem_set hin with hin | rfl
      · exact h h' hin o ho hold
      · have hsame : o₀ = o := Option.some.inj (ho₀.symm.trans ho)
        exact absurd hsame.symm hother

/-! ## The book is kept -/

/-- The book of a switchboard has the ledgers of its signals. -/
theorem ledger_book (k : Nat) : b.book.ledger k = (b.signal k).map Signal.ledger := by
  rw [Book.ledger, signal, book, List.getElem?_map, Option.join_map_eq_map_join]

/-- Replacing a signal replaces its ledger. -/
theorem book_setSignal (k : Nat) (s : Option (Signal F)) :
    (b.setSignal k s).book = b.book.setLedger k (s.map Signal.ledger) := by
  rw [book, setSignal, Book.setLedger, book, List.map_set]

/-- The book remembers where each connection came from. -/
theorem connection_book (c : Nat) :
    b.book.connections[c]? = (b.connections[c]?).map Held.origin := List.getElem?_map

/-- A connection that is reset is still the one that was given out. -/
theorem book_release (hh : b.connections[c]? = some h) :
    (b.release k s c h).book =
      b.book.setLedger k (some (b.without s h.connection).ledger) := by
  have hconnections : (b.connections.set c { h with connection := {} }).map Held.origin =
      b.connections.map Held.origin := by
    obtain ⟨hc, hget⟩ := List.getElem?_eq_some_iff.mp hh
    refine List.ext_getElem (by simp) fun i hi _ => ?_
    by_cases hic : c = i
    · simp [hic, ← hget]
    · simp [hic]
  have hsignals := congrArg Book.ledgers
    (book_setSignal (b := b) k (some (b.without s h.connection)))
  exact Book.mk.injEq .. ▸ ⟨hsignals, hconnections⟩

/-- An ordinal is in the ledger exactly if a slot has it. -/
theorem any_ledger (hordered : s.Ordered k) (n : Nat) :
    (s.ledger.connected.any fun e => e.1 = n) = true ↔ ∃ slot ∈ s.slots, slot.ordinal = n := by
  rw [List.any_eq_true]
  constructor
  · intro h
    obtain ⟨e, he, hn⟩ := h
    obtain ⟨slot, hslot, hentry⟩ := List.mem_filterMap.mp he
    obtain ⟨f, _, rfl⟩ := Option.map_eq_some_iff.mp hentry
    exact ⟨slot, hslot, of_decide_eq_true hn⟩
  · intro h
    obtain ⟨slot, hslot, hn⟩ := h
    obtain ⟨f, hf⟩ := Option.isSome_iff_exists.mp (hordered.function slot hslot)
    refine ⟨(slot.ordinal, f), List.mem_filterMap.mpr ⟨slot, hslot, ?_⟩, decide_eq_true hn⟩
    rw [hf]
    rfl

/-- Erasing a slot erases its entry. -/
theorem ledger_filter (s : Signal F) (n : Nat) :
    ({ s with slots := s.slots.filter fun slot => slot.ordinal ≠ n } : Signal F).ledger =
      { s.ledger with connected := s.ledger.connected.filter fun e => e.1 ≠ n } := by
  have hentries : (s.slots.filter fun slot => slot.ordinal ≠ n).filterMap
        (fun slot => slot.function.map fun f => (slot.ordinal, f)) =
      (s.slots.filterMap fun slot => slot.function.map fun f => (slot.ordinal, f)).filter
        fun e => e.1 ≠ n := by
    rw [List.filterMap_filter, List.filter_filterMap]
    refine congrArg (List.filterMap · s.slots) (funext fun slot => ?_)
    cases slot.function with
    | none => simp
    | some f => simp [Option.filter]
  rw [Signal.ledger, hentries, Signal.ledger]

/-- A signal calls the slots of its ledger, in order. -/
theorem emit_ledger (s : Signal F) (a : A) :
    s.emit a = s.ledger.connected.map fun e => (e.2, a) := by
  rw [Signal.emit, Signal.ledger, List.map_filterMap]
  refine congrArg (List.filterMap · s.slots) (funext fun slot => ?_)
  rw [Option.map_map]
  rfl

/-- The book has nothing to strike out for a call whose handler has gone. -/
theorem disconnect_of_not_connected (hb : b.Wired) {o : Origin} (hgone : ¬ b.Connected o) :
    b.book.disconnect (some o) = (b.book, (.disconnected false : SignalResult F A)) := by
  rw [Book.disconnect, ledger_book]
  cases hs : b.signal o.signal with
  | none => rfl
  | some s =>
      refine if_neg fun hany => hgone ⟨s, hs, ?_⟩
      exact (any_ledger (hb.signals _ s hs) o.ordinal).mp hany

/-- `Signal::disconnect` does to the book what the book says. -/
theorem disconnect_refines (hb : b.Wired) (hsmall : b.Small) (hsettled : b.Settled)
    (hs : b.signal k = some s) (hh : b.connections[c]? = some h) :
    (b.step (.disconnect k c : SignalOp F A)).map (Prod.map book id) =
      some (b.book.disconnect (h.origin.filter fun o => o.signal = k)) := by
  have hmem : h ∈ b.connections := List.mem_of_getElem? hh
  rw [step_disconnect hb hs hh, Option.map_some]
  refine congrArg some ?_
  cases hfinds : b.finds s h.connection with
  | true =>
      obtain ⟨o, ho, rfl, heq, t, ht, hslot⟩ := (hb.finds_iff hsmall hs hmem).mp hfinds
      cases hs.symm.trans ht
      have hlt : o.ordinal < 2 ^ 32 := hb.origin_lt hsmall hmem ho hs
      have hany := (any_ledger (hb.signals _ s hs) o.ordinal).mpr hslot
      have hledger : b.book.ledger o.signal = some s.ledger := by
        rw [ledger_book, hs]
        rfl
      have hbook := book_release (k := o.signal) (s := s) hh
      rw [heq, hb.without_eq hsmall hs hlt, ledger_filter] at hbook
      have hfilter : (some o).filter (fun o' => o'.signal = o.signal) = some o :=
        Option.filter_some_pos (decide_eq_true rfl)
      rw [if_pos rfl, ho, hfilter, Book.disconnect, hledger]
      exact (congrArg (·, _) hbook).trans (if_pos hany).symm
  | false =>
      rw [if_neg Bool.false_ne_true]
      cases ho : h.origin with
      | none => rfl
      | some o =>
          by_cases hk : o.signal = k
          · have hgone : ¬ b.Connected o := by
              intro hconnected
              have heq : h.connection = o.connection := hsettled h hmem o ho hconnected
              have hfound := (hb.finds_iff hsmall hs hmem).mpr ⟨o, ho, hk, heq, hconnected⟩
              rw [hfinds] at hfound
              cases hfound
            have hfilter : (some o).filter (fun o => o.signal = k) = some o :=
              Option.filter_some_pos (decide_eq_true hk)
            rw [hfilter]
            exact (disconnect_of_not_connected hb hgone).symm
          · have hfilter : (some o).filter (fun o => o.signal = k) = none :=
              Option.filter_some_neg (decide_eq_false hk)
            rw [hfilter]
            rfl

/-- `Connection::disconnect` does to the book what the book says. -/
theorem disconnectSelf_refines (hb : b.Wired) (hsmall : b.Small) (hsettled : b.Settled)
    (hh : b.connections[c]? = some h) :
    (b.step (.disconnectSelf c : SignalOp F A)).map (Prod.map book id) =
      some (b.book.disconnect h.origin) := by
  have hmem : h ∈ b.connections := List.mem_of_getElem? hh
  cases hlock : b.lock h.connection.dc with
  | some k =>
      obtain ⟨hdc, halive⟩ := (lock_eq_some_iff _).mp hlock
      obtain ⟨s, hs⟩ := Option.isSome_iff_exists.mp halive
      obtain ⟨o, ho, heq⟩ := (hb.held h hmem).connection (by rw [hdc]; exact Option.some_ne_none k)
      have hk : o.signal = k := by
        rw [heq] at hdc
        exact Option.some.inj hdc
      have hfilter : (some o).filter (fun o => o.signal = k) = some o :=
        Option.filter_some_pos (decide_eq_true hk)
      rw [step_disconnectSelf hs hh hlock, disconnect_refines hb hsmall hsettled hs hh, ho,
        hfilter]
  | none =>
      rw [step_disconnectSelf_none hh hlock, Option.map_some]
      refine congrArg some ?_
      cases ho : h.origin with
      | none => rfl
      | some o =>
          have hgone : ¬ b.Connected o := by
            intro hconnected
            have heq : h.connection = o.connection := hsettled h hmem o ho hconnected
            obtain ⟨s, hs, _⟩ := hconnected
            have hlocked : b.lock (some o.signal) = some o.signal := lock_some hs
            rw [heq, Origin.connection, hlocked] at hlock
            cases hlock
          exact (disconnect_of_not_connected hb hgone).symm

/-- **One operation does what the book says.** -/
theorem step_refines (hb : b.Wired) (hsmall : b.Small) (hsettled : b.Settled)
    (op : SignalOp F A) : (b.step op).map (Prod.map book id) = b.book.step op := by
  cases op with
  | makeSignal =>
      have hbook : book { b with signals := b.signals ++ [some {}] } =
          { b.book with ledgers := b.book.ledgers ++ [some {}] } := by
        simp [book, Signal.ledger]
      exact congrArg (fun b => some (b, SignalResult.done)) hbook
  | destroySignal k =>
      rw [step, Book.step, ledger_book, Option.map_map, Option.map_map]
      exact congrArg (Option.map · (b.signal k)) (funext fun s =>
        congrArg (·, SignalResult.done) (book_setSignal k none))
  | makeConnection slotID =>
      have hbook : book { b with connections := b.connections ++ [⟨⟨none, slotID⟩, none⟩] } =
          { b.book with connections := b.book.connections ++ [none] } := by
        simp [book]
      exact congrArg (fun b => some (b, SignalResult.done)) hbook
  | copyConnection c =>
      rw [step, Book.step, connection_book, Option.map_map, Option.map_map]
      refine congrArg (Option.map · b.connections[c]?) (funext fun h => ?_)
      exact congrArg (·, SignalResult.done) (by simp [book])
  | connect k f =>
      rw [step, Book.step, ledger_book, Option.map_map, Option.map_map]
      refine congrArg (Option.map · (b.signal k)) (funext fun s => ?_)
      cases f with
      | none => rfl
      | some f =>
          have hledger : (connected k s f).1.ledger =
              { made := s.made + 1, connected := s.ledger.connected ++ [(s.made + 1, f)] } := by
            simp [connected, Signal.ledger]
          have hsignals := congrArg Book.ledgers
            (book_setSignal (b := b) k (some (connected k s f).1))
          rw [Option.map_some, hledger] at hsignals
          refine congrArg (·, SignalResult.done) (Book.mk.injEq .. ▸ ⟨hsignals, ?_⟩)
          simp [attach, book, Signal.ledger]
  | disconnect k c =>
      rw [Book.step, ledger_book, connection_book]
      cases hs : b.signal k with
      | none => simp [step, hs]
      | some s =>
          cases hh : b.connections[c]? with
          | none => simp [step, hs, hh]
          | some h => exact disconnect_refines hb hsmall hsettled hs hh
  | disconnectSelf c =>
      rw [Book.step, connection_book]
      cases hh : b.connections[c]? with
      | none => simp [step, hh]
      | some h => exact disconnectSelf_refines hb hsmall hsettled hh
  | emit k a =>
      rw [step, Book.step, ledger_book, Option.map_map, Option.map_map]
      refine congrArg (Option.map · (b.signal k)) (funext fun s => ?_)
      exact congrArg (fun calls => (b.book, SignalResult.called calls)) (emit_ledger s a)

/-- The entries of a ledger stand in the order of their connection. -/
theorem Wired.inOrder (hb : b.Wired) : b.book.InOrder := by
  intro k l hl
  rw [ledger_book] at hl
  obtain ⟨s, hs, rfl⟩ := Option.map_eq_some_iff.mp hl
  have hordered : s.Ordered k := hb.signals k s hs
  refine ⟨List.pairwise_filterMap.mpr ?_, fun e he => ?_⟩
  · refine hordered.increasing.imp fun hlt x hx y hy => ?_
    obtain ⟨_, _, rfl⟩ := Option.map_eq_some_iff.mp hx
    obtain ⟨_, _, rfl⟩ := Option.map_eq_some_iff.mp hy
    exact hlt
  · obtain ⟨slot, hslot, hentry⟩ := List.mem_filterMap.mp he
    obtain ⟨_, _, rfl⟩ := Option.map_eq_some_iff.mp hentry
    exact (hordered.range slot hslot).2

/-! ## Histories -/

/-- What a history with so many operations to come keeps. -/
structure Faithful (b : Switchboard F) (rest : List (SignalOp F A)) : Prop where
  wired : b.Wired
  settled : b.Settled
  few : ∀ k, b.made k + connects k rest < 2 ^ 32

/-- No signal has run out of ordinals yet. -/
theorem Faithful.small {rest : List (SignalOp F A)} (h : b.Faithful rest) : b.Small := fun k =>
  Nat.lt_of_le_of_lt (Nat.le_add_right _ _) (h.few k)

/-- What is left of a faithful history is faithful. -/
theorem Faithful.step {rest : List (SignalOp F A)} {after : Switchboard F × SignalResult F A}
    (h : b.Faithful (op :: rest)) (hstep : b.step op = some after) : after.1.Faithful rest := by
  have hturn : b.Turn op after.1 := turn_of_step h.wired hstep
  refine ⟨hturn.wired h.wired, hturn.settled h.wired h.small h.settled, fun k => ?_⟩
  have hle : after.1.made k ≤ b.made k + if op.connectsTo k then 1 else 0 := hturn.made_le k
  have hcount : connects k (op :: rest) = connects k rest + if op.connectsTo k then 1 else 0 :=
    List.countP_cons
  have hfew := h.few k
  omega

/-- A history with fewer than `2 ^ 32` connections to each signal is faithful from the start. -/
theorem faithful_empty {ops : List (SignalOp F A)} (hfew : ∀ k, connects k ops < 2 ^ 32) :
    ({} : Switchboard F).Faithful ops where
  wired := wired_empty
  settled := List.forall_mem_nil _
  few := fun k => by
    have hnone : ({} : Switchboard F).made k = 0 := rfl
    rw [hnone, Nat.zero_add]
    exact hfew k

/-- **The signals of the code do what the book says**, over every history in which no signal is
connected to 2 ^ 32 times.  The handlers on a list of the book stand there once each, in the
order in which they were connected. -/
theorem dispatch_exact (ops : List (SignalOp F A)) (hfew : ∀ k, connects k ops < 2 ^ 32) :
    (logged step ({} : Switchboard F) ops).map (Prod.map book id) =
        logged Book.step ({} : Book F) ops ∧
      ∀ after, logged Book.step ({} : Book F) ops = some after → after.1.InOrder := by
  have hstart : ({} : Switchboard F).Faithful ops := faithful_empty hfew
  have hrefines : (logged step ({} : Switchboard F) ops).map (Prod.map book id) =
      logged Book.step ({} : Book F) ops :=
    logged_refines book Faithful
      (fun b op _ h => step_refines h.wired h.small h.settled op)
      (fun b op _ after h hstep => h.step hstep) hstart
  refine ⟨hrefines, fun after hafter => ?_⟩
  rw [← hrefines] at hafter
  obtain ⟨final, hfinal, rfl⟩ := Option.map_eq_some_iff.mp hafter
  have hend : final.1.Faithful ([] : List (SignalOp F A)) :=
    logged_invariant Faithful (fun b op _ after h hstep => h.step hstep) hfinal hstart
  exact hend.wired.inOrder

/-- Two signals, a copy of a connection, and a disconnect through the wrong signal. -/
def twoSignals : List (SignalOp Nat Nat) :=
  [.makeSignal, .makeSignal, .connect 0 (some 7), .connect 1 (some 8), .copyConnection 0,
    .disconnect 1 0, .emit 0 5, .disconnectSelf 2, .disconnect 0 0, .emit 0 5, .emit 1 6]

/-- Two signals with slots that come and go. -/
theorem dispatch_exact_twoSignals :
    (logged step ({} : Switchboard Nat) twoSignals).map (Prod.map book id) =
        logged Book.step ({} : Book Nat) twoSignals ∧
      (logged step ({} : Switchboard Nat) twoSignals).map Prod.snd =
        some [.done, .done, .done, .done, .done, .disconnected false, .called [(7, 5)],
          .disconnected true, .disconnected false, .called [], .called [(8, 6)]] := by
  have hfew : ∀ k, connects k twoSignals < 2 ^ 32 := fun k =>
    Nat.lt_of_le_of_lt List.countP_le_length (by decide)
  exact ⟨(dispatch_exact twoSignals hfew).1, by decide⟩

end Switchboard

end Signals

end EnkiNet
