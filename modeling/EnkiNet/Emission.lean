import EnkiNet.Subscriptions
import EnkiNet.Walks

/-!
# Handlers that edit the signal

`emit` walks over the slots of its signal and calls the handler of each, and the handler may
connect to that signal or disconnect from it.  Both change the vector that is being walked over:
a new slot moves the others to a larger buffer when the vector is full, and an erased slot lets
those behind it move up.  So `emit` comes through, having called every handler once, exactly if
each `connect` finds room in the vector, and what is disconnected is not one of the
handlers that there were at the start (`tolerates_iff`).
-/

open Runs

namespace EnkiNet

namespace Signals

variable {F : Type}

/-- What a handler can do to the signal that calls it. -/
inductive Edit (F : Type)
  | connect (f : F)
  | disconnect (c : Connection)
  deriving DecidableEq, Repr

/-- A signal that is emitting. -/
structure Emission (F : Type) where
  slotIDCounter : UInt32
  slots : Walked (Slot F)
  made : Nat
  deriving DecidableEq, Repr

namespace Emission

/-- The signal as it is meanwhile. -/
def signal (e : Emission F) : Signal F where
  slotIDCounter := e.slotIDCounter
  slots := e.slots.elems
  made := e.made

/-- `emit` begins on a signal whose vector has so much room. -/
def start (s : Signal F) (capacity : Nat) : Emission F where
  slotIDCounter := s.slotIDCounter
  slots := Walked.start s.slots capacity
  made := s.made

section
variable (b : Switchboard F) (k : Nat) (grow : Nat → Nat)

/-- `Signal::connect` and `Signal::disconnect`, on the signal `k` of the program. -/
def edit (e : Emission F) : Edit F → Emission F
  | .connect f =>
      let slotID := e.slotIDCounter + 1
      let slot : Slot F :=
        { connection := { dc := some k, slotID := slotID }
          function := some f
          ordinal := e.made + 1 }
      { slotIDCounter := slotID, slots := e.slots.push grow slot, made := e.made + 1 }
  | .disconnect c =>
      if b.isValid c then
        { e with slots := e.slots.eraseFirst fun slot => b.same c slot.connection }
      else e

/-- The body of the loop in `emit`: a slot has its handler called, and the handler edits. -/
def turn (edits : Nat → List (Edit F)) (i : Nat) (e : Emission F × List (Slot F)) :
    Option (Emission F × List (Slot F)) :=
  (e.1.slots.read i).map fun slot =>
    if slot.function.isSome then ((edits i).foldl (edit b k grow) e.1, e.2 ++ [slot]) else e

/-- `Signal::emit`: the signal afterwards and the slots whose handlers have been called.  There
is no result where an element or an iterator of the vector is used that has been erased or moved. -/
def emit (edits : Nat → List (Edit F)) (e : Emission F) : Option (Emission F × List (Slot F)) :=
  Walked.walk (fun e : Emission F × List (Slot F) => e.1.slots) (turn b k grow edits)
    e.slots.elems.length 0 (e, [])

/-- The edit leaves the first `n` slots where they are: there is room for a new one, and it is
none of them that is disconnected. -/
def Spares (n : Nat) (e : Emission F) : Edit F → Prop
  | .connect _ => e.slots.elems.length < e.slots.capacity
  | .disconnect c =>
      b.isValid c = true → ∀ slot ∈ e.slots.elems.take n, b.same c slot.connection = false

instance (n : Nat) (e : Emission F) (d : Edit F) : Decidable (Spares b n e d) := by
  cases d with
  | connect f => exact inferInstanceAs (Decidable (_ < _))
  | disconnect c => exact inferInstanceAs (Decidable (_ → _))

/-- The edits of the turns before `i`. -/
def script (edits : Nat → List (Edit F)) (i : Nat) : List (Edit F) :=
  (List.range i).flatMap edits

/-- **What `emit` promises.**  It uses nothing that is out of place, and a handler that was there
at the start, and which no earlier handler has disconnected, is called exactly once. -/
def Tolerates (edits : Nat → List (Edit F)) (e : Emission F) : Prop :=
  ∃ after, emit b k grow edits e = some after ∧
    ∀ (i : Nat) (slot : Slot F), e.slots.elems[i]? = some slot →
      (∀ c, Edit.disconnect c ∈ script edits i → b.isValid c = true →
        b.same c slot.connection = false) →
      (after.2.map Slot.ordinal).count slot.ordinal = 1

end

variable {b : Switchboard F} {k : Nat} {grow : Nat → Nat} {s : Signal F} {e : Emission F}

/-! ## An edit is an operation on the signal -/

/-- A slot that connects another one edits the signal as `connect` does. -/
theorem signal_connect (f : F) :
    (edit b k grow e (.connect f)).signal = (Switchboard.connected k e.signal f).1 := by
  rw [signal, edit, Walked.elems_push]
  rfl

/-- A slot that disconnects one edits the signal as `disconnect` does. -/
theorem signal_disconnect (hs : b.signal k = some e.signal)
    (halive : ∀ slot ∈ e.slots.elems, (b.lock slot.connection.dc).isSome) (c : Connection) :
    (b.disconnect k e.signal c).1.signal k = some (edit b k grow e (.disconnect c)).signal := by
  rw [Switchboard.disconnect, edit]
  cases hvalid : b.isValid c with
  | false => exact hs
  | true =>
      have herase := Switchboard.eraseSlots_eq c e.signal.slots halive
      rw [if_pos rfl, if_pos rfl, herase]
      have hlookup := Switchboard.signal_setSignal hs (some { e.signal with
        slots := e.signal.slots.eraseP fun slot => b.same c slot.connection }) k
      rw [if_pos rfl] at hlookup
      exact hlookup

/-! ## What leaves the first slots where they are -/

variable {n : Nat}

/-- Edits can only shorten the part of the vector that is intact. -/
theorem intact_edit_le (e : Emission F) (d : Edit F) :
    (edit b k grow e d).slots.intact ≤ e.slots.intact := by
  cases d with
  | connect f => exact Walked.intact_push_le grow e.slots _
  | disconnect c =>
      rw [edit]
      split
      · exact Walked.intact_eraseFirst_le _ e.slots
      · exact Nat.le_refl _

theorem intact_edits_le (e : Emission F) (ds : List (Edit F)) :
    (ds.foldl (edit b k grow) e).slots.intact ≤ e.slots.intact := by
  induction ds generalizing e with
  | nil => exact Nat.le_refl _
  | cons d ds ih => exact Nat.le_trans (ih _) (intact_edit_le e d)

/-- An edit spares the first slots exactly if it erases none of them and does not reallocate. -/
theorem le_intact_edit_iff (hn : 0 < n) (h : e.slots.Whole n) (d : Edit F) :
    n ≤ (edit b k grow e d).slots.intact ↔ Spares b n e d := by
  cases d with
  | connect f => exact Walked.le_intact_push_iff grow hn h _
  | disconnect c =>
      rw [edit, Spares]
      cases hvalid : b.isValid c with
      | true =>
          rw [if_pos rfl, Walked.le_intact_eraseFirst_iff h]
          exact ⟨fun h _ => h, fun h => h rfl⟩
      | false => exact iff_of_true h.le_intact fun hfalse => by cases hfalse

/-- The first slots stay where they are, and are the same. -/
theorem whole_edit (h : e.slots.Whole n) {d : Edit F}
    (hintact : n ≤ (edit b k grow e d).slots.intact) :
    (edit b k grow e d).slots.Whole n ∧
      (edit b k grow e d).slots.elems.take n = e.slots.elems.take n := by
  cases d with
  | connect f => exact ⟨h.push grow _ hintact, Walked.take_push grow h _⟩
  | disconnect c =>
      rw [edit] at hintact ⊢
      cases hvalid : b.isValid c with
      | true =>
          rw [hvalid, if_pos rfl] at hintact
          rw [if_pos rfl]
          exact ⟨h.eraseFirst hintact,
            Walked.take_eraseFirst h ((Walked.le_intact_eraseFirst_iff h).mp hintact)⟩
      | false => exact ⟨h, rfl⟩

/-- The edits of a turn. -/
theorem le_intact_edits_iff (hn : 0 < n) (h : e.slots.Whole n) (ds : List (Edit F)) :
    n ≤ (ds.foldl (edit b k grow) e).slots.intact ↔
      Meets (fun e d => some (edit b k grow e d)) (Spares b n) e ds := by
  induction ds generalizing e with
  | nil => exact iff_of_true h.le_intact trivial
  | cons d ds ih =>
      have hhead : n ≤ (edit b k grow e d).slots.intact ↔ Spares b n e d :=
        le_intact_edit_iff hn h d
      constructor
      · intro hintact
        have hfirst : n ≤ (edit b k grow e d).slots.intact :=
          Nat.le_trans hintact (intact_edits_le _ ds)
        refine ⟨hhead.mp hfirst, fun e' he' => ?_⟩
        cases he'
        exact (ih (whole_edit h hfirst).1).mp hintact
      · intro hmeets
        have hfirst := hhead.mpr hmeets.1
        exact (ih (whole_edit h hfirst).1).mpr (hmeets.2 _ rfl)

/-- Slots that stay intact stay what they were. -/
theorem whole_edits (h : e.slots.Whole n) {ds : List (Edit F)}
    (hintact : n ≤ (ds.foldl (edit b k grow) e).slots.intact) :
    (ds.foldl (edit b k grow) e).slots.Whole n ∧
      (ds.foldl (edit b k grow) e).slots.elems.take n = e.slots.elems.take n := by
  induction ds generalizing e with
  | nil => exact ⟨h, rfl⟩
  | cons d ds ih =>
      have hfirst : n ≤ (edit b k grow e d).slots.intact :=
        Nat.le_trans hintact (intact_edits_le _ ds)
      obtain ⟨hwhole, htake⟩ := whole_edit h hfirst
      obtain ⟨hend, hsame⟩ := ih hwhole hintact
      exact ⟨hend, hsame.trans htake⟩

/-! ## The walk -/

/-- A turn of the loop calls the slot that stood there at the start. -/
theorem turn_eq (hordered : s.Ordered k) (edits : Nat → List (Edit F))
    (h : e.slots.Whole s.slots.length) (htake : e.slots.elems.take s.slots.length = s.slots)
    {i : Nat} (hi : i < s.slots.length) (called : List (Slot F)) :
    turn b k grow edits i (e, called) =
      some ((edits i).foldl (edit b k grow) e, called ++ [s.slots[i]]) := by
  have hslot : e.slots.elems[i]? = some s.slots[i] := by
    rw [← List.getElem?_take_of_lt hi, htake, List.getElem?_eq_getElem hi]
  have hfunction : s.slots[i].function.isSome = true :=
    hordered.function _ (List.getElem_mem hi)
  rw [turn, Walked.read_of_whole h hi, hslot, Option.map_some, if_pos hfunction]

/-- The walk from a turn on. -/
theorem walk_iff (hordered : s.Ordered k) (edits : Nat → List (Edit F)) {left i : Nat}
    (hi : i + left = s.slots.length) (h : e.slots.Whole s.slots.length)
    (htake : e.slots.elems.take s.slots.length = s.slots) (called : List (Slot F)) :
    (Meets (fun e d => some (edit b k grow e d)) (Spares b s.slots.length) e
        ((List.range' i left).flatMap edits) →
      ∃ t, Walked.walk (fun e : Emission F × List (Slot F) => e.1.slots) (turn b k grow edits)
        left i (e, called) = some t ∧ t.2 = called ++ s.slots.drop i) ∧
    ∀ t, Walked.walk (fun e : Emission F × List (Slot F) => e.1.slots) (turn b k grow edits)
        left i (e, called) = some t →
      Meets (fun e d => some (edit b k grow e d)) (Spares b s.slots.length) e
        ((List.range' i left).flatMap edits) := by
  induction left generalizing i e called with
  | zero =>
      refine ⟨fun _ => ⟨_, rfl, ?_⟩, fun t _ => trivial⟩
      have hdone : s.slots.drop i = [] := List.drop_eq_nil_of_le (Nat.le_of_eq hi.symm)
      rw [hdone, List.append_nil]
  | succ left ih =>
      have hlt : i < s.slots.length := by omega
      have hturn : turn b k grow edits i (e, called) =
          some ((edits i).foldl (edit b k grow) e, called ++ [s.slots[i]]) :=
        turn_eq hordered edits h htake hlt called
      have hedits : s.slots.length ≤ ((edits i).foldl (edit b k grow) e).slots.intact ↔
          Meets (fun e d => some (edit b k grow e d)) (Spares b s.slots.length) e (edits i) :=
        le_intact_edits_iff (Nat.zero_lt_of_lt hlt) h (edits i)
      have hsplit : Meets (fun e d => some (edit b k grow e d)) (Spares b s.slots.length) e
            ((List.range' i (left + 1)).flatMap edits) ↔
          Meets (fun e d => some (edit b k grow e d)) (Spares b s.slots.length) e (edits i) ∧
            Meets (fun e d => some (edit b k grow e d)) (Spares b s.slots.length)
              ((edits i).foldl (edit b k grow) e) ((List.range' (i + 1) left).flatMap edits) := by
        rw [List.range'_succ, List.flatMap_cons]
        exact meets_append_iff (run_total (edit b k grow) e (edits i))
      rw [hsplit]
      constructor
      · intro hmeets
        have hintact := hedits.mpr hmeets.1
        obtain ⟨hwhole, hsame⟩ := whole_edits h hintact
        obtain ⟨t, ht, hcalled⟩ :=
          (ih (by omega) hwhole (hsame.trans htake) (called ++ [s.slots[i]])).1 hmeets.2
        refine ⟨t, ?_, ?_⟩
        · have hcheck : i + left + 1 ≤ ((edits i).foldl (edit b k grow) e).slots.intact := by omega
          rw [Walked.walk, hturn, Option.bind_some, if_pos hcheck]
          exact ht
        · rw [hcalled, List.append_assoc, List.drop_eq_getElem_cons hlt]
          rfl
      · intro t ht
        obtain ⟨e', hbody, hcheck, htail⟩ := Walked.walk_succ_eq_some ht
        cases hturn.symm.trans hbody
        have hle : i + left + 1 ≤ ((edits i).foldl (edit b k grow) e).slots.intact := hcheck
        have hintact : s.slots.length ≤ ((edits i).foldl (edit b k grow) e).slots.intact := by
          omega
        obtain ⟨hwhole, hsame⟩ := whole_edits h hintact
        exact ⟨hedits.mp hintact,
          (ih (by omega) hwhole (hsame.trans htake) (called ++ [s.slots[i]])).2 t htail⟩

/-- **When `emit` keeps its promise.**  On a signal as game code can have it, exactly if
during the walk every `connect` finds room in the vector, and no `disconnect` is of a handler that
was connected at the start. -/
theorem tolerates_iff (hb : b.Wired) (hs : b.signal k = some s) (grow : Nat → Nat)
    (edits : Nat → List (Edit F)) (capacity : Nat) :
    Tolerates b k grow edits (start s capacity) ↔
      Meets (fun e d => some (edit b k grow e d)) (Spares b s.slots.length) (start s capacity)
        (script edits s.slots.length) := by
  have hordered : s.Ordered k := hb.signals k s hs
  have hstart : (start s capacity).slots.elems.take s.slots.length = s.slots :=
    List.take_length
  have hwalk : (Meets (fun e d => some (edit b k grow e d)) (Spares b s.slots.length)
        (start s capacity) ((List.range' 0 s.slots.length).flatMap edits) →
      ∃ t, emit b k grow edits (start s capacity) = some t ∧ t.2 = [] ++ s.slots.drop 0) ∧
    ∀ t, emit b k grow edits (start s capacity) = some t →
      Meets (fun e d => some (edit b k grow e d)) (Spares b s.slots.length)
        (start s capacity) ((List.range' 0 s.slots.length).flatMap edits) :=
    walk_iff hordered edits (Nat.zero_add s.slots.length) (Walked.whole_start s.slots capacity)
      hstart []
  rw [script, List.range_eq_range']
  constructor
  · intro htolerates
    obtain ⟨t, ht, _⟩ := htolerates
    exact hwalk.2 t ht
  · intro hmeets
    obtain ⟨t, ht, hcalled⟩ := hwalk.1 hmeets
    refine ⟨t, ht, fun i slot hslot _ => ?_⟩
    have hnodup : (s.slots.map Slot.ordinal).Nodup :=
      List.pairwise_map.mpr (hordered.increasing.imp Nat.ne_of_lt)
    have hmem : slot.ordinal ∈ s.slots.map Slot.ordinal :=
      List.mem_map_of_mem (List.mem_of_getElem? hslot)
    have hall : t.2 = s.slots := hcalled
    rw [hall]
    exact List.count_eq_one_of_mem hnodup hmem

/-- A signal with two handlers. -/
def twoSlots : Signal Nat where
  slotIDCounter := 2
  slots :=
    [{ connection := { dc := some 0, slotID := 1 }, function := some 7, ordinal := 1 },
      { connection := { dc := some 0, slotID := 2 }, function := some 8, ordinal := 2 }]
  made := 2

/-- The program that has connected them. -/
def twoHandlers : Switchboard Nat where
  signals := [some twoSlots]
  connections :=
    [{ connection := { dc := some 0, slotID := 1 }, origin := some { signal := 0, ordinal := 1 } },
      { connection := { dc := some 0, slotID := 2 }, origin := some { signal := 0, ordinal := 2 } }]

/-- A signal with two slots, one of which disconnects itself. -/
theorem wired_twoHandlers : twoHandlers.Wired := by
  have hrun : run Switchboard.next ({} : Switchboard Nat)
      ([.makeSignal, .connect 0 (some 7), .connect 0 (some 8)] : List (SignalOp Nat Nat)) =
      some twoHandlers := by decide
  exact Switchboard.wired_of_run hrun

/-- The second handler connects a third, for which there is room. -/
theorem tolerates_iff_twoHandlers :
    Tolerates twoHandlers 0 (2 * ·) (fun i => if i = 1 then [.connect 9] else [])
      (start twoSlots 4) := by
  have hmeets : Meets (fun e d => some (edit twoHandlers 0 (2 * ·) e d)) (Spares twoHandlers 2)
      (start twoSlots 4) (script (fun i => if i = 1 then [.connect 9] else []) 2) := by decide
  exact (tolerates_iff wired_twoHandlers rfl _ _ _).mpr hmeets

/-- A handler that disconnects itself. -/
theorem not_always_tolerates : ¬ ∀ (b : Switchboard Nat) (k : Nat) (s : Signal Nat),
    b.Wired → b.signal k = some s → ∀ (grow : Nat → Nat) (edits : Nat → List (Edit Nat))
      (capacity : Nat), s.slots.length ≤ capacity →
        Tolerates b k grow edits (start s capacity) := by
  intro hall
  have hnone : emit twoHandlers 0 (2 * ·)
      (fun i => if i = 0 then [.disconnect { dc := some 0, slotID := 1 }] else [])
      (start twoSlots 4) = none := by decide
  obtain ⟨after, hafter, _⟩ := hall twoHandlers 0 twoSlots wired_twoHandlers rfl (2 * ·)
    (fun i => if i = 0 then [.disconnect { dc := some 0, slotID := 1 }] else []) 4 (by decide)
  rw [hnone] at hafter
  cases hafter

end Emission

end Signals

end EnkiNet
