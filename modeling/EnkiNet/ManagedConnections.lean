import EnkiNet.StaleCopies

/-!
# Connections that are managed

A `ManagedConnection` is a `Connection` whose destructor disconnects.  It can be copied, and as
it has no move constructor, to construct one from an rvalue copies as well; a move assignment
from an object with the same connection leaves both as they are.  In all of these two objects
have one handler, and the first of them to go takes it away from the other
(`not_always_lawful`).  While that does not happen, a handler is connected exactly as long as an
object manages it (`lawful_of_meets`).
-/

open Runs

namespace EnkiNet

namespace Signals

variable {F A : Type}

/-- A `ManagedConnection`: the connection object that it is.  What it was last given, until it is
moved from, disconnected or destroyed, is a record. -/
structure Managed where
  object : Nat
  alive : Bool
  manages : Option Origin
  deriving DecidableEq, Repr

/-- The signals and the connections of a program, and which of these are managed.  The calls of
`connect` whose handlers have been given to a `ManagedConnection` are a record. -/
structure Custody (F : Type) where
  board : Switchboard F := {}
  managed : List Managed := []
  given : List Origin := []
  deriving DecidableEq, Repr

/-- What game code can do.  Objects are numbered in the order in which they are made. -/
inductive ManagedOp (F : Type)
  | makeSignal
  | connect (k : Nat) (f : Option F)
  /-- `ManagedConnection m;`, which leaves the id as it happens to be. -/
  | makeManaged (slotID : UInt32)
  /-- `ManagedConnection m(c);` -/
  | manage (c : Nat)
  /-- `ManagedConnection n(m);` -/
  | copy (m : Nat)
  /-- `ManagedConnection n(std::move(m));` -/
  | constructFrom (m : Nat)
  /-- `m = std::move(n);` -/
  | assign (m n : Nat)
  | disconnect (m : Nat)
  | destroy (m : Nat)
  deriving DecidableEq, Repr

/-- The call whose handler a connection still has. -/
def Switchboard.holding (b : Switchboard F) (h : Held) : Option Origin :=
  h.origin.filter fun o => h.connection = o.connection ∧ b.Connected o

/-- To disconnect the connection takes a slot from its signal. -/
def Switchboard.takes (b : Switchboard F) (h : Held) : Bool :=
  h.connection.dc.any fun k => (b.signal k).any fun signal => b.finds signal h.connection

namespace Custody

variable (s : Custody F)

/-- An operation on the connections alone. -/
def onBoard (op : SignalOp F Unit) : Option (Custody F) :=
  (s.board.next op).map fun b => { s with board := b }

/-- A `ManagedConnection` that has not been destroyed, as the connection that it is. -/
def live (m : Nat) : Option (Managed × Held) :=
  (s.managed[m]?).bind fun x =>
    if x.alive then (s.board.connections[x.object]?).map fun h => (x, h) else none

/-- `ManagedConnection(Connection c)` and the copy constructor. -/
def construct (c : Nat) : Option (Custody F) :=
  (s.board.connections[c]?).bind fun h =>
    (s.board.next (.copyConnection c : SignalOp F Unit)).map fun b =>
      { board := b
        managed :=
          s.managed ++
            [{ object := s.board.connections.length, alive := true, manages := s.board.holding h }]
        given := s.given ++ (s.board.holding h).toList }

/-- An object disconnects. -/
def release (m : Nat) (x : Managed) (alive : Bool) : Option (Custody F) :=
  (s.board.next (.disconnectSelf x.object : SignalOp F Unit)).map fun b =>
    { s with
      board := b
      managed := s.managed.set m { x with alive := alive, manages := none } }

/-- `m` has what `n` had. -/
def handOver (m n : Nat) (x y : Managed) (h : Held) : Custody F :=
  { s with
    managed := (s.managed.set n { y with manages := none }).set m
      { x with manages := s.board.holding h }
    given := s.given ++ (s.board.holding h).toList }

/-- `Connection::operator=`: the weak pointer moves, the id is copied. -/
def moveConnection (m n : Nat) (x y : Managed) (h : Held) : Custody F :=
  { s.handOver m n x y h with
    board := (s.board.setConnection x.object h).setConnection y.object
      { h with connection := { h.connection with dc := none } } }

/-- `ManagedConnection::operator=`. -/
def assign (m n : Nat) : Option (Custody F) :=
  (s.live m).bind fun x =>
    (s.live n).bind fun y =>
      if s.board.same x.2.connection y.2.connection then some (s.handOver m n x.1 y.1 y.2)
      else
        (s.release m x.1 true).bind fun s' =>
          (s'.board.connections[y.1.object]?).map fun h => s'.moveConnection m n x.1 y.1 h

/-- An operation; it cannot be made on objects that do not exist. -/
def step : ManagedOp F → Option (Custody F)
  | .makeSignal => s.onBoard .makeSignal
  | .connect k f => s.onBoard (.connect k f)
  | .makeManaged slotID =>
      (s.onBoard (.makeConnection slotID)).map fun s' =>
        { s' with
          managed := s.managed ++
            [{ object := s.board.connections.length, alive := true, manages := none }] }
  | .manage c => if s.managed.any fun x => x.object = c then none else s.construct c
  | .copy m => (s.live m).bind fun x => s.construct x.1.object
  | .constructFrom m =>
      (s.live m).bind fun x =>
        (s.construct x.1.object).map fun s' =>
          { s' with managed := s'.managed.set m { x.1 with manages := none } }
  | .assign m n => s.assign m n
  | .disconnect m => (s.live m).bind fun x => s.release m x.1 true
  | .destroy m => (s.live m).bind fun x => s.release m x.1 false

/-- **What managing promises.**  The handler that an object manages is connected, and called by
`emit`; a handler that objects have managed, and none does any more, is not. -/
structure Lawful : Prop where
  called : ∀ x ∈ s.managed, ∀ o, x.manages = some o →
    ∃ signal slot f, s.board.signal o.signal = some signal ∧ slot ∈ signal.slots ∧
      slot.ordinal = o.ordinal ∧ slot.function = some f ∧
        ∀ (A : Type) (a : A), (f, a) ∈ signal.emit a
  gone : ∀ o ∈ s.given, (∀ x ∈ s.managed, x.manages ≠ some o) → ¬ s.board.Connected o

/-- The signal that gets a new slot. -/
def connects : ManagedOp F → Option (Signal F)
  | .connect k (some _) => s.board.signal k
  | _ => none

/-- The object that disconnects: it is made to, it is destroyed, or another connection is
assigned to it. -/
def releases : ManagedOp F → Option Nat
  | .disconnect m => some m
  | .destroy m => some m
  | .assign m n =>
      (s.live m).bind fun x =>
        (s.live n).bind fun y =>
          if s.board.same x.2.connection y.2.connection then none else some m
  | _ => none

/-- No `connect` hands out the id 0, and no object disconnects a handler that another object
manages. -/
structure Guarded (op : ManagedOp F) : Prop where
  connect : ∀ signal ∈ s.connects op, signal.slotIDCounter + 1 ≠ 0
  release : ∀ m ∈ s.releases op, ∀ x ∈ s.managed[m]?, ∀ h ∈ s.board.connections[x.object]?,
    s.board.takes h = true →
    ∀ j < s.managed.length, j ≠ m → ∀ y ∈ s.managed[j]?, y.manages ≠ h.origin

instance (op : ManagedOp F) : Decidable (s.Guarded op) :=
  decidable_of_iff
    ((∀ signal ∈ s.connects op, signal.slotIDCounter + 1 ≠ 0) ∧
      ∀ m ∈ s.releases op, ∀ x ∈ s.managed[m]?, ∀ h ∈ s.board.connections[x.object]?,
        s.board.takes h = true →
        ∀ j < s.managed.length, j ≠ m → ∀ y ∈ s.managed[j]?, y.manages ≠ h.origin)
    ⟨fun h => ⟨h.1, h.2⟩, fun h => ⟨h.connect, h.release⟩⟩

end Custody

namespace Switchboard

variable {b b' : Switchboard F} {h : Held} {o : Origin}

theorem holding_eq_some_iff :
    b.holding h = some o ↔ h.origin = some o ∧ h.connection = o.connection ∧ b.Connected o := by
  rw [holding, Option.filter_eq_some_iff, decide_eq_true_iff]

theorem connected_makeSignal (o : Origin) :
    Connected { b with signals := b.signals ++ [some {}] } o ↔ b.Connected o := by
  by_cases ho : o.signal = b.signals.length
  · have hnew : ({ b with signals := b.signals ++ [some {}] } : Switchboard F).signal o.signal =
        some {} := by
      rw [signal_makeSignal, if_pos ho]
    have hold : b.signal o.signal = none := by
      rw [signal, ho, List.getElem?_eq_none (Nat.le_refl _)]
      rfl
    rw [Connected, Connected, hnew, hold]
    simp
  · have hsame : ({ b with signals := b.signals ++ [some {}] } : Switchboard F).signal o.signal =
        b.signal o.signal := by
      rw [signal_makeSignal, if_neg ho]
    rw [Connected, Connected, hsame]

/-- A call of `connect` that has been made. -/
structure Past (b : Switchboard F) (o : Origin) : Prop where
  made : o.signal < b.signals.length
  le_made : ∀ s, b.signal o.signal = some s → o.ordinal ≤ s.made

theorem past_of_grows (hgrows : b.Grows b') (ho : b.Past o) : b'.Past o where
  made := Nat.lt_of_lt_of_le ho.made hgrows.length
  le_made := by
    intro s hs
    obtain ⟨t, ht, hle⟩ := hgrows.made o.signal ho.made s hs
    exact Nat.le_trans (ho.le_made t ht) hle

theorem Wired.past (hb : b.Wired) (hh : h ∈ b.connections) (ho : h.origin = some o) : b.Past o :=
  ⟨(hb.held h hh).made o ho, (hb.held h hh).le_made o ho⟩

theorem Wired.setConnection (hb : b.Wired) (c : Nat) (hh : h.Known b) :
    (b.setConnection c h).Wired := by
  have hsame : ∀ x : Held, x.Known b → x.Known (b.setConnection c h) := fun x hx =>
    ⟨hx.connection, hx.positive, hx.made, hx.le_made⟩
  refine ⟨hb.signals, fun x hx => ?_⟩
  rcases List.mem_or_eq_of_mem_set hx with hold | rfl
  · exact hsame x (hb.held x hold)
  · exact hsame x hh

/-- Only `disconnect` and the destruction of a signal disconnect a past call. -/
theorem Turn.connected_iff {A : Type} {op : SignalOp F A} (hturn : b.Turn op b') (ho : b.Past o)
    (hdestroy : ∀ k, op ≠ .destroySignal k) (hdisconnect : ∀ k c, op ≠ .disconnect k c)
    (hself : ∀ c, op ≠ .disconnectSelf c) : b'.Connected o ↔ b.Connected o := by
  cases hturn with
  | idle hidle => exact Iff.rfl
  | makeSignal => exact connected_makeSignal o
  | destroySignal hs => exact absurd rfl (hdestroy _)
  | makeConnection slotID => exact Iff.rfl
  | copyConnection hh => exact Iff.rfl
  | @connect k s f hs =>
      refine (connected_attach hs f o).trans (or_iff_left fun heq => ?_)
      have hle : o.ordinal ≤ s.made := ho.le_made s (heq ▸ hs)
      rw [heq] at hle
      exact Nat.not_succ_le_self _ hle
  | disconnect hop hs hh hfinds =>
      rcases hop with hop | hop
      · exact absurd hop (hdisconnect _ _)
      · exact absurd hop (hself _)

/-- What `disconnect` takes from a connection object: its handler, if it still has one. -/
theorem Turn.disconnectSelf {A : Type} {c : Nat}
    (hturn : b.Turn (.disconnectSelf c : SignalOp F A) b') (hb : b.Wired) (hsmall : b.Small)
    (hh : b.connections[c]? = some h) :
    (b'.connections.length = b.connections.length ∧
      ∀ j, j ≠ c → b'.connections[j]? = b.connections[j]?) ∧
    ∃ lost : Option Origin, (∀ o, b'.Connected o ↔ b.Connected o ∧ lost ≠ some o) ∧
      (∀ o, lost = some o →
        h.origin = some o ∧ ∃ k s, b.signal k = some s ∧ b.finds s h.connection = true) ∧
      ∀ o, h.origin = some o → h.connection = o.connection → b.Connected o → lost = some o := by
  have hmem : h ∈ b.connections := List.mem_of_getElem? hh
  cases hturn with
  | idle hidle =>
      refine ⟨⟨rfl, fun j _ => rfl⟩, none, fun o => ?_, (fun o ho => by cases ho), ?_⟩
      · exact (and_iff_left (by simp)).symm
      · intro o ho heq hconnected
        obtain ⟨s, hs, hslot⟩ := hconnected
        have hfound := (hb.finds_iff hsmall hs hmem).mpr ⟨o, ho, rfl, heq, s, hs, hslot⟩
        rw [hidle.disconnect _ c s h (.inr rfl) hs hh] at hfound
        cases hfound
  | @disconnect _ k c' s h' hop hs hh' hfinds =>
      obtain rfl : c = c' := by simpa using hop
      cases hh.symm.trans hh'
      obtain ⟨o₀, ho₀, rfl, heq₀, hconnected⟩ := (hb.finds_iff hsmall hs hmem).mp hfinds
      have hlt : o₀.ordinal < 2 ^ 32 := hb.origin_lt hsmall hmem ho₀ hs
      refine ⟨⟨List.length_set, fun j hj => List.getElem?_set_ne fun h => hj h.symm⟩,
        some o₀, fun o => ?_, fun o ho => ?_, fun o ho _ _ => ho₀.symm.trans ho⟩
      · refine (connected_release hb hsmall hs hlt heq₀ c o).trans (and_congr_right fun _ => ?_)
        refine not_congr ⟨fun h => by rw [h], fun h => (Option.some.inj h).symm⟩
      · rw [← ho]
        exact ⟨ho₀, _, s, hs, hfinds⟩

/-- Two objects that are equal, one of which still has its handler, are of the same call. -/
theorem Wired.origin_of_same (hb : b.Wired) (hsmall : b.Small) {h' : Held}
    (hh : h ∈ b.connections) (hh' : h' ∈ b.connections)
    (hsame : b.same h.connection h'.connection = true) (ho : h.origin = some o)
    (heq : h.connection = o.connection) (hconnected : b.Connected o) :
    h'.origin = some o ∧ h'.connection = o.connection := by
  obtain ⟨s, hs, _⟩ := hconnected
  obtain ⟨hid, hlock⟩ := of_decide_eq_true hsame
  have halive : b.lock (some o.signal) = some o.signal := lock_some hs
  have hdc : h'.connection.dc = some o.signal := by
    rw [heq, Origin.connection, halive] at hlock
    exact ((lock_eq_some_iff _).mp hlock.symm).1
  have hconnection : h'.connection = o.connection := by
    rw [heq] at hid
    exact Connection.mk.injEq .. ▸ ⟨hdc, hid.symm⟩
  obtain ⟨o', ho', heq'⟩ := (hb.held h' hh').connection (by rw [hdc]; exact Option.some_ne_none _)
  have hsignal : o'.signal = o.signal := by
    rw [heq'] at hdc
    exact Option.some.inj hdc
  have hcall : o' = o := (connection_inj (hb.origin_lt hsmall hh' ho' (hsignal ▸ hs))
    (hb.origin_lt hsmall hh ho hs)).mp (heq'.symm.trans hconnection)
  exact ⟨hcall ▸ ho', hconnection⟩

theorem same_comm (x y : Connection) : b.same x y = b.same y x := by
  rw [same, same]
  simp only [eq_comm]

/-- Connection objects are only ever added, and only `disconnect` changes one. -/
theorem Turn.connections {A : Type} {op : SignalOp F A} (hturn : b.Turn op b')
    (hdisconnect : ∀ k c, op ≠ .disconnect k c) (hself : ∀ c, op ≠ .disconnectSelf c) :
    ∃ new, b'.connections = b.connections ++ new := by
  cases hturn with
  | idle hidle => exact ⟨[], (List.append_nil _).symm⟩
  | makeSignal => exact ⟨[], (List.append_nil _).symm⟩
  | destroySignal hs => exact ⟨[], (List.append_nil _).symm⟩
  | makeConnection slotID => exact ⟨_, rfl⟩
  | copyConnection hh => exact ⟨_, rfl⟩
  | connect hs => exact ⟨_, rfl⟩
  | disconnect hop hs hh hfinds =>
      rcases hop with hop | hop
      · exact absurd hop (hdisconnect _ _)
      · exact absurd hop (hself _)

end Switchboard

namespace Custody

open Switchboard

variable {s s' : Custody F} {m n : Nat} {x y : Managed} {h : Held} {o : Origin}

/-- What managed objects are. -/
structure Sorted (s : Custody F) : Prop where
  wired : s.board.Wired
  small : s.board.Small
  object_lt : ∀ x ∈ s.managed, x.object < s.board.connections.length
  objects : (s.managed.map Managed.object).Nodup
  intact : ∀ x ∈ s.managed, ∀ o, x.manages = some o →
    ∃ h, s.board.connections[x.object]? = some h ∧ h.origin = some o ∧ h.connection = o.connection
  past : ∀ o ∈ s.given, s.board.Past o

/-- A handler that is managed is connected exactly while an object manages it. -/
structure Kept (s : Custody F) : Prop extends s.Sorted where
  connected : ∀ x ∈ s.managed, ∀ o, x.manages = some o → s.board.Connected o
  managed : ∀ o ∈ s.given, s.board.Connected o → ∃ x ∈ s.managed, x.manages = some o

theorem Kept.lawful (hs : s.Kept) : s.Lawful where
  called := by
    intro x hx o ho
    obtain ⟨signal, hsignal, slot, hslot, hordinal⟩ := hs.connected x hx o ho
    obtain ⟨f, hf⟩ :=
      Option.isSome_iff_exists.mp ((hs.wired.signals _ _ hsignal).function slot hslot)
    refine ⟨signal, slot, f, hsignal, hslot, hordinal, hf, fun A a => ?_⟩
    refine List.mem_filterMap.mpr ⟨slot, hslot, ?_⟩
    rw [hf]
    rfl
  gone := by
    intro o ho hnone hconnected
    obtain ⟨x, hx, hmanages⟩ := hs.managed o ho hconnected
    exact hnone x hx hmanages

/-! ## One object among the others -/

/-- An element of a list in which one has been replaced. -/
theorem of_mem_set {l : List Managed} (h : x ∈ l.set m y) :
    x = y ∨ ∃ j, j ≠ m ∧ l[j]? = some x := by
  obtain ⟨j, hj⟩ := List.getElem?_of_mem h
  rw [List.getElem?_set] at hj
  by_cases hjm : m = j
  · rw [if_pos hjm] at hj
    split at hj
    · exact .inl (Option.some.inj hj).symm
    · cases hj
  · rw [if_neg hjm] at hj
    exact .inr ⟨j, fun h => hjm h.symm, hj⟩

theorem mem_set_of_ne {l : List Managed} {j : Nat} (hj : l[j]? = some x) (hjm : j ≠ m) :
    x ∈ l.set m y := by
  refine List.mem_of_getElem? (i := j) ?_
  rw [List.getElem?_set_ne fun h => hjm h.symm]
  exact hj

theorem map_object_set {l : List Managed} (hx : l[m]? = some x) (hy : y.object = x.object) :
    (l.set m y).map Managed.object = l.map Managed.object := by
  obtain ⟨hm, rfl⟩ := List.getElem?_eq_some_iff.mp hx
  rw [List.map_set, hy, ← List.getElem_map Managed.object (h := by simpa using hm)]
  exact List.set_getElem_self _

/-- Different managed objects are different connections. -/
theorem Sorted.object_ne (hs : s.Sorted) {j : Nat} (hx : s.managed[m]? = some x)
    (hy : s.managed[j]? = some y) (hjm : j ≠ m) : y.object ≠ x.object := by
  intro heq
  have hlt : j < (s.managed.map Managed.object).length := by
    rw [List.length_map]
    exact (List.getElem?_eq_some_iff.mp hy).1
  refine hjm ((List.getElem?_inj hlt hs.objects).mp ?_)
  rw [List.getElem?_map, List.getElem?_map, hx, hy]
  exact congrArg some heq

/-! ## Operations that disconnect nothing -/

/-- Connections may be added and connected. -/
theorem Kept.grow (hs : s.Kept) {b : Switchboard F} {op : SignalOp F Unit}
    (hnext : s.board.next op = some b) (hsmall : b.Small)
    (hdestroy : ∀ k, op ≠ .destroySignal k) (hdisconnect : ∀ k c, op ≠ .disconnect k c)
    (hself : ∀ c, op ≠ .disconnectSelf c) : ({ s with board := b } : Custody F).Kept := by
  have hturn : s.board.Turn op b := turn_of_next hs.wired hnext
  obtain ⟨new, hnew⟩ := hturn.connections hdisconnect hself
  have hlookup : ∀ c, c < s.board.connections.length →
      b.connections[c]? = s.board.connections[c]? := by
    intro c hc
    rw [hnew, List.getElem?_append_left hc]
  have hconnected : ∀ o, s.board.Past o → (b.Connected o ↔ s.board.Connected o) := fun o ho =>
    hturn.connected_iff ho hdestroy hdisconnect hself
  refine ⟨⟨hturn.wired hs.wired, hsmall, ?_, hs.objects, ?_, ?_⟩, ?_, ?_⟩
  · intro x hx
    have hlt : x.object < s.board.connections.length := hs.object_lt x hx
    rw [hnew, List.length_append]
    exact Nat.lt_add_right _ hlt
  · intro x hx o ho
    obtain ⟨h, hh, horigin⟩ := hs.intact x hx o ho
    refine ⟨h, ?_, horigin⟩
    rw [hlookup x.object (hs.object_lt x hx)]
    exact hh
  · exact fun o ho => past_of_grows hturn.grows (hs.past o ho)
  · intro x hx o ho
    obtain ⟨h, hh, horigin, _⟩ := hs.intact x hx o ho
    have hpast : s.board.Past o := hs.wired.past (List.mem_of_getElem? hh) horigin
    exact (hconnected o hpast).mpr (hs.connected x hx o ho)
  · intro o ho hconnectedO
    exact hs.managed o ho ((hconnected o (hs.past o ho)).mp hconnectedO)

/-- A new object has been given a connection. -/
theorem Kept.add (hs : s.Kept) (hobject : x.object < s.board.connections.length)
    (hnew : ∀ y ∈ s.managed, y.object ≠ x.object)
    (hintact : ∀ o, x.manages = some o → ∃ h, s.board.connections[x.object]? = some h ∧
      h.origin = some o ∧ h.connection = o.connection)
    (hconnected : ∀ o, x.manages = some o → s.board.Connected o) :
    ({ s with
      managed := s.managed ++ [x]
      given := s.given ++ x.manages.toList } : Custody F).Kept := by
  refine ⟨⟨hs.wired, hs.small, ?_, ?_, ?_, ?_⟩, ?_, ?_⟩
  · intro y hy
    rcases List.mem_append.mp hy with hold | heq
    · exact hs.object_lt y hold
    · rw [List.mem_singleton.mp heq]
      exact hobject
  · rw [List.map_append]
    refine List.nodup_append'.mpr ⟨hs.objects, List.nodup_singleton _, ?_⟩
    intro i hi hi'
    obtain ⟨y, hy, rfl⟩ := List.mem_map.mp hi
    exact hnew y hy (List.mem_singleton.mp hi')
  · intro y hy o ho
    rcases List.mem_append.mp hy with hold | heq
    · exact hs.intact y hold o ho
    · rw [List.mem_singleton.mp heq] at ho ⊢
      exact hintact o ho
  · intro o ho
    rcases List.mem_append.mp ho with hold | hgiven
    · exact hs.past o hold
    · obtain ⟨h, hh, horigin, _⟩ := hintact o (Option.mem_toList.mp hgiven)
      exact hs.wired.past (List.mem_of_getElem? hh) horigin
  · intro y hy o ho
    rcases List.mem_append.mp hy with hold | heq
    · exact hs.connected y hold o ho
    · rw [List.mem_singleton.mp heq] at ho
      exact hconnected o ho
  · intro o ho hconnectedO
    rcases List.mem_append.mp ho with hold | hgiven
    · obtain ⟨y, hy, hmanages⟩ := hs.managed o hold hconnectedO
      exact ⟨y, List.mem_append_left _ hy, hmanages⟩
    · exact ⟨x, List.mem_append_right _ (List.mem_singleton.mpr rfl), Option.mem_toList.mp hgiven⟩

theorem small_of_makes {b b' : Switchboard F} {op : SignalOp F Unit} (hb : b.Wired)
    (hsmall : b.Small) (hnext : b.next op = some b') (hop : ∀ k, op.connectsTo k = false) :
    b'.Small := by
  intro k
  have hle := (turn_of_next hb hnext).made_le k
  rw [hop k] at hle
  exact Nat.lt_of_le_of_lt hle (hsmall k)

theorem Kept.construct (hs : s.Kept) {c : Nat} (hstep : s.construct c = some s') :
    s'.Kept ∧ ∃ h new, s.board.connections[c]? = some h ∧ s'.managed = s.managed ++ [new] ∧
      new.manages = s.board.holding h := by
  obtain ⟨h, hh, htail⟩ := Option.bind_eq_some_iff.mp hstep
  obtain ⟨b, hnext, rfl⟩ := Option.map_eq_some_iff.mp htail
  have hb : b = { s.board with connections := s.board.connections ++ [h] } := by
    rw [next, Switchboard.step, hh] at hnext
    exact (Option.some.inj hnext).symm
  have hgrown : ({ s with board := b } : Custody F).Kept :=
    hs.grow hnext (small_of_makes hs.wired hs.small hnext fun k => rfl) (by simp) (by simp)
      (by simp)
  refine ⟨hgrown.add ?_ ?_ ?_ ?_, h, _, hh, rfl, rfl⟩
  · rw [hb]
    simp
  · intro y hy
    exact Nat.ne_of_lt (hs.object_lt y hy)
  · intro o ho
    obtain ⟨horigin, heq, _⟩ := holding_eq_some_iff.mp ho
    refine ⟨h, ?_, horigin, heq⟩
    rw [hb]
    exact List.getElem?_concat_length
  · intro o ho
    obtain ⟨_, _, hconnected⟩ := holding_eq_some_iff.mp ho
    rw [hb]
    exact hconnected

/-! ## Operations that disconnect -/

theorem Guarded.spared {op : ManagedOp F} (hguard : s.Guarded op) (hs : s.board.Wired)
    (hm : s.releases op = some m) (hx : s.managed[m]? = some x) {k : Nat} {signal : Signal F}
    (hh : s.board.connections[x.object]? = some h) (hsignal : s.board.signal k = some signal)
    (hfinds : s.board.finds signal h.connection = true) {j : Nat}
    (hy : s.managed[j]? = some y) (hjm : j ≠ m) : y.manages ≠ h.origin := by
  have htakes : s.board.takes h = true := by
    rw [takes, hs.finds_dc hsignal hfinds, Option.any_some, hsignal]
    exact hfinds
  have hlt : j < s.managed.length := (List.getElem?_eq_some_iff.mp hy).1
  exact hguard.release m hm x hx h hh htakes j hlt hjm y hy

/-- An object disconnects a handler that no other object manages. -/
theorem Kept.release (hs : s.Kept) {alive : Bool} (hx : s.managed[m]? = some x)
    (hguard : ∀ h k signal, s.board.connections[x.object]? = some h →
      s.board.signal k = some signal → s.board.finds signal h.connection = true →
      ∀ j y, s.managed[j]? = some y → j ≠ m → y.manages ≠ h.origin)
    (hstep : s.release m x alive = some s') : s'.Kept := by
  obtain ⟨b, hnext, rfl⟩ := Option.map_eq_some_iff.mp hstep
  have hturn := turn_of_next hs.wired hnext
  have hsmall : b.Small := small_of_makes hs.wired hs.small hnext fun k => rfl
  have hmem : x ∈ s.managed := List.mem_of_getElem? hx
  have hself : s.board.connections[x.object]? = some _ :=
    List.getElem?_eq_getElem (hs.object_lt x hmem)
  obtain ⟨⟨hlength, hlookup⟩, lost, hconnected, hlost, hown⟩ :=
    hturn.disconnectSelf hs.wired hs.small hself
  refine ⟨⟨hturn.wired hs.wired, hsmall, ?_, ?_, ?_, ?_⟩, ?_, ?_⟩
  · intro y hy
    rw [hlength]
    rcases of_mem_set hy with rfl | hother
    · exact hs.object_lt x hmem
    · obtain ⟨j, _, hj⟩ := hother
      exact hs.object_lt y (List.mem_of_getElem? hj)
  · rw [map_object_set (y := { x with alive := alive, manages := none }) hx rfl]
    exact hs.objects
  · intro y hy o ho
    rcases of_mem_set hy with rfl | hother
    · cases ho
    · obtain ⟨j, hjm, hj⟩ := hother
      rw [hlookup y.object (hs.object_ne hx hj hjm)]
      exact hs.intact y (List.mem_of_getElem? hj) o ho
  · exact fun o ho => past_of_grows hturn.grows (hs.past o ho)
  · intro y hy o ho
    rcases of_mem_set hy with rfl | hother
    · cases ho
    · obtain ⟨j, hjm, hj⟩ := hother
      refine (hconnected o).mpr ⟨hs.connected y (List.mem_of_getElem? hj) o ho, fun heq => ?_⟩
      obtain ⟨horigin, k, signal, hsignal, hfinds⟩ := hlost o heq
      exact hguard _ k signal hself hsignal hfinds j y hj hjm (ho.trans horigin.symm)
  · intro o ho hconnectedO
    obtain ⟨hbefore, hkept⟩ := (hconnected o).mp hconnectedO
    obtain ⟨y, hy, hmanages⟩ := hs.managed o ho hbefore
    obtain ⟨j, hj⟩ := List.getElem?_of_mem hy
    refine ⟨y, mem_set_of_ne hj fun hjm => ?_, hmanages⟩
    -- what the object itself managed has gone
    rw [hjm, hx] at hj
    cases hj
    obtain ⟨h, hh, horigin, heq⟩ := hs.intact x hy o hmanages
    cases hself.symm.trans hh
    exact hkept (hown o horigin heq hbefore)

/-- An object no longer manages what another object manages. -/
theorem Kept.unmanage (hs : s.Kept) {x' : Managed} (hx : s.managed[m]? = some x')
    (hobject : x.object = x'.object)
    (hother : ∀ o, x'.manages = some o → s.board.Connected o →
      ∃ j y, j ≠ m ∧ s.managed[j]? = some y ∧ y.manages = some o) :
    ({ s with managed := s.managed.set m { x with manages := none } } : Custody F).Kept := by
  refine ⟨⟨hs.wired, hs.small, ?_, ?_, ?_, hs.past⟩, ?_, ?_⟩
  · intro y hy
    rcases of_mem_set hy with rfl | hrest
    · rw [hobject]
      exact hs.object_lt x' (List.mem_of_getElem? hx)
    · obtain ⟨j, _, hj⟩ := hrest
      exact hs.object_lt y (List.mem_of_getElem? hj)
  · rw [map_object_set (y := { x with manages := none }) hx hobject]
    exact hs.objects
  · intro y hy o ho
    rcases of_mem_set hy with rfl | hrest
    · cases ho
    · obtain ⟨j, _, hj⟩ := hrest
      exact hs.intact y (List.mem_of_getElem? hj) o ho
  · intro y hy o ho
    rcases of_mem_set hy with rfl | hrest
    · cases ho
    · obtain ⟨j, _, hj⟩ := hrest
      exact hs.connected y (List.mem_of_getElem? hj) o ho
  · intro o ho hconnected
    obtain ⟨y, hy, hmanages⟩ := hs.managed o ho hconnected
    obtain ⟨j, hj⟩ := List.getElem?_of_mem hy
    by_cases hjm : j = m
    · rw [hjm, hx] at hj
      cases hj
      obtain ⟨i, z, him, hz, hmanagesz⟩ := hother o hmanages hconnected
      exact ⟨z, mem_set_of_ne hz him, hmanagesz⟩
    · exact ⟨y, mem_set_of_ne hj hjm, hmanages⟩

theorem of_mem_handOver {z : Managed} (hz : z ∈ (s.handOver m n x y h).managed) :
    z = { x with manages := s.board.holding h } ∨ z = { y with manages := none } ∨
      ∃ j, j ≠ m ∧ j ≠ n ∧ s.managed[j]? = some z := by
  rcases of_mem_set hz with heq | hrest
  · exact .inl heq
  · obtain ⟨j, hjm, hj⟩ := hrest
    by_cases hjn : n = j
    · rw [hjn, List.getElem?_set] at hj
      split at hj
      · split at hj
        · exact .inr (.inl (Option.some.inj hj).symm)
        · cases hj
      · contradiction
    · rw [List.getElem?_set_ne hjn] at hj
      exact .inr (.inr ⟨j, hjm, fun h => hjn h.symm, hj⟩)

theorem mem_handOver_self (hm : m < s.managed.length) :
    { x with manages := s.board.holding h } ∈ (s.handOver m n x y h).managed := by
  have hm' : m < (s.managed.set n { y with manages := none }).length := by
    rw [List.length_set]
    exact hm
  exact List.mem_of_getElem? (List.getElem?_set_self hm')

theorem mem_handOver_of_ne {j : Nat} {z : Managed} (hj : s.managed[j]? = some z) (hjm : j ≠ m)
    (hjn : j ≠ n) : z ∈ (s.handOver m n x y h).managed := by
  have hmiddle : (s.managed.set n { y with manages := none })[j]? = some z := by
    rw [List.getElem?_set_ne fun h => hjn h.symm]
    exact hj
  exact mem_set_of_ne hmiddle hjm

theorem map_object_handOver {x' : Managed} (hx : s.managed[m]? = some x')
    (hobject : x.object = x'.object) (hy : s.managed[n]? = some y) :
    (s.handOver m n x y h).managed.map Managed.object = s.managed.map Managed.object := by
  have hmiddle : (s.managed.set n { y with manages := none }).map Managed.object =
      s.managed.map Managed.object := map_object_set hy rfl
  obtain ⟨z, hz⟩ : ∃ z, (s.managed.set n { y with manages := none })[m]? = some z := by
    refine ⟨_, List.getElem?_eq_getElem ?_⟩
    rw [List.length_set]
    exact (List.getElem?_eq_some_iff.mp hx).1
  have hsame : x.object = z.object := by
    have hmap := congrArg (fun l => l[m]?) hmiddle
    simp only [List.getElem?_map, hz, hx, Option.map_some] at hmap
    exact hobject.trans (Option.some.inj hmap).symm
  exact (map_object_set (y := { x with manages := s.board.holding h }) hz hsame).trans hmiddle

/-- `m` has what `n` had, on a board with the same signals. -/
theorem Kept.handOver (hs : s.Kept) {x' : Managed} (hx : s.managed[m]? = some x')
    (hobject : x.object = x'.object) (hy : s.managed[n]? = some y)
    (hh : h ∈ s.board.connections) {b : Switchboard F} (hb : b.Wired)
    (hsignals : b.signals = s.board.signals)
    (hlength : b.connections.length = s.board.connections.length)
    (hlookup : ∀ c, c ≠ x'.object → c ≠ y.object →
      b.connections[c]? = s.board.connections[c]?)
    (hintact : ∀ o, s.board.holding h = some o → ∃ h', b.connections[x.object]? = some h' ∧
      h'.origin = some o ∧ h'.connection = o.connection)
    (hown : ∀ o, x'.manages = some o ∨ y.manages = some o → s.board.Connected o →
      s.board.holding h = some o) :
    ({ s.handOver m n x y h with board := b } : Custody F).Kept := by
  have hsignal : ∀ k, b.signal k = s.board.signal k := fun k => by rw [signal, signal, hsignals]
  have hconnected : ∀ o, b.Connected o ↔ s.board.Connected o := fun o => by
    rw [Connected, Connected, hsignal]
  have hpast : ∀ o, s.board.Past o → b.Past o := by
    intro o ho
    refine ⟨?_, fun t ht => ?_⟩
    · rw [hsignals]
      exact ho.made
    · rw [hsignal] at ht
      exact ho.le_made t ht
  have hnew : { x with manages := s.board.holding h } ∈ (s.handOver m n x y h).managed :=
    mem_handOver_self (List.getElem?_eq_some_iff.mp hx).1
  refine ⟨⟨hb, fun k => ?_, ?_, ?_, ?_, ?_⟩, ?_, ?_⟩
  · rw [made, hsignal]
    exact hs.small k
  · intro z hz
    rw [hlength]
    rcases of_mem_handOver hz with rfl | rfl | hrest
    · rw [hobject]
      exact hs.object_lt x' (List.mem_of_getElem? hx)
    · exact hs.object_lt y (List.mem_of_getElem? hy)
    · obtain ⟨j, _, _, hj⟩ := hrest
      exact hs.object_lt z (List.mem_of_getElem? hj)
  · rw [map_object_handOver hx hobject hy]
    exact hs.objects
  · intro z hz o ho
    rcases of_mem_handOver hz with rfl | rfl | hrest
    · exact hintact o ho
    · cases ho
    · obtain ⟨j, hjm, hjn, hj⟩ := hrest
      rw [hlookup z.object (hs.object_ne hx hj hjm) (hs.object_ne hy hj hjn)]
      exact hs.intact z (List.mem_of_getElem? hj) o ho
  · intro o ho
    rcases List.mem_append.mp ho with hold | hgiven
    · exact hpast o (hs.past o hold)
    · obtain ⟨horigin, _, _⟩ := holding_eq_some_iff.mp (Option.mem_toList.mp hgiven)
      exact hpast o (hs.wired.past hh horigin)
  · intro z hz o ho
    refine (hconnected o).mpr ?_
    rcases of_mem_handOver hz with rfl | rfl | hrest
    · obtain ⟨_, _, hstill⟩ := holding_eq_some_iff.mp ho
      exact hstill
    · cases ho
    · obtain ⟨j, _, _, hj⟩ := hrest
      exact hs.connected z (List.mem_of_getElem? hj) o ho
  · intro o ho hconnectedO
    have hstill : s.board.Connected o := (hconnected o).mp hconnectedO
    rcases List.mem_append.mp ho with hold | hgiven
    · obtain ⟨z, hz, hmanages⟩ := hs.managed o hold hstill
      obtain ⟨j, hj⟩ := List.getElem?_of_mem hz
      by_cases hjm : j = m
      · rw [hjm, hx] at hj
        cases hj
        exact ⟨_, hnew, hown o (.inl hmanages) hstill⟩
      · by_cases hjn : j = n
        · rw [hjn, hy] at hj
          cases hj
          exact ⟨_, hnew, hown o (.inr hmanages) hstill⟩
        · exact ⟨z, mem_handOver_of_ne hj hjm hjn, hmanages⟩
    · exact ⟨_, hnew, Option.mem_toList.mp hgiven⟩

/-- A connection that its object manages, and that is still there, is what it holds. -/
theorem Sorted.holding (hs : s.Sorted) (hx : s.managed[m]? = some x)
    (hh : s.board.connections[x.object]? = some h) (ho : x.manages = some o)
    (hconnected : s.board.Connected o) : s.board.holding h = some o := by
  obtain ⟨h', hh', horigin, heq⟩ := hs.intact x (List.mem_of_getElem? hx) o ho
  cases hh.symm.trans hh'
  exact holding_eq_some_iff.mpr ⟨horigin, heq, hconnected⟩

theorem live_eq_some {z : Managed × Held} (h : s.live m = some z) :
    s.managed[m]? = some z.1 ∧ z.1.alive = true ∧
      s.board.connections[z.1.object]? = some z.2 := by
  obtain ⟨x, hx, htail⟩ := Option.bind_eq_some_iff.mp h
  split at htail
  · next halive =>
      obtain ⟨h', hh, rfl⟩ := Option.map_eq_some_iff.mp htail
      exact ⟨hx, halive, hh⟩
  · cases htail

/-- The two have the same connection, and keep it. -/
theorem Kept.shortcut (hs : s.Kept) {h' : Held} (hx : s.managed[m]? = some x)
    (hy : s.managed[n]? = some y) (hh : s.board.connections[x.object]? = some h)
    (hh' : s.board.connections[y.object]? = some h')
    (hsame : s.board.same h.connection h'.connection = true) :
    (s.handOver m n x y h').Kept := by
  have hmem : h ∈ s.board.connections := List.mem_of_getElem? hh
  have hmem' : h' ∈ s.board.connections := List.mem_of_getElem? hh'
  refine hs.handOver hx rfl hy hmem' hs.wired rfl rfl (fun c _ _ => rfl) ?_ ?_
  · intro o ho
    obtain ⟨horigin, heq, hconnected⟩ := holding_eq_some_iff.mp ho
    have hsame' : s.board.same h'.connection h.connection = true := by
      rw [same_comm]
      exact hsame
    exact ⟨h, hh, hs.wired.origin_of_same hs.small hmem' hmem hsame' horigin heq hconnected⟩
  · intro o hmanages hconnected
    rcases hmanages with hmanages | hmanages
    · obtain ⟨horigin, heq, _⟩ :=
        holding_eq_some_iff.mp (hs.holding hx hh hmanages hconnected)
      obtain ⟨horigin', heq'⟩ :=
        hs.wired.origin_of_same hs.small hmem hmem' hsame horigin heq hconnected
      exact holding_eq_some_iff.mpr ⟨horigin', heq', hconnected⟩
    · exact hs.holding hy hh' hmanages hconnected

/-- `m` gets the connection of `n`, after it has given up its own. -/
theorem Kept.moveConnection (hs : s.Kept) {x' : Managed} (hx : s.managed[m]? = some x')
    (hobject : x.object = x'.object) (hnone : x'.manages = none) (hy : s.managed[n]? = some y)
    (hne : n ≠ m) (hh : s.board.connections[y.object]? = some h) :
    (s.moveConnection m n x y h).Kept := by
  have hmem : h ∈ s.board.connections := List.mem_of_getElem? hh
  have hdistinct : y.object ≠ x.object := by
    rw [hobject]
    exact hs.object_ne hx hy hne
  have hknown : h.Known s.board := hs.wired.held h hmem
  have hempty : Held.Known { h with connection := { h.connection with dc := none } }
      (s.board.setConnection x.object h) :=
    ⟨fun hdc => absurd rfl hdc, hknown.positive, hknown.made, hknown.le_made⟩
  refine hs.handOver hx hobject hy hmem
    ((hs.wired.setConnection _ hknown).setConnection _ hempty) rfl ?_ ?_ ?_ ?_
  · simp [Switchboard.setConnection]
  · intro c hcx hcy
    have houter := List.getElem?_set_ne (l := s.board.connections.set x.object h)
      (a := { h with connection := { h.connection with dc := none } }) fun heq => hcy heq.symm
    refine houter.trans (List.getElem?_set_ne fun heq => hcx ?_)
    exact heq.symm.trans hobject
  · intro o ho
    obtain ⟨horigin, heq, _⟩ := holding_eq_some_iff.mp ho
    refine ⟨h, ?_, horigin, heq⟩
    have hlt : x.object < s.board.connections.length := by
      rw [hobject]
      exact hs.object_lt x' (List.mem_of_getElem? hx)
    have houter := List.getElem?_set_ne (l := s.board.connections.set x.object h)
      (a := { h with connection := { h.connection with dc := none } }) hdistinct
    exact houter.trans (List.getElem?_set_self hlt)
  · intro o hmanages hconnected
    rcases hmanages with hmanages | hmanages
    · rw [hnone] at hmanages
      cases hmanages
    · exact hs.holding hy hh hmanages hconnected

theorem Kept.assign (hs : s.Kept) (hguard : s.Guarded (.assign m n))
    (hstep : s.assign m n = some s') : s'.Kept := by
  obtain ⟨x, hlivex, htail⟩ := Option.bind_eq_some_iff.mp hstep
  obtain ⟨y, hlivey, hassign⟩ := Option.bind_eq_some_iff.mp htail
  obtain ⟨hx, _, hhx⟩ := live_eq_some hlivex
  obtain ⟨hy, _, hhy⟩ := live_eq_some hlivey
  cases hsame : s.board.same x.2.connection y.2.connection with
  | true =>
      rw [if_pos hsame] at hassign
      cases hassign
      exact hs.shortcut hx hy hhx hhy hsame
  | false =>
      have hne : n ≠ m := by
        intro hnm
        rw [hnm, hlivex] at hlivey
        cases hlivey
        have hself : s.board.same x.2.connection x.2.connection = true :=
          decide_eq_true ⟨rfl, rfl⟩
        rw [hself] at hsame
        cases hsame
      rw [if_neg (by simp [hsame])] at hassign
      obtain ⟨s₁, hrelease, hmove⟩ := Option.bind_eq_some_iff.mp hassign
      obtain ⟨h, hh, rfl⟩ := Option.map_eq_some_iff.mp hmove
      have hreleases : s.releases (.assign m n) = some m := by
        rw [releases, hlivex, Option.bind_some, hlivey, Option.bind_some, hsame]
        rfl
      have hkept : s₁.Kept := hs.release hx (fun h k signal hh hsignal hfinds j y =>
        hguard.spared hs.wired hreleases hx hh hsignal hfinds) hrelease
      obtain ⟨b, _, rfl⟩ := Option.map_eq_some_iff.mp hrelease
      have hx' : (s.managed.set m { x.1 with alive := true, manages := none })[m]? =
          some { x.1 with alive := true, manages := none } :=
        List.getElem?_set_self (List.getElem?_eq_some_iff.mp hx).1
      have hy' : (s.managed.set m { x.1 with alive := true, manages := none })[n]? = some y.1 := by
        rw [List.getElem?_set_ne fun h => hne h.symm]
        exact hy
      exact hkept.moveConnection hx' rfl rfl hy' hne hh

/-- **One operation.** -/
theorem Kept.step {op : ManagedOp F} (hs : s.Kept) (hguard : s.Guarded op)
    (hstep : s.step op = some s') : s'.Kept := by
  cases op with
  | makeSignal =>
      have hboard : s.onBoard .makeSignal = some s' := hstep
      obtain ⟨b, hnext, rfl⟩ := Option.map_eq_some_iff.mp hboard
      exact hs.grow hnext (small_of_makes hs.wired hs.small hnext fun k => rfl) (by simp)
        (by simp) (by simp)
  | connect k f =>
      have hboard : s.onBoard (.connect k f) = some s' := hstep
      obtain ⟨b, hnext, rfl⟩ := Option.map_eq_some_iff.mp hboard
      have hsound : s.board.Sound (.connect k f : SignalOp F Unit) := by
        refine ⟨fun k' f' signal hop hsignal => ?_, fun k' c signal h hop => ?_⟩
        · cases hop
          exact hguard.connect signal hsignal
        · rcases hop with hop | hop
          · cases hop
          · cases hop
      exact hs.grow hnext ((turn_of_next hs.wired hnext).small hs.wired hs.small hsound) (by simp)
        (by simp) (by simp)
  | makeManaged slotID =>
      rw [Custody.step] at hstep
      obtain ⟨s₁, hboard, rfl⟩ := Option.map_eq_some_iff.mp hstep
      obtain ⟨b, hnext, rfl⟩ := Option.map_eq_some_iff.mp hboard
      have hgrown : ({ s with board := b } : Custody F).Kept :=
        hs.grow hnext (small_of_makes hs.wired hs.small hnext fun k => rfl) (by simp) (by simp)
          (by simp)
      have hadded := hgrown.add
        (x := { object := s.board.connections.length, alive := true, manages := none }) ?_ ?_
        (fun o ho => by cases ho) (fun o ho => by cases ho)
      · simpa using hadded
      · cases hnext
        simp
      · intro y hy
        exact Nat.ne_of_lt (hs.object_lt y hy)
  | manage c =>
      rw [Custody.step] at hstep
      split at hstep
      · cases hstep
      · exact (hs.construct hstep).1
  | copy m =>
      obtain ⟨x, _, htail⟩ := Option.bind_eq_some_iff.mp hstep
      exact (hs.construct htail).1
  | constructFrom m =>
      obtain ⟨x, hlive, htail⟩ := Option.bind_eq_some_iff.mp hstep
      obtain ⟨s₁, hconstruct, rfl⟩ := Option.map_eq_some_iff.mp htail
      obtain ⟨hx, _, hhx⟩ := live_eq_some hlive
      obtain ⟨hkept, h, new, hh, hmanaged, hnew⟩ := hs.construct hconstruct
      cases hhx.symm.trans hh
      have hm : m < s.managed.length := (List.getElem?_eq_some_iff.mp hx).1
      have hx' : s₁.managed[m]? = some x.1 := by
        rw [hmanaged, List.getElem?_append_left hm]
        exact hx
      refine hkept.unmanage hx' rfl fun o ho hconnected => ?_
      refine ⟨s.managed.length, new, Nat.ne_of_gt hm, ?_, ?_⟩
      · rw [hmanaged]
        exact List.getElem?_concat_length
      · rw [hnew]
        exact hs.holding hx hhx ho (hs.connected x.1 (List.mem_of_getElem? hx) o ho)
  | assign m n => exact hs.assign hguard hstep
  | disconnect m | destroy m =>
      obtain ⟨x, hlive, hrelease⟩ := Option.bind_eq_some_iff.mp hstep
      obtain ⟨hx, _, _⟩ := live_eq_some hlive
      exact hs.release hx (fun h k signal hh hsignal hfinds j y =>
        hguard.spared hs.wired rfl hx hh hsignal hfinds) hrelease

theorem kept_empty : ({} : Custody F).Kept where
  wired := wired_empty
  small := fun _ => Nat.two_pow_pos 32
  object_lt := List.forall_mem_nil _
  objects := List.nodup_nil
  intact := List.forall_mem_nil _
  past := List.forall_mem_nil _
  connected := List.forall_mem_nil _
  managed := List.forall_mem_nil _

/-! ## Histories -/

/-- **When managing keeps its promise.**  In a history in which no `connect` hands out the id 0
and no object disconnects a handler that another object manages, all states are lawful. -/
theorem lawful_of_meets {ops : List (ManagedOp F)} {t : Custody F}
    (hmeets : Meets step Guarded ({} : Custody F) ops)
    (hrun : run step ({} : Custody F) ops = some t) : t.Lawful := by
  have hstep : ∀ (s : Custody F) (op : ManagedOp F) (s' : Custody F), s.Kept → s.Guarded op →
      s.step op = some s' → s'.Kept := fun _ _ _ hs hguard hstep => hs.step hguard hstep
  have hkept : t.Kept := run_invariant_of_meets hstep hmeets hrun kept_empty
  exact hkept.lawful

/-- Two managed connections, one of which is moved to the other. -/
def moved : List (ManagedOp Nat) :=
  [.makeSignal, .connect 0 (some 7), .manage 0, .connect 0 (some 8), .manage 2, .assign 0 1,
    .destroy 1]

theorem lawful_of_meets_moved : ∃ t, run step ({} : Custody Nat) moved = some t ∧ t.Lawful ∧
    t.managed.map Managed.manages = [some { signal := 0, ordinal := 2 }, none] := by
  obtain ⟨t, hrun, ht⟩ : ∃ t, run step ({} : Custody Nat) moved = some t ∧
      t.managed.map Managed.manages = [some { signal := 0, ordinal := 2 }, none] :=
    exists_of_any (by decide)
  exact ⟨t, hrun, lawful_of_meets (by decide) hrun, ht⟩

/-- A managed connection is constructed from an rvalue, as a vector does that moves its elements
to a larger buffer. -/
def relocated : List (ManagedOp Nat) :=
  [.makeSignal, .connect 0 (some 7), .manage 0, .constructFrom 0, .destroy 0]

/-- What `relocated` ends in: the new object manages a handler that has gone. -/
def afterRelocated : Custody Nat where
  board := {
    signals := [some { slotIDCounter := 1, slots := [], made := 1 }]
    connections :=
      [{ connection := { dc := some 0, slotID := 1 },
         origin := some { signal := 0, ordinal := 1 } },
        { connection := {}, origin := some { signal := 0, ordinal := 1 } },
        { connection := { dc := some 0, slotID := 1 },
          origin := some { signal := 0, ordinal := 1 } }] }
  managed :=
    [{ object := 1, alive := false, manages := none },
      { object := 2, alive := true, manages := some { signal := 0, ordinal := 1 } }]
  given := [{ signal := 0, ordinal := 1 }, { signal := 0, ordinal := 1 }]

/-- Managing does not always keep its promise. -/
theorem not_always_lawful : ¬ ∀ (ops : List (ManagedOp Nat)) (t : Custody Nat),
    run step ({} : Custody Nat) ops = some t → t.Lawful := by
  intro hall
  have hlawful : afterRelocated.Lawful := hall relocated afterRelocated (by decide)
  obtain ⟨signal, slot, f, hsignal, hslot, _⟩ := hlawful.called
    { object := 2, alive := true, manages := some { signal := 0, ordinal := 1 } }
    (List.mem_cons_of_mem _ List.mem_cons_self) _ rfl
  cases hsignal
  cases hslot

end Custody

end Signals

end EnkiNet
