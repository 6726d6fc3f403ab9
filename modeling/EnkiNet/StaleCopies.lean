import EnkiNet.Subscriptions

/-!
# Whether a connection tells its state

A connection converts to true when its id is not zero and its signal exists, and a disconnect
resets the one object that it is called on.  A copy of that object keeps the id, and goes on
converting to true after the handler has gone.  That, and the call of `connect` with which the
counter of a signal comes round to zero, are all that makes a connection wrong about itself
(`honest_iff`).
-/

open Runs

namespace EnkiNet

namespace Signals

namespace Switchboard

variable {F A : Type} {b b' : Switchboard F} {k c : Nat} {s : Signal F} {h : Held}
variable {op : SignalOp F A}

/-- Every connection that comes from a call of `connect` converts to true exactly while the
signal exists and has the handler of that call. -/
def Honest (b : Switchboard F) : Prop :=
  ∀ h ∈ b.connections, ∀ o, h.origin = some o → (b.isValid h.connection = true ↔ b.Connected o)

/-- An operation does not hand out the id 0, and takes a handler from a signal only through
a connection that no other object is equal to. -/
structure Sound (b : Switchboard F) (op : SignalOp F A) : Prop where
  connect : ∀ k f s, op = .connect k (some f) → b.signal k = some s → s.slotIDCounter + 1 ≠ 0
  disconnect : ∀ k c s h, op = .disconnect k c ∨ op = .disconnectSelf c → b.signal k = some s →
    b.connections[c]? = some h → b.finds s h.connection = true →
    ∀ j h', b.connections[j]? = some h' → j ≠ c → h'.connection ≠ h.connection

/-! ## What decides whether a connection converts to true -/

/-- Whether a connection is valid depends on its signal being there. -/
theorem isValid_congr {x : Connection}
    (halive : ∀ k, x.dc = some k → (b'.signal k).isSome = (b.signal k).isSome) :
    b'.isValid x = b.isValid x := by
  have hlock : b'.lock x.dc = b.lock x.dc := by
    cases hdc : x.dc with
    | none => rfl
    | some k => rw [lock, lock, Option.filter_some, Option.filter_some, halive k hdc]
  rw [isValid, isValid, hlock]

/-- A connection is valid as long as its signal is, whatever became of the slot. -/
theorem isValid_iff_of_dc {x : Connection} (hdc : x.dc = some k) :
    b.isValid x = true ↔ x.slotID ≠ 0 ∧ (b.signal k).isSome := by
  rw [isValid, decide_eq_true_iff, hdc, Option.isSome_iff_exists]
  refine and_congr_right fun _ => ?_
  constructor
  · intro h
    obtain ⟨j, hj⟩ := h
    obtain ⟨heq, halive⟩ := (lock_eq_some_iff (some k)).mp hj
    rw [Option.some.inj heq]
    exact halive
  · intro halive
    exact ⟨k, (lock_eq_some_iff (some k)).mpr ⟨rfl, halive⟩⟩

/-- A valid connection has not been emptied. -/
theorem dc_of_isValid {x : Connection} (h : b.isValid x = true) : x.dc ≠ none := by
  intro hdc
  have hlock := (of_decide_eq_true h).2
  rw [hdc] at hlock
  cases hlock

theorem Wired.isValid_same (hb : b.Wired) (hh : h ∈ b.connections) {o : Origin}
    (ho : h.origin = some o)
    (halive : (b'.signal o.signal).isSome = (b.signal o.signal).isSome) :
    b'.isValid h.connection = b.isValid h.connection := by
  refine isValid_congr fun k hdc => ?_
  obtain ⟨o', ho', heq⟩ := (hb.held h hh).connection (by rw [hdc]; exact Option.some_ne_none k)
  cases ho.symm.trans ho'
  rw [heq] at hdc
  cases hdc
  exact halive

/-- Where its signal is untouched a connection stays as honest as it was. -/
theorem Wired.honest_same (hb : b.Wired) (hh : h ∈ b.connections) {o : Origin}
    (ho : h.origin = some o) (hsignal : b'.signal o.signal = b.signal o.signal) :
    (b'.isValid h.connection = true ↔ b'.Connected o) ↔
      (b.isValid h.connection = true ↔ b.Connected o) := by
  rw [hb.isValid_same hh ho (by rw [hsignal]), Connected, Connected, hsignal]

/-! ## One operation -/

/-- A new signal makes no connection dishonest. -/
theorem Honest.makeSignal (hb : b.Wired) (h : b.Honest) :
    Honest { b with signals := b.signals ++ [some {}] } := by
  intro h' hh o ho
  have hold : o.signal ≠ b.signals.length := Nat.ne_of_lt ((hb.held h' hh).made o ho)
  refine (hb.honest_same hh ho ?_).mpr (h h' hh o ho)
  rw [signal_makeSignal, if_neg hold]

/-- Destroying a signal makes its connections invalid, as they should be. -/
theorem Honest.destroySignal (hb : b.Wired) (h : b.Honest) (hs : b.signal k = some s) :
    (b.setSignal k none).Honest := by
  intro h' hh o ho
  by_cases hk : o.signal = k
  · have hgone : (b.setSignal k none).signal o.signal = none := by
      rw [signal_setSignal hs, if_pos hk]
    refine iff_of_false (fun hvalid => ?_) (fun hconnected => ?_)
    · obtain ⟨o', ho', heq⟩ := (hb.held h' hh).connection (dc_of_isValid hvalid)
      cases ho.symm.trans ho'
      have hdc : h'.connection.dc = some o.signal := congrArg Connection.dc heq
      have halive := ((isValid_iff_of_dc hdc).mp hvalid).2
      rw [hgone] at halive
      cases halive
    · obtain ⟨t, ht, _⟩ := hconnected
      rw [hgone] at ht
      cases ht
  · refine (hb.honest_same hh ho ?_).mpr (h h' hh o ho)
    rw [signal_setSignal hs, if_neg hk]

/-- A new connection must be honest itself. -/
theorem Honest.addConnection (h : b.Honest) {new : Held}
    (hnew : ∀ o, new.origin = some o → (b.isValid new.connection = true ↔ b.Connected o)) :
    Honest { b with connections := b.connections ++ [new] } := by
  intro h' hh o ho
  rcases List.mem_append.mp hh with hold | heq
  · exact h h' hold o ho
  · obtain rfl := List.mem_singleton.mp heq
    exact hnew o ho

/-- The new connection is right about itself unless its id is zero. -/
theorem Honest.attach_iff (hb : b.Wired) (h : b.Honest) (hs : b.signal k = some s) (f : F) :
    (b.attach k s f).Honest ↔ s.slotIDCounter + 1 ≠ 0 := by
  have hlookup : (b.attach k s f).signal k = some (connected k s f).1 := by
    rw [signal_attach hs, if_pos rfl]
  have hnew : (b.attach k s f).isValid (connected k s f).2 = true ↔ s.slotIDCounter + 1 ≠ 0 := by
    have hdc : (connected k s f).2.dc = some k := rfl
    rw [isValid_iff_of_dc hdc, hlookup]
    exact and_iff_left rfl
  have hconnected : (b.attach k s f).Connected { signal := k, ordinal := s.made + 1 } :=
    (connected_attach hs f _).mpr (.inr rfl)
  constructor
  · intro hhonest
    have hin : ⟨(connected k s f).2, some { signal := k, ordinal := s.made + 1 }⟩ ∈
        (b.attach k s f).connections := List.mem_append_right _ (List.mem_singleton.mpr rfl)
    exact hnew.mp ((hhonest _ hin _ rfl).mpr hconnected)
  · intro hid h' hh o ho
    rcases List.mem_append.mp hh with hold | heq
    · have halive : ((b.attach k s f).signal o.signal).isSome = (b.signal o.signal).isSome := by
        rw [signal_attach hs]
        split
        · next hk => rw [hk, hs]; rfl
        · rfl
      have hother : o ≠ { signal := k, ordinal := s.made + 1 } := by
        intro heq
        have hle : o.ordinal ≤ s.made := (hb.held h' hold).le_made o ho s (heq ▸ hs)
        rw [heq] at hle
        exact Nat.not_succ_le_self _ hle
      rw [hb.isValid_same hold ho halive, connected_attach hs, or_iff_left hother]
      exact h h' hold o ho
    · obtain rfl := List.mem_singleton.mp heq
      cases ho
      exact iff_of_true (hnew.mpr hid) hconnected

/-- A disconnect resets the object that it is called on, and no other. -/
theorem Honest.release_iff (hb : b.Wired) (hsmall : b.Small) (h : b.Honest)
    (hs : b.signal k = some s) {h₀ : Held} (hh : b.connections[c]? = some h₀)
    (hfinds : b.finds s h₀.connection = true) :
    (b.release k s c h₀).Honest ↔
      ∀ j h', b.connections[j]? = some h' → j ≠ c → h'.connection ≠ h₀.connection := by
  have hmem : h₀ ∈ b.connections := List.mem_of_getElem? hh
  obtain ⟨o₀, ho₀, rfl, heq, hconnected⟩ := (hb.finds_iff hsmall hs hmem).mp hfinds
  have hlt : o₀.ordinal < 2 ^ 32 := hb.origin_lt hsmall hmem ho₀ hs
  have halive : ∀ j, ((b.release o₀.signal s c h₀).signal j).isSome = (b.signal j).isSome := by
    intro j
    rw [signal_release hs]
    split
    · next hj => rw [hj, hs]; rfl
    · rfl
  have hafter : ∀ o, (b.release o₀.signal s c h₀).Connected o ↔ b.Connected o ∧ o ≠ o₀ :=
    connected_release hb hsmall hs hlt heq c
  constructor
  · intro hhonest j h' hj hne hsame
    have hin : h' ∈ b.connections := List.mem_of_getElem? hj
    have hin' : h' ∈ (b.release o₀.signal s c h₀).connections := by
      refine List.mem_of_getElem? (i := j) ?_
      rw [← hj]
      exact List.getElem?_set_ne fun hcj => hne hcj.symm
    have hdc : h'.connection.dc ≠ none := by
      rw [hsame, heq]
      exact Option.some_ne_none _
    obtain ⟨o, ho, hcall⟩ := (hb.held h' hin).connection hdc
    have hsignal : o.signal = o₀.signal :=
      Option.some.inj (congrArg Connection.dc (hcall.symm.trans (hsame.trans heq)))
    have hltO : o.ordinal < 2 ^ 32 := hb.origin_lt hsmall hin ho (hsignal ▸ hs)
    obtain rfl : o = o₀ := (connection_inj hltO hlt).mp (hcall.symm.trans (hsame.trans heq))
    -- the copy still converts to true, and its handler has gone
    have hvalid : b.isValid h'.connection = true := (h h' hin o ho).mpr hconnected
    rw [← hb.isValid_same hin ho (halive o.signal)] at hvalid
    have hstill := (hafter o).mp ((hhonest h' hin' o ho).mp hvalid)
    exact hstill.2 rfl
  · intro halone h' hin o ho
    obtain ⟨j, hj⟩ := List.getElem?_of_mem hin
    have hset : (b.connections.set c { h₀ with connection := {} })[j]? = some h' := hj
    by_cases hjc : c = j
    · have hc : c < b.connections.length := (List.getElem?_eq_some_iff.mp hh).1
      rw [← hjc, List.getElem?_set_self hc] at hset
      cases hset
      cases ho₀.symm.trans ho
      refine iff_of_false (fun hvalid => ?_) (fun hstill => ?_)
      · exact dc_of_isValid hvalid rfl
      · exact ((hafter o₀).mp hstill).2 rfl
    · rw [List.getElem?_set_ne hjc] at hset
      have hin : h' ∈ b.connections := List.mem_of_getElem? hset
      have hother : o ≠ o₀ := by
        intro hsame
        have hvalid := (h h' hin o ho).mpr (hsame ▸ hconnected)
        obtain ⟨o', ho', hcall⟩ := (hb.held h' hin).connection (dc_of_isValid hvalid)
        cases ho.symm.trans ho'
        refine halone j h' hset (fun heq => hjc heq.symm) ?_
        rw [hcall, hsame, heq]
      rw [hb.isValid_same hin ho (halive o.signal), hafter, and_iff_left hother]
      exact h h' hin o ho

/-- **One operation.** -/
theorem Turn.stays_honest_iff (hturn : b.Turn op b') (hb : b.Wired) (hsmall : b.Small)
    (h : b.Honest) : b'.Honest ↔ b.Sound op := by
  cases hturn with
  | idle hidle =>
      refine iff_of_true h ⟨fun k f s hop _ => absurd hop (hidle.connect k f), ?_⟩
      intro k c s h₀ hop hs hh hfinds
      rw [hidle.disconnect k c s h₀ hop hs hh] at hfinds
      cases hfinds
  | makeSignal => exact iff_of_true (h.makeSignal hb) ⟨by simp, by simp⟩
  | destroySignal hs => exact iff_of_true (h.destroySignal hb hs) ⟨by simp, by simp⟩
  | makeConnection slotID =>
      exact iff_of_true (h.addConnection fun o ho => by cases ho) ⟨by simp, by simp⟩
  | copyConnection hh =>
      exact iff_of_true (h.addConnection (h _ (List.mem_of_getElem? hh))) ⟨by simp, by simp⟩
  | @connect k s f hs =>
      refine (h.attach_iff hb hs f).trans ⟨fun hid => ⟨?_, by simp⟩, fun hsound => ?_⟩
      · intro k' f' s' hop hs'
        cases hop
        cases hs.symm.trans hs'
        exact hid
      · exact hsound.connect k f s rfl hs
  | @disconnect _ k c s h₀ hop hs hh hfinds =>
      refine (h.release_iff hb hsmall hs hh hfinds).trans ⟨fun halone => ⟨?_, ?_⟩, fun hsound => ?_⟩
      · intro k' f s' hop'
        rcases hop with hop | hop
        · rw [hop] at hop'
          cases hop'
        · rw [hop] at hop'
          cases hop'
      · intro k' c' s' h' hop' hs' hh' hfinds'
        obtain rfl : c = c' := by
          rcases hop with hop | hop
          · have hsame : k = k' ∧ c = c' := by simpa [hop] using hop'
            exact hsame.2
          · simpa [hop] using hop'
        cases hh.symm.trans hh'
        exact halone
      · exact hsound.disconnect k c s h₀ hop hs hh hfinds

/-- The counter of a signal does not come round. -/
theorem Turn.small (hturn : b.Turn op b') (hb : b.Wired) (hsmall : b.Small)
    (hsound : b.Sound op) : b'.Small := by
  intro j
  have hle : b'.made j ≤ b.made j + if op.connectsTo j then 1 else 0 := hturn.made_le j
  have hlt : b.made j < 2 ^ 32 := hsmall j
  cases hturn with
  | @connect k s f hs =>
      by_cases hj : k = j
      · obtain rfl := hj
        have hid : UInt32.ofNat (s.made + 1) ≠ 0 := by
          have hcounter : s.slotIDCounter + 1 = UInt32.ofNat (s.made + 1) :=
            ((hb.signals k s hs).connected f).counter
          rw [← hcounter]
          exact hsound.connect k f s rfl hs
        have hne : s.made + 1 ≠ 2 ^ 32 := fun heq => hid (by rw [heq]; rfl)
        have hmade : b.made k = s.made := made_eq hs
        have hone : (if (SignalOp.connect k (some f) : SignalOp F A).connectsTo k then 1 else 0)
            ≤ 1 := by split <;> omega
        omega
      · have hzero : (if (SignalOp.connect k (some f) : SignalOp F A).connectsTo j then 1 else 0)
            = 0 := by simp [SignalOp.connectsTo, hj]
        omega
  | idle hidle => exact hlt
  | makeConnection slotID => exact hlt
  | copyConnection hh => exact hlt
  | makeSignal => exact Nat.lt_of_le_of_lt hle hlt
  | destroySignal hs => exact Nat.lt_of_le_of_lt hle hlt
  | disconnect hop hs hh hfinds =>
      have hzero : (if op.connectsTo j then 1 else 0) = 0 := by
        rcases hop with rfl | rfl <;> rfl
      omega

/-! ## Histories -/

/-- **When connections tell their state.**  In a history of a program every connection is right
about itself all the time exactly if no `connect` hands out the id 0, and a handler is only ever
disconnected through a connection that no other object is equal to. -/
theorem honest_iff {ops : List (SignalOp F A)} {t : Switchboard F}
    (hrun : run next ({} : Switchboard F) ops = some t) :
    Always next Honest ({} : Switchboard F) ops ↔ Meets next Sound ({} : Switchboard F) ops := by
  refine always_iff_meets (fun b => b.Wired ∧ b.Small ∧ b.Honest) ?_ ?_ hrun ?_ ?_
  · intro b op b' hinv hgood hnext
    obtain ⟨hb, hsmall, hhonest⟩ := hinv
    have hturn : b.Turn op b' := turn_of_next hb hnext
    have hsound : b.Sound op := (hturn.stays_honest_iff hb hsmall hhonest).mp hgood
    exact ⟨hturn.wired hb, hturn.small hb hsmall hsound, hgood⟩
  · intro b op b' hinv _ hnext
    obtain ⟨hb, hsmall, hhonest⟩ := hinv
    exact (turn_of_next hb hnext).stays_honest_iff hb hsmall hhonest
  · exact ⟨wired_empty, fun k => Nat.two_pow_pos 32, List.forall_mem_nil _⟩
  · exact List.forall_mem_nil _

/-- A handler is connected, its connection copied, and the handler disconnected. -/
def copied : List (SignalOp Nat Nat) :=
  [.makeSignal, .connect 0 (some 7), .copyConnection 0, .disconnectSelf 0]

/-- What `copied` ends in: the copy has kept its id. -/
def afterCopied : Switchboard Nat where
  signals := [some { slotIDCounter := 1, slots := [], made := 1 }]
  connections :=
    [{ connection := {}, origin := some { signal := 0, ordinal := 1 } },
      { connection := { dc := some 0, slotID := 1 }, origin := some { signal := 0, ordinal := 1 } }]

/-- The run that leaves a stale copy. -/
theorem run_copied : run next ({} : Switchboard Nat) copied = some afterCopied := by decide

/-- The copy is valid, and its slot is gone. -/
theorem not_honest_afterCopied : ¬ afterCopied.Honest := by
  intro hhonest
  have hvalid := hhonest _ (List.mem_cons_of_mem _ List.mem_cons_self)
    { signal := 0, ordinal := 1 } rfl
  obtain ⟨s, hs, slot, hslot, _⟩ := hvalid.mp (by decide)
  cases hs
  cases hslot

/-- The history with a copy is not sound. -/
theorem honest_iff_copied : ¬ Meets next Sound ({} : Switchboard Nat) copied := by
  intro hmeets
  have halways := (honest_iff run_copied).mpr hmeets
  exact not_honest_afterCopied (halways.of_run run_copied)

/-- Connections do not always tell their state. -/
theorem not_always_honest : ¬ ∀ (ops : List (SignalOp Nat Nat)) (t : Switchboard Nat),
    run next ({} : Switchboard Nat) ops = some t → t.Honest := by
  intro hall
  exact not_honest_afterCopied (hall copied afterCopied run_copied)

end Switchboard

end Signals

end EnkiNet
