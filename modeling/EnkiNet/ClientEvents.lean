import EnkiNet.EnetClient

/-!
# What the handlers of a client see

Events go from ENet through two queues to the handlers of `ClientStandard`, and their packets
through a third to those of the game.  `Report` is how far ENet has come with the connection, in its
own order of events; the consumer is at an earlier place of the same order, and the events that are
queued lead from one to the other.  When the consumer has handled the disconnection, nothing is left
for it, and the worker is out of its loop: `disconnect` drops no event, and waits for nothing but
the worker's last step.
-/

namespace EnkiNet

open ByteStore Packet

/-- What ENet has reported of a client's connection. -/
inductive Report
  | pending
  | up
  | down
  deriving DecidableEq, Repr

def Report.advance : Report → EventType → Option Report
  | .pending, .connect => some .up
  | .up, .receive _ => some .up
  | .pending, .disconnect => some .down
  | .up, .disconnect => some .down
  | _, _ => none

namespace EnetClient

open EnetServer (initializedPacket initializedData)

variable {s s' : EnetClient}

/-! ## Packets that are received -/

/-- What a `ClientStandard` does with a packet that has a header. -/
theorem onDataReceived_eq (id : ClientID) {data : List Byte} (receivedAt : UInt32)
    (hlen : headerSize ≤ data.length) :
    ∃ p, packetView p = (EventType.receive data).view ∧ onDataReceived id data receivedAt =
      if (PacketHeader.ofBytes data).type = .clientInitialized then
        (getScalar 4 (Packet.received data)).1.map fun v => (UInt32.ofBitVec v, p)
      else .ok (id, p) := by
  refine ⟨{ (Packet.received data).resetReadPosition with
    info := {
      senderID := 1
      timeReceived := if (PacketHeader.ofBytes data).timeSent > receivedAt
        then (PacketHeader.ofBytes data).timeSent else receivedAt } }, rfl, ?_⟩
  unfold onDataReceived
  rw [ofData_eq hlen]
  simp only [bind, Except.bind, pure, Except.pure]
  rw [show (Packet.received data).header = PacketHeader.ofBytes data from rfl]
  refine if_congr Iff.rfl ?_ rfl
  rcases (getScalar 4 (Packet.received data)).1 with e | v
  · rfl
  · rfl

/-- The id of a client that had this one before it handled an event. -/
def learn (id : ClientID) : EventType → ClientID
  | .receive data =>
      if (PacketHeader.ofBytes data).type = .clientInitialized then
        match (getScalar 4 (Packet.received data)).1 with
        | .ok v => UInt32.ofBitVec v
        | .error _ => id
      else id
  | _ => id

theorem onDataReceived_ok {id id' : ClientID} {data : List Byte} {receivedAt : UInt32} {p : Packet}
    (h : onDataReceived id data receivedAt = .ok (id', p)) :
    packetView p = (EventType.receive data).view ∧ id' = learn id (.receive data) := by
  by_cases hlen : headerSize ≤ data.length
  · obtain ⟨q, hq, heq⟩ := onDataReceived_eq id receivedAt hlen
    rw [heq] at h
    rw [learn]
    split at h
    · next htype =>
      rw [if_pos htype]
      rcases hget : (getScalar 4 (Packet.received data)).1 with e | v
      · rw [hget] at h
        cases h
      · rw [hget] at h
        cases h
        exact ⟨hq, rfl⟩
    · next htype =>
      rw [if_neg htype]
      cases h
      exact ⟨hq, rfl⟩
  · have hshort : ofData data = .error (.undefined .outOfBounds) := if_pos (Nat.lt_of_not_le hlen)
    rw [onDataReceived, hshort] at h
    cases h

/-- The packet of `client_init`. -/
theorem learn_initialized (id old : ClientID) (sentAt : UInt32) :
    learn old (.receive (initializedData id sentAt)) = id := by
  obtain ⟨w, hw, hwell, _, hread⟩ := mirrors_scalar (k := 4) id.toBitVec _
    (wellWritten_ofHeader { type := .clientInitialized })
  have hpacket : initializedPacket id sentAt =
      w.setHeader { w.header with timeSent := sentAt } := by
    simp only [initializedPacket, hw]
  have htype : w.header.type = .clientInitialized := by
    have hfield : (putScalar (k := 4) id.toBitVec
      (ofHeader { type := .clientInitialized })).2.header =
        { type := .clientInitialized } := rfl
    rw [hw] at hfield
    rw [hfield]
  have hstored : w.bytesWritten ≤ w.bytes.length := by
    have hpos := hwell.stored
    have hbits : w.bitsWritten = 8 := by
      have hfield : (putScalar (k := 4) id.toBitVec
          (ofHeader { type := .clientInitialized })).2.bitsWritten = 8 := rfl
      rw [hw] at hfield
      exact hfield
    simp only [writeCursor, Cursor.pos, hbits] at hpos
    omega
  have hwire : (w.setHeader { w.header with timeSent := sentAt }).wire =
      .ok (initializedData id sentAt) := by
    rw [Packet.wire, if_pos (by rw [length_setHeader]; exact hstored)]
    simp only [initializedData, hpacket]
  obtain ⟨hholds, _, hheader⟩ := holds_wire hwell hwire
  have hget : (getScalar 4 (Packet.received (initializedData id sentAt))).1 = .ok id.toBitVec := by
    rw [hread _ rfl hholds]
  simp only [learn]
  rw [if_pos (by rw [hheader]; exact htype), hget]

theorem learn_other (id : ClientID) {data : List Byte}
    (htype : (PacketHeader.ofBytes data).type ≠ .clientInitialized) :
    learn id (.receive data) = id :=
  if_neg htype

/-! ## The events on their way -/

/-- What ENet reports with an event of a run. -/
def reported (_ : EnetClient) : Event → List EventType
  | .connect => [.connect]
  | .receive data => [.receive data]
  | .disconnect => [.disconnect]
  | _ => []

def ahead (s : EnetClient) : List EventType := s.eventQueueCopy ++ s.eventQueue

/-- The worker's state tells how far ENet has come. -/
structure Fits (report : Report) (s : EnetClient) : Prop where
  connecting : s.link = .connecting → report ≠ .up
  connected : s.link = .connected → report ≠ .pending
  left : report = .down → s.worker.left

/-- The events that have been handled, in their order. -/
structure Ordered (handled : List EventType) (s : EnetClient) : Prop where
  shown : (s.emitted ++ s.received).map packetView = handled.map EventType.view
  follows : ∃ seen report, Runs.run Report.advance .pending handled = some seen ∧
    Runs.run Report.advance seen s.ahead = some report ∧ s.Fits report ∧
    (seen = .down ↔ s.isDisconnected = some true ∨ s.thread = false) ∧
    (s.connectedToServer = true ↔ seen = .up)
  copied : s.isDisconnected = none → s.eventQueueCopy = []
  known : s.id = handled.foldl learn 0

theorem ordered_initial : Ordered [] {} where
  shown := rfl
  follows := ⟨.pending, .pending, rfl, rfl, ⟨by simp, by simp, by simp⟩, by simp, by simp⟩
  copied _ := rfl
  known := rfl

/-- After the disconnection there is nothing. -/
theorem run_down {events : List EventType} {report : Report}
    (h : Runs.run Report.advance .down events = some report) : events = [] ∧ report = .down := by
  rcases events with _ | ⟨type, rest⟩
  · exact ⟨rfl, (Option.some.inj h).symm⟩
  · cases h

/-- Who is connected can be read off the events. -/
theorem up_of_run {before report : Report} {events : List EventType}
    (h : Runs.run Report.advance before events = some report) :
    report = .up ↔ (before = .up ∨ .connect ∈ events) ∧ before ≠ .down ∧ .disconnect ∉ events := by
  induction events generalizing before with
  | nil =>
      cases h
      cases report <;> simp
  | cons type rest ih =>
      obtain ⟨next, hnext, hrest⟩ := Runs.run_cons_some h
      rw [ih hrest]
      cases before <;> cases type <;> cases hnext <;> simp

/-! ## The steps -/

/-- A step that leaves the events and what the consumer knows alone. -/
theorem Ordered.of_same {handled : List EventType} (h : Ordered handled s)
    (hshown : s'.emitted ++ s'.received = s.emitted ++ s.received)
    (hcopy : s'.eventQueueCopy = s.eventQueueCopy) (hqueue : s'.eventQueue = s.eventQueue)
    (hknown : s'.isDisconnected = s.isDisconnected ∧ s'.thread = s.thread ∧
      s'.connectedToServer = s.connectedToServer ∧ s'.id = s.id)
    (hfits : ∀ report, s.Fits report → s'.Fits report) :
    Ordered handled s' := by
  obtain ⟨seen, report, hseen, hreport, hfit, hdown, hup⟩ := h.follows
  obtain ⟨hdisconnected, hthread, hconnected, hid⟩ := hknown
  refine ⟨by rw [hshown, h.shown], ⟨seen, report, hseen, ?_, hfits report hfit, ?_, ?_⟩, ?_,
    hid.trans h.known⟩
  · rw [ahead, hcopy, hqueue]
    exact hreport
  · rw [hdisconnected, hthread]
    exact hdown
  · rw [hconnected]
    exact hup
  · rw [hdisconnected, hcopy]
    exact h.copied

/-- ENet reports an event. -/
theorem Ordered.report {handled : List EventType} (h : Ordered handled s) {type : EventType}
    (hshown : s'.emitted ++ s'.received = s.emitted ++ s.received)
    (hcopy : s'.eventQueueCopy = s.eventQueueCopy)
    (hqueue : s'.eventQueue = s.eventQueue ++ [type])
    (hknown : s'.isDisconnected = s.isDisconnected ∧ s'.thread = s.thread ∧
      s'.connectedToServer = s.connectedToServer ∧ s'.id = s.id)
    (hadvance : ∀ report, s.Fits report → ∃ after, report.advance type = some after ∧
      s'.Fits after) : Ordered handled s' := by
  obtain ⟨seen, report, hseen, hreport, hfit, hdown, hup⟩ := h.follows
  obtain ⟨hdisconnected, hthread, hconnected, hid⟩ := hknown
  obtain ⟨after, hafter, hfit'⟩ := hadvance report hfit
  refine ⟨by rw [hshown, h.shown], ⟨seen, after, hseen, ?_, hfit', ?_, ?_⟩, ?_, hid.trans h.known⟩
  · rw [ahead, hcopy, hqueue, ← List.append_assoc]
    rw [ahead] at hreport
    rw [Runs.run_append_some hreport, Runs.run_cons hafter]
    rfl
  · rw [hdisconnected, hthread]
    exact hdown
  · rw [hconnected]
    exact hup
  · rw [hdisconnected, hcopy]
    exact h.copied

/-- The consumer handles the next event. -/
theorem Ordered.handle {handled rest : List EventType} {type : EventType} (h : Ordered handled s)
    (hcopy : s.eventQueueCopy = type :: rest) {sentAt receivedAt : UInt32}
    (hhandle : handleEvent sentAt receivedAt type { s with eventQueueCopy := rest } = some s') :
    Ordered (handled ++ [type]) s' ∧ s'.ahead = rest ++ s.eventQueue := by
  obtain ⟨seen, report, hseen, hreport, hfit, hdown, hup⟩ := h.follows
  have hahead : s.ahead = type :: (rest ++ s.eventQueue) := by
    rw [ahead, hcopy]
    rfl
  rw [hahead] at hreport
  obtain ⟨next, hnext, hrest⟩ := Runs.run_cons_some hreport
  have hseen' : Runs.run Report.advance .pending (handled ++ [type]) = some next := by
    rw [Runs.run_append_some hseen, Runs.run_cons hnext]
    rfl
  have hnot : seen ≠ .down := by
    rintro rfl
    cases hnext
  have hthread : s.thread ≠ false := fun hno => hnot (hdown.mpr (Or.inr hno))
  have hconsuming : s.isDisconnected ≠ none := by
    intro hnone
    rw [h.copied hnone] at hcopy
    cases hcopy
  have hshown : ∀ p : Packet, packetView p = type.view →
      (s.emitted ++ (s.received ++ [p])).map packetView =
        (handled ++ [type]).map EventType.view := by
    intro p hp
    rw [← List.append_assoc, List.map_append, h.shown, List.map_append, List.map_singleton,
      List.map_singleton, hp]
  have hknown : (handled ++ [type]).foldl learn 0 = learn s.id type := by
    rw [List.foldl_append, ← h.known]
    rfl
  cases type with
  | connect =>
      cases hhandle
      have hboth : seen = .pending ∧ next = .up := by
        cases seen <;> cases hnext
        exact ⟨rfl, rfl⟩
      obtain ⟨rfl, rfl⟩ := hboth
      refine ⟨⟨hshown (onConnected sentAt receivedAt) rfl, ⟨.up, report, hseen', hrest,
        ⟨hfit.1, hfit.2, hfit.3⟩, ?_, ?_⟩, fun hnone => absurd hnone hconsuming, hknown.symm⟩, rfl⟩
      · refine iff_of_false (by decide) fun hor => hnot (hdown.mpr hor)
      · simp
  | receive data =>
      rw [handleEvent] at hhandle
      split at hhandle
      · next id p hp =>
        cases hhandle
        have hboth : seen = .up ∧ next = .up := by
          cases seen <;> cases hnext
          exact ⟨rfl, rfl⟩
        obtain ⟨rfl, rfl⟩ := hboth
        obtain ⟨hview, hid⟩ := onDataReceived_ok hp
        exact ⟨⟨hshown p hview, ⟨.up, report, hseen', hrest, ⟨hfit.1, hfit.2, hfit.3⟩, hdown, hup⟩,
          fun hnone => absurd hnone hconsuming, hid.trans hknown.symm⟩, rfl⟩
      · cases hhandle
  | disconnect =>
      cases hhandle
      have hlast : next = .down := by
        cases seen <;> cases hnext
        · rfl
        · rfl
      subst hlast
      refine ⟨⟨hshown (onDisconnected sentAt receivedAt) rfl,
        ⟨.down, report, hseen', hrest, ⟨hfit.1, hfit.2, hfit.3⟩, ?_, ?_⟩, ?_, hknown.symm⟩,
        rfl⟩
      · exact iff_of_true rfl (Or.inl rfl)
      · simp
      · simp

/-- The worker ends. -/
theorem Fits.endWorker {report : Report} (h : s.Fits report) : s.endWorker.Fits report :=
  ⟨h.connecting, h.connected, fun _ => rfl⟩

/-- A worker that takes another turn. -/
theorem Fits.running {report : Report} (h : s.Fits report) (hworker : ¬ s.worker.left)
    (hlink : s'.link = s.link) : s'.Fits report := by
  refine ⟨hlink ▸ h.connecting, hlink ▸ h.connected, fun hdown => absurd (h.left hdown) hworker⟩

/-- What the worker does with packets does not concern the events. -/
structure Outgoing (s s' : EnetClient) : Prop where
  eq : s' = { s with
    packets := s'.packets, packetQueue := s'.packetQueue, sent := s'.sent, misused := s'.misused }

theorem Outgoing.refl (s : EnetClient) : Outgoing s s := ⟨rfl⟩

theorem Outgoing.trans {t : EnetClient} (h : Outgoing s t) (h' : Outgoing t s') :
    Outgoing s s' := by
  refine ⟨?_⟩
  rw [h'.eq, h.eq]

theorem outgoing_destroyPacket (s : EnetClient) (packet : Nat) :
    Outgoing s (s.destroyPacket packet) := by
  unfold destroyPacket
  split <;> exact ⟨rfl⟩

theorem outgoing_sendQueuedPacket (accepts : UInt8 → List Byte → Bool) (s : EnetClient)
    (qp : UInt8 × Nat) :
    Outgoing s (s.sendQueuedPacket accepts qp) := by
  unfold sendQueuedPacket
  split
  · split
    · exact ⟨rfl⟩
    · split
      · exact outgoing_destroyPacket s qp.2
      · exact Outgoing.refl s
  · exact ⟨rfl⟩

theorem outgoing_foldl {f : EnetClient → UInt8 × Nat → EnetClient}
    (hf : ∀ s qp, Outgoing s (f s qp)) (qps : List (UInt8 × Nat)) : Outgoing s (qps.foldl f s) := by
  induction qps generalizing s with
  | nil => exact Outgoing.refl s
  | cons qp qps ih => exact (hf s qp).trans ih

/-- What `disconnect` changes, the destroyed packets apart. -/
theorem disconnect_eq (s : EnetClient) : s.disconnect = { s with
    thread := false
    shouldExitThread := true
    packets := s.disconnect.packets
    packetQueue := []
    eventQueue := []
    sent := s.disconnect.sent
    misused := s.disconnect.misused } := by
  have hout : Outgoing { s with thread := false, shouldExitThread := true }
      (s.packetQueue.foldl (fun s qp => s.destroyPacket qp.2)
        { s with thread := false, shouldExitThread := true }) :=
    outgoing_foldl (fun s qp => outgoing_destroyPacket s qp.2) s.packetQueue
  simp only [EnetClient.disconnect]
  rw [hout.eq]

theorem outgoing_release {packet : Nat} (h : s.release packet = some s') : Outgoing s s' := by
  unfold release at h
  split at h
  · cases h
    exact ⟨rfl⟩
  · cases h

theorem Ordered.outgoing {handled : List EventType} (h : Ordered handled s) (ho : Outgoing s s') :
    Ordered handled s' ∧ s'.ahead = s.ahead := by
  rw [ho.eq]
  exact ⟨h.of_same rfl rfl rfl ⟨rfl, rfl, rfl, rfl⟩ fun _ hfit => ⟨hfit.1, hfit.2, hfit.3⟩, rfl⟩

/-- `disconnect` after the disconnection has been handled. -/
theorem Ordered.disconnect {handled : List EventType} (h : Ordered handled s)
    (hdisconnected : s.isDisconnected = some true) (hcopy : s.eventQueueCopy = []) :
    Ordered handled { s.disconnect with isDisconnected := none } ∧ s.worker.left ∧
      s.eventQueue = [] := by
  obtain ⟨seen, report, hseen, hreport, hfit, hdown, hup⟩ := h.follows
  have hlast : seen = .down := hdown.mpr (Or.inl hdisconnected)
  subst hlast
  obtain ⟨hempty, rfl⟩ := run_down hreport
  rw [ahead, hcopy, List.nil_append] at hempty
  refine ⟨?_, hfit.left rfl, hempty⟩
  rw [disconnect_eq]
  refine ⟨h.shown, ⟨.down, .down, hseen, ?_, ⟨hfit.1, hfit.2, hfit.3⟩, ?_, hup⟩, fun _ => hcopy,
    h.known⟩
  · rw [ahead]
    simp only [hcopy]
    rfl
  · exact iff_of_true rfl (Or.inr rfl)

section
variable {accepts : UInt8 → List Byte → Bool}

/-- **One step.** -/
theorem ordered_step {handled : List EventType} {e : Event} (h : Ordered handled s)
    (hstep : step accepts s e = some s') : ∃ handled', Ordered handled' s' ∧
      handled' ++ s'.ahead = (handled ++ s.ahead) ++ s.reported e := by
  have hkeep : Ordered handled s' → s'.ahead = s.ahead → s.reported e = [] →
      ∃ handled', Ordered handled' s' ∧
        handled' ++ s'.ahead = (handled ++ s.ahead) ++ s.reported e :=
    fun h' hahead hnone => ⟨handled, h', by rw [hahead, hnone, List.append_nil]⟩
  cases e with
  | start made =>
      obtain ⟨hworker, hs'⟩ := Option.ite_none_right_eq_some.mp hstep
      cases hs'
      cases made with
      | true =>
          refine hkeep (h.of_same rfl rfl rfl ⟨rfl, rfl, rfl, rfl⟩ fun _ hfit => ?_) rfl rfl
          exact hfit.running (by rw [hworker]; decide) rfl
      | false =>
          exact hkeep (h.of_same rfl rfl rfl ⟨rfl, rfl, rfl, rfl⟩ fun _ hfit => hfit.endWorker)
            rfl rfl
  | connect =>
      obtain ⟨⟨hworker, hlink⟩, hs'⟩ := Option.ite_none_right_eq_some.mp hstep
      cases hs'
      refine ⟨handled, h.report rfl rfl rfl ⟨rfl, rfl, rfl, rfl⟩ fun report hfit => ?_, ?_⟩
      · cases report with
        | pending => exact ⟨.up, rfl, ⟨by simp, by simp, by simp⟩⟩
        | up => exact absurd rfl (hfit.connecting hlink)
        | down => exact absurd (hfit.left rfl) (by rw [hworker]; decide)
      · simp only [ahead, reported, List.append_assoc]
  | receive data =>
      obtain ⟨⟨hworker, hlink⟩, hs'⟩ := Option.ite_none_right_eq_some.mp hstep
      cases hs'
      refine ⟨handled, h.report rfl rfl rfl ⟨rfl, rfl, rfl, rfl⟩ fun report hfit => ?_, ?_⟩
      · cases report with
        | pending => exact absurd rfl (hfit.connected hlink)
        | up => exact ⟨.up, rfl, ⟨hfit.1, hfit.2, hfit.3⟩⟩
        | down => exact absurd (hfit.left rfl) (by rw [hworker]; decide)
      · simp only [ahead, reported, List.append_assoc]
  | disconnect =>
      obtain ⟨hworker, hs'⟩ := Option.ite_none_right_eq_some.mp hstep
      cases hs'
      refine ⟨handled, h.report rfl rfl rfl ⟨rfl, rfl, rfl, rfl⟩ fun report hfit => ?_, ?_⟩
      · cases report with
        | pending => exact ⟨.down, rfl, ⟨by simp, by simp, fun _ => rfl⟩⟩
        | up => exact ⟨.down, rfl, ⟨by simp, by simp, fun _ => rfl⟩⟩
        | down =>
            rcases hworker with hworker | hworker
            · exact absurd (hfit.left rfl) (by rw [hworker]; decide)
            · exact absurd (hfit.left rfl) (by rw [hworker]; decide)
      · simp only [ahead, reported, List.append_assoc]
  | lose =>
      obtain ⟨hworker, hs'⟩ := Option.ite_none_right_eq_some.mp hstep
      cases hs'
      refine hkeep (h.of_same rfl rfl rfl ⟨rfl, rfl, rfl, rfl⟩ fun _ hfit => ?_) rfl rfl
      exact ⟨by simp, by simp, hfit.left⟩
  | noticeExit =>
      obtain ⟨⟨hworker, _⟩, hs'⟩ := Option.ite_none_right_eq_some.mp hstep
      cases hs'
      refine hkeep (h.of_same rfl rfl rfl ⟨rfl, rfl, rfl, rfl⟩ fun _ hfit => ?_) rfl rfl
      exact hfit.running (by rw [hworker]; decide) rfl
  | giveUp =>
      obtain ⟨_, hs'⟩ := Option.ite_none_right_eq_some.mp hstep
      cases hs'
      exact hkeep (h.of_same rfl rfl rfl ⟨rfl, rfl, rfl, rfl⟩ fun _ hfit =>
        ⟨hfit.1, hfit.2, fun _ => rfl⟩) rfl rfl
  | destroyHost =>
      obtain ⟨_, hs'⟩ := Option.ite_none_right_eq_some.mp hstep
      cases hs'
      exact hkeep (h.of_same rfl rfl rfl ⟨rfl, rfl, rfl, rfl⟩ fun _ hfit => hfit.endWorker) rfl rfl
  | sendQueuedPackets =>
      obtain ⟨_, hs'⟩ := Option.ite_none_right_eq_some.mp hstep
      cases hs'
      have hbegin : Outgoing s { s with packetQueue := [] } := ⟨rfl⟩
      obtain ⟨h', hahead⟩ := h.outgoing
        (hbegin.trans (outgoing_foldl (outgoing_sendQueuedPacket accepts) s.packetQueue))
      exact hkeep h' hahead rfl
  | release packet =>
      obtain ⟨h', hahead⟩ := h.outgoing (outgoing_release hstep)
      exact hkeep h' hahead rfl
  | takeEvents =>
      obtain ⟨⟨hnone, _⟩, hs'⟩ := Option.ite_none_right_eq_some.mp hstep
      cases hs'
      obtain ⟨seen, report, hseen, hreport, hfit, hdown, hup⟩ := h.follows
      have hcopy := h.copied hnone
      have hahead : ({ s with
          isDisconnected := some false
          eventQueueCopy := s.eventQueue
          eventQueue := [] } : EnetClient).ahead = s.ahead := by
        rw [ahead, ahead, hcopy]
        exact List.append_nil _
      refine hkeep ⟨h.shown, ⟨seen, report, hseen, ?_, ⟨hfit.1, hfit.2, hfit.3⟩, ?_, hup⟩, ?_,
        h.known⟩ hahead rfl
      · rw [hahead]
        exact hreport
      · rw [hnone] at hdown
        simpa using hdown
      · simp
  | handleEvent sentAt receivedAt =>
      simp only [step] at hstep
      split at hstep
      · cases hstep
      · next type rest hcopy =>
        obtain ⟨h', hahead⟩ := h.handle hcopy hstep
        refine ⟨handled ++ [type], h', ?_⟩
        rw [hahead, ahead, hcopy]
        simp [reported]
  | finishEvents =>
      simp only [step] at hstep
      split at hstep
      · next hdisconnected hcopy =>
        cases hstep
        obtain ⟨seen, report, hseen, hreport, hfit, hdown, hup⟩ := h.follows
        refine hkeep ⟨h.shown, ⟨seen, report, hseen, hreport, ⟨hfit.1, hfit.2, hfit.3⟩, ?_, hup⟩,
          fun _ => hcopy, h.known⟩ rfl rfl
        rw [hdisconnected] at hdown
        simpa using hdown
      · next hdisconnected hcopy =>
        obtain ⟨h', _, hqueue⟩ := h.disconnect hdisconnected hcopy
        obtain ⟨_, hs'⟩ := Option.ite_none_right_eq_some.mp hstep
        cases hs'
        refine hkeep h' ?_ rfl
        rw [disconnect_eq, ahead, ahead, hqueue]
      · cases hstep
  | update =>
      simp only [step] at hstep
      split at hstep
      · cases hstep
      · next p rest hreceived =>
        cases hstep
        refine hkeep (h.of_same ?_ rfl rfl ⟨rfl, rfl, rfl, rfl⟩ fun _ hfit =>
          ⟨hfit.1, hfit.2, hfit.3⟩) rfl
          rfl
        rw [hreceived, List.append_assoc]
        rfl
  | checkThread =>
      obtain ⟨_, hs'⟩ := Option.ite_none_right_eq_some.mp hstep
      cases hs'
      exact hkeep (h.of_same rfl rfl rfl ⟨rfl, rfl, rfl, rfl⟩ fun _ hfit =>
        ⟨hfit.1, hfit.2, hfit.3⟩) rfl rfl
  | sendPacket channel data =>
      obtain ⟨_, hs'⟩ := Option.ite_none_right_eq_some.mp hstep
      cases hs'
      exact hkeep (h.of_same rfl rfl rfl ⟨rfl, rfl, rfl, rfl⟩ fun _ hfit =>
        ⟨hfit.1, hfit.2, hfit.3⟩) rfl rfl
  | exit =>
      cases hstep
      exact hkeep (h.of_same rfl rfl rfl ⟨rfl, rfl, rfl, rfl⟩ fun _ hfit =>
        ⟨hfit.1, hfit.2, hfit.3⟩) rfl rfl

end

/-- A client connects and sends a packet, the server goes, and a packet that the game sends
meanwhile is too late. -/
def oneConnection : List Event :=
  [.start true, .connect, .checkThread, .sendPacket 0 [5, 0, 0, 0, 0, 0, 0, 0], .sendQueuedPackets,
    .takeEvents, .handleEvent 6 7, .finishEvents, .disconnect, .takeEvents, .handleEvent 8 9,
    .checkThread, .destroyHost, .finishEvents, .sendPacket 0 [5, 0, 0, 0, 0, 0, 0, 0], .update]

end EnetClient

end EnkiNet
