import EnkiNet.Handling

/-!
# What sending a packet does to a process

A packet says a message (`Says`) when the local client and every receiver read that
message from it, whatever time the send function stamps it with.  Packets from the
transport say what they hold, and packets written by this process say what was
written.  Each send function of a server posts one such message to the clients that
it selects, and hands it to its own client if it is one of them (`Broadcast`).
-/

namespace EnkiNet

open ByteStore Packet Process

/-! ## Packets that say a message -/

/-- Everyone who gets the stamped packet reads the message `m` from it. -/
def Says (p : Packet) (m : Message) : Prop :=
  ∀ t, messageOf (stamped t p).resetReadPosition = .ok m ∧
    ∀ data, (stamped t p).wire = .ok data → messageOfData data = .ok m

/-- Who sent a packet is not part of the message. -/
theorem messageOf_info (p : Packet) (i : PacketInfo) :
    messageOf { p with info := i } = messageOf p :=
  messageOf_eq_of_sameAhead rfl ⟨rfl, rfl, rfl⟩

/-- The timestamp is in the header, so the message is the same. -/
theorem messageOf_stamped (t : UInt32) (p : Packet) :
    messageOf (stamped t p).resetReadPosition = messageOf p.resetReadPosition :=
  messageOf_setHeader (h := ⟨p.header.type, t⟩) (p := p.resetReadPosition) rfl rfl

/-- Resetting a packet that nobody has read changes nothing. -/
theorem resetReadPosition_of_unread {p : Packet} (h : p.readCursor = ⟨headerSize, 8⟩) :
    p.resetReadPosition = p := by
  cases p
  cases h
  rfl

/-- A packet from the wire says what its bytes say. -/
theorem Says.of_fromWire {p : Packet} {m : Message} (hp : FromWire p)
    (hm : messageOf p.resetReadPosition = .ok m) : Says p m := by
  intro t
  have hloop : messageOf (stamped t p).resetReadPosition = .ok m := by
    rw [messageOf_stamped, hm]
  exact ⟨hloop, fun data hdata => (messageOfData_wire hp hdata).trans hloop⟩

/-- A packet that this process has written. -/
theorem Says.of_written {write : PacketM Unit} {m : Message} {v w w' : Packet}
    (hmirror : Mirrors write (readMessage w'.header.type) m) (hv : WellWritten v)
    (hcursor : v.writeCursor = ⟨headerSize, 8⟩) (hwrite : write v = (.ok (), w))
    (hw' : WellWritten w') (hext : Extends w w') : Says w' m := by
  intro t
  refine ⟨?_, ?_⟩
  · refine messageOf_of_holds hmirror hv hwrite ?_ rfl ?_
    · rw [hcursor]
      rfl
    · have hholds := (holds_setHeader hw' ⟨w'.header.type, t⟩).of_extends hext
      exact hholds.withRead ⟨headerSize, 8⟩
  · intro data hdata
    obtain ⟨hholds, hlen, hheader⟩ := holds_wire hw' hdata
    rw [messageOfData, ofData_eq hlen]
    refine messageOf_of_holds hmirror hv hwrite ?_ ?_ (hholds.of_extends hext)
    · rw [hcursor]
      rfl
    · rw [received, hheader]

/-- The cursors and the sender do not change what a packet says. -/
theorem Says.of_eq {p q : Packet} {m : Message} (h : Says p m) (hbytes : q.bytes = p.bytes)
    (hheader : q.header = p.header) (hwritten : q.bytesWritten = p.bytesWritten) : Says q m := by
  intro t
  obtain ⟨hloop, hdata⟩ := h t
  have hstamped : (stamped t q).bytes = (stamped t p).bytes := by
    simp only [stamped, setHeader, hbytes, hheader]
  have htype : (stamped t q).header.type = (stamped t p).header.type := by
    simp only [stamped, setHeader, hheader]
  have hwire : (stamped t q).wire = (stamped t p).wire := by
    have hlen : (stamped t q).bytesWritten = (stamped t p).bytesWritten := hwritten
    rw [wire, wire, hstamped, hlen]
  refine ⟨?_, fun data h => hdata data (hwire ▸ h)⟩
  rw [← hloop]
  refine messageOf_eq_of_sameAhead htype ⟨rfl, ?_, ?_⟩
  · exact congrArg List.length hstamped
  · exact congrArg (List.drop headerSize) hstamped

/-- A packet goes on saying the same with a timestamp. -/
theorem Says.stamped {p : Packet} {m : Message} (h : Says p m)
    (hlen : headerSize ≤ p.bytes.length) (t : UInt32) : Says (stamped t p) m := by
  intro u
  have htwice : Process.stamped u (Process.stamped t p) = Process.stamped u p :=
    setHeader_setHeader _ _ hlen
  rw [htwice]
  exact h u

namespace Process

/-! ## Posting -/

/-- What is posted to a client waits behind what was posted before. -/
theorem pending_post (s : Process) (dests : List ClientID) (d : Datagram) (c : ClientID) :
    pending { s with outbox := s.outbox ++ dests.map fun dest => (dest, d) } c =
      pending s c ++ List.replicate (dests.count c) d := by
  rw [pending, List.filterMap_append]
  congr 1
  induction dests with
  | nil => rfl
  | cons dest dests ih =>
      rw [List.map_cons, List.count_cons]
      by_cases h : dest = c
      · simp [h, ih, List.replicate_succ]
      · simp [h, ih]

/-- `m` has been posted to the connected clients that satisfy `who`. -/
structure Sent (origin : ClientID) (who : ClientID → Prop) (m : Message) (s s' : Process) :
    Prop where
  frame : Frame s s'
  scene_eq : s'.scene = s.scene
  effects_eq : s'.effects = s.effects
  posted : ∀ c ∈ s.connected, who c →
    ∃ d, d.origin = origin ∧ messageOfData d.data = .ok m ∧ pending s' c = pending s c ++ [d]
  skipped : ∀ c ∈ s.connected, ¬ who c → pending s' c = pending s c

/-- `m` has been posted to the clients that satisfy `who`, and the local client of a
listen server has handled it if it is one of them. -/
def Broadcast (origin : ClientID) (who : ClientID → Prop) (m : Message) (s s' : Process) : Prop :=
  ∃ t, Sent origin who m s t ∧
    ((s.role = .host ∧ who 1 ∧ Handled origin m t s') ∨ (¬ (s.role = .host ∧ who 1) ∧ s' = t))

/-- Posting one datagram is sending its message to those that it is for. -/
theorem post_sent {origin : ClientID} {who : ClientID → Prop} {m : Message} {s : Process}
    {data : List Byte} (dests : List ClientID) (hdata : messageOfData data = .ok m)
    (hto : ∀ c ∈ s.connected, who c → dests.count c = 1)
    (hskip : ∀ c ∈ s.connected, ¬ who c → dests.count c = 0) :
    Sent origin who m s
      { s with outbox := s.outbox ++ dests.map fun c => (c, { origin := origin, data := data }) }
    where
  frame := ⟨rfl, rfl, rfl, rfl, rfl⟩
  scene_eq := rfl
  effects_eq := rfl
  posted c hc hyes := by
    refine ⟨{ origin := origin, data := data }, rfl, hdata, ?_⟩
    rw [pending_post, hto c hc hyes]
    rfl
  skipped c hc hno := by
    rw [pending_post, hskip c hc hno, List.replicate_zero, List.append_nil]

/-- Nobody is connected. -/
theorem sent_nobody {origin : ClientID} {who : ClientID → Prop} {m : Message} {s : Process}
    (h : s.connected = []) : Sent origin who m s s where
  frame := Frame.refl s
  scene_eq := rfl
  effects_eq := rfl
  posted := by simp [h]
  skipped := by simp [h]

/-- The record is nobody's business. -/
theorem Sent.of_recorded {origin : ClientID} {who : ClientID → Prop} {m : Message}
    {s s' : Process} {ps : List Packet} (h : Sent origin who m { s with broadcasts := ps } s') :
    Sent origin who m s s' :=
  ⟨⟨h.frame.role_eq, h.frame.id_eq, h.frame.connected_eq, h.frame.registry_eq, h.frame.ready_eq⟩,
    h.scene_eq, h.effects_eq, h.posted, h.skipped⟩

/-- `send_packet_to_all_if` sends the message to the clients of the predicate. -/
theorem postIf_ok {predicate : ClientID → Bool} {origin : ClientID} {p : Packet} {m : Message}
    {s s' : Process} (hnodup : s.connected.Nodup)
    (hwire : ∀ data, p.wire = .ok data → messageOfData data = .ok m)
    (h : postIf predicate origin p s = (.ok (), s')) :
    Sent origin (fun c => predicate c) m s s' := by
  rw [postIf, Fallible.bind_get] at h
  split at h
  · next hnone =>
    cases h
    exact sent_nobody hnone
  · obtain ⟨data, hbytes, h⟩ := bind_wireBytes_ok h
    cases h
    refine post_sent _ (hwire data hbytes) ?_ ?_
    · intro c hc hyes
      exact List.count_eq_one_of_mem (hnodup.filter _) (List.mem_filter.mpr ⟨hc, hyes⟩)
    · intro c hc hno
      exact List.count_eq_zero_of_not_mem fun hmem => hno (List.mem_filter.mp hmem).2

/-- The local client reads what the stamped packet says. -/
theorem loopback_ok {origin : ClientID} {p : Packet} {m : Message} {s s' : Process}
    (hm : messageOf p.resetReadPosition = .ok m) (h : loopback origin p s = (.ok (), s')) :
    Handled origin m s s' := by
  rw [loopback, Fallible.bind_get] at h
  obtain ⟨m', hm', hhandled⟩ := clientHandler_ok h
  rw [messageOf_info, hm] at hm'
  cases hm'
  exact hhandled

/-! ## The send functions -/

/-- **Broadcasting** sends a message to every client and hands it to the own one. -/
theorem sendPacketToAllClients_ok {origin : ClientID} {p : Packet} {m : Message}
    {s s' : Process} (hnodup : s.connected.Nodup) (hp : Says p m)
    (h : sendPacketToAllClients origin p s = (.ok (), s')) :
    Broadcast origin (fun _ => true) m s s' := by
  rw [sendPacketToAllClients, Fallible.bind_get] at h
  rw [bind_stamp, recordBroadcast, Fallible.bind_modify] at h
  obtain ⟨hloop, hwire⟩ := hp s.now
  obtain ⟨_, t, hpost, h⟩ := Fallible.bind_eq_ok h
  have hsent := (postIf_ok (by exact hnodup) hwire hpost).of_recorded
  refine ⟨t, hsent, ?_⟩
  split at h
  · next hrole => exact Or.inl ⟨hrole, rfl, loopback_ok hloop h⟩
  · next hrole =>
    cases h
    exact Or.inr ⟨fun hhost => hrole hhost.1, rfl⟩

/-- **Relaying** leaves out one client. -/
theorem sendPacketToAllExceptOneClient_ok {origin excluded : ClientID} {p : Packet} {m : Message}
    {s s' : Process} (hnodup : s.connected.Nodup) (hp : Says p m)
    (h : sendPacketToAllExceptOneClient origin excluded p s = (.ok (), s')) :
    Broadcast origin (fun c => c ≠ excluded) m s s' := by
  rw [sendPacketToAllExceptOneClient, Fallible.bind_get] at h
  rw [bind_stamp] at h
  obtain ⟨hloop, hwire⟩ := hp s.now
  obtain ⟨_, t, hpost, h⟩ := Fallible.bind_eq_ok h
  have hsent := postIf_ok hnodup hwire hpost
  simp only [decide_eq_true_eq] at hsent
  refine ⟨t, hsent, ?_⟩
  split at h
  · next hhost => exact Or.inl ⟨hhost.1, hhost.2.symm, loopback_ok hloop h⟩
  · next hhost =>
    cases h
    exact Or.inr ⟨fun hboth => hhost ⟨hboth.1, hboth.2.symm⟩, rfl⟩

/-- **Answering** sends to one client. -/
theorem sendPacketToOneClient_ok {origin client : ClientID} {p : Packet} {m : Message}
    {s s' : Process} (hreserved : 1 ∉ s.connected) (hp : Says p m)
    (h : sendPacketToOneClient origin client p s = (.ok (), s')) :
    Broadcast origin (fun c => c = client) m s s' := by
  rw [sendPacketToOneClient, Fallible.bind_get] at h
  rw [bind_stamp] at h
  obtain ⟨hloop, hwire⟩ := hp s.now
  split at h
  · next hhost =>
    obtain ⟨hrole, rfl⟩ := hhost
    obtain ⟨m', hm', hhandled⟩ := clientHandler_ok h
    rw [hloop] at hm'
    cases hm'
    refine ⟨s, ⟨Frame.refl s, rfl, rfl, ?_, fun _ _ _ => rfl⟩, Or.inl ⟨hrole, rfl, hhandled⟩⟩
    rintro c hc rfl
    exact absurd hc hreserved
  · next hhost =>
    obtain ⟨data, hbytes, h⟩ := bind_wireBytes_ok h
    cases h
    refine ⟨_, post_sent [client] (hwire data hbytes) ?_ ?_, Or.inr ⟨?_, rfl⟩⟩
    · rintro c _ rfl
      simp
    · intro c _ hno
      exact List.count_eq_zero_of_not_mem fun hmem => hno (List.mem_singleton.mp hmem)
    · rintro ⟨hrole, hone⟩
      exact hhost ⟨hrole, hone.symm⟩

/-- `m` has been posted to the server. -/
structure Requested (m : Message) (s s' : Process) : Prop where
  frame : Frame s s'
  scene_eq : s'.scene = s.scene
  effects_eq : s'.effects = s.effects
  posted : ∃ d, d.origin = s.id ∧ messageOfData d.data = .ok m ∧
    pending s' 1 = pending s 1 ++ [d]

/-- A client's request is its message in the queue to the server. -/
theorem sendToServer_ok {p q : Packet} {m : Message} {s s' : Process} (hp : Says p m)
    (h : sendToServer p s = (.ok q, s')) : Requested m s s' := by
  rw [sendToServer, Fallible.bind_get] at h
  rw [bind_stamp] at h
  obtain ⟨data, hbytes, h⟩ := bind_wireBytes_ok h
  cases h
  refine ⟨⟨rfl, rfl, rfl, rfl, rfl⟩, rfl, rfl, { origin := s.id, data := data }, rfl,
    (hp s.now).2 data hbytes, ?_⟩
  exact pending_post s [1] _ 1

end Process

end EnkiNet
