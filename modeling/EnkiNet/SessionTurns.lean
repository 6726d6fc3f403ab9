import EnkiNet.Session

/-!
# The turns of a session

Every event of a session is a sequence of turns: a move of one process, or one of the
things that the network does.  `step_turns` is the simulation; an invariant that
every turn preserves then holds in every state of every run.

`Obeys` is the invariant that all others rest on: the processes are ready, and what is
on its way respects the policy.  `run_obeys` needs of a run only that its events
permit it.
-/

namespace EnkiNet

open ByteStore Packet Process Relation

/-- What the server tells a client that connects. -/
def Session.stored (s : Session) : List EntityInfo :=
  s.host.scene.entities.toList.reverse.map fun entry => entry.2.info

/-! ## What a policy permits -/

namespace Policy

variable (π : Policy)

/-- A call that keeps to the policy. -/
def PermitsCall (p : Process) : GameCall → Prop
  | .createNetworkedEntity info _ _ => info.ID = 0 ∨ π.chosen info.ID
  | .networkTick => ∀ (id : EntityID) (ent : Entity), p.scene.entities[id]? = some ent →
      p.ticked.isDue ent → π.update p.id ent.info
  | _ => True

def Permits (s : Session) : Session.Event → Prop
  | .send c data => ∀ m, messageOfData data = .ok m → π.Asks c m
  | .serve _ _ => ∀ p ∈ s.queue.head?, p.header.type = .connected →
      π.join s.host.scene ∧ ∀ info ∈ s.stored, π.snapshot info
  | .hostCall _ _ call => π.PermitsCall s.host call
  | .peerCall c _ _ call => c ∈ s.host.connected → π.PermitsCall (s.peer c) call
  | _ => True

/-- What an effect that the policy allows is about; `id` is the client in whose process
it happens. -/
def Allows (r : Registry) (id : ClientID) : Effect → Prop
  | .deserializeOnTick target origin => π.update origin target ∨
      (origin = 1 ∧ π.snapshot target ∧
        ∃ cls, r.builders target.type = some cls ∧ cls.overridesOnConnection = false)
  | .deserializeOnConnection target origin => origin = 1 ∧ π.snapshot target
  | .announce info _ | .spawn info _ => 0 < info.ID ∨ (info.ID ≠ 0 ∧ π.chosen info.ID)
  | .restore info _ => info.ID ≠ 0 ∧ π.snapshot info
  | .snapshot _ info => π.snapshot info
  | .tick info => π.update id info
  | _ => True

end Policy

namespace Process

variable {π : Policy}

/-- What handling a message causes is allowed if the message may be told. -/
theorem Caused.allowed {origin : ClientID} {m : Message} {s : Process} {e : Effect}
    (h : Caused origin m s e) (hm : π.Tells origin m) (id : ClientID) :
    π.Allows s.scene.registry id e := by
  cases h with
  | onSpawn info spawnInfo => trivial
  | spawn info spawnInfo hmsg =>
      subst hmsg
      exact hm
  | restore info hmsg =>
      subst hmsg
      exact ⟨hm.2.1, hm.2.2⟩
  | deserializeOnConnection info target hmsg htarget =>
      subst hmsg
      obtain ⟨horigin, hne, hsnapshot⟩ := hm
      rw [htarget hne]
      exact ⟨horigin, hsnapshot⟩
  | deserializeOnTick target hmsg hheld =>
      subst hmsg
      exact Or.inl hm
  | restoreOnTick info target cls hmsg hclass hdefault htarget =>
      subst hmsg
      obtain ⟨horigin, hne, hsnapshot⟩ := hm
      rw [htarget hne]
      exact Or.inr ⟨horigin, hsnapshot, cls, hclass, hdefault⟩
  | execute target name arguments hmsg hheld => trivial

/-- What happens between messages is always allowed. -/
theorem Idle.allowed {s : Process} {e : Effect} (h : Idle π s e) :
    π.Allows s.scene.registry s.id e := by
  cases h with
  | onSpawn info spawnInfo h => trivial
  | execute target name arguments => trivial
  | tick info hupdate => exact hupdate

/-- What is new in a process after a move. -/
theorem Move.effects {s s' : Process} (h : Move π s s') :
    ∃ new, s'.effects = s.effects ++ new ∧ ∀ e ∈ new, π.Allows s.scene.registry s.id e := by
  cases h with
  | allocate hmax h => exact ⟨[], by simp [h], by simp⟩
  | quiet h =>
      obtain ⟨new, hnew, hidle⟩ := h.effects
      exact ⟨new, hnew, fun e he => (hidle e he).allowed⟩
  | announce info spawnInfo t hrole hcreatable htells hfresh ht h =>
      obtain ⟨new, u, hu, hnew, hcaused⟩ := h.effects
      rw [ht] at hnew hu
      refine ⟨.announce info (s.scene.held info.ID) :: new, by simp [hnew], ?_⟩
      intro e he
      rcases List.mem_cons.mp he with rfl | he
      · exact htells
      · have hallowed := (hcaused e he).allowed htells s.id
        rwa [hu] at hallowed
  | relay origin who m hrole hm htells hall h =>
      obtain ⟨new, u, hu, hnew, hcaused⟩ := h.effects
      refine ⟨new, hnew, fun e he => ?_⟩
      have hallowed := (hcaused e he).allowed htells s.id
      rwa [hu] at hallowed
  | request m hrole hasks h => exact ⟨[], by simp [h.effects_eq], by simp⟩

/-- After a broadcast the message waits behind what waited before. -/
theorem Broadcast.pending {origin : ClientID} {who : ClientID → Prop} {m : Message}
    {s s' : Process} (h : Broadcast origin who m s s') {c : ClientID} (hc : c ∈ s.connected) :
    (¬ who c ∧ s'.pending c = s.pending c) ∨
      (who c ∧ ∃ d, d.origin = origin ∧ messageOfData d.data = .ok m ∧
        s'.pending c = s.pending c ++ [d]) := by
  obtain ⟨t, hsent, hend⟩ := h
  have hsame : s'.pending c = t.pending c := by
    rcases hend with ⟨_, _, hhandled⟩ | ⟨_, rfl⟩
    · rw [Process.pending, hhandled.outbox_eq, Process.pending]
    · rfl
  by_cases hwho : who c
  · obtain ⟨d, horigin, hdata, hpending⟩ := hsent.posted c hc hwho
    exact Or.inr ⟨hwho, d, horigin, hdata, by rw [hsame, hpending]⟩
  · exact Or.inl ⟨hwho, by rw [hsame, hsent.skipped c hc hwho]⟩

/-- What a host's move puts on the way to a client. -/
theorem Move.pending_host {s s' : Process} (h : Move π s s') (hrole : s.role = .host)
    {c : ClientID} (hc : c ∈ s.connected) :
    s'.pending c = s.pending c ∨ ∃ d m, messageOfData d.data = .ok m ∧ π.Tells d.origin m ∧
      s'.pending c = s.pending c ++ [d] := by
  cases h with
  | allocate hmax h => exact Or.inl (by rw [h]; rfl)
  | quiet h => exact Or.inl (by rw [Process.pending, h.outbox_eq, Process.pending])
  | announce info spawnInfo t hrole hcreatable htells hfresh ht h =>
      subst ht
      rcases h.pending hc with ⟨hno, _⟩ | ⟨_, d, horigin, hdata, hpending⟩
      · exact absurd rfl hno
      · exact Or.inr ⟨d, _, hdata, horigin ▸ htells, hpending⟩
  | relay origin who m hrole hm htells hall h =>
      rcases h.pending hc with ⟨_, hsame⟩ | ⟨_, d, rfl, hdata, hpending⟩
      · exact Or.inl hsame
      · exact Or.inr ⟨d, m, hdata, htells, hpending⟩
  | request m hclient hasks h =>
      rw [hrole] at hclient
      cases hclient

/-- What a client's move puts on the way to the server. -/
theorem Move.pending_client {s s' : Process} (h : Move π s s') (hrole : s.role = .client) :
    s'.pending 1 = s.pending 1 ∨ ∃ d m, messageOfData d.data = .ok m ∧ d.origin = s.id ∧
      π.Asks s.id m ∧ s'.pending 1 = s.pending 1 ++ [d] := by
  cases h with
  | allocate hmax h => exact Or.inl (by rw [h]; rfl)
  | quiet h => exact Or.inl (by rw [Process.pending, h.outbox_eq, Process.pending])
  | announce info spawnInfo t hhost hcreatable htells hfresh ht h =>
      rw [hrole] at hhost
      cases hhost
  | relay origin who m hhost hm htells hall h =>
      rw [hrole] at hhost
      cases hhost
  | request m hclient hasks h =>
      obtain ⟨d, horigin, hdata, hpending⟩ := h.posted
      exact Or.inr ⟨d, m, hdata, horigin, hasks, hpending⟩

end Process

/-! ## Turns -/

namespace Session

variable {π : Policy}

inductive Turn (π : Policy) (s s' : Session) : Prop
  | host (h : Process) (hmove : Move π s.host h) (hs' : s' = { s with host := h })
  | peer (c : ClientID) (p : Process) (hc : c ∈ s.host.connected) (hmove : Move π (s.peer c) p)
      (hs' : s' = s.setPeer c p)
  | connect (c : ClientID) (sentAt receivedAt : UInt32) (hc : c ∉ s.host.connected)
      (hzero : c ≠ 0) (hone : c ≠ 1) (hs' : s' = s.connect c sentAt receivedAt)
  | disconnect (c : ClientID) (sentAt receivedAt : UInt32) (hc : c ∈ s.host.connected)
      (hs' : s' = s.disconnect c sentAt receivedAt)
  | send (c : ClientID) (data : List Byte) (hc : c ∈ s.host.connected)
      (hasks : ∀ m, messageOfData data = .ok m → π.Asks c m)
      (hs' : s' = s.setPeer c { s.peer c with
        outbox := (s.peer c).outbox ++ [(1, { origin := c, data := data })] })
  | receive (c : ClientID) (receivedAt : UInt32) (d : Datagram) (rest : List Datagram)
      (p : Packet) (hc : c ∈ s.host.connected) (hpending : (s.peer c).pending 1 = d :: rest)
      (hp : onClientDataReceived c d.data receivedAt = .ok p)
      (hs' : s' = { s.setPeer c ((s.peer c).dropNext 1) with queue := s.queue ++ [p] })
  | pop (p : Packet) (rest : List Packet) (hqueue : s.queue = p :: rest)
      (hp : p.header.type ≠ .connected) (hs' : s' = { s with queue := rest })
  | welcome (p : Packet) (rest : List Packet) (h : Process) (hqueue : s.queue = p :: rest)
      (hp : p.header.type = .connected) (hjoin : π.join s.host.scene)
      (hsnapshot : ∀ info ∈ s.stored, π.snapshot info)
      (htold : Told p.info.senderID s.stored s.host h)
      (hs' : s' = { s with host := h, queue := rest })
  | deliver (c : ClientID) (d : Datagram) (rest : List Datagram) (m : Message) (p : Process)
      (hc : c ∈ s.host.connected) (hpending : s.host.pending c = d :: rest)
      (hm : messageOfData d.data = .ok m) (hhandled : Handled d.origin m (s.peer c) p)
      (hs' : s' = { s.setPeer c p with host := s.host.dropNext c })

/-! ## The basic invariant -/

/-- A connected client, and what is on its way from and to it. -/
structure Member (π : Policy) (s : Session) (c : ClientID) : Prop where
  ready : Ready π (fun _ => False) (s.peer c)
  role_eq : (s.peer c).role = .client
  id_eq : (s.peer c).id = c
  registry_eq : (s.peer c).scene.registry = s.host.scene.registry
  up : ∀ d ∈ (s.peer c).pending 1,
    d.origin = c ∧ ∀ m, messageOfData d.data = .ok m → π.Asks c m
  down : ∀ d ∈ s.host.pending c, ∃ m, messageOfData d.data = .ok m ∧ π.Tells d.origin m
  effects : ∀ e ∈ (s.peer c).effects, π.Allows s.host.scene.registry c e

structure Obeys (π : Policy) (s : Session) : Prop where
  host : Ready π (fun _ => False) s.host
  role_eq : s.host.role = .host
  networkReady : s.host.scene.networkReady
  not_zero : 0 ∉ s.host.connected
  member : ∀ c ∈ s.host.connected, s.Member π c
  queue : ∀ p ∈ s.queue, Arrived π p ∧ p.info.senderID ≠ 1
  effects : ∀ e ∈ s.host.effects, π.Allows s.host.scene.registry 1 e

/-- A client that a change of the server's process does not concern. -/
theorem Member.of_host {s : Session} {c : ClientID} {h : Process} {queue : List Packet}
    (hc : s.Member π c) (hregistry : h.scene.registry = s.host.scene.registry)
    (hpending : ∀ d ∈ h.pending c, d ∈ s.host.pending c ∨
      ∃ m, messageOfData d.data = .ok m ∧ π.Tells d.origin m) :
    Member π { s with host := h, queue := queue } c where
  ready := hc.ready
  role_eq := hc.role_eq
  id_eq := hc.id_eq
  registry_eq := hc.registry_eq.trans hregistry.symm
  up := hc.up
  down d hd := (hpending d hd).elim (hc.down d) fun h => h
  effects := hregistry.symm ▸ hc.effects

/-- A client whose own process has changed. -/
theorem Member.of_peer {s : Session} {c : ClientID} {p : Process} (hc : s.Member π c)
    (hframe : Frame (s.peer c) p) (hready : Ready π (fun _ => False) p)
    (hup : ∀ d ∈ p.pending 1, d ∈ (s.peer c).pending 1 ∨
      (d.origin = c ∧ ∀ m, messageOfData d.data = .ok m → π.Asks c m))
    (heffects : ∀ e ∈ p.effects, e ∈ (s.peer c).effects ∨
      π.Allows s.host.scene.registry c e) : Member π (s.setPeer c p) c where
  ready := by simpa using hready
  role_eq := by simpa using hframe.role_eq.trans hc.role_eq
  id_eq := by simpa using hframe.id_eq.trans hc.id_eq
  registry_eq := by simpa using hframe.registry_eq.trans hc.registry_eq
  up := by
    rw [setPeer_peer_self]
    exact fun d hd => (hup d hd).elim (hc.up d) fun h => h
  down := hc.down
  effects := by
    rw [setPeer_peer_self]
    exact fun e he => (heffects e he).elim (hc.effects e) fun h => h

/-- The other clients do not notice. -/
theorem Member.of_other {s : Session} {c c' : ClientID} {p : Process} (hc : s.Member π c)
    (hne : c ≠ c') : Member π (s.setPeer c' p) c := by
  have hsame : (s.setPeer c' p).peer c = s.peer c := setPeer_peer_ne hne
  obtain ⟨hready, hrole, hid, hregistry, hup, hdown, heffects⟩ := hc
  exact ⟨hsame ▸ hready, hsame ▸ hrole, hsame ▸ hid, hsame ▸ hregistry, hsame ▸ hup, hdown,
    hsame ▸ heffects⟩

/-- A session obeys if every member does. -/
theorem Obeys.set_peer {s : Session} {c : ClientID} {p : Process} (h : s.Obeys π)
    (hc : Member π (s.setPeer c p) c) : Obeys π (s.setPeer c p) where
  host := h.host
  role_eq := h.role_eq
  networkReady := h.networkReady
  not_zero := h.not_zero
  member := by
    intro c' hc'
    by_cases heq : c' = c
    · exact heq ▸ hc
    · exact (h.member c' hc').of_other heq
  queue := h.queue
  effects := h.effects

/-- A packet that comes from the transport, whatever it holds. -/
theorem arrived_of_fromWire {p : Packet} (hp : FromWire p) (hread : p.readCursor = ⟨headerSize, 8⟩)
    (hsender : p.info.senderID ≠ 1)
    (hasks : ∀ m, messageOf p = .ok m → π.Asks p.info.senderID m) :
    Arrived π p ∧ p.info.senderID ≠ 1 := by
  refine ⟨⟨hread, ?_, hasks, fun h => absurd h hsender⟩, hsender⟩
  intro m hm
  apply Says.of_fromWire hp
  rw [resetReadPosition_of_unread hread, hm]

/-- What the server gets out of the transport is from the wire, unread. -/
theorem onClientDataReceived_ok {c : ClientID} {data : List Byte} {t : UInt32} {p : Packet}
    (h : onClientDataReceived c data t = .ok p) :
    FromWire p ∧ p.readCursor = ⟨headerSize, 8⟩ ∧ p.info.senderID = c ∧
      messageOf p = messageOfData data := by
  by_cases hlen : headerSize ≤ data.length
  · rw [onClientDataReceived, ofData_eq hlen] at h
    cases h
    refine ⟨⟨hlen, rfl⟩, rfl, rfl, ?_⟩
    rw [messageOfData, ofData_eq hlen]
    exact messageOf_info _ _
  · rw [onClientDataReceived, ofData, if_pos (Nat.not_le.mp hlen)] at h
    cases h

/-- What a client gets out of the transport says what was sent. -/
theorem arriving_ok {data : List Byte} {t : UInt32} {p : Packet} (h : arriving t data = .ok p) :
    messageOf p = messageOfData data := by
  by_cases hlen : headerSize ≤ data.length
  · rw [arriving, ofData_eq hlen] at h
    cases h
    rw [messageOfData, ofData_eq hlen]
    exact messageOf_info _ _
  · rw [arriving, ofData, if_pos (Nat.not_le.mp hlen)] at h
    cases h

/-- A packet about a connection carries no message. -/
theorem arrived_of_event {c : ClientID} {h : PacketHeader} {t : UInt32} (hc : c ≠ 1)
    (hother : readMessage h.type = pure .other) :
    Arrived π { ofHeader h with info := { senderID := c, timeReceived := t } } ∧ c ≠ 1 := by
  refine arrived_of_fromWire ⟨?_, rfl⟩ rfl hc ?_
  · simp [ofHeader]
  · intro m hm
    rw [messageOf_info, messageOf] at hm
    have hheader : (ofHeader h).header.type = h.type := rfl
    rw [hheader, hother] at hm
    cases hm
    trivial

/-- A move of the host. -/
theorem Obeys.turn_host {s : Session} {h : Process} (hs : s.Obeys π) (hmove : Move π s.host h) :
    Obeys π { s with host := h } := by
  have hframe := hmove.frame
  have hready : Ready π (fun _ => False) h :=
    hs.host.move hmove fun _ _ _ _ hfalse => absurd hfalse not_false
  obtain ⟨new, hnew, hallowed⟩ := hmove.effects
  refine ⟨hready, hframe.role_eq.trans hs.role_eq, hframe.ready_eq.trans hs.networkReady, ?_, ?_,
    hs.queue, ?_⟩
  · exact hframe.connected_eq ▸ hs.not_zero
  · intro c hc
    have hc' : c ∈ s.host.connected := hframe.connected_eq ▸ hc
    refine (hs.member c hc').of_host hframe.registry_eq ?_
    intro d hd
    rcases hmove.pending_host hs.role_eq hc' with hsame | ⟨d', m, hdata, htells, hpost⟩
    · exact Or.inl (hsame ▸ hd)
    · rw [hpost] at hd
      rcases List.mem_append.mp hd with hold | hself
      · exact Or.inl hold
      · cases List.mem_singleton.mp hself
        exact Or.inr ⟨m, hdata, htells⟩
  · intro e he
    rw [hframe.registry_eq]
    rw [hnew] at he
    rcases List.mem_append.mp he with hold | hself
    · exact hs.effects e hold
    · exact hs.host.host_id hs.role_eq ▸ hallowed e hself

/-- A move of a peer. -/
theorem Obeys.turn_peer {s : Session} {c : ClientID} {p : Process} (hs : s.Obeys π)
    (hc : c ∈ s.host.connected) (hmove : Move π (s.peer c) p) : Obeys π (s.setPeer c p) := by
  have hmember := hs.member c hc
  have hready : Ready π (fun _ => False) p :=
    hmember.ready.move hmove fun _ _ _ _ hfalse => absurd hfalse not_false
  obtain ⟨new, hnew, hallowed⟩ := hmove.effects
  refine hs.set_peer (hmember.of_peer hmove.frame hready ?_ ?_)
  · intro d hd
    rcases hmove.pending_client hmember.role_eq with hsame | ⟨d', m, hdata, horigin, hasks, hpost⟩
    · exact Or.inl (hsame ▸ hd)
    · rw [hpost] at hd
      rw [hmember.id_eq] at horigin hasks
      rcases List.mem_append.mp hd with hold | hself
      · exact Or.inl hold
      · cases List.mem_singleton.mp hself
        refine Or.inr ⟨horigin, fun m' hm' => ?_⟩
        rw [hdata] at hm'
        cases hm'
        exact hasks
  · intro e he
    rw [hnew] at he
    rcases List.mem_append.mp he with hold | hself
    · exact Or.inl hold
    · refine Or.inr ?_
      rw [← hmember.registry_eq, ← hmember.id_eq]
      exact hmember.id_eq.symm ▸ hallowed e hself

/-- A scenegraph in which nothing has been created yet. -/
theorem kept_empty (registry : Registry) : Kept { registry := registry } where
  localID_neg := show (-1 : EntityID) < 0 by decide
  ID_pos := show (0 : EntityID) < 1 by decide
  stored id ent hent := by simp at hent

/-- A client that connects. -/
theorem Obeys.turn_connect {s : Session} {c : ClientID} {sentAt receivedAt : UInt32}
    (hs : s.Obeys π) (hc : c ∉ s.host.connected) (hzero : c ≠ 0) (hone : c ≠ 1) :
    Obeys π (s.connect c sentAt receivedAt) := by
  have hhost := hs.host
  have hconnected : ∀ c', c' ∈ (s.connect c sentAt receivedAt).host.connected ↔
      c' ∈ s.host.connected ∨ c' = c := by
    intro c'
    simp [connect]
  refine ⟨?_, hs.role_eq, hs.networkReady, ?_, ?_, ?_, hs.effects⟩
  · refine { hhost with nodup := ?_, not_connected := ?_ }
    · rw [connect, List.nodup_append]
      refine ⟨hhost.nodup, List.nodup_singleton c, ?_⟩
      rintro a ha b hb rfl
      cases List.mem_singleton.mp hb
      exact hc ha
    · rw [hconnected]
      rintro (h | h)
      · exact hhost.not_connected h
      · exact hone h.symm
  · rw [hconnected]
    rintro (h | h)
    · exact hs.not_zero h
    · exact hzero h.symm
  · intro c' hc'
    by_cases heq : c' = c
    · subst heq
      have hpeer : (s.connect c' sentAt receivedAt).peer c' =
          newcomer s.host.scene.registry c' := by simp [connect]
      have hpending : (s.connect c' sentAt receivedAt).host.pending c' = [] :=
        (pending_forget s.host c' c').trans (if_pos rfl)
      refine ⟨?_, by rw [hpeer]; rfl, by rw [hpeer]; rfl, by rw [hpeer]; rfl, ?_, ?_, ?_⟩
      · rw [hpeer]
        refine ⟨by simp [newcomer], by simp [newcomer], List.nodup_nil, List.not_mem_nil, ?_,
          ?_, ?_⟩
        · exact kept_empty _
        · intro _ info held hmem
          cases hmem
        · intro _ id hid
          exact absurd hid not_false
      · rw [hpeer]
        intro d hd
        cases hd
      · rw [hpending]
        intro d hd
        cases hd
      · rw [hpeer]
        intro e he
        cases he
    · have hold := hs.member c' ((hconnected c').mp hc' |>.resolve_right heq)
      have hpeer : (s.connect c sentAt receivedAt).peer c' = s.peer c' := by
        simp [connect, heq]
      have hpending : (s.connect c sentAt receivedAt).host.pending c' = s.host.pending c' :=
        (pending_forget s.host c c').trans (if_neg heq)
      obtain ⟨hready, hrole, hid, hregistry, hup, hdown, heffects⟩ := hold
      exact ⟨hpeer ▸ hready, hpeer ▸ hrole, hpeer ▸ hid, hpeer ▸ hregistry, hpeer ▸ hup,
        hpending ▸ hdown, hpeer ▸ heffects⟩
  · intro p hp
    rcases List.mem_append.mp hp with hold | hself
    · exact hs.queue p hold
    · cases List.mem_singleton.mp hself
      exact arrived_of_event hone rfl

/-- A client that leaves. -/
theorem Obeys.turn_disconnect {s : Session} {c : ClientID} {sentAt receivedAt : UInt32}
    (hs : s.Obeys π) (hc : c ∈ s.host.connected) :
    Obeys π (s.disconnect c sentAt receivedAt) := by
  have hhost := hs.host
  have hsub : ∀ c', c' ∈ (s.disconnect c sentAt receivedAt).host.connected →
      c' ∈ s.host.connected := fun c' h => List.mem_of_mem_erase h
  have hone : c ≠ 1 := by
    rintro rfl
    exact hhost.not_connected hc
  refine ⟨?_, hs.role_eq, hs.networkReady, fun h => hs.not_zero (hsub 0 h), ?_, ?_, hs.effects⟩
  · exact { hhost with
      nodup := hhost.nodup.erase c
      not_connected := fun h => hhost.not_connected (hsub 1 h) }
  · intro c' hc'
    obtain ⟨hready, hrole, hid, hregistry, hup, hdown, heffects⟩ := hs.member c' (hsub c' hc')
    exact ⟨hready, hrole, hid, hregistry, hup, hdown, heffects⟩
  · intro p hp
    rcases List.mem_append.mp hp with hold | hself
    · exact hs.queue p hold
    · cases List.mem_singleton.mp hself
      exact arrived_of_event hone rfl

/-- Bytes that a client hands to its transport. -/
theorem Obeys.turn_send {s : Session} {c : ClientID} {data : List Byte} (hs : s.Obeys π)
    (hc : c ∈ s.host.connected) (hasks : ∀ m, messageOfData data = .ok m → π.Asks c m) :
    Obeys π (s.setPeer c { s.peer c with
      outbox := (s.peer c).outbox ++ [(1, { origin := c, data := data })] }) := by
  have hmember := hs.member c hc
  have hready : Ready π (fun _ => False) { s.peer c with
      outbox := (s.peer c).outbox ++ [(1, { origin := c, data := data })] } :=
    hmember.ready.of_frame ⟨rfl, rfl, rfl, rfl, rfl⟩ hmember.ready.kept rfl fun _ _ h => h
  refine hs.set_peer (hmember.of_peer ⟨rfl, rfl, rfl, rfl, rfl⟩ hready ?_ fun e he => Or.inl he)
  intro d hd
  have hpost := pending_post (s.peer c) [1] { origin := c, data := data } 1
  rw [List.map_singleton] at hpost
  rw [hpost] at hd
  rcases List.mem_append.mp hd with hold | hself
  · exact Or.inl hold
  · cases List.mem_singleton.mp hself
    exact Or.inr ⟨rfl, hasks⟩

/-- What still waits has waited before. -/
theorem mem_of_mem_dropNext {s : Process} {c c' : ClientID} {d : Datagram}
    (h : d ∈ (s.dropNext c).pending c') : d ∈ s.pending c' := by
  rw [pending_dropNext] at h
  split at h
  · next heq => exact heq ▸ List.mem_of_mem_tail h
  · exact h

/-- A packet that the server gets out of its transport. -/
theorem Obeys.turn_receive {s : Session} {c : ClientID} {t : UInt32} {d : Datagram}
    {rest : List Datagram} {p : Packet} (hs : s.Obeys π) (hc : c ∈ s.host.connected)
    (hpending : (s.peer c).pending 1 = d :: rest) (hp : onClientDataReceived c d.data t = .ok p) :
    Obeys π { s.setPeer c ((s.peer c).dropNext 1) with queue := s.queue ++ [p] } := by
  have hmember := hs.member c hc
  have hready : Ready π (fun _ => False) ((s.peer c).dropNext 1) :=
    hmember.ready.of_frame ⟨rfl, rfl, rfl, rfl, rfl⟩ hmember.ready.kept rfl fun _ _ h => h
  have hset := hs.set_peer (hmember.of_peer (p := (s.peer c).dropNext 1)
    ⟨rfl, rfl, rfl, rfl, rfl⟩ hready (fun d hd => Or.inl (mem_of_mem_dropNext hd))
    fun e he => Or.inl he)
  obtain ⟨hfrom, hread, rfl, hm⟩ := onClientDataReceived_ok hp
  have hone : p.info.senderID ≠ 1 := by
    intro heq
    exact hs.host.not_connected (heq ▸ hc)
  have hmem : d ∈ (s.peer p.info.senderID).pending 1 := by
    rw [hpending]
    exact List.mem_cons_self
  refine ⟨hset.host, hset.role_eq, hset.networkReady, hset.not_zero, ?_, ?_, hset.effects⟩
  · intro c' hc'
    obtain ⟨hready, hrole, hid, hregistry, hup, hdown, heffects⟩ := hset.member c' hc'
    exact ⟨hready, hrole, hid, hregistry, hup, hdown, heffects⟩
  · intro q hq
    rcases List.mem_append.mp hq with hold | hself
    · exact hs.queue q hold
    · cases List.mem_singleton.mp hself
      refine arrived_of_fromWire hfrom hread hone ?_
      intro m hm'
      exact (hmember.up d hmem).2 m (hm ▸ hm')

/-- A packet that the server has handled. -/
theorem Obeys.turn_pop {s : Session} {p : Packet} {rest : List Packet} (hs : s.Obeys π)
    (hqueue : s.queue = p :: rest) : Obeys π { s with queue := rest } := by
  refine ⟨hs.host, hs.role_eq, hs.networkReady, hs.not_zero, ?_, ?_, hs.effects⟩
  · intro c hc
    exact (hs.member c hc).of_host rfl fun d hd => Or.inl hd
  · intro q hq
    exact hs.queue q (hqueue ▸ List.mem_cons_of_mem p hq)

/-- What is stored in the server's own process. -/
theorem mem_stored {s : Session} {info : EntityInfo} (h : info ∈ s.stored) :
    ∃ (id : EntityID) (ent : Entity), s.host.scene.entities[id]? = some ent ∧
      ent.info = info := by
  obtain ⟨entry, hentry, rfl⟩ := List.mem_map.mp h
  exact ⟨entry.1, entry.2,
    Std.TreeMap.mem_toList_iff_getElem?_eq_some.mp (List.mem_reverse.mp hentry), rfl⟩

/-- The snapshot for a new client. -/
theorem Obeys.turn_welcome {s : Session} {p : Packet} {rest : List Packet} {h : Process}
    (hs : s.Obeys π) (hqueue : s.queue = p :: rest) (hsnapshot : ∀ info ∈ s.stored, π.snapshot info)
    (htold : Told p.info.senderID s.stored s.host h) :
    Obeys π { s with host := h, queue := rest } := by
  have hframe := htold.frame
  refine ⟨htold.ready hs.host, hframe.role_eq.trans hs.role_eq,
    hframe.ready_eq.trans hs.networkReady, hframe.connected_eq ▸ hs.not_zero, ?_, ?_, ?_⟩
  · intro c hc
    have hc' : c ∈ s.host.connected := hframe.connected_eq ▸ hc
    refine (hs.member c hc').of_host hframe.registry_eq ?_
    intro d hd
    by_cases heq : c = p.info.senderID
    · subst heq
      obtain ⟨ds, hds, hmap⟩ := htold.posted hc'
      rw [hds] at hd
      rcases List.mem_append.mp hd with hold | hnew
      · exact Or.inl hold
      · have hpair := List.mem_map_of_mem
          (f := fun d : Datagram => (d.origin, messageOfData d.data)) hnew
        rw [hmap] at hpair
        obtain ⟨info, hinfo, heq⟩ := List.mem_map.mp hpair
        obtain ⟨id, ent, hent, rfl⟩ := mem_stored hinfo
        obtain ⟨horigin, hdata⟩ := Prod.mk.inj heq
        have hne : ent.info.ID ≠ 0 := by
          obtain ⟨hid, hzero, _⟩ := hs.host.kept.stored id ent hent
          rwa [hid]
        exact Or.inr ⟨_, hdata.symm, horigin.symm, hne, hsnapshot _ hinfo⟩
    · rw [htold.skipped c hc' heq] at hd
      exact Or.inl hd
  · intro q hq
    exact hs.queue q (hqueue ▸ List.mem_cons_of_mem p hq)
  · intro e he
    rw [hframe.registry_eq]
    rw [htold.effects_eq] at he
    rcases List.mem_append.mp he with hold | hnew
    · exact hs.effects e hold
    · obtain ⟨info, hinfo, rfl⟩ := List.mem_map.mp hnew
      exact hsnapshot info hinfo

/-- A datagram that a client handles. -/
theorem Obeys.turn_deliver {s : Session} {c : ClientID} {d : Datagram} {rest : List Datagram}
    {m : Message} {p : Process} (hs : s.Obeys π) (hc : c ∈ s.host.connected)
    (hpending : s.host.pending c = d :: rest) (hm : messageOfData d.data = .ok m)
    (hhandled : Handled d.origin m (s.peer c) p) :
    Obeys π { s.setPeer c p with host := s.host.dropNext c } := by
  have hmember := hs.member c hc
  have hmem : d ∈ s.host.pending c := by
    rw [hpending]
    exact List.mem_cons_self
  obtain ⟨m', hm', htells⟩ := hmember.down d hmem
  rw [hm] at hm'
  cases hm'
  obtain ⟨new, hnew, hcaused⟩ := hhandled.effects
  have hset : Obeys π (s.setPeer c p) := by
    refine hs.set_peer (hmember.of_peer hhandled.frame (hhandled.ready hmember.ready) ?_ ?_)
    · intro d hd
      rw [Process.pending, hhandled.outbox_eq] at hd
      exact Or.inl hd
    · intro e he
      rw [hnew] at he
      rcases List.mem_append.mp he with hold | hself
      · exact Or.inl hold
      · refine Or.inr ?_
        rw [← hmember.registry_eq]
        exact (hcaused e hself).allowed htells c
  refine ⟨?_, hs.role_eq, hs.networkReady, hs.not_zero, ?_, hs.queue, hs.effects⟩
  · exact hs.host.of_frame ⟨rfl, rfl, rfl, rfl, rfl⟩ hs.host.kept rfl fun _ _ h => h
  · intro c' hc'
    exact (hset.member c' hc').of_host (h := s.host.dropNext c) rfl fun d hd =>
      Or.inl (mem_of_mem_dropNext hd)

/-- **Every turn keeps to the policy.** -/
theorem Obeys.turn {s s' : Session} (hs : s.Obeys π) (h : Turn π s s') : s'.Obeys π := by
  cases h with
  | host h hmove hs' => exact hs' ▸ hs.turn_host hmove
  | peer c p hc hmove hs' => exact hs' ▸ hs.turn_peer hc hmove
  | connect c sentAt receivedAt hc hzero hone hs' => exact hs' ▸ hs.turn_connect hc hzero hone
  | disconnect c sentAt receivedAt hc hs' => exact hs' ▸ hs.turn_disconnect hc
  | send c data hc hasks hs' => exact hs' ▸ hs.turn_send hc hasks
  | receive c t d rest p hc hpending hp hs' => exact hs' ▸ hs.turn_receive hc hpending hp
  | pop p rest hqueue hp hs' => exact hs' ▸ hs.turn_pop hqueue
  | welcome p rest h hqueue hp hjoin hsnapshot htold hs' =>
      exact hs' ▸ hs.turn_welcome hqueue hsnapshot htold
  | deliver c d rest m p hc hpending hm hhandled hs' =>
      exact hs' ▸ hs.turn_deliver hc hpending hm hhandled

/-! ## Events are turns -/

theorem getElem?_modify_rate (g : Scenegraph) (id id' : EntityID) (rate : UInt32) :
    (g.entities.modify id fun ent => { ent with networkTickRate := rate })[id']? =
      if id = id' then (g.entities[id]?).map fun ent => { ent with networkTickRate := rate }
      else g.entities[id']? := by
  simp [Std.TreeMap.getElem?_modify]

/-- Changing a tick rate is nobody else's business. -/
theorem quiet_rate (p : Process) (id : EntityID) (rate : UInt32) :
    Process.Quiet π p { p with
      scene := { p.scene with
        entities := p.scene.entities.modify id fun ent =>
          { ent with networkTickRate := rate } } } := by
  refine quiet_scene rfl rfl rfl rfl (fun k => Or.inl ?_) fun _ k _ => ?_
  · rw [Scenegraph.held, getElem?_modify_rate, Scenegraph.held]
    split
    · next heq =>
      subst heq
      cases p.scene.entities[id]? <;> rfl
    · rfl
  · rw [Scenegraph.live, getElem?_modify_rate, Scenegraph.live]
    split
    · next heq =>
      subst heq
      cases p.scene.entities[id]? <;> rfl
    · rfl

end Session

/-- Neither is time. -/
theorem Process.quiet_elapse {π : Policy} (s : Process) (now : UInt32) :
    Quiet π s { s with now := now } :=
  ⟨⟨rfl, rfl, rfl, rfl, rfl⟩, fun h => h, rfl, rfl, fun _ _ _ => rfl, fun _ _ _ => Or.inl rfl,
    [], by simp, by simp⟩

/-- The call neither creates nor deletes networked entities. -/
def GameCall.Talks : GameCall → Prop
  | .createNetworkedEntity _ _ _ | .deleteEntity _ | .update => False
  | _ => True

/-- The calls of game code that only talk. -/
theorem GameCall.talks {π : Policy} {reserved : EntityID → Prop} {stack : Nat} {hooks : Hooks}
    {call : GameCall} {s s' : Process} (hkind : call.Talks) (hs : Ready π reserved s)
    (hcall : π.PermitsCall s call) (hrun : call.run stack hooks s = (.ok (), s')) :
    ReflTransGen (Talk π) s s' ∧ Ready π reserved s' := by
  cases call with
  | createEntity info fresh spawnInfo =>
      obtain ⟨_, t, hcreate, hrun⟩ := Fallible.bind_eq_ok hrun
      cases hrun
      exact createEntity_talks fresh s _ _ hs hcreate
  | createNetworkedEntity | deleteEntity | update => cases hkind
  | networkTick => exact networkTick_talks hooks.representable hs hcall hrun
  | callRPC id name arguments representable =>
      rw [GameCall.run, Fallible.bind_get] at hrun
      rcases hent : s.scene.entities[id]? with _ | target
      · rw [hent] at hrun
        cases hrun
        exact ⟨.refl, hs⟩
      · rw [hent] at hrun
        exact callRPC_talks representable s _ s' hs hrun
  | setNetworkTickRate id rate =>
      cases hrun
      obtain ⟨htalk, hready⟩ := hs.talk_quiet (Session.quiet_rate (π := π) s id rate)
      exact ⟨.single htalk, hready⟩
  | elapse now =>
      cases hrun
      obtain ⟨htalk, hready⟩ := hs.talk_quiet (quiet_elapse (π := π) s now)
      exact ⟨.single htalk, hready⟩

/-- **What game code does in a process are moves.** -/
theorem GameCall.moves {π : Policy} {reserved : EntityID → Prop} {stack : Nat} {hooks : Hooks}
    {call : GameCall} {s s' : Process} (hs : Ready π reserved s) (hcall : π.PermitsCall s call)
    (hrun : call.run stack hooks s = (.ok (), s')) :
    ReflTransGen (Move π) s s' ∧ Ready π reserved s' := by
  cases call with
  | createNetworkedEntity info spawnInfo sound =>
      exact createNetworkedEntity_moves stack reserved info spawnInfo sound hcall s _ s' hs hrun
  | deleteEntity id => exact deleteEntity_moves id s _ s' hs hrun
  | update => exact update_moves s _ s' hs hrun
  | createEntity | networkTick | callRPC | setNetworkTickRate | elapse =>
      exact (GameCall.talks (by trivial) hs hcall hrun).imp_left moves_of_talks

namespace Session

variable {π : Policy}

/-- A program of the host is turns of the session. -/
theorem turns_of_host_moves {s : Session} {h : Process} (hmoves : ReflTransGen (Move π) s.host h) :
    ReflTransGen (Turn π) s { s with host := h } := by
  induction hmoves with
  | refl => exact .refl
  | tail _ hlast ih => exact ih.tail (.host _ hlast rfl)

/-- A program of a peer is turns of the session. -/
theorem turns_of_peer_moves {s : Session} {c : ClientID} {p : Process}
    (hc : c ∈ s.host.connected) (hmoves : ReflTransGen (Move π) (s.peer c) p) :
    ReflTransGen (Turn π) s (s.setPeer c p) := by
  induction hmoves with
  | refl =>
      have hsame : s.setPeer c (s.peer c) = s := by
        simp [setPeer]
      rw [hsame]
  | tail _ hlast ih =>
      rename_i q p _
      refine ih.tail (.peer c p hc (by simpa using hlast) ?_)
      simp [setPeer]

/-- What an event does, with the program that runs in one of the processes and the moves
that it makes. -/
inductive Outcome (π : Policy) (s : Session) : Event → Session → Prop
  | connect (c : ClientID) (sentAt receivedAt : UInt32) (hc : c ∉ s.host.connected)
      (hzero : c ≠ 0) (hone : c ≠ 1) :
      Outcome π s (.connect c sentAt receivedAt) (s.connect c sentAt receivedAt)
  | disconnect (c : ClientID) (sentAt receivedAt : UInt32) (hc : c ∈ s.host.connected) :
      Outcome π s (.disconnect c sentAt receivedAt) (s.disconnect c sentAt receivedAt)
  | send (c : ClientID) (data : List Byte) (hc : c ∈ s.host.connected) :
      Outcome π s (.send c data) (s.setPeer c { s.peer c with
        outbox := (s.peer c).outbox ++ [(1, { origin := c, data := data })] })
  | receive (c : ClientID) (receivedAt : UInt32) (d : Datagram) (rest : List Datagram)
      (p : Packet) (hc : c ∈ s.host.connected) (hpending : (s.peer c).pending 1 = d :: rest)
      (hp : onClientDataReceived c d.data receivedAt = .ok p) :
      Outcome π s (.receive c receivedAt)
        { s.setPeer c ((s.peer c).dropNext 1) with queue := s.queue ++ [p] }
  | serve (stack : Nat) (hooks : Hooks) (p : Packet) (rest : List Packet) (h : Process)
      (hqueue : s.queue = p :: rest) (hp : p.header.type ≠ .connected)
      (hrun : serverHandler stack hooks.script p s.host = (.ok (), h))
      (hmoves : ReflTransGen (Move π) s.host h) :
      Outcome π s (.serve stack hooks) { s with host := h, queue := rest }
  | welcome (stack : Nat) (hooks : Hooks) (p : Packet) (rest : List Packet) (h : Process)
      (hqueue : s.queue = p :: rest) (hp : p.header.type = .connected)
      (hjoin : π.join s.host.scene) (hsnapshot : ∀ info ∈ s.stored, π.snapshot info)
      (htold : Told p.info.senderID s.stored s.host h) :
      Outcome π s (.serve stack hooks) { s with host := h, queue := rest }
  | deliver (c : ClientID) (receivedAt : UInt32) (d : Datagram) (rest : List Datagram)
      (m : Message) (p : Process) (hc : c ∈ s.host.connected)
      (hpending : s.host.pending c = d :: rest) (hm : messageOfData d.data = .ok m)
      (hhandled : Handled d.origin m (s.peer c) p) :
      Outcome π s (.deliver c receivedAt) { s.setPeer c p with host := s.host.dropNext c }
  | hostCall (stack : Nat) (hooks : Hooks) (call : GameCall) (h : Process)
      (hrun : call.run stack hooks s.host = (.ok (), h)) (hmoves : ReflTransGen (Move π) s.host h) :
      Outcome π s (.hostCall stack hooks call) { s with host := h }
  | peerCall (c : ClientID) (stack : Nat) (hooks : Hooks) (call : GameCall) (p : Process)
      (hc : c ∈ s.host.connected) (hrun : call.run stack hooks (s.peer c) = (.ok (), p))
      (hmoves : ReflTransGen (Move π) (s.peer c) p) :
      Outcome π s (.peerCall c stack hooks call) (s.setPeer c p)

/-- **What an event does.** -/
theorem step_outcome {s s' : Session} {e : Event} (hs : s.Obeys π) (he : π.Permits s e)
    (hstep : s.step e = some s') : Outcome π s e s' := by
  cases e with
  | connect c sentAt receivedAt =>
      simp only [step] at hstep
      split at hstep
      · cases hstep
      · next hc =>
        cases hstep
        rw [not_or, not_or] at hc
        exact .connect c sentAt receivedAt hc.1 hc.2.1 hc.2.2
  | disconnect c sentAt receivedAt =>
      simp only [step] at hstep
      split at hstep
      · next hc =>
        cases hstep
        exact .disconnect c sentAt receivedAt hc
      · cases hstep
  | send c data =>
      simp only [step] at hstep
      split at hstep
      · next hc =>
        cases hstep
        exact .send c data hc
      · cases hstep
  | receive c receivedAt =>
      simp only [step] at hstep
      split at hstep
      · next hc =>
        rcases hpending : (s.peer c).pending 1 with _ | ⟨d, rest⟩
        · simp only [hpending] at hstep
          cases hstep
        · simp only [hpending] at hstep
          split at hstep
          · next p hp =>
            cases hstep
            exact .receive c receivedAt d rest p hc hpending hp
          · cases hstep
      · cases hstep
  | serve stack hooks =>
      simp only [step] at hstep
      rcases hqueue : s.queue with _ | ⟨p, rest⟩
      · simp only [hqueue] at hstep
        cases hstep
      · simp only [hqueue] at hstep
        obtain ⟨h, hafter, hstep⟩ := Option.bind_eq_some_iff.mp hstep
        cases hstep
        have hrun := after_eq_some hafter
        obtain ⟨harrived, hone⟩ := hs.queue p (hqueue ▸ List.mem_cons_self)
        by_cases hp : p.header.type = .connected
        · simp only [serverHandler, hp] at hrun
          have htold := sendAllNetworkedEntitiesToClient_ok hooks.representable hs.host hone
            hs.role_eq hs.networkReady hrun
          obtain ⟨hjoin, hsnapshot⟩ := he p (by rw [hqueue]; rfl) hp
          exact .welcome stack hooks p rest h hqueue hp hjoin hsnapshot htold
        · obtain ⟨hmoves, _⟩ := serverHandler_moves harrived hp hs.role_eq hs.host hrun
          exact .serve stack hooks p rest h hqueue hp hrun hmoves
  | deliver c receivedAt =>
      simp only [step] at hstep
      split at hstep
      · next hc =>
        rcases hpending : s.host.pending c with _ | ⟨d, rest⟩
        · simp only [hpending] at hstep
          cases hstep
        · simp only [hpending] at hstep
          rcases harriving : arriving receivedAt d.data with e | p
          · simp only [harriving] at hstep
            cases hstep
          · simp only [harriving] at hstep
            obtain ⟨q, hafter, hstep⟩ := Option.bind_eq_some_iff.mp hstep
            cases hstep
            obtain ⟨m, hm, hhandled⟩ := clientHandler_ok (after_eq_some hafter)
            rw [arriving_ok harriving] at hm
            exact .deliver c receivedAt d rest m q hc hpending hm hhandled
      · cases hstep
  | hostCall stack hooks call =>
      obtain ⟨h, hafter, hstep⟩ := Option.bind_eq_some_iff.mp hstep
      cases hstep
      have hrun := after_eq_some hafter
      exact .hostCall stack hooks call h hrun (GameCall.moves hs.host he hrun).1
  | peerCall c stack hooks call =>
      simp only [step] at hstep
      split at hstep
      · next hc =>
        obtain ⟨p, hafter, hstep⟩ := Option.bind_eq_some_iff.mp hstep
        cases hstep
        have hrun := after_eq_some hafter
        exact .peerCall c stack hooks call p hc hrun
          (GameCall.moves (hs.member c hc).ready (he hc) hrun).1
      · cases hstep

/-- **The simulation.**  An event that the policy permits is a sequence of turns. -/
theorem step_turns {s s' : Session} {e : Event} (hs : s.Obeys π) (he : π.Permits s e)
    (hstep : s.step e = some s') : ReflTransGen (Turn π) s s' := by
  cases step_outcome hs he hstep with
  | connect c sentAt receivedAt hc hzero hone =>
      exact .single (.connect c sentAt receivedAt hc hzero hone rfl)
  | disconnect c sentAt receivedAt hc => exact .single (.disconnect c sentAt receivedAt hc rfl)
  | send c data hc => exact .single (.send c data hc he rfl)
  | receive c receivedAt d rest p hc hpending hp =>
      exact .single (.receive c receivedAt d rest p hc hpending hp rfl)
  | serve stack hooks p rest h hqueue hp hrun hmoves =>
      exact (turns_of_host_moves hmoves).tail (.pop p rest hqueue hp rfl)
  | welcome stack hooks p rest h hqueue hp hjoin hsnapshot htold =>
      exact .single (.welcome p rest h hqueue hp hjoin hsnapshot htold rfl)
  | deliver c receivedAt d rest m p hc hpending hm hhandled =>
      exact .single (.deliver c d rest m p hc hpending hm hhandled rfl)
  | hostCall stack hooks call h hrun hmoves => exact turns_of_host_moves hmoves
  | peerCall c stack hooks call p hc hrun hmoves => exact turns_of_peer_moves hc hmoves

/-- A session starts in obedience to every policy. -/
theorem start_obeys (registry : Registry) : (start registry).Obeys π where
  host := {
    role_ne := nofun
    host_id := fun _ => rfl
    nodup := List.nodup_nil
    not_connected := List.not_mem_nil
    kept := kept_empty registry
    announced_lt := fun _ _ _ hmem => by cases hmem
    reserved_lt := fun _ _ hid => absurd hid not_false }
  role_eq := rfl
  networkReady := rfl
  not_zero := List.not_mem_nil
  member := fun _ hc => by cases hc
  queue := fun _ hp => by cases hp
  effects := fun _ he => by cases he

/-- Something holds of all that has happened in the processes of the session. -/
def Everywhere (P : Effect → Prop) (s : Session) : Prop :=
  (∀ e ∈ s.host.effects, P e) ∧ ∀ c ∈ s.host.connected, ∀ e ∈ (s.peer c).effects, P e

instance (P : Effect → Prop) [DecidablePred P] (s : Session) : Decidable (s.Everywhere P) :=
  inferInstanceAs (Decidable (_ ∧ _))

/-- What a policy rules out has happened nowhere. -/
theorem Obeys.everywhere {P : Effect → Prop} {s : Session} (hs : s.Obeys π)
    (h : ∀ id e, π.Allows s.host.scene.registry id e → P e) : s.Everywhere P := by
  refine ⟨?_, ?_⟩
  · intro e he
    exact h 1 e (hs.effects e he)
  · intro c hc e he
    exact h c e ((hs.member c hc).effects e he)

/-- The registry is filled before the session. -/
theorem Turn.registry_eq {s s' : Session} (h : Turn π s s') :
    s'.host.scene.registry = s.host.scene.registry := by
  cases h with
  | host h hmove hs' => exact hs' ▸ hmove.frame.registry_eq
  | welcome p rest h hqueue hp hjoin hsnapshot htold hs' => exact hs' ▸ htold.frame.registry_eq
  | peer c p hc hmove hs' => exact hs' ▸ rfl
  | connect c sentAt receivedAt hc hzero hone hs' => exact hs' ▸ rfl
  | disconnect c sentAt receivedAt hc hs' => exact hs' ▸ rfl
  | send c data hc hasks hs' => exact hs' ▸ rfl
  | receive c t d rest p hc hpending hp hs' => exact hs' ▸ rfl
  | pop p rest hqueue hp hs' => exact hs' ▸ rfl
  | deliver c d rest m p hc hpending hm hhandled hs' => exact hs' ▸ rfl

/-- **The rule for runs.**  A condition on events that implies what the policy permits,
and an invariant of the turns: the invariant holds after every run that meets the
condition. -/
theorem run_invariant_of_permits (π : Policy) (Inv : Session → Prop)
    {ok : Session → Event → Prop} {registry : Registry}
    (hok : ∀ s e, s.Obeys π → s.host.scene.registry = registry → Inv s → ok s e → π.Permits s e)
    (hturn : ∀ s s', s.Obeys π → Inv s → Turn π s s' → Inv s')
    (hstart : Inv (start registry)) {es : List Event} {t : Session}
    (hmeets : Runs.Meets step ok (start registry) es)
    (hrun : Runs.run step (start registry) es = some t) :
    t.Obeys π ∧ t.host.scene.registry = registry ∧ Inv t := by
  have hevent : ∀ s e s', (s.Obeys π ∧ s.host.scene.registry = registry ∧ Inv s) → ok s e →
      s.step e = some s' → s'.Obeys π ∧ s'.host.scene.registry = registry ∧ Inv s' := by
    rintro s e s' ⟨hobeys, hregistry, hinv⟩ he hstep
    have hturns := step_turns hobeys (hok s e hobeys hregistry hinv he) hstep
    clear hstep
    induction hturns with
    | refl => exact ⟨hobeys, hregistry, hinv⟩
    | tail _ hlast ih =>
        obtain ⟨hobeys, hregistry, hinv⟩ := ih
        exact ⟨hobeys.turn hlast, hlast.registry_eq.trans hregistry, hturn _ _ hobeys hinv hlast⟩
  exact Runs.run_invariant_of_meets hevent hmeets hrun ⟨start_obeys registry, rfl, hstart⟩

end Session

end EnkiNet
