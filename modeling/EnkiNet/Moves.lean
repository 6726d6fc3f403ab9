import EnkiNet.Writing

/-!
# The moves of a process

Whatever the library does in a process is a sequence of a few kinds of moves: number
an entity, change something locally, announce an entity, relay a message, or send a
request to the server.  `Move` says of each kind everything that later invariants
need.

A move is relative to a `Policy`: what the requests that reach the server may ask
for.  Without restrictions every run is covered; an invariant that depends on what
clients send chooses the policy under which it holds.
-/

namespace EnkiNet

open ByteStore Packet

/-! ## Policies -/

/-- Restrictions on what is asked of a server: the ids that a creation request may
choose for itself, the updates that a client may send, the entities that a client
may be told of when it connects, and the scenegraphs that it may be told of. -/
structure Policy where
  chosen : EntityID → Prop
  update : ClientID → EntityInfo → Prop
  snapshot : EntityInfo → Prop
  join : Scenegraph → Prop := fun _ => True

namespace Policy

variable (π : Policy)

/-- What a client may ask of the server. -/
def Asks (c : ClientID) : Message → Prop
  | .creation info _ => info.ID = 0 ∨ π.chosen info.ID
  | .update info => π.update c info
  | _ => True

/-- What a server may then tell clients. -/
def Tells (origin : ClientID) : Message → Prop
  | .creation info _ => 0 < info.ID ∨ (info.ID ≠ 0 ∧ π.chosen info.ID)
  | .restore info => origin = 1 ∧ info.ID ≠ 0 ∧ π.snapshot info
  | .update info => π.update origin info
  | _ => True

/-- No request chooses an id. -/
def Strict : Prop := ∀ id, ¬ π.chosen id

end Policy

/-- A message that the server passes on as it is. -/
def Message.Relayed : Message → Prop
  | .update _ | .rpc _ | .deletion _ => True
  | _ => False

/-- A message about an entity that is there already, which it does not delete. -/
def Message.Talks : Message → Prop
  | .update _ | .rpc _ => True
  | _ => False

/-- Updates and calls are relayed. -/
theorem Message.Talks.relayed {m : Message} (h : m.Talks) : m.Relayed := by
  cases m with
  | update info => trivial
  | rpc info => trivial
  | _ => cases h

/-- Updates and calls delete nothing. -/
theorem Message.Talks.ne_deletion {m : Message} (h : m.Talks) (id : EntityID) :
    m ≠ .deletion id := by
  rintro rfl
  exact h

/-- What a client may ask for it may be told of. -/
theorem Policy.Asks.tells {π : Policy} {c : ClientID} {m : Message} (hm : m.Relayed)
    (h : π.Asks c m) : π.Tells c m := by
  cases m with
  | update info => exact h
  | rpc info => trivial
  | deletion id => trivial
  | _ => cases hm

namespace Process

/-! ## Moves -/

/-- Nobody has been told to create an entity with this id. -/
def Unannounced (s : Process) (id : EntityID) : Prop :=
  ∀ info held, Effect.announce info held ∈ s.effects → info.ID ≠ id

/-- An effect of something that happens in one process only. -/
inductive Idle (π : Policy) (s : Process) : Effect → Prop
  | onSpawn (info : EntityInfo) (spawnInfo : Packet) (h : Kept s.scene → info.ID < 0) :
      Idle π s (.onSpawn info spawnInfo)
  | execute (target : EntityInfo) (name : StdString) (arguments : List Value) :
      Idle π s (.execute target name arguments)
  | tick (info : EntityInfo) (h : π.update s.id info) : Idle π s (.tick info)

/-- A change that concerns no networked entity that is live. -/
structure Quiet (π : Policy) (s s' : Process) : Prop where
  frame : Frame s s'
  kept : Kept s.scene → Kept s'.scene
  outbox_eq : s'.outbox = s.outbox
  counter_eq : s'.scene.ID = s.scene.ID
  live_eq : Kept s.scene → ∀ id, 0 < id → s'.scene.live id = s.scene.live id
  held_eq : Kept s.scene → ∀ id, 0 < id →
    s'.scene.held id = s.scene.held id ∨ s'.scene.held id = none
  effects : ∃ new, s'.effects = s.effects ++ new ∧ ∀ e ∈ new, Idle π s e

inductive Move (π : Policy) (s s' : Process) : Prop
  | allocate (hmax : s.scene.ID ≠ Int32.maxValue)
      (h : s' = { s with scene := { s.scene with ID := s.scene.ID + 1 } })
  | quiet (h : Quiet π s s')
  | announce (info : EntityInfo) (spawnInfo : Packet) (t : Process) (hrole : s.role = .host)
      (hcreatable : Creatable s.scene.registry info) (htells : π.Tells 1 (.creation info spawnInfo))
      (hfresh : π.Strict → info.ID < s.scene.ID ∧ Unannounced s info.ID)
      (ht : t = { s with
        effects := s.effects ++ [.announce info (s.scene.held info.ID)] })
      (h : Broadcast 1 (fun _ => true) (.creation info spawnInfo) t s')
  | relay (origin : ClientID) (who : ClientID → Prop) (m : Message) (hrole : s.role = .host)
      (hm : m.Relayed) (htells : π.Tells origin m) (hall : ∀ id, m = .deletion id → ∀ c, who c)
      (h : Broadcast origin who m s s')
  | request (m : Message) (hrole : s.role = .client) (hasks : π.Asks s.id m)
      (h : Requested m s s')

/-- A move that neither creates nor deletes a networked entity, nor asks for it. -/
inductive Talk (π : Policy) (s s' : Process) : Prop
  | quiet (h : Quiet π s s')
  | relay (origin : ClientID) (who : ClientID → Prop) (m : Message) (hrole : s.role = .host)
      (hm : m.Talks) (htells : π.Tells origin m) (h : Broadcast origin who m s s')
  | request (m : Message) (hrole : s.role = .client) (hm : m.Talks) (hasks : π.Asks s.id m)
      (h : Requested m s s')

/-- Talking is a move that leaves the table alone. -/
theorem Talk.move {π : Policy} {s s' : Process} (h : Talk π s s') : Move π s s' := by
  cases h with
  | quiet h => exact .quiet h
  | relay origin who m hrole hm htells h =>
      exact .relay origin who m hrole hm.relayed htells
        (fun id hdeletion => absurd hdeletion (hm.ne_deletion id)) h
  | request m hrole hm hasks h => exact .request m hrole hasks h

/-! ### Frames -/

theorem Broadcast.frame {origin : ClientID} {who : ClientID → Prop} {m : Message}
    {s s' : Process} (h : Broadcast origin who m s s') : Frame s s' := by
  obtain ⟨t, hsent, ⟨_, _, hhandled⟩ | ⟨_, rfl⟩⟩ := h
  · exact hsent.frame.trans hhandled.frame
  · exact hsent.frame

/-- A broadcast keeps the table of the server in order. -/
theorem Broadcast.kept {origin : ClientID} {who : ClientID → Prop} {m : Message}
    {s s' : Process} (h : Broadcast origin who m s s') (hs : Kept s.scene) : Kept s'.scene := by
  obtain ⟨t, hsent, ⟨_, _, hhandled⟩ | ⟨_, rfl⟩⟩ := h
  · exact hhandled.kept (hsent.scene_eq ▸ hs)
  · exact hsent.scene_eq ▸ hs

/-- A broadcast hands out no id. -/
theorem Broadcast.counter_eq {origin : ClientID} {who : ClientID → Prop} {m : Message}
    {s s' : Process} (h : Broadcast origin who m s s') : s'.scene.ID = s.scene.ID := by
  obtain ⟨t, hsent, ⟨_, _, hhandled⟩ | ⟨_, rfl⟩⟩ := h
  · rw [hhandled.counter_eq, hsent.scene_eq]
  · rw [hsent.scene_eq]

/-- What a broadcast leaves behind in the server's own process. -/
theorem Broadcast.effects {origin : ClientID} {who : ClientID → Prop} {m : Message}
    {s s' : Process} (h : Broadcast origin who m s s') :
    ∃ new t, t.scene = s.scene ∧ s'.effects = s.effects ++ new ∧
      ∀ e ∈ new, Caused origin m t e := by
  obtain ⟨t, hsent, ⟨_, _, hhandled⟩ | ⟨_, rfl⟩⟩ := h
  · obtain ⟨new, hnew, hcaused⟩ := hhandled.effects
    exact ⟨new, t, hsent.scene_eq, by rw [hnew, hsent.effects_eq], hcaused⟩
  · exact ⟨[], s', hsent.scene_eq, by rw [hsent.effects_eq, List.append_nil], by simp⟩

theorem Move.frame {π : Policy} {s s' : Process} (h : Move π s s') : Frame s s' := by
  cases h with
  | allocate hmax h =>
      rw [h]
      exact ⟨rfl, rfl, rfl, rfl, rfl⟩
  | quiet h => exact h.frame
  | announce info spawnInfo t hrole hcreatable htells hfresh ht h =>
      subst ht
      have hframe := h.frame
      exact ⟨hframe.role_eq, hframe.id_eq, hframe.connected_eq, hframe.registry_eq,
        hframe.ready_eq⟩
  | relay origin who m hrole hm htells hall h => exact h.frame
  | request m hrole hasks h => exact h.frame

/-- Every move keeps the table of its process in order. -/
theorem Move.kept {π : Policy} {s s' : Process} (h : Move π s s') (hs : Kept s.scene) :
    Kept s'.scene := by
  cases h with
  | allocate hmax h =>
      rw [h]
      exact ⟨hs.localID_neg, Int32.lt_trans hs.ID_pos (lt_add_one hmax), hs.stored⟩
  | quiet h => exact h.kept hs
  | announce info spawnInfo t hrole hcreatable htells hfresh ht h =>
      subst ht
      exact h.kept hs
  | relay origin who m hrole hm htells hall h => exact h.kept hs
  | request m hrole hasks h => exact h.scene_eq ▸ hs

/-! ### Preconditions -/

/-- A process that takes part in a host session.  `reserved` are ids that have been
given out and not been used yet. -/
structure Ready (π : Policy) (reserved : EntityID → Prop) (s : Process) : Prop where
  role_ne : s.role ≠ .server
  host_id : s.role = .host → s.id = 1
  nodup : s.connected.Nodup
  not_connected : 1 ∉ s.connected
  kept : Kept s.scene
  announced_lt : π.Strict → ∀ info held, Effect.announce info held ∈ s.effects →
    info.ID < s.scene.ID
  reserved_lt : π.Strict → ∀ id, reserved id → id < s.scene.ID ∧ Unannounced s id

/-- A ready server has a client of its own. -/
theorem Ready.role_eq_host {π : Policy} {reserved : EntityID → Prop} {s : Process}
    (hs : Ready π reserved s) (h : s.role ≠ .client) : s.role = .host := by
  cases hrole : s.role with
  | host => rfl
  | server => exact absurd hrole hs.role_ne
  | client => exact absurd hrole h

/-- Handling a message announces nothing. -/
theorem Caused.ne_announce {origin : ClientID} {m : Message} {s : Process} {e : Effect}
    (h : Caused origin m s e) (info : EntityInfo) (held : Option EntityInfo) :
    e ≠ .announce info held := by
  cases h <;> simp

/-- Neither does what happens between messages. -/
theorem Idle.ne_announce {π : Policy} {s : Process} {e : Effect} (h : Idle π s e)
    (info : EntityInfo) (held : Option EntityInfo) : e ≠ .announce info held := by
  cases h <;> simp

/-- A move announces at most one entity. -/
theorem Move.announced {π : Policy} {s s' : Process} (h : Move π s s') {info : EntityInfo}
    {held : Option EntityInfo} (hmem : Effect.announce info held ∈ s'.effects) :
    Effect.announce info held ∈ s.effects ∨
      (held = s.scene.held info.ID ∧ s.role = .host ∧
        (π.Strict → info.ID < s.scene.ID ∧ Unannounced s info.ID)) := by
  cases h with
  | allocate hmax h =>
      rw [h] at hmem
      exact Or.inl hmem
  | quiet h =>
      obtain ⟨new, hnew, hidle⟩ := h.effects
      rw [hnew] at hmem
      rcases List.mem_append.mp hmem with hold | hnew
      · exact Or.inl hold
      · exact absurd rfl ((hidle _ hnew).ne_announce info held)
  | announce info' spawnInfo t hrole hcreatable htells hfresh ht h =>
      obtain ⟨new, u, _, hnew, hcaused⟩ := h.effects
      rw [hnew, ht] at hmem
      rcases List.mem_append.mp hmem with hold | hnew
      · rcases List.mem_append.mp hold with hold | hself
        · exact Or.inl hold
        · cases List.mem_singleton.mp hself
          exact Or.inr ⟨rfl, hrole, hfresh⟩
      · exact absurd rfl ((hcaused _ hnew).ne_announce info held)
  | relay origin who m hrole hm htells hall h =>
      obtain ⟨new, u, _, hnew, hcaused⟩ := h.effects
      rw [hnew] at hmem
      rcases List.mem_append.mp hmem with hold | hnew
      · exact Or.inl hold
      · exact absurd rfl ((hcaused _ hnew).ne_announce info held)
  | request m hrole hasks h =>
      rw [h.effects_eq] at hmem
      exact Or.inl hmem

/-- The counter of ids never goes back. -/
theorem Move.counter_le {π : Policy} {s s' : Process} (h : Move π s s') :
    s.scene.ID ≤ s'.scene.ID := by
  cases h with
  | allocate hmax h =>
      rw [h]
      exact Int32.le_of_lt (lt_add_one hmax)
  | quiet h => exact Int32.le_of_eq h.counter_eq.symm
  | announce info spawnInfo t hrole hcreatable htells hfresh ht h =>
      subst ht
      exact Int32.le_of_eq h.counter_eq.symm
  | relay origin who m hrole hm htells hall h => exact Int32.le_of_eq h.counter_eq.symm
  | request m hrole hasks h =>
      exact Int32.le_of_eq (congrArg Scenegraph.ID h.scene_eq).symm

/-- Whatever announces nothing leaves the process ready. -/
theorem Ready.of_frame {π : Policy} {reserved : EntityID → Prop} {s s' : Process}
    (hs : Ready π reserved s) (hframe : Frame s s') (hkept : Kept s'.scene)
    (hcounter : s'.scene.ID = s.scene.ID)
    (hannounce : ∀ info held, Effect.announce info held ∈ s'.effects →
      Effect.announce info held ∈ s.effects) : Ready π reserved s' where
  role_ne := hframe.role_eq ▸ hs.role_ne
  host_id := hframe.role_eq ▸ hframe.id_eq ▸ hs.host_id
  nodup := hframe.connected_eq ▸ hs.nodup
  not_connected := hframe.connected_eq ▸ hs.not_connected
  kept := hkept
  announced_lt hstrict info held hmem :=
    hcounter ▸ hs.announced_lt hstrict info held (hannounce info held hmem)
  reserved_lt hstrict id hid := by
    obtain ⟨hlt, hnone⟩ := hs.reserved_lt hstrict id hid
    exact ⟨hcounter ▸ hlt, fun info held hmem => hnone info held (hannounce info held hmem)⟩

/-- Handling a message leaves a ready process ready. -/
theorem Handled.ready {π : Policy} {reserved : EntityID → Prop} {origin : ClientID} {m : Message}
    {s s' : Process} (h : Handled origin m s s') (hs : Ready π reserved s) :
    Ready π reserved s' := by
  obtain ⟨new, hnew, hcaused⟩ := h.effects
  refine hs.of_frame h.frame (h.kept hs.kept) h.counter_eq ?_
  intro info held hmem
  rw [hnew] at hmem
  rcases List.mem_append.mp hmem with hold | hmem
  · exact hold
  · exact absurd rfl ((hcaused _ hmem).ne_announce info held)

/-- A move that announces no reserved id leaves the process ready. -/
theorem Ready.move {π : Policy} {reserved : EntityID → Prop} {s s' : Process}
    (hs : Ready π reserved s) (h : Move π s s')
    (hspare : π.Strict → ∀ info held, Effect.announce info held ∈ s'.effects →
      reserved info.ID → Effect.announce info held ∈ s.effects) : Ready π reserved s' := by
  have hframe := h.frame
  refine ⟨?_, ?_, ?_, ?_, h.kept hs.kept, ?_, ?_⟩
  · rw [hframe.role_eq]
    exact hs.role_ne
  · rw [hframe.role_eq, hframe.id_eq]
    exact hs.host_id
  · rw [hframe.connected_eq]
    exact hs.nodup
  · rw [hframe.connected_eq]
    exact hs.not_connected
  · intro hstrict info held hmem
    rcases h.announced hmem with hold | ⟨_, _, hfresh⟩
    · exact Int32.lt_of_lt_of_le (hs.announced_lt hstrict info held hold) h.counter_le
    · exact Int32.lt_of_lt_of_le (hfresh hstrict).1 h.counter_le
  · intro hstrict id hid
    obtain ⟨hlt, hnone⟩ := hs.reserved_lt hstrict id hid
    refine ⟨Int32.lt_of_lt_of_le hlt h.counter_le, ?_⟩
    rintro info held hmem rfl
    exact hnone info held (hspare hstrict info held hmem hid) rfl

/-- Ids need not stay reserved. -/
theorem Ready.weaken {π : Policy} {reserved fewer : EntityID → Prop} {s : Process}
    (hs : Ready π reserved s) (h : ∀ id, fewer id → reserved id) : Ready π fewer s :=
  { hs with reserved_lt := fun hstrict id hid => hs.reserved_lt hstrict id (h id hid) }

end Process

end EnkiNet
