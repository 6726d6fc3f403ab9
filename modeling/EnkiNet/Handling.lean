import EnkiNet.Message

/-!
# What handling a packet does to a process

One lemma for each function of a process that callers rely on: what it leaves
unchanged (`Frame`), which entities it touches, what it hands to the transport
and which effects it records.  Everything that happens when a client's handler
succeeds follows from the message it read (`Handled`).
-/

namespace EnkiNet

open ByteStore Packet

namespace Process

/-! ## Frames -/

/-- What no handler changes. -/
structure Frame (s s' : Process) : Prop where
  role_eq : s'.role = s.role
  id_eq : s'.id = s.id
  connected_eq : s'.connected = s.connected
  registry_eq : s'.scene.registry = s.scene.registry
  ready_eq : s'.scene.networkReady = s.scene.networkReady

theorem Frame.refl (s : Process) : Frame s s := ⟨rfl, rfl, rfl, rfl, rfl⟩

/-- What two programs leave alone, both leave alone together. -/
theorem Frame.trans {s t u : Process} (h : Frame s t) (h' : Frame t u) : Frame s u where
  role_eq := h'.role_eq.trans h.role_eq
  id_eq := h'.id_eq.trans h.id_eq
  connected_eq := h'.connected_eq.trans h.connected_eq
  registry_eq := h'.registry_eq.trans h.registry_eq
  ready_eq := h'.ready_eq.trans h.ready_eq

/-- What has been handed to the transport for one client. -/
def pending (s : Process) (c : ClientID) : List Datagram :=
  s.outbox.filterMap fun (dest, d) => if dest = c then some d else none

/-! ## Primitive programs -/

/-- Reading a packet does not change the process. -/
theorem onPacket_ok {α : Type} {x : PacketM α} {p : Packet} {s s' : Process} {r : α × Packet}
    (h : onPacket x p s = (.ok r, s')) : x p = (.ok r.1, r.2) ∧ s' = s := by
  unfold onPacket at h
  split at h
  · next a p' hx =>
    cases h
    exact ⟨hx, rfl⟩
  · cases h

/-- Reading from or writing to a local packet leaves the process alone. -/
theorem bind_onPacket_ok {α β : Type} {x : PacketM α} {f : α × Packet → ProcessM β} {p : Packet}
    {s s' : Process} {b : β} (h : (onPacket x p >>= f) s = (.ok b, s')) :
    ∃ a p', x p = (.ok a, p') ∧ f (a, p') s = (.ok b, s') := by
  obtain ⟨⟨a, p'⟩, t, hx, hrest⟩ := Fallible.bind_eq_ok h
  obtain ⟨hrun, rfl⟩ := onPacket_ok hx
  exact ⟨a, p', hrun, hrest⟩

/-- What goes on had the bytes of the packet. -/
theorem bind_wireBytes_ok {β : Type} {f : List Byte → ProcessM β} {p : Packet} {s s' : Process}
    {b : β} (h : (wireBytes p >>= f) s = (.ok b, s')) :
    ∃ data, p.wire = .ok data ∧ f data s = (.ok b, s') := by
  rcases hwire : p.wire with e | data
  · have herror : wireBytes p s = (.error e, s) := by rw [wireBytes, hwire]
    rw [Fallible.bind_error herror] at h
    cases h
  · have hok : wireBytes p s = (.ok data, s) := by rw [wireBytes, hwire]
    exact ⟨data, rfl, by rwa [Fallible.bind_ok hok] at h⟩

/-- The packet as a send function hands it on at time `t`. -/
def stamped (t : UInt32) (p : Packet) : Packet := p.setHeader ⟨p.header.type, t⟩

/-- Every packet that is sent carries the time of sending. -/
theorem bind_stamp {β : Type} (f : Packet → ProcessM β) (p : Packet) (s : Process) :
    (stamp p >>= f) s = f (stamped s.now p) s := rfl

/-! ## Ids -/

/-- Local ids count down and stay negative. -/
theorem sub_one_neg {n : EntityID} (h : n < 0) (hne : n ≠ Int32.minValue) : n - 1 < 0 := by
  have hneg : n.toInt < 0 := Int32.lt_iff_toInt_lt.mp h
  have hlow : -2147483648 ≤ n.toInt := Int32.le_toInt n
  have hne' : n.toInt ≠ -2147483648 := fun heq => hne (Int32.toInt_inj.mp heq)
  have hone : Int32.toInt 1 = 1 := rfl
  have hzero : Int32.toInt 0 = 0 := rfl
  rw [Int32.lt_iff_toInt_lt, Int32.toInt_sub, hone, hzero, Int.bmod_def]
  omega

/-- Networked ids count up until the counter is full. -/
theorem lt_add_one {n : EntityID} (hne : n ≠ Int32.maxValue) : n < n + 1 := by
  have hlow : -2147483648 ≤ n.toInt := Int32.le_toInt n
  have hup : n.toInt < 2147483648 := Int32.toInt_lt n
  have hne' : n.toInt ≠ 2147483647 := fun heq => hne (Int32.toInt_inj.mp heq)
  have hone : Int32.toInt 1 = 1 := rfl
  rw [Int32.lt_iff_toInt_lt, Int32.toInt_add, hone, Int.bmod_def]
  omega

/-! ## Creating an entity -/

/-- `createEntity` makes an entity of this info. -/
def Creatable (r : Registry) (info : EntityInfo) : Prop :=
  info.Named ∧ (r.builders info.type).isSome

instance (r : Registry) (info : EntityInfo) : Decidable (Creatable r info) :=
  inferInstanceAs (Decidable (_ ∧ _))

/-- Entities are stored under their own ids, local ids are negative and networked
ones are numbered from a positive counter. -/
structure Kept (g : Scenegraph) : Prop where
  localID_neg : g.localID < 0
  ID_pos : 0 < g.ID
  stored : ∀ (id : EntityID) (ent : Entity), g.entities[id]? = some ent →
    ent.info.ID = id ∧ id ≠ 0 ∧ Creatable g.registry ent.info

/-- What is held is kept under its own id, and its type is registered. -/
theorem Kept.of_held {g : Scenegraph} (h : Kept g) {id : EntityID} {info : EntityInfo}
    (hheld : g.held id = some info) : info.ID = id ∧ id ≠ 0 ∧ Creatable g.registry info := by
  obtain ⟨ent, hent, rfl⟩ := Option.map_eq_some_iff.mp hheld
  exact h.stored id ent hent

/-- `nextLocalID` hands out the counter and decrements it. -/
theorem nextLocalID_ok {s s' : Process} {id : EntityID} (h : nextLocalID s = (.ok id, s')) :
    s.scene.localID ≠ Int32.minValue ∧ id = s.scene.localID ∧
      s' = { s with scene := { s.scene with localID := s.scene.localID - 1 } } := by
  simp only [nextLocalID, Fallible.bind_get] at h
  split at h
  · cases h
  · next hne =>
    cases h
    exact ⟨hne, rfl, rfl⟩

/-- `nextID` hands out the counter and increments it. -/
theorem nextID_ok {s s' : Process} {id : EntityID} (h : nextID s = (.ok id, s')) :
    s.scene.ID ≠ Int32.maxValue ∧ id = s.scene.ID ∧
      s' = { s with scene := { s.scene with ID := s.scene.ID + 1 } } := by
  simp only [nextID, Fallible.bind_get] at h
  split at h
  · cases h
  · next hne =>
    cases h
    exact ⟨hne, rfl, rfl⟩

/-- What is stored under an id after `createEntity` succeeded in making an entity. -/
structure Created (info : EntityInfo) (spawnInfo : Packet) (ent : Entity) (s s' : Process) :
    Prop where
  frame : Frame s s'
  creatable : Creatable s.scene.registry info
  info_eq : ent.info = { info with ID := if info.ID = 0 then s.scene.localID else info.ID }
  unmarked : ent.remove = false
  entities_eq : ∀ id, s'.scene.entities[id]? =
    if ent.info.ID = id then some ent else s.scene.entities[id]?
  counter_eq : s'.scene.ID = s.scene.ID
  local_eq : s'.scene.localID = s.scene.localID ∨
    s.scene.localID ≠ Int32.minValue ∧ s'.scene.localID = s.scene.localID - 1
  ticks_eq : s'.scene.totalNetworkTicks = s.scene.totalNetworkTicks
  outbox_eq : s'.outbox = s.outbox
  broadcasts_eq : s'.broadcasts = s.broadcasts
  effects_eq : s'.effects = s.effects ++ [.onSpawn ent.info spawnInfo]

/-- `createEntity` returns null or has stored the entity. -/
theorem createEntity_ok {info : EntityInfo} {spawnInfo : Packet} {r : Option Entity}
    {s s' : Process} (h : createEntity info spawnInfo s = (.ok r, s')) :
    (r = none ∧ s' = s ∧ ¬ Creatable s.scene.registry info) ∨
      ∃ ent, r = some ent ∧ Created info spawnInfo ent s s' := by
  simp only [createEntity, Fallible.bind_get] at h
  split at h
  · next hnamed =>
    cases h
    exact Or.inl ⟨rfl, rfl, fun hc => hnamed hc.1⟩
  next hnamed =>
  rcases hcls : s.scene.registry.builders info.type with _ | cls
  · simp only [hcls] at h
    cases h
    refine Or.inl ⟨rfl, rfl, fun hc => ?_⟩
    rw [Creatable, hcls] at hc
    exact absurd hc.2 (by simp)
  simp only [hcls] at h
  have hcreatable : Creatable s.scene.registry info :=
    ⟨not_not.mp hnamed, by rw [hcls]; rfl⟩
  refine Or.inr ?_
  split at h
  · next hzero =>
    obtain ⟨ID, s₁, hID, hrest⟩ := Fallible.bind_eq_ok h
    obtain ⟨hne, rfl, rfl⟩ := nextLocalID_ok hID
    cases hrest
    refine ⟨_, rfl, ⟨rfl, rfl, rfl, rfl, rfl⟩, hcreatable, ?_, rfl, ?_, rfl, ?_, rfl, rfl, rfl, rfl⟩
    · simp [hzero]
    · intro id
      exact Scenegraph.getElem?_setEntity _ _ _ _
    · exact Or.inr ⟨hne, rfl⟩
  · next hzero =>
    cases h
    refine ⟨_, rfl, ⟨rfl, rfl, rfl, rfl, rfl⟩, hcreatable, ?_, rfl, ?_, rfl, ?_, rfl, rfl, rfl, rfl⟩
    · simp [hzero]
    · intro id
      exact Scenegraph.getElem?_setEntity _ _ _ _
    · exact Or.inl rfl

/-- A stored entity has its own id as key. -/
theorem Created.kept {info : EntityInfo} {spawnInfo : Packet} {ent : Entity} {s s' : Process}
    (h : Created info spawnInfo ent s s') (hs : Kept s.scene) : Kept s'.scene where
  localID_neg := by
    rcases h.local_eq with heq | ⟨hne, heq⟩ <;> rw [heq]
    · exact hs.localID_neg
    · exact sub_one_neg hs.localID_neg hne
  ID_pos := by
    rw [h.counter_eq]
    exact hs.ID_pos
  stored := by
    intro id e he
    rw [h.frame.registry_eq]
    rw [h.entities_eq] at he
    split at he
    · next hid =>
      cases he
      have hcreatable : Creatable s.scene.registry ent.info := by
        rw [h.info_eq]
        exact h.creatable
      refine ⟨hid, ?_, hcreatable⟩
      rw [← hid, h.info_eq]
      have hneg := hs.localID_neg
      by_cases hzero : info.ID = 0
      · simp only [hzero, if_true]
        exact Int32.ne_of_lt hneg
      · rw [if_neg hzero]
        exact hzero
    · exact hs.stored id e he

/-! ## Handling a message -/

/-- The networked entities among those whose `onSpawn` was called, with its packets. -/
def networkSpawns (effects : List Effect) : List (EntityInfo × Packet) :=
  effects.filterMap fun
    | .onSpawn info spawnInfo => if 0 < info.ID then some (info, spawnInfo) else none
    | _ => none

theorem networkSpawns_append (effects more : List Effect) :
    networkSpawns (effects ++ more) = networkSpawns effects ++ networkSpawns more :=
  List.filterMap_append

/-- Only spawns of networked ids count. -/
theorem networkSpawns_onSpawn (info : EntityInfo) (spawnInfo : Packet) :
    networkSpawns [.onSpawn info spawnInfo] = if 0 < info.ID then [(info, spawnInfo)] else [] := by
  by_cases h : 0 < info.ID <;> simp [networkSpawns, h]

end Process

namespace Message

/-- The networked entity that a client creates when it handles the message. -/
def created (r : Registry) : Message → Option EntityInfo
  | .creation info _ | .restore info => if Process.Creatable r info then some info else none
  | _ => none

/-- The networked entity whose `onSpawn` is called then, with its packet. -/
def spawned (r : Registry) : Message → List (EntityInfo × Packet)
  | .creation info spawnInfo =>
      if Process.Creatable r info ∧ 0 < info.ID then [(info, spawnInfo)] else []
  | .restore info => if Process.Creatable r info ∧ 0 < info.ID then [(info, ofHeader {})] else []
  | _ => []

/-- A message that creates nothing spawns nothing. -/
theorem spawned_eq_nil {r : Registry} {m : Message} (h : m.created r = none) :
    m.spawned r = [] := by
  cases m with
  | creation info spawnInfo =>
      refine if_neg fun hc => ?_
      rw [created, if_pos hc.1] at h
      cases h
  | restore info =>
      refine if_neg fun hc => ?_
      rw [created, if_pos hc.1] at h
      cases h
  | _ => rfl

theorem spawned_creation {r : Registry} {info : EntityInfo} (h : Process.Creatable r info)
    (spawnInfo : Packet) :
    (creation info spawnInfo).spawned r = if 0 < info.ID then [(info, spawnInfo)] else [] := by
  simp only [spawned, h, true_and]

theorem spawned_restore {r : Registry} {info : EntityInfo} (h : Process.Creatable r info) :
    (restore info).spawned r = if 0 < info.ID then [(info, ofHeader {})] else [] := by
  simp only [spawned, h, true_and]

/-- What is stored under an id afterwards. -/
def onHeld (r : Registry) (m : Message) (held : EntityID → Option EntityInfo) (id : EntityID) :
    Option EntityInfo :=
  match m.created r with
  | some info => if info.ID = id then some info else held id
  | none => held id

/-- What is stored and not marked for removal afterwards. -/
def onLive (r : Registry) (m : Message) (live : EntityID → Option EntityInfo) (id : EntityID) :
    Option EntityInfo :=
  if m = .deletion id then none else m.onHeld r live id

end Message

namespace Process

/-- An effect that a client's handler can have when it handles `m` from `origin` in
the state `s`. -/
inductive Caused (origin : ClientID) (m : Message) (s : Process) : Effect → Prop
  | onSpawn (info : EntityInfo) (spawnInfo : Packet) : Caused origin m s (.onSpawn info spawnInfo)
  | spawn (info : EntityInfo) (spawnInfo : Packet) (hm : m = .creation info spawnInfo) :
      Caused origin m s (.spawn info (s.scene.held info.ID))
  | restore (info : EntityInfo) (hm : m = .restore info) :
      Caused origin m s (.restore info (s.scene.held info.ID))
  | deserializeOnConnection (info target : EntityInfo) (hm : m = .restore info)
      (htarget : info.ID ≠ 0 → target = info) :
      Caused origin m s (.deserializeOnConnection target origin)
  | deserializeOnTick (target : EntityInfo) (hm : m = .update target)
      (hheld : s.scene.held target.ID = some target) :
      Caused origin m s (.deserializeOnTick target origin)
  | restoreOnTick (info target : EntityInfo) (cls : EntityClass) (hm : m = .restore info)
      (hclass : s.scene.registry.builders info.type = some cls)
      (hdefault : cls.overridesOnConnection = false) (htarget : info.ID ≠ 0 → target = info) :
      Caused origin m s (.deserializeOnTick target origin)
  | execute (target : EntityInfo) (name : StdString) (arguments : List Value)
      (hm : m = .rpc target) (hheld : s.scene.held target.ID = some target) :
      Caused origin m s (.execute target name arguments)

/-- What handling the message `m` from `origin` does to a process. -/
structure Handled (origin : ClientID) (m : Message) (s s' : Process) : Prop where
  frame : Frame s s'
  kept : Kept s.scene → Kept s'.scene
  outbox_eq : s'.outbox = s.outbox
  broadcasts_eq : s'.broadcasts = s.broadcasts
  counter_eq : s'.scene.ID = s.scene.ID
  held_eq : Kept s.scene → ∀ id, 0 < id →
    s'.scene.held id = m.onHeld s.scene.registry s.scene.held id
  live_eq : Kept s.scene → ∀ id, 0 < id →
    s'.scene.live id = m.onLive s.scene.registry s.scene.live id
  effects : ∃ new, s'.effects = s.effects ++ new ∧ ∀ e ∈ new, Caused origin m s e
  spawns_eq : Kept s.scene →
    networkSpawns s'.effects = networkSpawns s.effects ++ m.spawned s.scene.registry

/-- A message that only has effects. -/
theorem Handled.of_effects {origin : ClientID} {m : Message} {s : Process} {new : List Effect}
    (hcreated : m.created s.scene.registry = none) (hdeletion : ∀ id, m ≠ .deletion id)
    (hnew : ∀ e ∈ new, Caused origin m s e) (hspawns : networkSpawns new = []) :
    Handled origin m s { s with effects := s.effects ++ new } where
  frame := ⟨rfl, rfl, rfl, rfl, rfl⟩
  kept h := h
  outbox_eq := rfl
  broadcasts_eq := rfl
  counter_eq := rfl
  held_eq _ id _ := by rw [Message.onHeld, hcreated]
  live_eq _ id _ := by rw [Message.onLive, if_neg (hdeletion id), Message.onHeld, hcreated]
  effects := ⟨new, rfl, hnew⟩
  spawns_eq _ := by rw [networkSpawns_append, hspawns, Message.spawned_eq_nil hcreated]

/-- A message that neither creates nor deletes can leave the process as it is. -/
theorem Handled.of_same {origin : ClientID} {m : Message} {s : Process}
    (hcreated : m.created s.scene.registry = none) (hdeletion : ∀ id, m ≠ .deletion id) :
    Handled origin m s s := by
  have h : Handled origin m s { s with effects := s.effects ++ [] } :=
    Handled.of_effects hcreated hdeletion (by simp) rfl
  simpa using h

/-- A deletion marks the entity. -/
theorem handled_flag (origin : ClientID) (id : EntityID) (s : Process) :
    Handled origin (.deletion id) s { s with scene := s.scene.flag id } where
  frame := ⟨rfl, rfl, rfl, rfl, rfl⟩
  kept h := {
    localID_neg := h.localID_neg
    ID_pos := h.ID_pos
    stored := by
      intro id' ent hent
      have hheld : (s.scene.flag id).held id' = some ent.info := by
        rw [Scenegraph.held, hent, Option.map_some]
      rw [Scenegraph.held_flag] at hheld
      exact h.of_held hheld }
  outbox_eq := rfl
  broadcasts_eq := rfl
  counter_eq := rfl
  held_eq _ id' _ := Scenegraph.held_flag _ _ _
  live_eq _ id' _ := by
    rw [Scenegraph.live_flag, Message.onLive]
    by_cases heq : id = id'
    · rw [if_pos heq, if_pos (by rw [heq])]
    · rw [if_neg heq, if_neg fun hdel => heq (Message.deletion.inj hdel)]
      rfl
  effects := ⟨[], by simp, by simp⟩
  spawns_eq _ := (List.append_nil _).symm

/-- The deletion of what is not there changes nothing. -/
theorem handled_missing {origin : ClientID} {id : EntityID} {s : Process}
    (h : ¬ s.scene.entityExists id) : Handled origin (.deletion id) s s where
  frame := Frame.refl s
  kept h := h
  outbox_eq := rfl
  broadcasts_eq := rfl
  counter_eq := rfl
  held_eq _ id' _ := rfl
  live_eq _ id' _ := by
    rw [Message.onLive]
    split
    · next heq =>
      have hnone : s.scene.entities[id]? = none :=
        Std.TreeMap.getElem?_eq_none_of_contains_eq_false (Bool.eq_false_of_not_eq_true h)
      rw [← Message.deletion.inj heq, Scenegraph.live, hnone]
      rfl
    · rfl
  effects := ⟨[], by simp, by simp⟩
  spawns_eq _ := (List.append_nil _).symm

/-- A creation that succeeds, with the effects around it. -/
theorem Handled.of_created {origin : ClientID} {m : Message} {info : EntityInfo}
    {spawnInfo : Packet} {ent : Entity} {s t t' s' : Process} (before after : List Effect)
    (hm : m.created s.scene.registry = some info) (hdeletion : ∀ id, m ≠ .deletion id)
    (ht : t = { s with effects := s.effects ++ before })
    (hcreated : Created info spawnInfo ent t t')
    (hs' : s' = { t' with effects := t'.effects ++ after })
    (hbefore : ∀ e ∈ before, Caused origin m s e) (hafter : ∀ e ∈ after, Caused origin m s e)
    (hspawned : m.spawned s.scene.registry = if 0 < info.ID then [(info, spawnInfo)] else [])
    (hnone : networkSpawns before = [] ∧ networkSpawns after = []) :
    Handled origin m s s' := by
  subst ht hs'
  have hget : Kept s.scene → ∀ id, 0 < id → t'.scene.entities[id]? =
      if info.ID = id then some ent else s.scene.entities[id]? := by
    intro hkept id hid
    rw [hcreated.entities_eq, hcreated.info_eq]
    by_cases hzero : info.ID = 0
    · have hlocal : s.scene.localID ≠ id := Int32.ne_of_lt (Int32.lt_trans hkept.localID_neg hid)
      have hne : info.ID ≠ id := by
        rw [hzero]
        exact Int32.ne_of_lt hid
      simp only [hzero, if_true, hlocal, if_false, Int32.ne_of_lt hid]
    · simp only [hzero, if_false]
  have hinfo : info.ID ≠ 0 → ent.info = info := by
    intro hne
    rw [hcreated.info_eq, if_neg hne]
  have hpos : ∀ id : EntityID, 0 < id → info.ID = id → ent.info = info := by
    intro id hid heq
    apply hinfo
    rw [heq]
    exact (Int32.ne_of_lt hid).symm
  have hframe := hcreated.frame
  refine ⟨⟨hframe.role_eq, hframe.id_eq, hframe.connected_eq, hframe.registry_eq,
    hframe.ready_eq⟩, ?_, hcreated.outbox_eq, hcreated.broadcasts_eq, hcreated.counter_eq, ?_, ?_,
      ?_, ?_⟩
  · intro hkept
    exact hcreated.kept hkept
  · intro hkept id hid
    rw [Message.onHeld, hm, Scenegraph.held, hget hkept id hid]
    split
    · next heq => simp only [heq, if_true, Option.map_some, hpos id hid heq]
    · next hne => simp [hne, Scenegraph.held]
  · intro hkept id hid
    rw [Message.onLive, if_neg (hdeletion id), Message.onHeld, hm, Scenegraph.live,
      hget hkept id hid]
    split
    · next heq =>
      simp only [heq, if_true, Option.bind_some, hcreated.unmarked, hpos id hid heq]
      rfl
    · next hne => simp [hne, Scenegraph.live]
  · refine ⟨before ++ [.onSpawn ent.info spawnInfo] ++ after, ?_, ?_⟩
    · simp [hcreated.effects_eq]
    · intro e he
      simp only [List.mem_append, List.mem_singleton] at he
      rcases he with (he | rfl) | he
      · exact hbefore e he
      · exact Caused.onSpawn _ _
      · exact hafter e he
  · intro hkept
    have hone : networkSpawns [.onSpawn ent.info spawnInfo] = m.spawned s.scene.registry := by
      rw [hspawned, networkSpawns_onSpawn]
      by_cases hzero : info.ID = 0
      · have hneg : ¬ 0 < ent.info.ID := by
          rw [hcreated.info_eq]
          simp only [hzero, if_true]
          exact Int32.not_lt.mpr (Int32.le_of_lt hkept.localID_neg)
        rw [if_neg hneg, hzero]
        rfl
      · rw [hinfo hzero]
    simp only [networkSpawns_append, hcreated.effects_eq, hnone.1, hnone.2, hone, List.append_nil]

/-! ### The client's handler -/

/-- A call is executed or nothing happens. -/
theorem receiveRPC_ok {p : Packet} {target : EntityInfo} {s s' : Process}
    (h : receiveRPC p target s = (.ok (), s')) :
    s' = s ∨ ∃ name arguments,
      s' = { s with effects := s.effects ++ [.execute target name arguments] } := by
  simp only [receiveRPC, Fallible.bind_get] at h
  split at h
  · cases h
    exact Or.inl rfl
  · revert h
    rcases (readCall s.scene.registry p).1 with (_ | _ | _ | _ | _) | ⟨name, _ | arguments⟩ <;>
      intro h <;> cases h
    · exact Or.inl rfl
    · exact Or.inl rfl
    · exact Or.inl rfl
    · exact Or.inl rfl
    · exact Or.inl rfl
    · exact Or.inr ⟨name, arguments, rfl⟩

/-- Restoring an entity is an effect and no more. -/
theorem deserializeOnConnection_ok {origin : ClientID} {ent : Entity} {s s' : Process}
    (h : deserializeOnConnection origin ent s = (.ok (), s')) :
    s' = { s with effects := s.effects ++ [.deserializeOnConnection ent.info origin] } ∨
      (s' = { s with effects := s.effects ++ [.deserializeOnTick ent.info origin] } ∧
        ∀ cls, s.scene.registry.builders ent.info.type = some cls →
          cls.overridesOnConnection = false) := by
  simp only [deserializeOnConnection, Fallible.bind_get] at h
  revert h
  rcases s.scene.registry.builders ent.info.type with _ | ⟨rate, _ | _⟩ <;> intro h <;> cases h
  · exact Or.inr ⟨rfl, by simp⟩
  · exact Or.inr ⟨rfl, by simp⟩
  · exact Or.inl rfl

/-- **Everything a client's handler does follows from the message it read.** -/
theorem clientHandler_ok {origin : ClientID} {p : Packet} {s s' : Process}
    (h : clientHandler origin p s = (.ok (), s')) :
    ∃ m, messageOf p = .ok m ∧ Handled origin m s s' := by
  cases htype : p.header.type with
  | entityCreation =>
      simp only [clientHandler, htype] at h
      obtain ⟨info, p₁, hinfo, h⟩ := bind_onPacket_ok h
      obtain ⟨spawnInfo, p₂, hspawn, h⟩ := bind_onPacket_ok h
      rw [Fallible.bind_get, record, Fallible.bind_modify] at h
      obtain ⟨r, t', ht', h⟩ := Fallible.bind_eq_ok h
      cases h
      have hm : messageOf p = .ok (.creation info spawnInfo) := by
        rw [messageOf, htype, readMessage, Fallible.bind_ok hinfo, Fallible.bind_ok hspawn]
        rfl
      have hnote : ∀ e ∈ [Effect.spawn info (s.scene.held info.ID)],
          Caused origin (.creation info spawnInfo) s e := by
        intro e he
        cases List.mem_singleton.mp he
        exact Caused.spawn info spawnInfo rfl
      refine ⟨_, hm, ?_⟩
      rcases createEntity_ok ht' with ⟨_, rfl, hnot⟩ | ⟨ent, _, hcreated⟩
      · exact Handled.of_effects (if_neg hnot) (by simp) hnote rfl
      · exact Handled.of_created _ [] (if_pos hcreated.creatable)
          (by simp) rfl hcreated (by simp) hnote (by simp)
          (Message.spawned_creation hcreated.creatable spawnInfo) ⟨rfl, rfl⟩
  | entityCreationOnConnection =>
      simp only [clientHandler, htype] at h
      obtain ⟨info, p₁, hinfo, h⟩ := bind_onPacket_ok h
      rw [Fallible.bind_get, record, Fallible.bind_modify] at h
      obtain ⟨r, t', ht', h⟩ := Fallible.bind_eq_ok h
      have hm : messageOf p = .ok (.restore info) := by
        rw [messageOf, htype, readMessage, Fallible.bind_ok hinfo]
        rfl
      have hnote : ∀ e ∈ [Effect.restore info (s.scene.held info.ID)],
          Caused origin (.restore info) s e := by
        intro e he
        cases List.mem_singleton.mp he
        exact Caused.restore info rfl
      refine ⟨_, hm, ?_⟩
      rcases createEntity_ok ht' with ⟨rfl, _, _⟩ | ⟨ent, rfl, hcreated⟩
      · cases h
      have hinfoEq : info.ID ≠ 0 → ent.info = info := by
        intro hne
        rw [hcreated.info_eq, if_neg hne]
      rcases deserializeOnConnection_ok h with rfl | ⟨rfl, hdefault⟩
      · refine Handled.of_created _ _ (if_pos hcreated.creatable) (by simp) rfl hcreated rfl
          hnote ?_ (Message.spawned_restore hcreated.creatable) ⟨rfl, rfl⟩
        intro e he
        cases List.mem_singleton.mp he
        exact Caused.deserializeOnConnection info ent.info rfl hinfoEq
      · refine Handled.of_created _ _ (if_pos hcreated.creatable) (by simp) rfl hcreated rfl
          hnote ?_ (Message.spawned_restore hcreated.creatable) ⟨rfl, rfl⟩
        intro e he
        cases List.mem_singleton.mp he
        obtain ⟨cls, hcls⟩ := Option.isSome_iff_exists.mp hcreated.creatable.2
        have htype' : ent.info.type = info.type := by rw [hcreated.info_eq]
        have hover := hdefault cls (by rw [hcreated.frame.registry_eq, htype']; exact hcls)
        exact Caused.restoreOnTick info ent.info cls rfl hcls hover hinfoEq
  | entityUpdate =>
      simp only [clientHandler, htype] at h
      obtain ⟨info, p₁, hinfo, h⟩ := bind_onPacket_ok h
      rw [Fallible.bind_get] at h
      have hm : messageOf p = .ok (.update info) := by
        rw [messageOf, htype, readMessage, Fallible.bind_ok hinfo]
        rfl
      refine ⟨_, hm, ?_⟩
      rcases hent : s.scene.entities[info.ID]? with _ | ent
      · simp only [hent] at h
        cases h
        exact Handled.of_same rfl (by simp)
      simp only [hent] at h
      split at h
      · next heq =>
        cases h
        refine Handled.of_effects rfl (by simp) ?_ rfl
        intro e he
        cases List.mem_singleton.mp he
        rw [← heq]
        refine Caused.deserializeOnTick info rfl ?_
        rw [Scenegraph.held, hent, Option.map_some, ← heq]
      · cases h
        exact Handled.of_same rfl (by simp)
  | entityRpc =>
      simp only [clientHandler, htype] at h
      obtain ⟨info, p₁, hinfo, h⟩ := bind_onPacket_ok h
      rw [Fallible.bind_get] at h
      have hm : messageOf p = .ok (.rpc info) := by
        rw [messageOf, htype, readMessage, Fallible.bind_ok hinfo]
        rfl
      refine ⟨_, hm, ?_⟩
      rcases hent : s.scene.entities[info.ID]? with _ | ent
      · simp only [hent] at h
        cases h
        exact Handled.of_same rfl (by simp)
      simp only [hent] at h
      split at h
      · next heq =>
        rcases receiveRPC_ok h with rfl | ⟨name, arguments, rfl⟩
        · exact Handled.of_same rfl (by simp)
        · refine Handled.of_effects rfl (by simp) ?_ rfl
          intro e he
          cases List.mem_singleton.mp he
          rw [← heq]
          refine Caused.execute info name arguments rfl ?_
          rw [Scenegraph.held, hent, Option.map_some, ← heq]
      · cases h
        exact Handled.of_same rfl (by simp)
  | entityDeletion =>
      simp only [clientHandler, htype] at h
      obtain ⟨id, p₁, hid, h⟩ := bind_onPacket_ok h
      rw [Fallible.bind_get] at h
      have hm : messageOf p = .ok (.deletion (Int32.ofBitVec id)) := by
        rw [messageOf, htype, readMessage, Fallible.bind_ok hid]
        rfl
      refine ⟨_, hm, ?_⟩
      split at h
      · cases h
        exact handled_flag _ _ _
      · next hnot =>
        cases h
        exact handled_missing hnot
  | _ =>
      simp only [clientHandler, htype] at h
      cases h
      refine ⟨.other, ?_, Handled.of_same rfl (by simp)⟩
      rw [messageOf, htype]
      rfl

end Process

end EnkiNet
