import EnkiNet.Lasting
import EnkiNet.Loopback

/-!
# When handling a packet comes to an end

A handler that throws an exception which nobody catches, or that runs into undefined
behaviour, does not return.  `clientHandler_returns` says when the handler of a client
returns, by the message in the packet.  A server that passes a packet on gives it to the
transport and, if its own client is to have it, to that client's handler, so it returns
whenever that handler does (`dispatch_eq`).
-/

namespace EnkiNet

open ByteStore Packet
open Fallible (Returns)

/-! ## Reading a call -/

/-- What a parameter reads does not depend on who has sent the packet. -/
theorem ReadOp.reading (op : ReadOp) : Reading op.perform := by
  cases op with
  | scalar k => exact (reads_getScalar k).reading.bind fun _ => Reading.pure _
  | string => exact reads_getString.reading.bind fun _ => Reading.pure _
  | vector k => exact (reading_getVector k 0).bind fun _ => Reading.pure _
  | entityInfo => exact reads_getEntityInfo.reading.bind fun _ => Reading.pure _
  | packet script =>
      refine reads_getPacket.reading.bind fun q => ?_
      rcases ReadOp.performAll script q with ⟨e | vs, _⟩
      · exact Reading.fail e
      · exact Reading.pure _
  | bits width => exact (reading_readBits width 0).bind fun _ => Reading.pure _

theorem ReadOp.reading_performAll (ops : List ReadOp) : Reading (ReadOp.performAll ops) := by
  induction ops with
  | nil => exact Reading.pure _
  | cons op ops ih => exact op.reading.bind fun _ => ih.bind fun _ => Reading.pure _

namespace Process

/-- A call is read from the front of its packet. -/
theorem reading_readCall (r : Registry) : Reading (readCall r) := by
  refine reads_getEntityInfo.reading.bind fun info => reads_getString.reading.bind fun name => ?_
  rcases r.entityRpcs info.type name with _ | rpc
  · exact Reading.pure _
  · exact (ReadOp.reading_performAll rpc.parameters).bind fun _ => Reading.pure _

/-- Reading a call ends as any reading does. -/
theorem faults_readCall (r : Registry) : Fallible.Faults Fault.OfReading (readCall r) := by
  refine catchable_getEntityInfo.reading.bind fun info =>
    catchable_getString.reading.bind fun name => ?_
  rcases r.entityRpcs info.type name with _ | rpc
  · exact Fallible.Faults.pure _
  · exact (ReadOp.faults_performAll rpc.parameters).bind fun _ => Fallible.Faults.pure _

/-- Who sent the call and when is not read. -/
theorem readCall_info (r : Registry) (p : Packet) (i : PacketInfo) :
    (readCall r { p with info := i }).1 = (readCall r p).1 := by
  obtain ⟨result, c, hp, hq, _⟩ := reading_readCall r p { p with info := i } rfl rfl
  rw [hp, hq]

section

variable {α β : Type} {p : Packet} {s : Process} {origin : ClientID}

/-! ## Primitive programs -/

/-- A program on a packet comes back if the read and the rest do. -/
theorem returns_onPacket {x : PacketM α} {f : α × Packet → ProcessM β} :
    Returns (onPacket x p >>= f) s ↔ ∃ a q, x p = (.ok a, q) ∧ Returns (f (a, q)) s := by
  constructor
  · rintro ⟨b, t, h⟩
    obtain ⟨a, q, hx, hrest⟩ := bind_onPacket_ok h
    exact ⟨a, q, hx, b, t, hrest⟩
  · rintro ⟨a, q, hx, b, t, hrest⟩
    exact ⟨b, t, (bind_onPacket hx f s).trans hrest⟩

theorem returns_onPacket_ok {x : PacketM α} {a : α} {q : Packet} (h : x p = (.ok a, q))
    (f : α × Packet → ProcessM β) : Returns (onPacket x p >>= f) s ↔ Returns (f (a, q)) s := by
  rw [Returns, Returns, bind_onPacket h]

/-! ## The handler of a client -/

/-- There is a number for a local entity, if the info needs one. -/
def Numbers (g : Scenegraph) (info : EntityInfo) : Prop :=
  info.ID = 0 → g.localID ≠ Int32.minValue

/-- Reading the call runs into an exception at worst. -/
def Catches (r : Registry) (p : Packet) : Prop :=
  ∀ u, (readCall r p).1 ≠ .error (.undefined u)

/-- The handler of a client gets through with the packet, which says this. -/
def ManagesMessage (g : Scenegraph) (p : Packet) : Message → Prop
  | .creation info _ => Creatable g.registry info → Numbers g info
  | .restore info => Creatable g.registry info ∧ Numbers g info
  | .rpc info => g.held info.ID = some info → Catches g.registry p.resetReadPosition
  | _ => True

/-- The handler of a client gets through with the packet. -/
def Manages (g : Scenegraph) (p : Packet) : Prop :=
  ∃ m, messageOf p = .ok m ∧ ManagesMessage g p m

/-- Managing a packet is managing what it says. -/
theorem manages_of_message {g : Scenegraph} {m : Message} (hm : messageOf p = .ok m) :
    Manages g p ↔ ManagesMessage g p m := by
  constructor
  · intro h
    obtain ⟨m', hm', hmanages⟩ := h
    rw [hm] at hm'
    exact Except.ok.inj hm' ▸ hmanages
  · intro h
    exact ⟨m, hm, h⟩

/-- `createEntity` throws only when local ids have run out. -/
theorem createEntity_returns_iff {info : EntityInfo} {spawnInfo : Packet} :
    Returns (createEntity info spawnInfo) s ↔
      (Creatable s.scene.registry info → Numbers s.scene info) := by
  by_cases hID : info.ID = 0
  · rw [createEntity, Fallible.returns_bind_get]
    by_cases hcreatable : Creatable s.scene.registry info
    · obtain ⟨cls, hcls⟩ := Option.isSome_iff_exists.mp hcreatable.2
      rw [if_neg (not_not.mpr hcreatable.1), imp_iff_right hcreatable, Numbers,
        imp_iff_right hID]
      simp only [hcls, hID, if_true]
      rw [Fallible.returns_bind]
      constructor
      · intro h
        obtain ⟨id, t, hid, _⟩ := h
        exact (nextLocalID_ok hid).1
      · intro hne
        have hid : nextLocalID s = (.ok s.scene.localID,
            { s with scene := { s.scene with localID := s.scene.localID - 1 } }) := by
          rw [nextLocalID, Fallible.bind_get, if_neg hne]
          rfl
        exact ⟨_, _, hid, _, _, rfl⟩
    · refine iff_of_true ?_ fun h => absurd h hcreatable
      by_cases hnamed : info.Named
      · rw [if_neg (not_not.mpr hnamed)]
        have hnone : s.scene.registry.builders info.type = none := by
          rw [← Option.not_isSome_iff_eq_none]
          exact fun hsome => hcreatable ⟨hnamed, hsome⟩
        simp only [hnone]
        exact Fallible.returns_pure _ _
      · rw [if_pos hnamed]
        exact Fallible.returns_pure _ _
  · exact iff_of_true (createEntity_returns hID spawnInfo s) fun _ hzero => absurd hzero hID

/-- Restoring an entity always comes back. -/
theorem deserializeOnConnection_returns (ent : Entity) :
    Returns (deserializeOnConnection origin ent) s := by
  rw [deserializeOnConnection, Fallible.returns_bind_get]
  split
  · exact Fallible.returns_modify _ _
  · exact Fallible.returns_modify _ _

/-- A null pointer is dereferenced if no entity can be created. -/
theorem restore_returns {info : EntityInfo} {spawnInfo : Packet} :
    Returns (createEntity info spawnInfo >>= fun ent =>
      match ent with
      | none => Fallible.fail (.undefined .nullDereference)
      | some ent => deserializeOnConnection origin ent) s ↔
      Creatable s.scene.registry info ∧ Numbers s.scene info := by
  rw [Fallible.returns_bind]
  constructor
  · intro h
    obtain ⟨ent, t, hrun, hrest⟩ := h
    rcases createEntity_ok hrun with ⟨rfl, _, _⟩ | ⟨ent, rfl, hcreated⟩
    · exact absurd hrest (Fallible.not_returns_fail _ _)
    · exact ⟨hcreated.creatable, createEntity_returns_iff.mp ⟨_, _, hrun⟩ hcreated.creatable⟩
  · intro h
    obtain ⟨hcreatable, hnumbers⟩ := h
    obtain ⟨ent, t, hrun⟩ := createEntity_returns_iff.mpr fun _ => hnumbers
    refine ⟨ent, t, hrun, ?_⟩
    rcases createEntity_ok hrun with ⟨_, _, hnot⟩ | ⟨ent, rfl, _⟩
    · exact absurd hcreatable hnot
    · exact deserializeOnConnection_returns ent

/-- Nothing is read from a packet that has come to its end. -/
theorem catches_of_read (r : Registry) (hend : p.bytes.length ≤ p.bytesRead) : Catches r p := by
  intro u h
  have hread : (deserialize 4 false p).1 = .error (.runtimeError
      "Failed to deserialize data in packet, would be reading past end of packet buffer") := by
    unfold deserialize
    rw [if_pos (by omega)]
  rcases hd : deserialize 4 false p with ⟨result, q⟩
  rw [hd] at hread
  subst hread
  have hid : getScalar 4 p = (.error _, q) := Fallible.bind_error hd _
  have hinfo : getEntityInfo p = (.error _, q) := Fallible.bind_error hid _
  rw [readCall, Fallible.bind_error hinfo] at h
  cases h

/-- Every exception is caught. -/
theorem receiveRPC_returns {target : EntityInfo} :
    Returns (receiveRPC p target) s ↔ Catches s.scene.registry p := by
  rw [receiveRPC, Fallible.returns_bind_get]
  by_cases hend : p.bytes.length ≤ p.bytesRead
  · rw [if_pos hend]
    exact iff_of_true (Fallible.returns_pure _ _) (catches_of_read _ hend)
  rw [if_neg hend, Catches]
  rcases (readCall s.scene.registry p).1 with (_ | _ | _ | _ | u) | ⟨name, _ | arguments⟩
  · exact iff_of_true (Fallible.returns_pure _ _) (by simp)
  · exact iff_of_true (Fallible.returns_pure _ _) (by simp)
  · exact iff_of_true (Fallible.returns_pure _ _) (by simp)
  · exact iff_of_true (Fallible.returns_pure _ _) (by simp)
  · exact iff_of_false (Fallible.not_returns_fail _ _) fun h => h u rfl
  · exact iff_of_true (Fallible.returns_pure _ _) (by simp)
  · exact iff_of_true (Fallible.returns_modify _ _) (by simp)

/-! ### By the type of the packet -/

/-- A packet says what can be read from it. -/
theorem messageOf_iff {m : Message} :
    messageOf p = .ok m ↔ ∃ q, readMessage p.header.type p = (.ok m, q) := by
  rw [messageOf]
  rcases readMessage p.header.type p with ⟨result, q⟩
  simp

/-- A packet that says no more than an info. -/
theorem messageOf_info_iff (say : EntityInfo → Message) {m : Message}
    (htype : readMessage p.header.type = do let info ← getEntityInfo; return say info) :
    messageOf p = .ok m ↔ ∃ info q, getEntityInfo p = (.ok info, q) ∧ m = say info := by
  rw [messageOf_iff, htype]
  constructor
  · intro h
    obtain ⟨t, h⟩ := h
    obtain ⟨info, q, hinfo, hrest⟩ := Fallible.bind_eq_ok h
    cases hrest
    exact ⟨info, _, hinfo, rfl⟩
  · intro h
    obtain ⟨info, q, hinfo, rfl⟩ := h
    exact ⟨q, Fallible.bind_ok hinfo _⟩

/-- A creation is an info and an inner packet. -/
theorem messageOf_creation_iff {m : Message} (htype : p.header.type = .entityCreation) :
    messageOf p = .ok m ↔ ∃ info q spawnInfo q', getEntityInfo p = (.ok info, q) ∧
      getPacket q = (.ok spawnInfo, q') ∧ m = .creation info spawnInfo := by
  rw [messageOf_iff, htype, readMessage]
  constructor
  · intro h
    obtain ⟨t, h⟩ := h
    obtain ⟨info, q, hinfo, h⟩ := Fallible.bind_eq_ok h
    obtain ⟨spawnInfo, q', hspawn, hrest⟩ := Fallible.bind_eq_ok h
    cases hrest
    exact ⟨info, q, spawnInfo, _, hinfo, hspawn, rfl⟩
  · intro h
    obtain ⟨info, q, spawnInfo, q', hinfo, hspawn, rfl⟩ := h
    rw [Fallible.bind_ok hinfo, Fallible.bind_ok hspawn]
    exact ⟨q', rfl⟩

/-- A deletion is an id. -/
theorem messageOf_deletion_iff {m : Message} (htype : p.header.type = .entityDeletion) :
    messageOf p = .ok m ↔
      ∃ id q, getScalar 4 p = (.ok id, q) ∧ m = .deletion (Int32.ofBitVec id) := by
  rw [messageOf_iff, htype, readMessage]
  constructor
  · intro h
    obtain ⟨t, h⟩ := h
    obtain ⟨id, q, hid, hrest⟩ := Fallible.bind_eq_ok h
    cases hrest
    exact ⟨id, _, hid, rfl⟩
  · intro h
    obtain ⟨id, q, hid, rfl⟩ := h
    rw [Fallible.bind_ok hid]
    exact ⟨q, rfl⟩

/-- The handler of a client first reads an info. -/
theorem returns_of_info (say : EntityInfo → Message) {f : EntityInfo × Packet → ProcessM Unit}
    (htype : readMessage p.header.type = do let info ← getEntityInfo; return say info)
    (hrest : ∀ info q, getEntityInfo p = (.ok info, q) →
      (Returns (f (info, q)) s ↔ ManagesMessage s.scene p (say info))) :
    Returns (onPacket getEntityInfo p >>= f) s ↔ Manages s.scene p := by
  rw [returns_onPacket]
  constructor
  · intro h
    obtain ⟨info, q, hinfo, h⟩ := h
    exact ⟨say info, (messageOf_info_iff say htype).mpr ⟨info, q, hinfo, rfl⟩,
      (hrest info q hinfo).mp h⟩
  · intro h
    obtain ⟨m, hm, hmanages⟩ := h
    obtain ⟨info, q, hinfo, rfl⟩ := (messageOf_info_iff say htype).mp hm
    exact ⟨info, q, hinfo, (hrest info q hinfo).mpr hmanages⟩

/-- What is stored under an id, as the handler looks at it. -/
theorem held_eq_some_iff {g : Scenegraph} {id : EntityID} {info : EntityInfo} :
    g.held id = some info ↔ ∃ ent, g.entities[id]? = some ent ∧ ent.info = info :=
  Option.map_eq_some_iff

/-- After a reset nothing of the read is left. -/
theorem reset_of_getEntityInfo {info : EntityInfo} {q : Packet}
    (h : getEntityInfo p = (.ok info, q)) : q.resetReadPosition = p.resetReadPosition := by
  obtain ⟨result, c, hp, _⟩ := reads_getEntityInfo p p ⟨rfl, rfl, rfl⟩
  rw [h] at hp
  rw [(Prod.mk.inj hp).2]
  rfl

/-- **The handler of a client** returns if the packet can be read, what it says can be done
and nothing undefined is run into. -/
theorem clientHandler_returns : Returns (clientHandler origin p) s ↔ Manages s.scene p := by
  cases htype : p.header.type with
  | entityCreation =>
      simp only [clientHandler, htype]
      constructor
      · intro h
        obtain ⟨info, q, hinfo, h⟩ := returns_onPacket.mp h
        obtain ⟨spawnInfo, q', hspawn, h⟩ := returns_onPacket.mp h
        refine ⟨.creation info spawnInfo, ?_, ?_⟩
        · exact (messageOf_creation_iff htype).mpr ⟨info, q, spawnInfo, q', hinfo, hspawn, rfl⟩
        · rw [Fallible.returns_bind_get, record, Fallible.returns_bind_modify] at h
          obtain ⟨ent, t, hrun, _⟩ := Fallible.returns_bind.mp h
          have hcreate := createEntity_returns_iff.mp ⟨ent, t, hrun⟩
          exact hcreate
      · intro h
        obtain ⟨m, hm, hmanages⟩ := h
        obtain ⟨info, q, spawnInfo, q', hinfo, hspawn, rfl⟩ := (messageOf_creation_iff htype).mp hm
        rw [returns_onPacket_ok hinfo]
        dsimp only
        rw [returns_onPacket_ok hspawn, Fallible.returns_bind_get]
        dsimp only
        rw [record, Fallible.returns_bind_modify]
        rw [Fallible.returns_bind]
        have hcreate : Returns (createEntity info spawnInfo)
            { s with effects := s.effects ++ [.spawn info (s.scene.held info.ID)] } :=
          createEntity_returns_iff.mpr hmanages
        obtain ⟨ent, t, hrun⟩ := hcreate
        exact ⟨ent, t, hrun, Fallible.returns_pure _ _⟩
  | entityCreationOnConnection =>
      simp only [clientHandler, htype]
      refine returns_of_info .restore (by rw [htype]; rfl) fun info q _ => ?_
      rw [Fallible.returns_bind_get, record, Fallible.returns_bind_modify]
      exact restore_returns
  | entityUpdate =>
      simp only [clientHandler, htype]
      refine returns_of_info .update (by rw [htype]; rfl) fun info q _ => ?_
      refine iff_of_true ?_ trivial
      rw [Fallible.returns_bind_get]
      dsimp only
      rcases s.scene.entities[info.ID]? with _ | ent
      · exact Fallible.returns_pure _ _
      · dsimp only
        split
        · exact Fallible.returns_modify _ _
        · exact Fallible.returns_pure _ _
  | entityRpc =>
      simp only [clientHandler, htype]
      refine returns_of_info .rpc (by rw [htype]; rfl) fun info q hinfo => ?_
      rw [Fallible.returns_bind_get, ManagesMessage, held_eq_some_iff]
      dsimp only
      rcases hent : s.scene.entities[info.ID]? with _ | ent
      · exact iff_of_true (Fallible.returns_pure _ _) (by simp)
      · dsimp only
        by_cases heq : info = ent.info
        · rw [if_pos heq, receiveRPC_returns, reset_of_getEntityInfo hinfo]
          exact (imp_iff_right ⟨ent, rfl, heq.symm⟩).symm
        · rw [if_neg heq]
          refine iff_of_true (Fallible.returns_pure _ _) fun h => ?_
          obtain ⟨ent', hent', heq'⟩ := h
          cases hent'
          exact absurd heq'.symm heq
  | entityDeletion =>
      simp only [clientHandler, htype]
      rw [returns_onPacket]
      constructor
      · intro h
        obtain ⟨id, q, hid, _⟩ := h
        exact ⟨_, (messageOf_deletion_iff htype).mpr ⟨id, q, hid, rfl⟩, trivial⟩
      · intro h
        obtain ⟨m, hm, _⟩ := h
        obtain ⟨id, q, hid, _⟩ := (messageOf_deletion_iff htype).mp hm
        refine ⟨id, q, hid, ?_⟩
        rw [Fallible.returns_bind_get]
        dsimp only
        split
        · exact Fallible.returns_modify _ _
        · exact Fallible.returns_pure _ _
  | _ =>
      simp only [clientHandler, htype]
      refine iff_of_true (Fallible.returns_pure _ _) ⟨.other, ?_, trivial⟩
      rw [messageOf, htype]
      rfl

/-- Managing a packet does not depend on its info. -/
theorem manages_info (g : Scenegraph) (p : Packet) (i : PacketInfo) :
    Manages g { p with info := i } ↔ Manages g p := by
  have hsame : ∀ m, ManagesMessage g { p with info := i } m ↔ ManagesMessage g p m := by
    intro m
    cases m with
    | rpc info =>
        rw [ManagesMessage, ManagesMessage, Catches, Catches]
        have hread := readCall_info g.registry p.resetReadPosition i
        change (readCall g.registry { p with info := i }.resetReadPosition).1 = _ at hread
        rw [hread]
    | _ => exact Iff.rfl
  simp only [Manages, messageOf_info, hsame]

/-- Updates and calls do not touch the scenegraph of a client. -/
theorem clientHandler_scene {s' : Process}
    (htype : p.header.type = .entityUpdate ∨ p.header.type = .entityRpc)
    (h : clientHandler origin p s = (.ok (), s')) : s'.scene = s.scene := by
  rcases htype with htype | htype
  · simp only [clientHandler, htype] at h
    obtain ⟨info, q, _, h⟩ := bind_onPacket_ok h
    rw [Fallible.bind_get] at h
    dsimp only at h
    rcases hent : s.scene.entities[info.ID]? with _ | ent
    · rw [hent] at h
      cases h
      rfl
    · rw [hent] at h
      dsimp only at h
      split at h
      · cases h
        rfl
      · cases h
        rfl
  · simp only [clientHandler, htype] at h
    obtain ⟨info, q, _, h⟩ := bind_onPacket_ok h
    rw [Fallible.bind_get] at h
    dsimp only at h
    rcases hent : s.scene.entities[info.ID]? with _ | ent
    · rw [hent] at h
      cases h
      rfl
    · rw [hent] at h
      dsimp only at h
      split at h
      · rcases receiveRPC_ok h with rfl | ⟨name, arguments, rfl⟩
        · rfl
        · rfl
      · cases h
        rfl

/-! ## Passing a packet on -/

/-- The transport can take the bytes that are counted as written. -/
theorem wire_of_owned (hp : p.Owned) (t : UInt32) : ∃ data, (stamped t p).wire = .ok data := by
  have hlen : (stamped t p).bytesWritten ≤ (stamped t p).bytes.length := by
    rw [stamped, length_setHeader]
    exact hp
  exact ⟨_, if_pos hlen⟩

/-- Relaying is posting one datagram and perhaps handling the packet. -/
theorem sendPacketToAllExceptOneClient_eq (hp : p.Owned) (origin excluded : ClientID)
    (s : Process) :
    ∃ d : Datagram, sendPacketToAllExceptOneClient origin excluded p s =
      (if s.role = .host ∧ excluded ≠ 1 then clientHandler origin (emittedToClient s.now p)
      else pure ()) { s with
        outbox := s.outbox ++ (s.connected.filter fun c => c ≠ excluded).map fun c => (c, d) } := by
  obtain ⟨data, hwire⟩ := wire_of_owned hp s.now
  refine ⟨{ origin := origin, data := data }, ?_⟩
  rw [sendPacketToAllExceptOneClient, Fallible.bind_get, bind_stamp,
    Fallible.bind_ok (postIf_eq hwire s)]
  by_cases hlocal : s.role = .host ∧ excluded ≠ 1
  · rw [if_pos hlocal, if_pos hlocal]
    exact loopback_stamped origin p _
  · rw [if_neg hlocal, if_neg hlocal]

/-- Answering a remote client is posting one datagram. -/
theorem sendPacketToOneClient_eq (hp : p.Owned) (origin client : ClientID)
    (hremote : ¬ (s.role = .host ∧ client = 1)) :
    ∃ d : Datagram, sendPacketToOneClient origin client p s =
      (.ok (), { s with outbox := s.outbox ++ [client].map fun c => (c, d) }) := by
  obtain ⟨data, hwire⟩ := wire_of_owned hp s.now
  refine ⟨{ origin := origin, data := data }, ?_⟩
  rw [sendPacketToOneClient, Fallible.bind_get, bind_stamp, if_neg hremote, bind_wireBytes hwire]
  rfl

/-- The packet has been handed to the transport for these clients. -/
def handedOver (s : Process) (dests : List ClientID) (d : Datagram) : Process :=
  { s with outbox := s.outbox ++ dests.map fun c => (c, d) }

/-- A datagram for nobody is none. -/
theorem handedOver_nil (s : Process) (d : Datagram) : s.handedOver [] d = s := by
  rw [handedOver, List.map_nil, List.append_nil]

/-- A client has something more to get if and only if it is one of them. -/
theorem pending_handedOver_iff (s : Process) (dests : List ClientID) (d : Datagram) (c : ClientID) :
    (s.handedOver dests d).pending c = s.pending c ↔ c ∉ dests := by
  rw [handedOver, pending_post, List.append_right_eq_self, List.replicate_eq_nil_iff,
    List.count_eq_zero]

/-- What is done with a packet that the server passes on to those that satisfy `who`: the
transport gets it for the connected clients, and the host's own client handles it. -/
def PassesOn (who : ClientID → Bool) (p : Packet) (x : ProcessM Unit) (s : Process) : Prop :=
  ∃ (dests : List ClientID) (d : Datagram) (i : PacketInfo),
    (∀ c ∈ s.connected, c ∈ dests ↔ who c = true) ∧
    x s = (if s.role = .host ∧ who 1 = true then
        clientHandler p.info.senderID { emittedToOneClient s.now p with info := i }
      else pure ()) (s.handedOver dests d)

/-- Doing nothing passes a packet on to nobody. -/
theorem passesOn_nobody {who : ClientID → Bool} (p : Packet) (s : Process)
    (hnone : ∀ c, who c = false) : PassesOn who p (pure ()) s := by
  refine ⟨[], { origin := 0, data := [] }, p.info, ?_, ?_⟩
  · intro c _
    simp [hnone c]
  · rw [hnone 1, if_neg (by simp), handedOver_nil]

/-- Relaying passes a packet on to all but its sender. -/
theorem passesOn_others {who : ClientID → Bool} (hp : p.Owned) (s : Process)
    (hwho : ∀ c, who c = decide (c ≠ p.info.senderID)) :
    PassesOn who p (sendPacketToAllExceptOneClient p.info.senderID p.info.senderID p) s := by
  obtain ⟨d, hsend⟩ := sendPacketToAllExceptOneClient_eq hp p.info.senderID p.info.senderID s
  refine ⟨s.connected.filter fun c => c ≠ p.info.senderID, d,
    { senderID := 1, timeReceived := s.now }, ?_, ?_⟩
  · intro c hc
    rw [hwho c, List.mem_filter]
    exact and_iff_right hc
  · have hlocal : (s.role = .host ∧ who 1 = true) ↔ (s.role = .host ∧ p.info.senderID ≠ 1) := by
      rw [hwho 1, decide_eq_true_eq, ne_comm]
    rw [hsend]
    simp only [hlocal]
    rfl

/-- Answering passes a packet on to one. -/
theorem passesOn_one {who : ClientID → Bool} (hp : p.Owned) (owner : ClientID)
    (hreserved : 1 ∉ s.connected) (hwho : ∀ c, who c = decide (c = owner)) :
    PassesOn who p (sendPacketToOneClient p.info.senderID owner p) s := by
  by_cases hlocal : s.role = .host ∧ owner = 1
  · obtain ⟨hrole, rfl⟩ := hlocal
    refine ⟨[], { origin := 0, data := [] }, p.info, ?_, ?_⟩
    · intro c hc
      have hne : c ≠ 1 := fun heq => hreserved (heq ▸ hc)
      simp [hwho, hne]
    · rw [hwho, if_pos ⟨hrole, decide_eq_true rfl⟩, handedOver_nil,
        sendPacketToOneClient_host hrole]
      rfl
  · obtain ⟨d, hsend⟩ := sendPacketToOneClient_eq hp p.info.senderID owner hlocal
    refine ⟨[owner], d, p.info, ?_, ?_⟩
    · intro c _
      rw [hwho, List.mem_singleton, decide_eq_true_eq]
    · have hremote : ¬ (s.role = .host ∧ who 1 = true) := by
        intro h
        rw [hwho] at h
        exact hlocal ⟨h.1, (of_decide_eq_true h.2).symm⟩
      rw [hsend, if_neg hremote]
      rfl

/-- **The server passes a call on.** -/
theorem dispatch_passesOn (type : RPCType) (owner : ClientID) (hp : p.Owned)
    (hreserved : 1 ∉ s.connected) :
    PassesOn (relayed type p.info.senderID owner) p (dispatch type owner p) s := by
  cases type with
  | onlyLocal => exact passesOn_nobody p s fun _ => rfl
  | master =>
      rw [dispatch]
      by_cases hself : owner = p.info.senderID
      · rw [if_pos hself]
        exact passesOn_nobody p s (by simp [relayed, hself])
      · rw [if_neg hself]
        exact passesOn_one hp owner hreserved (by simp [relayed, hself])
  | remote | remoteAndLocal =>
      rw [dispatch]
      by_cases hself : owner = p.info.senderID
      · rw [if_pos hself]
        exact passesOn_others hp s (by simp [relayed, hself])
      · rw [if_neg hself]
        exact passesOn_nobody p s (by simp [relayed, hself])
  | masterAndRemote | all => exact passesOn_others hp s fun _ => rfl

section

variable {who : ClientID → Bool} {x : ProcessM Unit}

/-- Passing a packet on returns if the host's own client can handle it, or is not to. -/
theorem PassesOn.returns_iff (h : PassesOn who p x s) : Returns x s ↔
    (s.role = .host → who 1 = true → Manages s.scene (emittedToOneClient s.now p)) := by
  obtain ⟨dests, d, i, _, hrun⟩ := h
  have hsame : Returns x s ↔ Returns (if s.role = .host ∧ who 1 = true then
      clientHandler p.info.senderID { emittedToOneClient s.now p with info := i }
      else pure ()) (s.handedOver dests d) := by
    rw [Returns, Returns, hrun]
  rw [hsame]
  by_cases hlocal : s.role = .host ∧ who 1 = true
  · rw [if_pos hlocal, clientHandler_returns, manages_info]
    constructor
    · intro h _ _
      exact h
    · intro h
      exact h hlocal.1 hlocal.2
  · rw [if_neg hlocal]
    exact iff_of_true (Fallible.returns_pure _ _) fun hrole hone => absurd ⟨hrole, hone⟩ hlocal

/-- What is left when an update or a call has been passed on. -/
theorem PassesOn.done {s' : Process} (h : PassesOn who p x s)
    (htype : p.header.type = .entityUpdate ∨ p.header.type = .entityRpc)
    (hrun : x s = (.ok (), s')) : s'.scene = s.scene ∧
      ∀ c ∈ s.connected, (s'.pending c = s.pending c ↔ who c = false) := by
  obtain ⟨dests, d, i, hdests, heq⟩ := h
  rw [heq] at hrun
  have hhandled : s'.scene = s.scene ∧ s'.outbox = (s.handedOver dests d).outbox := by
    by_cases hlocal : s.role = .host ∧ who 1 = true
    · rw [if_pos hlocal] at hrun
      obtain ⟨m, _, hhandled⟩ := clientHandler_ok hrun
      have hscene := clientHandler_scene (p := { emittedToOneClient s.now p with info := i })
        htype hrun
      exact ⟨hscene, hhandled.outbox_eq⟩
    · rw [if_neg hlocal] at hrun
      cases hrun
      exact ⟨rfl, rfl⟩
  refine ⟨hhandled.1, ?_⟩
  intro c hc
  have hpending : s'.pending c = (s.handedOver dests d).pending c := by
    rw [pending, pending, hhandled.2]
  rw [hpending, pending_handedOver_iff, hdests c hc, Bool.not_eq_true]

end

end

end Process

end EnkiNet
