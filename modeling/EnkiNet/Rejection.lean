import EnkiNet.Connections
import EnkiNet.Lifetime

/-!
# Malformed input

Bytes from the network become a packet, and a handler of the scenegraph gets it.  A
process withstands them (`Withstands`) if the packet is made of the bytes that have come,
the handler returns, and nothing is done about a packet that is not recognized.

Only the code that executes a remote procedure call catches exceptions, so neither handler
withstands everything; and a server passes updates and calls on before anyone has looked
at what is in them.  `ServerManages` and `Manages` say what the two handlers withstand.
-/

namespace EnkiNet

open ByteStore Packet
open Fallible (Returns)

/-! ## What is to be recognized -/

/-- The types and the function that a packet names are registered, and the arguments for
the function can be read. -/
def Message.Registered (r : Registry) (p : Packet) : Message → Prop
  | .creation info _ | .restore info | .update info => (r.builders info.type).isSome
  | .rpc info => (r.builders info.type).isSome ∧
      ∃ name arguments, (Process.readCall r p).1 = .ok (name, some arguments)
  | .deletion _ | .other => True

/-- The packet holds what a packet of its type is to hold, and names nothing that is not
registered. -/
def Recognized (r : Registry) (p : Packet) : Prop :=
  ∃ m, messageOf p = .ok m ∧ m.Registered r p

namespace Process

/-- No packet is sent, and the table of entities and the counters stay as they are. -/
structure Untouched (s s' : Process) : Prop where
  pending_eq : ∀ c, c ∈ s.connected ∨ s.role = .client → s'.pending c = s.pending c
  entities_eq : s'.scene.entities = s.scene.entities
  ID_eq : s'.scene.ID = s.scene.ID
  localID_eq : s'.scene.localID = s.scene.localID

theorem Untouched.refl (s : Process) : Untouched s s := ⟨fun _ _ => rfl, rfl, rfl, rfl⟩

/-- The program returns, and has done nothing unless the packet it is about was
recognized. -/
def Endures (s : Process) (recognized : Prop) (x : ProcessM Unit) : Prop :=
  ∃ s', x s = (.ok (), s') ∧ (¬ recognized → Untouched s s')

/-- **Malformed input is rejected safely**, if `arrival` is what becomes of the bytes. -/
def Withstands (s : Process) (arrival : Except Fault Packet) (handler : Packet → ProcessM Unit) :
    Prop :=
  ∃ p, arrival = .ok p ∧ s.Endures (Recognized s.scene.registry p) (handler p)

section

variable {s s' : Process} {p : Packet} {R : Prop} {x : ProcessM Unit}

/-- To endure a handler is at least to come back from it. -/
theorem Endures.returns (h : s.Endures R x) : Returns x s := by
  obtain ⟨s', hrun, _⟩ := h
  exact ⟨(), s', hrun⟩

/-- A handler that leaves the process alone in the other cases need only return. -/
theorem endures_of_untouched (h : ∀ s', x s = (.ok (), s') → ¬ R → Untouched s s') :
    s.Endures R x ↔ Returns x s := by
  constructor
  · exact Endures.returns
  · intro hreturns
    obtain ⟨_, s', hrun⟩ := hreturns
    exact ⟨s', hrun, h s' hrun⟩

/-- Handlers that do the same are endured alike. -/
theorem endures_congr {y : ProcessM Unit} (h : x s = y s) : s.Endures R x ↔ s.Endures R y := by
  rw [Endures, Endures, h]

/-! ## The handler of a client -/

/-- What is not recognized leaves a client as it is. -/
theorem clientHandler_untouched {origin : ClientID} (hrun : clientHandler origin p s = (.ok (), s'))
    (hnot : ¬ Recognized s.scene.registry p) : Untouched s s' := by
  obtain ⟨m, hm, hhandled⟩ := clientHandler_ok hrun
  have hpending : ∀ c, s'.pending c = s.pending c := by
    intro c
    rw [pending, pending, hhandled.outbox_eq]
  have hunregistered : ¬ m.Registered s.scene.registry p := fun h => hnot ⟨m, hm, h⟩
  suffices hscene : s'.scene = s.scene by
    exact ⟨fun c _ => hpending c, by rw [hscene], by rw [hscene], by rw [hscene]⟩
  cases htype : p.header.type with
  | entityCreation =>
      obtain ⟨info, q, spawnInfo, q', hinfo, hspawn, rfl⟩ := (messageOf_creation_iff htype).mp hm
      simp only [clientHandler, htype] at hrun
      rw [bind_onPacket hinfo] at hrun
      dsimp only at hrun
      rw [bind_onPacket hspawn, Fallible.bind_get] at hrun
      dsimp only at hrun
      rw [record, Fallible.bind_modify] at hrun
      obtain ⟨ent, t, hcreate, hlast⟩ := Fallible.bind_eq_ok hrun
      cases hlast
      rcases createEntity_ok hcreate with ⟨_, rfl, _⟩ | ⟨_, _, hcreated⟩
      · rfl
      · exact absurd hcreated.creatable.2 hunregistered
  | entityCreationOnConnection =>
      obtain ⟨info, q, _, rfl⟩ := (messageOf_info_iff .restore (by rw [htype]; rfl)).mp hm
      obtain ⟨m', hm', hmanages⟩ := clientHandler_returns.mp ⟨(), s', hrun⟩
      rw [hm] at hm'
      cases hm'
      exact absurd hmanages.1.2 hunregistered
  | entityUpdate => exact clientHandler_scene (Or.inl htype) hrun
  | entityRpc => exact clientHandler_scene (Or.inr htype) hrun
  | entityDeletion =>
      obtain ⟨id, q, _, rfl⟩ := (messageOf_deletion_iff htype).mp hm
      exact absurd trivial hunregistered
  | _ =>
      simp only [clientHandler, htype] at hrun
      cases hrun
      rfl

/-- The handler of a client endures what it can manage. -/
theorem clientHandler_endures_iff (origin : ClientID) :
    s.Endures (Recognized s.scene.registry p) (clientHandler origin p) ↔ Manages s.scene p := by
  have hendures : s.Endures (Recognized s.scene.registry p) (clientHandler origin p) ↔
      Returns (clientHandler origin p) s :=
    endures_of_untouched fun s' hrun => clientHandler_untouched hrun
  rw [hendures, clientHandler_returns]

/-! ## Updates and calls on a server -/

/-- A packet as it comes from the transport. -/
structure Raw (p : Packet) : Prop where
  unread : p.readCursor = ⟨headerSize, 8⟩
  owned : p.Owned

/-- What is passed on is read from the front. -/
theorem messageOf_emitted {c : Cursor} (hp : Raw p) (t : UInt32) :
    messageOf (emittedToOneClient t (p.withRead c)) = messageOf p := by
  have hfront : emittedToOneClient t (p.withRead c) = (stamped t p).resetReadPosition := rfl
  rw [hfront, messageOf_stamped, resetReadPosition_of_unread hp.unread]

/-- An unrecognized packet that is passed on has to reach nobody. -/
theorem PassesOn.endures_iff {who : ClientID → Bool} (h : PassesOn who p x s)
    (htype : p.header.type = .entityUpdate ∨ p.header.type = .entityRpc)
    (hrole : s.role ≠ .client) : s.Endures R x ↔
      (s.role = .host → who 1 = true → Manages s.scene (emittedToOneClient s.now p)) ∧
        (R ∨ ∀ c ∈ s.connected, who c = false) := by
  constructor
  · intro hendures
    refine ⟨h.returns_iff.mp hendures.returns, ?_⟩
    obtain ⟨s', hrun, huntouched⟩ := hendures
    by_cases hR : R
    · exact Or.inl hR
    · refine Or.inr fun c hc => ?_
      exact ((h.done htype hrun).2 c hc).mp ((huntouched hR).pending_eq c (Or.inl hc))
  · intro hboth
    obtain ⟨_, s', hrun⟩ := h.returns_iff.mpr hboth.1
    refine ⟨s', hrun, fun hR => ?_⟩
    obtain ⟨hscene, hpending⟩ := h.done htype hrun
    refine ⟨?_, by rw [hscene], by rw [hscene], by rw [hscene]⟩
    intro c hc
    rcases hc with hc | hclient
    · exact (hpending c hc).mpr (hboth.2.resolve_left hR c hc)
    · exact absurd hclient hrole

/-- The server gets through with an update. -/
def ManagesUpdate (s : Process) (p : Packet) : Prop :=
  (s.role = .host → p.info.senderID ≠ 1 → ∃ m, messageOf p = .ok m) ∧
    (Recognized s.scene.registry p ∨ ∀ c ∈ s.connected, c = p.info.senderID)

/-- Relaying an update endures whatever the own client manages. -/
theorem update_endures_iff (hp : Raw p) (htype : p.header.type = .entityUpdate)
    (hrole : s.role ≠ .client) : s.Endures (Recognized s.scene.registry p)
      (sendPacketToAllExceptOneClient p.info.senderID p.info.senderID p) ↔ s.ManagesUpdate p := by
  have hpasses : PassesOn (fun c => decide (c ≠ p.info.senderID)) p
      (sendPacketToAllExceptOneClient p.info.senderID p.info.senderID p) s :=
    passesOn_others hp.owned s fun _ => rfl
  have hmanages : Manages s.scene (emittedToOneClient s.now p) ↔ ∃ m, messageOf p = .ok m := by
    have hsame : messageOf (emittedToOneClient s.now p) = messageOf p :=
      messageOf_emitted (c := p.readCursor) hp s.now
    rw [Manages, hsame]
    refine exists_congr fun m => and_iff_left_of_imp fun hm => ?_
    obtain ⟨info, q, _, rfl⟩ := (messageOf_info_iff .update (by rw [htype]; rfl)).mp hm
    trivial
  rw [hpasses.endures_iff (Or.inl htype) hrole, hmanages, ManagesUpdate]
  refine and_congr ?_ (or_congr Iff.rfl ?_)
  · rw [decide_eq_true_eq, ne_comm]
  · simp

/-- The server gets through with a call. -/
def ManagesCall (s : Process) (p : Packet) : Prop :=
  ∃ info name rpc, (readRequest p).1 = .ok (info, name) ∧
    s.scene.registry.entityRpcs info.type name = some rpc ∧
    (s.scene.held info.ID = some info →
      (s.role = .host → relayed rpc.rpctype p.info.senderID info.ownerID 1 = true →
        Catches s.scene.registry (emittedToOneClient s.now p)) ∧
      (Recognized s.scene.registry p ∨
        ∀ c ∈ s.connected, relayed rpc.rpctype p.info.senderID info.ownerID c = false))

/-- A request is read from the front. -/
theorem reads_readRequest : Reads readRequest :=
  reads_getEntityInfo.bind fun _ => reads_getString.bind fun _ => Reads.pure _

/-- The server's handler reads an info and a name first. -/
theorem returns_routeRPC (h : Returns (routeRPC p) s) :
    ∃ info name q rpc, readRequest p = (.ok (info, name), q) ∧
      s.scene.registry.entityRpcs info.type name = some rpc := by
  rw [routeRPC] at h
  obtain ⟨info, q, hinfo, h⟩ := returns_onPacket.mp h
  obtain ⟨name, q', hname, h⟩ := returns_onPacket.mp h
  dsimp only at h hname
  rw [Fallible.returns_bind_get] at h
  have hread : readRequest p = (.ok (info, name), q') := by
    rw [readRequest, Fallible.bind_ok hinfo, Fallible.bind_ok hname]
    rfl
  rcases hrpc : s.scene.registry.entityRpcs info.type name with _ | rpc
  · rw [hrpc] at h
    exact absurd h (Fallible.not_returns_fail _ _)
  · exact ⟨info, name, q', rpc, hread, hrpc⟩

/-- A call whose name is known goes where the type of the function says. -/
theorem routeRPC_eq {info : EntityInfo} {name : StdString} {q : Packet} {rpc : EntityRPC}
    (hread : readRequest p = (.ok (info, name), q))
    (hrpc : s.scene.registry.entityRpcs info.type name = some rpc) :
    routeRPC p s =
      (if s.scene.held info.ID = some info then dispatch rpc.rpctype info.ownerID q else
        pure ()) s := by
  obtain ⟨info', q₁, hinfo, hrest⟩ := Fallible.bind_eq_ok hread
  obtain ⟨name', q₂, hname, hlast⟩ := Fallible.bind_eq_ok hrest
  cases hlast
  rw [routeRPC, bind_onPacket hinfo]
  dsimp only
  rw [bind_onPacket hname, Fallible.bind_get]
  simp only [hrpc]
  rcases hent : s.scene.entities[info.ID]? with _ | ent
  · have hheld : s.scene.held info.ID ≠ some info := by
      rw [Scenegraph.held, hent]
      simp
    rw [if_neg hheld]
  · by_cases heq : info = ent.info
    · have hheld : s.scene.held info.ID = some info := by
        rw [Scenegraph.held, hent, Option.map_some, heq]
      rw [if_pos hheld]
      dsimp only
      rw [if_pos heq]
      cases rpc.rpctype <;> rfl
    · have hheld : s.scene.held info.ID ≠ some info := by
        rw [Scenegraph.held, hent, Option.map_some]
        exact fun h => heq (Option.some.inj h).symm
      rw [if_neg hheld]
      dsimp only
      rw [if_neg heq]

/-- A call that can be read and is registered. -/
theorem call_endures_iff {info : EntityInfo} {name : StdString} {q : Packet} {rpc : EntityRPC}
    (hp : Raw p) (htype : p.header.type = .entityRpc) (hs : s.Sane) (hrole : s.role ≠ .client)
    (hread : readRequest p = (.ok (info, name), q))
    (hrpc : s.scene.registry.entityRpcs info.type name = some rpc) :
    s.Endures R (routeRPC p) ↔ (s.scene.held info.ID = some info →
      (s.role = .host → relayed rpc.rpctype p.info.senderID info.ownerID 1 = true →
        Catches s.scene.registry (emittedToOneClient s.now p)) ∧
      (R ∨ ∀ c ∈ s.connected, relayed rpc.rpctype p.info.senderID info.ownerID c = false)) := by
  rw [endures_congr (routeRPC_eq hread hrpc)]
  by_cases hheld : s.scene.held info.ID = some info
  · rw [if_pos hheld, imp_iff_right hheld]
    obtain ⟨result, c, hboth, _⟩ := reads_readRequest p p ⟨rfl, rfl, rfl⟩
    rw [hread] at hboth
    have hq : q = p.withRead c := (Prod.mk.inj hboth).2
    subst hq
    have hpasses : PassesOn (relayed rpc.rpctype p.info.senderID info.ownerID) (p.withRead c)
        (dispatch rpc.rpctype info.ownerID (p.withRead c)) s :=
      dispatch_passesOn rpc.rpctype info.ownerID hp.owned hs.not_connected
    have hmanages : Manages s.scene (emittedToOneClient s.now (p.withRead c)) ↔
        Catches s.scene.registry (emittedToOneClient s.now p) := by
      obtain ⟨info', q₁, hinfo, hrest⟩ := Fallible.bind_eq_ok hread
      obtain ⟨name', q₂, hname, hlast⟩ := Fallible.bind_eq_ok hrest
      cases hlast
      have hm : messageOf (emittedToOneClient s.now (p.withRead c)) = .ok (.rpc info) := by
        rw [messageOf_emitted hp, messageOf_info_iff .rpc (by rw [htype]; rfl)]
        exact ⟨info, q₁, hinfo, rfl⟩
      rw [manages_of_message hm]
      exact imp_iff_right hheld
    rw [hpasses.endures_iff (Or.inr htype) hrole, hmanages]
  · rw [if_neg hheld]
    exact iff_of_true ⟨s, rfl, fun _ => Untouched.refl s⟩ fun h => absurd h hheld

/-- Routing endures a call that can be read and is meant for somebody. -/
theorem routeRPC_endures_iff (hp : Raw p) (htype : p.header.type = .entityRpc) (hs : s.Sane)
    (hrole : s.role ≠ .client) :
    s.Endures (Recognized s.scene.registry p) (routeRPC p) ↔ s.ManagesCall p := by
  constructor
  · intro hendures
    obtain ⟨info, name, q, rpc, hread, hrpc⟩ := returns_routeRPC hendures.returns
    exact ⟨info, name, rpc, by rw [hread], hrpc,
      (call_endures_iff hp htype hs hrole hread hrpc).mp hendures⟩
  · intro hmanages
    obtain ⟨info, name, rpc, hread, hrpc, hcall⟩ := hmanages
    rcases hrun : readRequest p with ⟨result, q⟩
    rw [hrun] at hread
    subst hread
    exact (call_endures_iff hp htype hs hrole hrun hrpc).mpr hcall

/-! ## Connections on a server -/

/-- The packet that tells a client of an entity. -/
def snapshotPacket (script : List WriteOp) (info : EntityInfo) : Packet :=
  ((do putEntityInfo info; WriteOp.performAll script : PacketM Unit)
    (ofHeader { type := .entityCreationOnConnection })).2

/-- The server gets through with telling a client of all entities: the transport can take
what the hooks leave. -/
def ManagesConnection (s : Process) (hook : EntityID → List WriteOp) (client : ClientID) : Prop :=
  s.scene.networkReady → ¬ (s.role = .host ∧ client = 1) →
    ∀ (id : EntityID) (ent : Entity), s.scene.entities[id]? = some ent →
      (snapshotPacket (hook id) ent.info).Owned

/-- Sending to another client fails only for a packet that does not own its bytes. -/
theorem sendPacketToOneClient_returns {origin client : ClientID}
    (hremote : ¬ (s.role = .host ∧ client = 1)) :
    Returns (sendPacketToOneClient origin client p) s ↔ p.Owned := by
  constructor
  · intro h
    obtain ⟨_, s', hrun⟩ := h
    rw [sendPacketToOneClient, Fallible.bind_get, bind_stamp, if_neg hremote] at hrun
    obtain ⟨data, hwire, _⟩ := bind_wireBytes_ok hrun
    unfold wire at hwire
    split at hwire
    · next hle =>
      rw [stamped, length_setHeader] at hle
      exact hle
    · cases hwire
  · intro h
    obtain ⟨d, hrun⟩ := sendPacketToOneClient_eq h origin client hremote
    exact ⟨(), _, hrun⟩

/-- Sending changes neither the role nor the registry. -/
theorem sendPacketToOneClient_frame {origin client : ClientID}
    (hrun : sendPacketToOneClient origin client p s = (.ok (), s')) :
    s'.role = s.role ∧ s'.scene.registry = s.scene.registry := by
  rw [sendPacketToOneClient, Fallible.bind_get, bind_stamp] at hrun
  split at hrun
  · obtain ⟨m, _, hhandled⟩ := clientHandler_ok hrun
    exact ⟨hhandled.frame.role_eq, hhandled.frame.registry_eq⟩
  · obtain ⟨data, _, hrun⟩ := bind_wireBytes_ok hrun
    cases hrun
    exact ⟨rfl, rfl⟩

/-- One turn of the loop over the entities. -/
theorem snapshot_returns {script : List WriteOp} {info : EntityInfo} {origin client : ClientID}
    (hrep : WriteOp.AllRepresentable script) (hcreatable : Creatable s.scene.registry info)
    (hID : info.ID ≠ 0) :
    Returns (onPacket (putEntityInfo info) (ofHeader { type := .entityCreationOnConnection }) >>=
      fun r => onPacket (WriteOp.performAll script) r.2 >>= fun q =>
        record (.snapshot client info) >>= fun _ => sendPacketToOneClient origin client q.2) s ↔
      (¬ (s.role = .host ∧ client = 1) → (snapshotPacket script info).Owned) := by
  obtain ⟨w, hinfo, hw, hext, _⟩ := mirrors_entityInfo info _
    (wellWritten_ofHeader { type := .entityCreationOnConnection })
  obtain ⟨w', hscript, _, _, _⟩ := WriteOp.mirrorsAll script hrep w hw
  have hpacket : snapshotPacket script info = w' := by
    rw [snapshotPacket, Fallible.bind_ok hinfo, hscript]
  rw [hpacket, returns_onPacket_ok hinfo, returns_onPacket_ok hscript, record,
    Fallible.returns_bind_modify]
  by_cases hlocal : s.role = .host ∧ client = 1
  · refine iff_of_true ?_ fun h => absurd hlocal h
    obtain ⟨hrole, rfl⟩ := hlocal
    obtain ⟨hwritten, hheader⟩ := written_entityInfo hrep (mirrors_restore info)
      (wellWritten_ofHeader { type := .entityCreationOnConnection }) rfl rfl (by simp [ofHeader])
      hinfo hscript
    rw [Returns, sendPacketToOneClient_host (by exact hrole)]
    refine clientHandler_returns.mpr ⟨.restore info, (hwritten.means s.now).1, hcreatable, ?_⟩
    exact fun hzero => absurd hzero hID
  · rw [imp_iff_right hlocal]
    exact sendPacketToOneClient_returns hlocal

/-- The snapshot for a new client can always be sent. -/
theorem sendAllNetworkedEntitiesToClient_returns {hook : EntityID → List WriteOp}
    (hrep : ∀ id, WriteOp.AllRepresentable (hook id)) (client : ClientID) (hs : s.Sane)
    (hrole : s.role ≠ .client) :
    Returns (sendAllNetworkedEntitiesToClient hook client) s ↔ s.ManagesConnection hook client := by
  rw [sendAllNetworkedEntitiesToClient, Fallible.returns_bind_get, ManagesConnection]
  by_cases hready : s.scene.networkReady = true
  · rw [if_pos ⟨hready, hrole⟩, imp_iff_right hready]
    refine (Fallible.returns_forEach
      (Q := fun t : Process => t.role = s.role ∧ t.scene.registry = s.scene.registry)
      (P := fun entry : EntityID × Entity => ¬ (s.role = .host ∧ client = 1) →
        (snapshotPacket (hook entry.1) entry.2.info).Owned) ?_ ?_ ⟨rfl, rfl⟩).trans ?_
    · intro entry hentry t ht
      have hent := Std.TreeMap.mem_toList_iff_getElem?_eq_some.mp (List.mem_reverse.mp hentry)
      obtain ⟨hid, hne, hcreatable⟩ := hs.kept.stored entry.1 entry.2 hent
      have hcreatable' : Creatable t.scene.registry entry.2.info := ht.2.symm ▸ hcreatable
      rw [← ht.1]
      exact snapshot_returns (hrep entry.1) hcreatable' (hid.symm ▸ hne)
    · intro entry _ t t' ht hrun
      obtain ⟨_, _, _, hrun⟩ := bind_onPacket_ok hrun
      obtain ⟨_, q, _, hrun⟩ := bind_onPacket_ok hrun
      dsimp only at hrun
      rw [record, Fallible.bind_modify] at hrun
      obtain ⟨hrole', hregistry⟩ := sendPacketToOneClient_frame hrun
      exact ⟨hrole'.trans ht.1, hregistry.trans ht.2⟩
    · constructor
      · intro h hremote id ent hent
        refine h (id, ent) ?_ hremote
        exact List.mem_reverse.mpr (Std.TreeMap.mem_toList_iff_getElem?_eq_some.mpr hent)
      · intro h entry hentry hremote
        refine h hremote entry.1 entry.2 ?_
        exact Std.TreeMap.mem_toList_iff_getElem?_eq_some.mp (List.mem_reverse.mp hentry)
  · rw [if_neg fun h => hready h.1]
    exact iff_of_true (Fallible.returns_pure _ _) fun h => absurd h hready

/-! ## Requests on a server -/

/-- The server gets through with a request for an entity. -/
def ManagesRequest (s : Process) (stack : Nat) (p : Packet) : Prop :=
  ∃ info spawnInfo, messageOf p = .ok (.creation info spawnInfo) ∧ s.Affords stack info

variable {stack : Nat} {hook : EntityID → List WriteOp}

/-- A request for an entity is endured if its whole tree can be made. -/
theorem creation_endures_iff (htype : p.header.type = .entityCreation) (hs : s.Sane)
    (hrole : s.role ≠ .client) :
    s.Endures (Recognized s.scene.registry p) (serverHandler stack hook p) ↔
      s.ManagesRequest stack p := by
  have hserving : ServerOf s.scene.registry s := ⟨hrole, rfl, hs.kept⟩
  have hcall : ∀ {info : EntityInfo} {spawnInfo : Packet},
      messageOf p = .ok (.creation info spawnInfo) →
      (s.Endures (Recognized s.scene.registry p) (serverHandler stack hook p) ↔
        s.Affords stack info) := by
    intro info spawnInfo hm
    obtain ⟨q, q', _, hspawn⟩ := reads_of_creation htype hm
    rw [endures_congr (Session.serverHandler_creation htype hm s), endures_of_untouched]
    · exact createNetworkedEntity_returns_iff hserving (getPacket_sound hspawn)
    · intro s' hrun hnot
      have hunregistered : ¬ Creatable s.scene.registry
          { info with ownerID := p.info.senderID } := fun h => hnot ⟨_, hm, h.2⟩
      rw [createNetworkedEntity_refused hunregistered hrun]
      exact Untouched.refl s
  constructor
  · intro hendures
    obtain ⟨_, s', hrun⟩ := hendures.returns
    obtain ⟨info, spawnInfo, hm⟩ := Session.creation_of_served htype hrun
    exact ⟨info, spawnInfo, hm, (hcall hm).mp hendures⟩
  · intro hmanages
    obtain ⟨info, spawnInfo, hm, haffords⟩ := hmanages
    exact (hcall hm).mpr haffords

/-- A deletion is endured if an id can be read. -/
theorem deletion_endures_iff (hp : Raw p) (htype : p.header.type = .entityDeletion) :
    s.Endures (Recognized s.scene.registry p) (serverHandler stack hook p) ↔
      ∃ m, messageOf p = .ok m := by
  have hrecognized : ∀ m, messageOf p = .ok m → Recognized s.scene.registry p := by
    intro m hm
    obtain ⟨id, q, _, rfl⟩ := (messageOf_deletion_iff htype).mp hm
    exact ⟨_, hm, trivial⟩
  constructor
  · intro hendures
    have hreturns := hendures.returns
    simp only [serverHandler, htype] at hreturns
    obtain ⟨id, q, hid, _⟩ := returns_onPacket.mp hreturns
    exact ⟨_, (messageOf_deletion_iff htype).mpr ⟨id, q, hid, rfl⟩⟩
  · intro hmessage
    obtain ⟨m, hm⟩ := hmessage
    suffices hreturns : Returns (serverHandler stack hook p) s by
      obtain ⟨_, s', hrun⟩ := hreturns
      exact ⟨s', hrun, fun hnot => absurd (hrecognized m hm) hnot⟩
    obtain ⟨id, q, hid, rfl⟩ := (messageOf_deletion_iff htype).mp hm
    obtain ⟨result, c, hboth, _⟩ := reads_getScalar 4 p p ⟨rfl, rfl, rfl⟩
    rw [hid] at hboth
    have hq : q = p.withRead c := (Prod.mk.inj hboth).2
    subst hq
    simp only [serverHandler, htype]
    rw [returns_onPacket_ok hid, Fallible.returns_bind_get]
    dsimp only
    rcases s.scene.entities[Int32.ofBitVec id]? with _ | ent
    · exact Fallible.returns_pure _ _
    dsimp only
    split
    · obtain ⟨data, hwire⟩ := wire_of_owned (p := p.withRead c) hp.owned s.now
      rw [Returns, sendPacketToAllClients_eq _ hwire]
      by_cases hlocal : s.role = .host
      · rw [if_pos hlocal]
        refine clientHandler_returns.mpr ⟨.deletion (Int32.ofBitVec id), ?_, trivial⟩
        rw [emittedToClient, messageOf_info]
        exact (messageOf_emitted hp s.now).trans hm
      · rw [if_neg hlocal]
        exact Fallible.returns_pure _ _
    · exact Fallible.returns_pure _ _

/-! ## The server's handler -/

/-- The server's handler gets through with the packet. -/
def ServerManages (s : Process) (stack : Nat) (hook : EntityID → List WriteOp) (p : Packet) :
    Prop :=
  match p.header.type with
  | .entityCreation => s.ManagesRequest stack p
  | .connected => s.ManagesConnection hook p.info.senderID
  | .entityUpdate => s.ManagesUpdate p
  | .entityRpc => s.ManagesCall p
  | .entityDeletion => ∃ m, messageOf p = .ok m
  | _ => True

/-- **The handler of a server**, type by type. -/
theorem serverHandler_endures_iff (hrep : ∀ id, WriteOp.AllRepresentable (hook id)) (hp : Raw p)
    (hs : s.Sane) (hrole : s.role ≠ .client) :
    s.Endures (Recognized s.scene.registry p) (serverHandler stack hook p) ↔
      s.ServerManages stack hook p := by
  rw [ServerManages]
  cases htype : p.header.type with
  | entityCreation => exact creation_endures_iff htype hs hrole
  | connected =>
      have hm : messageOf p = .ok .other := by
        rw [messageOf, htype]
        rfl
      have hrun : serverHandler stack hook p s =
          sendAllNetworkedEntitiesToClient hook p.info.senderID s := by
        simp only [serverHandler, htype]
      rw [endures_congr hrun, endures_of_untouched fun _ _ hnot => absurd ⟨_, hm, trivial⟩ hnot]
      exact sendAllNetworkedEntitiesToClient_returns hrep _ hs hrole
  | entityUpdate =>
      have hrun : serverHandler stack hook p s =
          sendPacketToAllExceptOneClient p.info.senderID p.info.senderID p s := by
        simp only [serverHandler, htype]
      rw [endures_congr hrun]
      exact update_endures_iff hp htype hrole
  | entityRpc =>
      have hrun : serverHandler stack hook p s = routeRPC p s := by
        simp only [serverHandler, htype]
      rw [endures_congr hrun]
      exact routeRPC_endures_iff hp htype hs hrole
  | entityDeletion => exact deletion_endures_iff hp htype
  | _ =>
      refine iff_of_true ⟨s, ?_, fun _ => Untouched.refl s⟩ trivial
      simp only [serverHandler, htype]
      rfl

/-! ## Bytes from the network -/

/-- What arrives is a packet if and only if there is a header. -/
structure Arrival (data : List Byte) (arrival : Except Fault Packet) : Prop where
  ok_iff : (∃ q, arrival = .ok q) ↔ headerSize ≤ data.length
  raw : ∀ q, arrival = .ok q → Raw q

/-- A packet arrives as its bytes with an info of the receiver's. -/
theorem arrival_of_ofData {data : List Byte} {f : Packet → PacketInfo} :
    Arrival data (do let q ← ofData data; return { q with info := f q }) := by
  by_cases hlen : headerSize ≤ data.length
  · rw [ofData_eq hlen]
    refine ⟨iff_of_true ⟨_, rfl⟩ hlen, ?_⟩
    intro q hq
    cases hq
    exact ⟨rfl, Nat.le_refl _⟩
  · rw [ofData, if_pos (Nat.not_le.mp hlen)]
    refine ⟨iff_of_false (by rintro ⟨q, ⟨⟩⟩) hlen, ?_⟩
    intro q hq
    cases hq

/-- What arrives is withstood if the handler endures it. -/
theorem Arrival.withstands_iff {data : List Byte} {arrival : Except Fault Packet}
    {handler : Packet → ProcessM Unit} {M : Packet → Prop} (h : Arrival data arrival)
    (hhandler : ∀ q, Raw q → (s.Endures (Recognized s.scene.registry q) (handler q) ↔ M q)) :
    s.Withstands arrival handler ↔ headerSize ≤ data.length ∧ ∀ q, arrival = .ok q → M q := by
  constructor
  · intro hwithstands
    obtain ⟨q, hq, hendures⟩ := hwithstands
    refine ⟨h.ok_iff.mp ⟨q, hq⟩, ?_⟩
    intro q' hq'
    rw [hq] at hq'
    cases hq'
    exact (hhandler q (h.raw q hq)).mp hendures
  · intro hboth
    obtain ⟨q, hq⟩ := h.ok_iff.mpr hboth.1
    exact ⟨q, hq, (hhandler q (h.raw q hq)).mpr (hboth.2 q hq)⟩

/-- Withstood input throws nothing out of the receiver. -/
theorem Withstands.outcome {arrival : Except Fault Packet} {handler : Packet → ProcessM Unit}
    (h : s.Withstands arrival handler) : (arrival >>= fun q => (handler q s).1).isOk := by
  obtain ⟨q, rfl, s', hrun, _⟩ := h
  change (handler q s).1.isOk = true
  rw [hrun]
  rfl

end

/-- A listen server to which client 2 has connected. -/
def visited : Process := { started .host 1 Sample.registry with connected := [2] }

/-- The session that the next theorem starts from is reached. -/
theorem reached_visited : visited.Reached :=
  ⟨.host, 1, Sample.registry, .single (.connect 2 (by decide))⟩

/-- The deletion of an entity that is not there. -/
def idleDeletion : List Byte := [11, 0, 0, 0, 0, 0, 0, 0, 7, 0, 0, 0]

/-- An `ENTITY_DELETION` that ends after the header. -/
def truncatedDeletion : List Byte := [11, 0, 0, 0, 0, 0, 0, 0]

end Process

end EnkiNet
