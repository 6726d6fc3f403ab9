import EnkiNet.SessionTurns

/-!
# Local entities

Every process numbers its local entities from -1 downwards, so packets about them
mean other entities to whoever gets them.  The two loops of the library that tell
others about entities do not look at the sign of the id:
`sendAllNetworkedEntitiesToClient` sends every stored entity, and the network tick
every entity that `isOwner` accepts, which it does for all local ones.

`locals_stay_local` is what holds as long as these loops meet no local entity, and
`local_entity_leaks` is a run in which the first one does.
-/

namespace EnkiNet

open ByteStore Packet

namespace Effect

/-- The entity that a loop is about to send, or that a packet has created, replaced or
written to. -/
def about : Effect → Option EntityInfo
  | .snapshot _ info | .tick info | .spawn info _ | .restore info _
  | .deserializeOnTick info _ | .deserializeOnConnection info _ => some info
  | .onSpawn _ _ | .execute _ _ _ | .announce _ _ => none

/-- What went over the network was not about a local entity. -/
def SparesLocals (e : Effect) : Prop := ∀ info ∈ e.about, ¬ info.ID < 0

instance : DecidablePred SparesLocals := fun e =>
  inferInstanceAs (Decidable (∀ info ∈ e.about, ¬ info.ID < 0))

end Effect

namespace Session

/-- No local entity has been sent, created, replaced or written to by a packet. -/
def LocalsStayLocal (s : Session) : Prop := s.Everywhere Effect.SparesLocals

instance (s : Session) : Decidable s.LocalsStayLocal :=
  inferInstanceAs (Decidable (s.Everywhere Effect.SparesLocals))

/-- The entity that a packet from a client asks to be created or updated. -/
def asked (data : List Byte) : Option EntityInfo :=
  match messageOfData data with
  | .ok (.creation info _) | .ok (.update info) => some info
  | _ => none

/-- A call that does not take a local entity to the network: no request for an id that
belongs to local entities, and no tick at which a local entity is due. -/
def CallSparesLocals (p : Process) : GameCall → Prop
  | .createNetworkedEntity info _ _ => ¬ info.ID < 0
  | .networkTick => ∀ entry ∈ p.scene.entities.toList, p.ticked.isDue entry.2 →
      ¬ entry.2.info.ID < 0
  | _ => True

instance (p : Process) : (call : GameCall) → Decidable (CallSparesLocals p call)
  | .createNetworkedEntity _ _ _ | .networkTick => by
      unfold CallSparesLocals
      infer_instance
  | .createEntity _ _ _ | .deleteEntity _ | .update | .callRPC _ _ _ _
  | .setNetworkTickRate _ _ | .elapse _ => .isTrue trivial

/-- The library's loops meet no local entity, and what clients make up asks for none. -/
def MeetsNoLocals (s : Session) : Event → Prop
  | .send _ data => ∀ info ∈ asked data, ¬ info.ID < 0
  | .serve _ _ => ∀ p ∈ s.queue.head?, p.header.type = .connected →
      ∀ info ∈ s.stored, ¬ info.ID < 0
  | .hostCall _ _ call => CallSparesLocals s.host call
  | .peerCall c _ _ call => CallSparesLocals (s.peer c) call
  | _ => True

instance (s : Session) : (e : Event) → Decidable (s.MeetsNoLocals e)
  | .send _ _ | .serve _ _ | .hostCall _ _ _ | .peerCall _ _ _ _ => by
      unfold MeetsNoLocals
      infer_instance
  | .connect _ _ _ | .disconnect _ _ _ | .receive _ _ | .deliver _ _ => .isTrue trivial

/-- The policy under which local ids are not asked for. -/
def noLocals : Policy where
  chosen id := ¬ id < 0
  update _ info := ¬ info.ID < 0
  snapshot info := ¬ info.ID < 0

/-- What the policy allows spares local entities. -/
theorem sparesLocals_of_allows {registry : Registry} {id : ClientID} {e : Effect}
    (h : noLocals.Allows registry id e) : e.SparesLocals := by
  intro info hinfo
  cases e with
  | snapshot client target => exact Option.mem_some.mp hinfo ▸ h
  | tick target => exact Option.mem_some.mp hinfo ▸ h
  | spawn target held =>
      cases Option.mem_some.mp hinfo
      rcases h with hpos | ⟨_, hchosen⟩
      · exact Int32.not_lt.mpr (Int32.le_of_lt hpos)
      · exact hchosen
  | restore target held => exact Option.mem_some.mp hinfo ▸ h.2
  | deserializeOnTick target origin =>
      cases Option.mem_some.mp hinfo
      rcases h with hupdate | ⟨_, hsnapshot, _⟩
      · exact hupdate
      · exact hsnapshot
  | deserializeOnConnection target origin => exact Option.mem_some.mp hinfo ▸ h.2
  | _ => cases hinfo

/-- Under the condition the policy is obeyed. -/
theorem permits_of_meetsNoLocals {s : Session} {e : Event} (he : s.MeetsNoLocals e) :
    noLocals.Permits s e := by
  have hcall : ∀ (p : Process) (call : GameCall), CallSparesLocals p call →
      noLocals.PermitsCall p call := by
    intro p call h
    cases call with
    | createNetworkedEntity info spawnInfo sound => exact Or.inr h
    | networkTick =>
        intro id ent hent hdue
        exact h (id, ent) (Std.TreeMap.mem_toList_iff_getElem?_eq_some.mpr hent) hdue
    | _ => trivial
  cases e with
  | send c data =>
      intro m hm
      cases m with
      | creation info spawnInfo => exact Or.inr (he info (by rw [asked, hm]; rfl))
      | update info => exact he info (by rw [asked, hm]; rfl)
      | _ => trivial
  | serve stack hooks => exact fun p hp htype => ⟨trivial, he p hp htype⟩
  | hostCall stack hooks call => exact hcall s.host call he
  | peerCall c stack hooks call => exact fun _ => hcall (s.peer c) call he
  | _ => trivial

/-- **Local entities stay local.**  As long as the snapshot for a client and the network
tick meet no local entity, no packet is about one and none is created, replaced or
written to by a packet. -/
theorem locals_stay_local {registry : Registry} {es : List Event} {t : Session}
    (hmeets : Runs.Meets step MeetsNoLocals (start registry) es)
    (hrun : Runs.run step (start registry) es = some t) : t.LocalsStayLocal := by
  obtain ⟨hobeys, _, _⟩ := run_invariant_of_permits noLocals (fun _ => True)
    (fun s e _ _ _ he => permits_of_meetsNoLocals he) (fun _ _ _ _ _ => trivial) trivial
    hmeets hrun
  exact hobeys.everywhere fun _ _ => sparesLocals_of_allows

/-- `createEntity` of game code, with the id left open. -/
def createLocal : GameCall := .createEntity (Sample.info 0 0) rfl (ofHeader {})

/-- A client that has a local entity, next to a networked one that it updates. -/
def localAtClient : List Event :=
  [.hostCall 5 .silent Sample.create, .connect 2 0 0, .serve 5 .silent, .deliver 2 0,
    .peerCall 2 5 .silent createLocal, .peerCall 2 5 .silent Sample.create, .receive 2 0,
    .serve 5 .silent, .deliver 2 0, .peerCall 2 5 .silent (.setNetworkTickRate 2 1),
    .peerCall 2 5 .silent .networkTick, .receive 2 0, .serve 5 .silent]

/-- A client with an entity of its own. -/
theorem locals_stay_local_at_client :
    ∃ t, Runs.run step (start Sample.registry) localAtClient = some t ∧ t.LocalsStayLocal := by
  have hsome : (Runs.run step (start Sample.registry) localAtClient).isSome := by decide +kernel
  obtain ⟨t, ht⟩ := Option.isSome_iff_exists.mp hsome
  have hmeets : Runs.Meets step MeetsNoLocals (start Sample.registry) localAtClient := by
    decide +kernel
  exact ⟨t, ht, locals_stay_local hmeets ht⟩

/-- **A local entity leaks.**  The host has one when client 2 connects. -/
theorem local_entity_leaks :
    ∃ t, Runs.run step (start Sample.registry)
      [.hostCall 5 .silent createLocal, .connect 2 0 0, .serve 5 .silent, .deliver 2 0] = some t ∧
      ¬ t.LocalsStayLocal :=
  Runs.exists_of_any (by decide +kernel)

end Session

end EnkiNet
