import EnkiNet.SessionTurns

/-!
# Who may update an entity

An `ENTITY_UPDATE` is applied wherever its info is equal to the stored one.  Clients
send updates for entities that they own, but the server relays whatever it gets, so
the owner in the info is the only authority: `updates_by_owner` is what holds when
every update that a client makes up itself names that client as owner, and
`forged_update` is a run in which one does not.

There is a second way to `deserializeOnTick`: the default `deserializeOnConnection`
calls it when a client is told of an entity, and then the packet comes from the
server.
-/

namespace EnkiNet

open ByteStore Packet

namespace Effect

/-- An update of a networked entity comes from its owner. -/
def ByOwner : Effect → Prop
  | .deserializeOnTick target origin => 0 < target.ID → origin = target.ownerID
  | _ => True

instance : DecidablePred ByOwner
  | .deserializeOnTick _ _ => inferInstanceAs (Decidable (_ → _))
  | .onSpawn _ _ | .deserializeOnConnection _ _ | .execute _ _ _ | .announce _ _ | .spawn _ _
  | .restore _ _ | .snapshot _ _ | .tick _ => .isTrue trivial

end Effect

namespace Session

/-- Every update that has been applied anywhere came from the owner of its entity. -/
def UpdatesByOwner (s : Session) : Prop := s.Everywhere Effect.ByOwner

instance (s : Session) : Decidable s.UpdatesByOwner :=
  inferInstanceAs (Decidable (s.Everywhere Effect.ByOwner))

/-- The entity of an `ENTITY_UPDATE`. -/
def updated (data : List Byte) : Option EntityInfo :=
  match messageOfData data with
  | .ok (.update info) => some info
  | _ => none

/-- No client makes up an update of another client's entity, and when a client is told
of an entity that the host does not own, its class has its own
`deserializeOnConnection`. -/
def OwnUpdates (registry : Registry) (s : Session) : Event → Prop
  | .send c data => ∀ info ∈ updated data, 0 < info.ID → info.ownerID = c
  | .serve _ _ => ∀ p ∈ s.queue.head?, p.header.type = .connected →
      ∀ info ∈ s.stored, 0 < info.ID → info.ownerID = 1 ∨
        ∀ cls ∈ registry.builders info.type, cls.overridesOnConnection = true
  | _ => True

instance (registry : Registry) (s : Session) : (e : Event) → Decidable (s.OwnUpdates registry e)
  | .send _ _ | .serve _ _ => by
      unfold OwnUpdates
      infer_instance
  | .connect _ _ _ | .disconnect _ _ _ | .receive _ _ | .deliver _ _ | .hostCall _ _ _
  | .peerCall _ _ _ _ => .isTrue trivial

/-- The policy under which the owner in an info is its sender. -/
def ownership (registry : Registry) : Policy where
  chosen _ := True
  update c info := 0 < info.ID → info.ownerID = c
  snapshot info := 0 < info.ID → info.ownerID = 1 ∨
    ∀ cls ∈ registry.builders info.type, cls.overridesOnConnection = true

variable {registry : Registry}

theorem byOwner_of_allows {id : ClientID} {e : Effect}
    (h : (ownership registry).Allows registry id e) : e.ByOwner := by
  cases e with
  | deserializeOnTick target origin =>
      intro hpos
      rcases h with hupdate | ⟨horigin, hsnapshot, cls, hcls, hdefault⟩
      · exact (hupdate hpos).symm
      · rcases hsnapshot hpos with howner | hover
        · rw [horigin, howner]
        · rw [hover cls hcls] at hdefault
          cases hdefault
  | _ => trivial

/-- The tick sends updates for entities that the process owns. -/
theorem permits_tick {p : Process} (hrole : p.role ≠ .server) {ent : Entity}
    (hdue : p.ticked.isDue ent) : (ownership registry).update p.id ent.info := by
  intro hpos
  have howner := hdue.1
  have hlocal : ¬ ent.info.ID < 0 := Int32.not_lt.mpr (Int32.le_of_lt hpos)
  rw [Process.isOwner, if_neg hlocal, if_neg (by exact hrole)] at howner
  exact (of_decide_eq_true howner).symm

theorem permits_of_ownUpdates {s : Session} {e : Event} (hs : s.Obeys (ownership registry))
    (he : s.OwnUpdates registry e) : (ownership registry).Permits s e := by
  have hcall : ∀ (p : Process) (call : GameCall), p.role ≠ .server →
      (ownership registry).PermitsCall p call := by
    intro p call hrole
    cases call with
    | createNetworkedEntity info spawnInfo sound => exact Or.inr trivial
    | networkTick => exact fun id ent _ hdue => permits_tick hrole hdue
    | _ => trivial
  cases e with
  | send c data =>
      intro m hm
      cases m with
      | creation info spawnInfo => exact Or.inr trivial
      | update info => exact he info (by rw [updated, hm]; rfl)
      | _ => trivial
  | serve stack hooks => exact fun p hp htype => ⟨trivial, he p hp htype⟩
  | hostCall stack hooks call => exact hcall s.host call hs.host.role_ne
  | peerCall c stack hooks call =>
      intro hc
      exact hcall (s.peer c) call (hs.member c hc).ready.role_ne
  | _ => trivial

/-- **Update authority.**  In a run in which no client makes up an update of an entity
that it does not own, every update of a networked entity that is applied anywhere
comes from the owner of the entity. -/
theorem updates_by_owner {es : List Event} {t : Session}
    (hmeets : Runs.Meets step (OwnUpdates registry) (start registry) es)
    (hrun : Runs.run step (start registry) es = some t) : t.UpdatesByOwner := by
  obtain ⟨hobeys, hregistry, _⟩ := run_invariant_of_permits (ownership registry)
    (fun _ => True) (fun s e hs _ _ he => permits_of_ownUpdates hs he)
    (fun _ _ _ _ _ => trivial) trivial hmeets hrun
  apply hobeys.everywhere
  intro id e hallowed
  rw [hregistry] at hallowed
  exact byOwner_of_allows hallowed

/-- A client that joins, creates an entity of its own and sends an update of it. -/
def honestUpdates : List Event :=
  [.hostCall 5 .silent Sample.create, .connect 2 0 0, .serve 5 .silent, .deliver 2 0,
    .peerCall 2 5 .silent Sample.create, .receive 2 0, .serve 5 .silent, .deliver 2 0,
    .peerCall 2 5 .silent (.setNetworkTickRate 2 1), .peerCall 2 5 .silent .networkTick,
    .receive 2 0, .serve 5 .silent]

theorem updates_by_owner_honestUpdates :
    ∃ t, Runs.run step (start Sample.registry) honestUpdates = some t ∧ t.UpdatesByOwner := by
  have hsome : (Runs.run step (start Sample.registry) honestUpdates).isSome := by decide +kernel
  obtain ⟨t, ht⟩ := Option.isSome_iff_exists.mp hsome
  have hmeets : Runs.Meets step (OwnUpdates Sample.registry) (start Sample.registry)
      honestUpdates := by decide +kernel
  exact ⟨t, ht, updates_by_owner hmeets ht⟩

/-- Client 2 sends an update of the host's entity. -/
def forgery : List Event :=
  [.hostCall 5 .silent Sample.create, .connect 2 0 0, .serve 5 .silent, .deliver 2 0,
    .send 2 (Sample.bytes .entityUpdate (putEntityInfo (Sample.info 1 1))), .receive 2 0,
    .serve 5 .silent]

/-- **A forged update is relayed, and the host applies it.** -/
theorem forged_update :
    ∃ t, Runs.run step (start Sample.registry) forgery = some t ∧ ¬ t.UpdatesByOwner :=
  Runs.exists_of_any (by decide +kernel)

end Session

end EnkiNet
