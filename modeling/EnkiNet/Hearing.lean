import EnkiNet.Creation
import EnkiNet.SessionTurns

/-!
# What clients hear of creations

The host's own client calls `onSpawn` for every entity that is announced, as the
announcement is made; a remote client does so when it handles the packet.  What a remote
client has `heard` is what it has spawned and what is on its way to it.

As long as a client stays connected and asks for no snapshot it hears of the entities that
the host's client spawns, of each of them once and in the same order (`hears_of_run`).
-/

namespace EnkiNet

open ByteStore Packet Process

/-- Nothing is ruled out. -/
def Policy.any : Policy := ⟨fun _ => True, fun _ _ => True, fun _ => True, fun _ => True⟩

theorem Policy.any_asks (c : ClientID) (m : Message) : Policy.any.Asks c m := by
  cases m with
  | creation info spawnInfo => exact Or.inr trivial
  | _ => trivial

theorem Policy.any_permits (s : Session) (e : Session.Event) : Policy.any.Permits s e := by
  have hcall : ∀ (p : Process) (call : GameCall), Policy.any.PermitsCall p call := by
    intro p call
    cases call with
    | createNetworkedEntity info spawnInfo sound => exact Or.inr trivial
    | networkTick => exact fun _ _ _ _ => trivial
    | _ => trivial
  cases e with
  | send c data => exact fun m _ => any_asks c m
  | serve stack hooks => exact fun _ _ _ => ⟨trivial, fun _ _ => trivial⟩
  | hostCall stack hooks call => exact hcall s.host call
  | peerCall c stack hooks call => exact fun _ => hcall (s.peer c) call
  | _ => trivial

namespace Process

/-- The networked entities that the datagram will spawn. -/
def spawnedBy (r : Registry) (d : Datagram) : List (EntityInfo × Packet) :=
  match messageOfData d.data with
  | .ok m => m.spawned r
  | .error _ => []

def pendingSpawns (s : Process) (c : ClientID) : List (EntityInfo × Packet) :=
  (s.pending c).flatMap (spawnedBy s.scene.registry)

/-- What a datagram spawns is what its message spawns. -/
theorem spawnedBy_ok {r : Registry} {d : Datagram} {m : Message}
    (h : messageOfData d.data = .ok m) :
    spawnedBy r d = m.spawned r := by
  rw [spawnedBy, h]

variable {π : Policy} {s s' : Process}

/-- Between messages nothing networked is spawned. -/
theorem Idle.networkSpawns_eq {new : List Effect} (h : ∀ e ∈ new, Idle π s e) (hs : Kept s.scene) :
    networkSpawns new = [] := by
  rw [networkSpawns, List.filterMap_eq_nil_iff]
  intro e he
  cases h e he with
  | onSpawn info spawnInfo hneg =>
      exact if_neg (Int32.not_lt.mpr (Int32.le_of_lt (hneg hs)))
  | _ => rfl

/-- What is relayed spawns nothing. -/
theorem Message.Relayed.spawned_eq {m : Message} (h : m.Relayed) (r : Registry) :
    m.spawned r = [] := by
  cases m with
  | creation info spawnInfo => cases h
  | restore info => cases h
  | _ => rfl

/-- What a broadcast adds for a client. -/
theorem Broadcast.pendingSpawns_eq {origin : ClientID} {who : ClientID → Prop} {m : Message}
    (h : Broadcast origin who m s s') {c : ClientID} (hc : c ∈ s.connected)
    (hwho : who c ∨ m.spawned s.scene.registry = []) :
    s'.pendingSpawns c = s.pendingSpawns c ++ m.spawned s.scene.registry := by
  rw [pendingSpawns, h.frame.registry_eq, pendingSpawns]
  rcases h.pending hc with ⟨hno, hsame⟩ | ⟨_, d, _, hd, hmore⟩
  · rw [hsame, hwho.resolve_left hno, List.append_nil]
  · rw [hmore, List.flatMap_append, List.flatMap_cons, List.flatMap_nil, List.append_nil,
      spawnedBy_ok hd]

/-- **A move of the host tells a client of exactly what the host's client spawns.** -/
theorem Move.spawns_host (h : Move π s s') (hrole : s.role = .host) (hs : Kept s.scene)
    {c : ClientID} (hc : c ∈ s.connected) :
    ∃ new, networkSpawns s'.effects = networkSpawns s.effects ++ new ∧
      s'.pendingSpawns c = s.pendingSpawns c ++ new := by
  cases h with
  | allocate hmax h =>
      refine ⟨[], ?_, ?_⟩
      · rw [h, List.append_nil]
      · rw [h, List.append_nil]
        rfl
  | quiet h =>
      obtain ⟨new, hnew, hidle⟩ := h.effects
      refine ⟨[], ?_, ?_⟩
      · rw [hnew, networkSpawns_append, Idle.networkSpawns_eq hidle hs]
      · rw [pendingSpawns, pending, h.outbox_eq, h.frame.registry_eq, List.append_nil]
        rfl
  | announce info spawnInfo t _ hcreatable htells hfresh ht h =>
      subst ht
      refine ⟨(Message.creation info spawnInfo).spawned s.scene.registry, ?_,
        h.pendingSpawns_eq hc (Or.inl rfl)⟩
      obtain ⟨t, hsent, ⟨_, _, hhandled⟩ | ⟨hnone, _⟩⟩ := h
      · have hkept : Kept t.scene := hsent.scene_eq ▸ hs
        rw [hhandled.spawns_eq hkept, hsent.effects_eq, networkSpawns_append, hsent.scene_eq]
        exact congrArg (· ++ _) (List.append_nil _)
      · exact absurd ⟨hrole, rfl⟩ hnone
  | relay origin who m _ hm htells hall h =>
      have hnone := Message.Relayed.spawned_eq hm s.scene.registry
      refine ⟨[], ?_, ?_⟩
      · obtain ⟨t, hsent, ⟨_, _, hhandled⟩ | ⟨_, rfl⟩⟩ := h
        · have hkept : Kept t.scene := hsent.scene_eq ▸ hs
          rw [hhandled.spawns_eq hkept, hsent.effects_eq, hsent.scene_eq, hnone]
        · rw [hsent.effects_eq, List.append_nil]
      · rw [h.pendingSpawns_eq hc (Or.inr hnone), hnone]
  | request m hclient hasks h =>
      rw [hrole] at hclient
      cases hclient

/-- A remote client spawns networked entities only for packets from the server. -/
theorem Move.spawns_client (h : Move π s s') (hrole : s.role = .client) (hs : Kept s.scene) :
    networkSpawns s'.effects = networkSpawns s.effects := by
  cases h with
  | allocate hmax h => rw [h]
  | quiet h =>
      obtain ⟨new, hnew, hidle⟩ := h.effects
      rw [hnew, networkSpawns_append, Idle.networkSpawns_eq hidle hs, List.append_nil]
  | announce info spawnInfo t hhost hcreatable htells hfresh ht h =>
      rw [hrole] at hhost
      cases hhost
  | relay origin who m hhost hm htells hall h =>
      rw [hrole] at hhost
      cases hhost
  | request m _ hasks h => rw [h.effects_eq]

/-- Everything networked that the host spawns it sends to every client. -/
theorem spawns_of_host_moves (h : Relation.ReflTransGen (Move π) s s') (hrole : s.role = .host)
    (hs : Kept s.scene) {c : ClientID} (hc : c ∈ s.connected) :
    ∃ new, networkSpawns s'.effects = networkSpawns s.effects ++ new ∧
      s'.pendingSpawns c = s.pendingSpawns c ++ new := by
  have hall : Kept s'.scene ∧ ∃ new, networkSpawns s'.effects = networkSpawns s.effects ++ new ∧
      s'.pendingSpawns c = s.pendingSpawns c ++ new := by
    induction h with
    | refl => exact ⟨hs, [], (List.append_nil _).symm, (List.append_nil _).symm⟩
    | tail hmoves hlast ih =>
        obtain ⟨hkept, new, hspawns, hpending⟩ := ih
        have hframe := frame_of_moves hmoves
        obtain ⟨more, hspawns', hpending'⟩ := hlast.spawns_host (hframe.role_eq.trans hrole) hkept
          (hframe.connected_eq.symm ▸ hc)
        refine ⟨hlast.kept hkept, new ++ more, ?_, ?_⟩
        · rw [hspawns', hspawns, List.append_assoc]
        · rw [hpending', hpending, List.append_assoc]
  exact hall.2

/-- A client spawns nothing networked on its own. -/
theorem spawns_of_client_moves (h : Relation.ReflTransGen (Move π) s s') (hrole : s.role = .client)
    (hs : Kept s.scene) : networkSpawns s'.effects = networkSpawns s.effects := by
  have hall : Kept s'.scene ∧ networkSpawns s'.effects = networkSpawns s.effects := by
    induction h with
    | refl => exact ⟨hs, rfl⟩
    | tail hmoves hlast ih =>
        have hrole' := (frame_of_moves hmoves).role_eq.trans hrole
        exact ⟨hlast.kept ih.1, (hlast.spawns_client hrole' ih.1).trans ih.2⟩
  exact hall.2

end Process

namespace Session

variable {s s' : Session} {c : ClientID}

/-- The networked entities that the client has spawned or is about to. -/
def heard (s : Session) (c : ClientID) : List (EntityInfo × Packet) :=
  networkSpawns (s.peer c).effects ++ s.host.pendingSpawns c

/-- The client does not leave and is sent no snapshot. -/
def StaysWith (c : ClientID) (s : Session) : Event → Prop
  | .disconnect c' _ _ => c' ≠ c
  | .serve _ _ => ∀ p ∈ s.queue.head?, p.header.type = .connected → p.info.senderID ≠ c
  | _ => True

instance (c : ClientID) (s : Session) : (e : Event) → Decidable (s.StaysWith c e)
  | .disconnect c' _ _ => inferInstanceAs (Decidable (c' ≠ c))
  | .serve _ _ => inferInstanceAs (Decidable (∀ p ∈ s.queue.head?, _ → _))
  | .connect .. => .isTrue trivial
  | .send .. => .isTrue trivial
  | .receive .. => .isTrue trivial
  | .deliver .. => .isTrue trivial
  | .hostCall .. => .isTrue trivial
  | .peerCall .. => .isTrue trivial

/-- The client has heard of what the host's client has spawned in the meantime. -/
structure Hears (c : ClientID) (s s' : Session) : Prop where
  connected : c ∈ s'.host.connected
  alike : ∃ new, networkSpawns s'.host.effects = networkSpawns s.host.effects ++ new ∧
    s'.heard c = s.heard c ++ new

theorem Hears.refl (hc : c ∈ s.host.connected) : Hears c s s :=
  ⟨hc, [], (List.append_nil _).symm, (List.append_nil _).symm⟩

/-- Two stretches of hearing. -/
theorem Hears.trans {t : Session} (h : Hears c s t) (h' : Hears c t s') : Hears c s s' := by
  obtain ⟨new, hspawns, hheard⟩ := h.alike
  obtain ⟨more, hspawns', hheard'⟩ := h'.alike
  refine ⟨h'.connected, new ++ more, ?_, ?_⟩
  · rw [hspawns', hspawns, List.append_assoc]
  · rw [hheard', hheard, List.append_assoc]

/-- Nothing that matters for the client changes. -/
theorem Hears.of_same (hc : c ∈ s'.host.connected) (heffects : s'.host.effects = s.host.effects)
    (hpeer : networkSpawns (s'.peer c).effects = networkSpawns (s.peer c).effects)
    (hpending : s'.host.pendingSpawns c = s.host.pendingSpawns c) : Hears c s s' := by
  refine ⟨hc, [], ?_, ?_⟩
  · rw [heffects, List.append_nil]
  · rw [heard, hpeer, hpending, heard, List.append_nil]

/-- Another client is not concerned. -/
theorem hears_setPeer {d : ClientID} {p : Process} (hc : c ∈ s.host.connected)
    (hp : d = c → networkSpawns p.effects = networkSpawns (s.peer c).effects) :
    Hears c s (s.setPeer d p) := by
  refine Hears.of_same hc rfl ?_ rfl
  by_cases heq : d = c
  · subst heq
    rw [setPeer_peer_self]
    exact hp rfl
  · rw [setPeer_peer_ne (Ne.symm heq)]

/-- What the host does is heard by a connected client. -/
theorem hears_of_host_moves {π : Policy} {h : Process} (queue : List Packet) (hs : s.Obeys π)
    (hc : c ∈ s.host.connected) (hmoves : Relation.ReflTransGen (Move π) s.host h) :
    Hears c s { s with host := h, queue := queue } := by
  obtain ⟨new, hspawns, hpending⟩ := spawns_of_host_moves hmoves hs.role_eq hs.host.kept hc
  refine ⟨(frame_of_moves hmoves).connected_eq.symm ▸ hc, new, hspawns, ?_⟩
  rw [heard, hpending, heard, List.append_assoc]

/-- What was on its way is handled. -/
theorem hears_deliver {π : Policy} {d : Datagram} {rest : List Datagram} {m : Message}
    {p : Process} {c' : ClientID} (hs : s.Obeys π) (hc : c ∈ s.host.connected)
    (hc' : c' ∈ s.host.connected) (hpending : s.host.pending c' = d :: rest)
    (hm : messageOfData d.data = .ok m) (hhandled : Handled d.origin m (s.peer c') p) :
    Hears c s { s.setPeer c' p with host := s.host.dropNext c' } := by
  have hmember := hs.member c' hc'
  by_cases heq : c' = c
  · subst heq
    have hspawns := hhandled.spawns_eq hmember.ready.kept
    rw [hmember.registry_eq] at hspawns
    have hbefore : s.host.pendingSpawns c' =
        m.spawned s.host.scene.registry ++ rest.flatMap (spawnedBy s.host.scene.registry) := by
      rw [pendingSpawns, hpending, List.flatMap_cons, spawnedBy_ok hm]
    have hafter : (s.host.dropNext c').pendingSpawns c' =
        rest.flatMap (spawnedBy s.host.scene.registry) := by
      rw [pendingSpawns, pending_dropNext, if_pos rfl, hpending]
      rfl
    refine ⟨hc, [], (List.append_nil _).symm, ?_⟩
    change networkSpawns ((s.setPeer c' p).peer c').effects ++
      (s.host.dropNext c').pendingSpawns c' =
      _
    rw [setPeer_peer_self, hspawns, hafter, List.append_assoc, ← hbefore, List.append_nil]
    rfl
  · refine Hears.of_same hc rfl ?_ ?_
    · exact congrArg (fun q : Process => networkSpawns q.effects) (setPeer_peer_ne (Ne.symm heq))
    · change (s.host.dropNext c').pendingSpawns c = s.host.pendingSpawns c
      rw [pendingSpawns, pending_dropNext, if_neg (Ne.symm heq)]
      rfl

/-- **One event.** -/
theorem hears_of_step {π : Policy} {e : Event} (hs : s.Obeys π) (he : π.Permits s e)
    (hc : c ∈ s.host.connected) (hstays : s.StaysWith c e) (hstep : s.step e = some s') :
    Hears c s s' := by
  cases step_outcome hs he hstep with
  | connect c' sentAt receivedAt hc' hzero hone =>
      have hne : c ≠ c' := by
        rintro rfl
        exact hc' hc
      refine Hears.of_same (List.mem_append_left _ hc) rfl ?_ ?_
      · simp [connect, hne]
      · change ((s.host.forget c').pending c).flatMap _ = _
        rw [pending_forget, if_neg hne]
        rfl
  | disconnect c' sentAt receivedAt hc' =>
      have hmem : c ∈ s.host.connected.erase c' :=
        (List.mem_erase_of_ne (Ne.symm hstays)).mpr hc
      exact Hears.of_same hmem rfl rfl rfl
  | send c' data hc' =>
      apply hears_setPeer hc
      rintro rfl
      rfl
  | receive c' receivedAt d rest p hc' hpending hp =>
      refine (hears_setPeer hc (p := (s.peer c').dropNext 1) (d := c') ?_).trans
        (Hears.of_same hc rfl rfl rfl)
      rintro rfl
      rfl
  | serve stack hooks p rest h hqueue hp hrun hmoves => exact hears_of_host_moves rest hs hc hmoves
  | welcome stack hooks p rest h hqueue hp hjoin hsnapshot htold =>
      have hne : c ≠ p.info.senderID := (hstays p (by rw [hqueue]; rfl) hp).symm
      refine ⟨htold.frame.connected_eq.symm ▸ hc, [], ?_, ?_⟩
      · rw [htold.effects_eq, networkSpawns_append]
        congr 1
        rw [networkSpawns, List.filterMap_eq_nil_iff]
        intro e he
        obtain ⟨info, _, rfl⟩ := List.mem_map.mp he
        rfl
      · rw [heard, pendingSpawns, htold.skipped c hc hne, htold.scene_eq, List.append_nil]
        rfl
  | deliver c' receivedAt d rest m p hc' hpending hm hhandled =>
      exact hears_deliver hs hc hc' hpending hm hhandled
  | hostCall stack hooks call h hrun hmoves =>
      exact hears_of_host_moves s.queue hs hc hmoves
  | peerCall c' stack hooks call p hc' hrun hmoves =>
      have hmember := hs.member c' hc'
      apply hears_setPeer hc
      rintro rfl
      exact spawns_of_client_moves hmoves hmember.role_eq hmember.ready.kept

/-- Every session that a run reaches obeys the policy that rules nothing out. -/
theorem obeys_of_step {e : Event} (hs : s.Obeys Policy.any) (hstep : s.step e = some s') :
    s'.Obeys Policy.any ∧ s'.host.scene.registry = s.host.scene.registry := by
  have hturns := step_turns hs (Policy.any_permits s e) hstep
  clear hstep
  induction hturns with
  | refl => exact ⟨hs, rfl⟩
  | tail _ hlast ih => exact ⟨ih.1.turn hlast, hlast.registry_eq.trans ih.2⟩

/-- Every run obeys the policy that asks for nothing. -/
theorem obeys_of_run {es : List Event} (hs : s.Obeys Policy.any)
    (hrun : Runs.run step s es = some s') :
    s'.Obeys Policy.any ∧ s'.host.scene.registry = s.host.scene.registry := by
  have hone : ∀ (t : Session) (e : Event) (t' : Session),
      (t.Obeys Policy.any ∧ t.host.scene.registry = s.host.scene.registry) → t.step e = some t' →
      t'.Obeys Policy.any ∧ t'.host.scene.registry = s.host.scene.registry := by
    intro t e t' ht hstep
    obtain ⟨hobeys, hregistry⟩ := obeys_of_step ht.1 hstep
    exact ⟨hobeys, hregistry.trans ht.2⟩
  exact Runs.run_invariant hone hrun ⟨hs, rfl⟩

/-- **Whole runs.**  A client that stays, and is sent no snapshot, hears exactly of what
the host's client spawns. -/
theorem hears_of_run {es : List Event} (hs : s.Obeys Policy.any) (hc : c ∈ s.host.connected)
    (hstays : Runs.Meets step (StaysWith c) s es) (hrun : Runs.run step s es = some s') :
    Hears c s s' := by
  have hone : ∀ (t : Session) (e : Event) (t' : Session), (t.Obeys Policy.any ∧ Hears c s t) →
      t.StaysWith c e → t.step e = some t' → t'.Obeys Policy.any ∧ Hears c s t' := by
    intro t e t' ht he hstep
    exact ⟨(obeys_of_step ht.1 hstep).1,
      ht.2.trans (hears_of_step ht.1 (Policy.any_permits t e) ht.2.connected he hstep)⟩
  exact (Runs.run_invariant_of_meets hone hstays hrun ⟨hs, Hears.refl hc⟩).2

end Session

end EnkiNet
