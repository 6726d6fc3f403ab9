import EnkiNet.SessionTurns

/-!
# Late-join convergence

What a client will have once everything that is on its way to it has been handled is
determined by what it has and by the messages on their way (`foreseen`).  A broadcast
does the same to it as to the host, so for a client that has been told of the host's
entities the two stay equal (`Tracks`), and when nothing is on its way any more and
nobody has an entity left that is marked for removal, the client has what the host
has: `settled_converged`.

This rests on one thing: a deletion only marks the host's entity, and whoever
connects between the mark and the next `Scenegraph::update` is told of it, after the
deletion has been sent.  `late_join_diverges` is such a run.
-/

namespace EnkiNet

open ByteStore Packet Process

namespace Scenegraph

/-- No networked entity is marked for removal. -/
def Unmarked (g : Scenegraph) : Prop :=
  ∀ entry ∈ g.entities.toList, 0 < entry.1 → entry.2.remove = false

instance (g : Scenegraph) : Decidable g.Unmarked :=
  inferInstanceAs (Decidable (∀ entry ∈ g.entities.toList, 0 < entry.1 → entry.2.remove = false))

/-- `Scenegraph::update` ends with this. -/
theorem unmarked_eraseFlagged (g : Scenegraph) : g.eraseFlagged.Unmarked := by
  intro entry hentry _
  have hent := Std.TreeMap.mem_toList_iff_getElem?_eq_some.mp hentry
  rw [getElem?_eraseFlagged] at hent
  obtain ⟨_, hremove⟩ := Option.filter_eq_some_iff.mp hent
  simpa using hremove

theorem Unmarked.live_eq_held {g : Scenegraph} (h : g.Unmarked) {id : EntityID} (hpos : 0 < id) :
    g.live id = g.held id := by
  apply g.live_eq_held
  intro ent hent
  exact h (id, ent) (Std.TreeMap.mem_toList_iff_getElem?_eq_some.mpr hent) hpos

end Scenegraph

/-! ## Messages, id by id -/

namespace Message

/-- What is live under an id after the message, given what was before. -/
def apply (r : Registry) (m : Message) (id : EntityID) (before : Option EntityInfo) :
    Option EntityInfo :=
  if m = .deletion id then none
  else
    match m.created r with
    | some info => if info.ID = id then some info else before
    | none => before

theorem onLive_eq_apply (r : Registry) (m : Message) (live : EntityID → Option EntityInfo)
    (id : EntityID) : m.onLive r live id = m.apply r id (live id) := rfl

/-- A message makes the same of what is there, or removes or replaces it. -/
theorem apply_within {r : Registry} {m : Message} {id : EntityID} {a b : Option EntityInfo}
    (h : a = none ∨ a = b) : m.apply r id a = none ∨ m.apply r id a = m.apply r id b := by
  unfold apply
  split
  · exact Or.inl rfl
  · split
    · split
      · exact Or.inr rfl
      · exact h
    · exact h

/-- Updates, RPCs and deletions of other entities leave an entity as it is. -/
theorem apply_of_relayed {r : Registry} {m : Message} (hm : m.Relayed) {id : EntityID}
    (hdeletion : m ≠ .deletion id) (before : Option EntityInfo) : m.apply r id before = before := by
  rw [apply, if_neg hdeletion]
  cases m with
  | update info => rfl
  | rpc info => rfl
  | deletion id' => rfl
  | _ => cases hm

theorem apply_restore {r : Registry} {info : EntityInfo} (h : Creatable r info) (id : EntityID)
    (before : Option EntityInfo) :
    (Message.restore info).apply r id before = if info.ID = id then some info else before := by
  rw [apply, if_neg (by simp), created, if_pos h]

end Message

namespace Datagram

def apply (r : Registry) (id : EntityID) (before : Option EntityInfo) (d : Datagram) :
    Option EntityInfo :=
  match messageOfData d.data with
  | .ok m => m.apply r id before
  | .error _ => before

theorem apply_eq {r : Registry} {id : EntityID} {before : Option EntityInfo} {d : Datagram}
    {m : Message} (h : messageOfData d.data = .ok m) :
    d.apply r id before = m.apply r id before := by
  rw [apply, h]

/-- Datagrams that restore entities, one for each info of a list. -/
theorem foldl_restore {r : Registry} {infos : List EntityInfo} {ds : List Datagram}
    (hcreatable : ∀ info ∈ infos, Creatable r info)
    (hmap : ds.map (fun d => (d.origin, messageOfData d.data)) =
      infos.map fun info => ((1 : ClientID), Except.ok (.restore info)))
    (id : EntityID) (before : Option EntityInfo) :
    ds.foldl (apply r id) before =
      infos.foldl (fun o info => if info.ID = id then some info else o) before := by
  induction infos generalizing ds before with
  | nil =>
      rw [List.map_nil, List.map_eq_nil_iff] at hmap
      rw [hmap]
      rfl
  | cons info infos ih =>
      rcases ds with _ | ⟨d, ds⟩
      · cases hmap
      rw [List.map_cons, List.map_cons, List.cons.injEq] at hmap
      obtain ⟨hd, hrest⟩ := hmap
      obtain ⟨_, hdata⟩ := Prod.mk.inj hd
      rw [List.foldl_cons, List.foldl_cons, apply_eq hdata,
        Message.apply_restore (hcreatable info List.mem_cons_self)]
      exact ih (fun i hi => hcreatable i (List.mem_cons_of_mem info hi)) hrest _

end Datagram

/-- The last info with an id, if there is any. -/
theorem foldl_info {infos : List EntityInfo} {id : EntityID} {target : Option EntityInfo}
    (hsome : ∀ info ∈ infos, info.ID = id → target = some info)
    (before : Option EntityInfo)
    (hnone : (∀ info ∈ infos, info.ID ≠ id) → before = target) :
    infos.foldl (fun o info => if info.ID = id then some info else o) before = target := by
  induction infos generalizing before with
  | nil => exact hnone fun _ hinfo => absurd hinfo List.not_mem_nil
  | cons info infos ih =>
      rw [List.foldl_cons]
      apply ih fun i hi => hsome i (List.mem_cons_of_mem info hi)
      intro hrest
      split
      · next heq => exact (hsome info List.mem_cons_self heq).symm
      · next hne =>
        apply hnone
        intro i hi
        rcases List.mem_cons.mp hi with rfl | hi
        · exact hne
        · exact hrest i hi

namespace Process

variable {π : Policy}

/-- What a broadcast does to the host's own entities. -/
theorem Broadcast.live_eq {origin : ClientID} {who : ClientID → Prop} {m : Message}
    {s s' : Process} (h : Broadcast origin who m s s') (hs : Kept s.scene) (hrole : s.role = .host)
    {id : EntityID} (hpos : 0 < id) (hwho : who 1 ∨ ∀ o, m.apply s.scene.registry id o = o) :
    s'.scene.live id = m.apply s.scene.registry id (s.scene.live id) := by
  obtain ⟨t, hsent, ⟨_, _, hhandled⟩ | ⟨hnot, rfl⟩⟩ := h
  · have hscene := hsent.scene_eq
    rw [hhandled.live_eq (hscene ▸ hs) id hpos, Message.onLive_eq_apply, hscene]
  · rw [hsent.scene_eq]
    rcases hwho with hwho | hsame
    · exact absurd ⟨hrole, hwho⟩ hnot
    · exact (hsame _).symm

/-- What a broadcast puts on the way to a client does to it what it does to the host. -/
theorem Broadcast.foldl_eq {origin : ClientID} {who : ClientID → Prop} {m : Message}
    {s s' : Process} (h : Broadcast origin who m s s') {c : ClientID} (hc : c ∈ s.connected)
    {r : Registry} {id : EntityID} (hwho : who c ∨ ∀ o, m.apply r id o = o)
    (before : Option EntityInfo) :
    (s'.pending c).foldl (Datagram.apply r id) before =
      m.apply r id ((s.pending c).foldl (Datagram.apply r id) before) := by
  rcases h.pending hc with ⟨hno, hsame⟩ | ⟨_, d, _, hdata, hpost⟩
  · rcases hwho with hyes | hid
    · exact absurd hyes hno
    · rw [hsame, hid]
  · rw [hpost, List.foldl_append, List.foldl_cons, List.foldl_nil, Datagram.apply_eq hdata]

end Process

namespace Session

/-! ## The invariant -/

/-- What a client will have live under an id when it has handled what is on its way. -/
def foreseen (s : Session) (c : ClientID) (id : EntityID) : Option EntityInfo :=
  (s.host.pending c).foldl (Datagram.apply s.host.scene.registry id) ((s.peer c).scene.live id)

/-- Nothing in the queue makes the server tell a client of its entities. -/
def Joined (s : Session) (c : ClientID) : Prop :=
  ∀ p ∈ s.queue, p.header.type = .connected → p.info.senderID ≠ c

/-- A client will have nothing that the host does not have, and everything if it has
been told. -/
structure Tracks (s : Session) (c : ClientID) : Prop where
  within : ∀ id, 0 < id → s.foreseen c id = none ∨ s.foreseen c id = s.host.scene.live id
  complete : s.Joined c → ∀ id, 0 < id → s.foreseen c id = s.host.scene.live id

def Tracked (s : Session) : Prop := ∀ c ∈ s.host.connected, s.Tracks c

/-- The policy under which nobody connects while an entity is marked. -/
def anything : Policy where
  chosen _ := True
  update _ _ := True
  snapshot _ := True
  join g := g.Unmarked

/-- The same happens to what a client will have and to what the host has. -/
theorem Tracks.step {s s' : Session} {c : ClientID} (h : s.Tracks c)
    (act : EntityID → Option EntityInfo → Option EntityInfo)
    (hact : ∀ id a b, a = none ∨ a = b → act id a = none ∨ act id a = act id b)
    (hlive : ∀ id, 0 < id → s'.host.scene.live id = act id (s.host.scene.live id))
    (hforeseen : ∀ id, 0 < id → s'.foreseen c id = act id (s.foreseen c id))
    (hjoined : s'.Joined c → s.Joined c) : s'.Tracks c where
  within id hpos := by
    rw [hlive id hpos, hforeseen id hpos]
    exact hact id _ _ (h.within id hpos)
  complete hj id hpos := by
    rw [hlive id hpos, hforeseen id hpos, h.complete (hjoined hj) id hpos]

/-- Nothing happens to either. -/
theorem Tracks.same {s s' : Session} {c : ClientID} (h : s.Tracks c)
    (hlive : ∀ id, 0 < id → s'.host.scene.live id = s.host.scene.live id)
    (hforeseen : ∀ id, 0 < id → s'.foreseen c id = s.foreseen c id)
    (hjoined : s'.Joined c → s.Joined c) : s'.Tracks c :=
  h.step (fun _ o => o) (fun _ _ _ hwithin => hwithin) hlive hforeseen hjoined

theorem foreseen_of_pending {s : Session} {h : Process} {queue : List Packet} {c : ClientID}
    (hregistry : h.scene.registry = s.host.scene.registry)
    (hpending : h.pending c = s.host.pending c) (id : EntityID) :
    foreseen { s with host := h, queue := queue } c id = s.foreseen c id := by
  rw [foreseen, foreseen, hpending, hregistry]

theorem Tracked.turn_host {s : Session} {h : Process} (hs : s.Obeys anything) (ht : s.Tracked)
    (hmove : Move anything s.host h) : Tracked { s with host := h } := by
  intro c hc
  have hframe := hmove.frame
  have hc' : c ∈ s.host.connected := hframe.connected_eq ▸ hc
  have htracks := ht c hc'
  cases hmove with
  | allocate hmax h =>
      subst h
      exact htracks.same (fun _ _ => rfl) (fun _ _ => rfl) fun hj => hj
  | quiet h =>
      apply htracks.same (h.live_eq hs.host.kept)
      · intro id _
        apply foreseen_of_pending hframe.registry_eq
        rw [Process.pending, h.outbox_eq, Process.pending]
      · exact fun hj => hj
  | announce info spawnInfo t hrole hcreatable htells hfresh ht h =>
      subst ht
      apply htracks.step (Message.creation info spawnInfo |>.apply s.host.scene.registry)
      · exact fun id a b => Message.apply_within
      · exact fun id hpos => h.live_eq hs.host.kept hrole hpos (Or.inl rfl)
      · intro id _
        rw [foreseen, hframe.registry_eq]
        exact h.foldl_eq hc' (Or.inl rfl) _
      · exact fun hj => hj
  | relay origin who m hrole hm htells hall h =>
      have hwho : ∀ c id, who c ∨ ∀ o, m.apply s.host.scene.registry id o = o := by
        intro c id
        by_cases hdeletion : m = .deletion id
        · exact Or.inl (hall id hdeletion c)
        · exact Or.inr (Message.apply_of_relayed hm hdeletion)
      apply htracks.step (m.apply s.host.scene.registry)
      · exact fun id a b => Message.apply_within
      · exact fun id hpos => h.live_eq hs.host.kept hrole hpos (hwho 1 id)
      · intro id _
        rw [foreseen, hframe.registry_eq]
        exact h.foldl_eq hc' (hwho c id) _
      · exact fun hj => hj
  | request m hclient hasks h =>
      rw [hs.role_eq] at hclient
      cases hclient

/-- A client's own doing does not touch its live networked entities. -/
theorem Tracked.of_peer {s : Session} {c : ClientID} {p : Process} (ht : s.Tracked)
    (hlive : ∀ id, 0 < id → p.scene.live id = (s.peer c).scene.live id) :
    Tracked (s.setPeer c p) := by
  intro c' hc'
  apply (ht c' hc').same
  · exact fun _ _ => rfl
  · intro id hpos
    by_cases heq : c' = c
    · subst heq
      rw [foreseen, foreseen, setPeer_peer_self, setPeer_host, hlive id hpos]
    · rw [foreseen, foreseen, setPeer_peer_ne heq, setPeer_host]
  · exact fun hj => hj

theorem Tracked.turn_peer {s : Session} {c : ClientID} {p : Process} (hs : s.Obeys anything)
    (ht : s.Tracked) (hc : c ∈ s.host.connected) (hmove : Move anything (s.peer c) p) :
    Tracked (s.setPeer c p) := by
  have hmember := hs.member c hc
  apply ht.of_peer
  cases hmove with
  | allocate hmax h =>
      subst h
      exact fun _ _ => rfl
  | quiet h => exact h.live_eq hmember.ready.kept
  | announce info spawnInfo t hrole hcreatable htells hfresh ht h =>
      rw [hmember.role_eq] at hrole
      cases hrole
  | relay origin who m hrole hm htells hall h =>
      rw [hmember.role_eq] at hrole
      cases hrole
  | request m hrole hasks h => exact fun _ _ => by rw [h.scene_eq]

theorem Tracked.turn_connect {s : Session} {c : ClientID} {sentAt receivedAt : UInt32}
    (ht : s.Tracked) : Tracked (s.connect c sentAt receivedAt) := by
  intro c' hc'
  by_cases heq : c' = c
  · subst heq
    have hpending : (s.connect c' sentAt receivedAt).host.pending c' = [] :=
      (pending_forget s.host c' c').trans (if_pos rfl)
    refine ⟨fun id _ => Or.inl ?_, ?_⟩
    · rw [foreseen, hpending]
      simp [connect, newcomer, Scenegraph.live]
    · intro hj
      exact absurd rfl (hj (onClientConnected c' sentAt receivedAt) (by simp [connect]) rfl)
  · have hmem : c' ∈ s.host.connected :=
      (List.mem_append.mp hc').resolve_right fun h => heq (List.mem_singleton.mp h)
    apply (ht c' hmem).same
    · exact fun _ _ => rfl
    · intro id _
      have hpending : (s.connect c sentAt receivedAt).host.pending c' = s.host.pending c' :=
        (pending_forget s.host c c').trans (if_neg heq)
      have hpeer : (s.connect c sentAt receivedAt).peer c' = s.peer c' := by
        simp [connect, heq]
      rw [foreseen, hpending, hpeer]
      rfl
    · exact fun hj p hp => hj p (List.mem_append_left _ hp)

/-- What the server tells a client brings it up to date. -/
theorem Tracked.turn_welcome {s : Session} {p : Packet} {rest : List Packet} {h : Process}
    (hs : s.Obeys anything) (ht : s.Tracked) (hqueue : s.queue = p :: rest)
    (hunmarked : s.host.scene.Unmarked) (htold : Told p.info.senderID s.stored s.host h) :
    Tracked { s with host := h, queue := rest } := by
  intro c hc
  have hframe := htold.frame
  have hc' : c ∈ s.host.connected := hframe.connected_eq ▸ hc
  have htracks := ht c hc'
  have hlive : h.scene.live = s.host.scene.live := by rw [htold.scene_eq]
  by_cases heq : c = p.info.senderID
  · subst heq
    obtain ⟨ds, hds, hmap⟩ := htold.posted hc'
    have hall : ∀ id, 0 < id → foreseen { s with host := h, queue := rest } p.info.senderID id =
        s.host.scene.live id := by
      intro id hpos
      have hcreatable : ∀ info ∈ s.stored, Creatable s.host.scene.registry info := by
        intro info hinfo
        obtain ⟨key, ent, hent, rfl⟩ := mem_stored hinfo
        exact (hs.host.kept.stored key ent hent).2.2
      rw [foreseen, hds, List.foldl_append, hframe.registry_eq,
        Datagram.foldl_restore hcreatable hmap]
      apply foldl_info
      · intro info hinfo hid
        obtain ⟨key, ent, hent, rfl⟩ := mem_stored hinfo
        have hkey : key = id := (hs.host.kept.stored key ent hent).1.symm.trans hid
        rw [hunmarked.live_eq_held hpos, Scenegraph.held, ← hkey, hent]
        rfl
      · intro hnot
        have hnone : s.host.scene.live id = none := by
          rw [hunmarked.live_eq_held hpos, Scenegraph.held]
          rcases hent : s.host.scene.entities[id]? with _ | ent
          · rfl
          · have hmem : ent.info ∈ s.stored :=
              List.mem_map_of_mem (f := fun entry : EntityID × Entity => entry.2.info)
                (List.mem_reverse.mpr (Std.TreeMap.mem_toList_iff_getElem?_eq_some.mpr hent))
            exact absurd (hs.host.kept.stored id ent hent).1 (hnot ent.info hmem)
        rw [hnone]
        exact (htracks.within id hpos).elim (fun h => h) fun h => h.trans hnone
    refine ⟨fun id hpos => Or.inr ?_, fun _ id hpos => ?_⟩
    · rw [hall id hpos, hlive]
    · rw [hall id hpos, hlive]
  · apply htracks.same
    · exact fun id _ => congrFun hlive id
    · exact fun id _ => foreseen_of_pending hframe.registry_eq (htold.skipped c hc' heq) id
    · intro hj q hq
      rw [hqueue] at hq
      rcases List.mem_cons.mp hq with rfl | hq
      · exact fun _ hsender => heq hsender.symm
      · exact hj q hq

/-- Handling a message makes the client have what was foreseen. -/
theorem Tracked.turn_deliver {s : Session} {c : ClientID} {d : Datagram} {rest : List Datagram}
    {m : Message} {p : Process} (hs : s.Obeys anything) (ht : s.Tracked)
    (hc : c ∈ s.host.connected) (hpending : s.host.pending c = d :: rest)
    (hm : messageOfData d.data = .ok m) (hhandled : Handled d.origin m (s.peer c) p) :
    Tracked { s.setPeer c p with host := s.host.dropNext c } := by
  have hmember := hs.member c hc
  have hdrop : ∀ c', (s.host.dropNext c).pending c' =
      if c' = c then rest else s.host.pending c' := by
    intro c'
    rw [pending_dropNext, hpending]
    rfl
  intro c' hc'
  apply (ht c' hc').same
  · exact fun _ _ => rfl
  · intro id hpos
    by_cases heq : c' = c
    · subst heq
      have hpeer : (s.setPeer c' p).peer c' = p := setPeer_peer_self
      have hrest : (s.host.dropNext c').pending c' = rest := (hdrop c').trans (if_pos rfl)
      have hlive := hhandled.live_eq hmember.ready.kept id hpos
      rw [Message.onLive_eq_apply, hmember.registry_eq] at hlive
      rw [foreseen, foreseen, hpending, List.foldl_cons, Datagram.apply_eq hm]
      dsimp only
      rw [hrest, hpeer, hlive]
      rfl
    · have hpeer : (s.setPeer c p).peer c' = s.peer c' := setPeer_peer_ne heq
      have hsame : (s.host.dropNext c).pending c' = s.host.pending c' :=
        (hdrop c').trans (if_neg heq)
      rw [foreseen, foreseen]
      dsimp only
      rw [hsame, hpeer]
      rfl
  · exact fun hj => hj

theorem Tracked.turn {s s' : Session} (hs : s.Obeys anything) (ht : s.Tracked)
    (h : Turn anything s s') : s'.Tracked := by
  cases h with
  | host h hmove hs' => exact hs' ▸ ht.turn_host hs hmove
  | peer c p hc hmove hs' => exact hs' ▸ ht.turn_peer hs hc hmove
  | connect c sentAt receivedAt hc hzero hone hs' => exact hs' ▸ ht.turn_connect
  | disconnect c sentAt receivedAt hc hs' =>
      subst hs'
      intro c' hc'
      exact (ht c' (List.mem_of_mem_erase hc')).same (fun _ _ => rfl) (fun _ _ => rfl)
        fun hj p hp => hj p (List.mem_append_left _ hp)
  | send c data hc hasks hs' => exact hs' ▸ ht.of_peer fun _ _ => rfl
  | receive c t d rest p hc hpending hp hs' =>
      subst hs'
      have hset : Tracked (s.setPeer c ((s.peer c).dropNext 1)) := ht.of_peer fun _ _ => rfl
      intro c' hc'
      exact (hset c' hc').same (fun _ _ => rfl) (fun _ _ => rfl)
        fun hj p hp => hj p (List.mem_append_left _ hp)
  | pop p rest hqueue hp hs' =>
      subst hs'
      intro c hc
      apply (ht c hc).same
      · exact fun _ _ => rfl
      · exact fun _ _ => rfl
      intro hj q hq htype
      rw [hqueue] at hq
      rcases List.mem_cons.mp hq with rfl | hq
      · exact absurd htype hp
      · exact hj q hq htype
  | welcome p rest h hqueue hp hjoin hsnapshot htold hs' =>
      exact hs' ▸ ht.turn_welcome hs hqueue hjoin htold
  | deliver c d rest m p hc hpending hm hhandled hs' =>
      exact hs' ▸ ht.turn_deliver hs hc hpending hm hhandled

/-! ## Runs -/

/-- No `CONNECTED` is served while a networked entity of the host is marked. -/
def JoinsUnmarked (s : Session) : Event → Prop
  | .serve _ _ => ∀ p ∈ s.queue.head?, p.header.type = .connected → s.host.scene.Unmarked
  | _ => True

instance (s : Session) : DecidablePred s.JoinsUnmarked
  | .serve _ _ => inferInstanceAs (Decidable (∀ p ∈ s.queue.head?, _ → s.host.scene.Unmarked))
  | .connect _ _ _ | .disconnect _ _ _ | .send _ _ | .receive _ _ | .deliver _ _
  | .hostCall _ _ _ | .peerCall _ _ _ _ => .isTrue trivial

/-- Everything has been delivered and handled, and every process has run
`Scenegraph::update` since. -/
def Settled (s : Session) : Prop :=
  s.queue = [] ∧ s.host.scene.Unmarked ∧ ∀ c ∈ s.host.connected,
    s.host.pending c = [] ∧ (s.peer c).pending 1 = [] ∧ (s.peer c).scene.Unmarked

instance (s : Session) : Decidable s.Settled :=
  -- through the list of clients, not through all ids
  have : Decidable (∀ c ∈ s.host.connected,
      s.host.pending c = [] ∧ (s.peer c).pending 1 = [] ∧ (s.peer c).scene.Unmarked) :=
    List.decidableBAll _ _
  inferInstanceAs (Decidable (_ ∧ _ ∧ _))

/-- Every client has the networked entities that the host has. -/
def Converged (s : Session) : Prop :=
  ∀ c ∈ s.host.connected, ∀ id, 0 < id → (s.peer c).scene.held id = s.host.scene.held id

theorem permits_of_joinsUnmarked {s : Session} {e : Event} (he : s.JoinsUnmarked e) :
    anything.Permits s e := by
  have hcall : ∀ (p : Process) (call : GameCall), anything.PermitsCall p call := by
    intro p call
    cases call with
    | createNetworkedEntity info spawnInfo sound => exact Or.inr trivial
    | networkTick => exact fun _ _ _ _ => trivial
    | _ => trivial
  cases e with
  | send c data =>
      intro m _
      cases m with
      | creation info spawnInfo => exact Or.inr trivial
      | _ => trivial
  | serve stack hooks => exact fun p hp htype => ⟨he p hp htype, fun _ _ => trivial⟩
  | hostCall stack hooks call => exact hcall s.host call
  | peerCall c stack hooks call => exact fun _ => hcall (s.peer c) call
  | _ => trivial

/-- **Convergence.**  If nobody joins while an entity of the host is marked for removal,
every client ends up with the networked entities of the host. -/
theorem settled_converged {registry : Registry} {es : List Event} {t : Session}
    (hmeets : Runs.Meets step JoinsUnmarked (start registry) es)
    (hrun : Runs.run step (start registry) es = some t) (hsettled : t.Settled) : t.Converged := by
  obtain ⟨_, _, htracked⟩ := run_invariant_of_permits anything Tracked
    (fun s e _ _ _ he => permits_of_joinsUnmarked he) (fun _ _ hs ht h => ht.turn hs h)
    (fun _ hc => absurd hc List.not_mem_nil) hmeets hrun
  obtain ⟨hqueue, hhost, hpeers⟩ := hsettled
  intro c hc id hpos
  obtain ⟨hdown, _, hpeer⟩ := hpeers c hc
  have hjoined : t.Joined c := by
    intro p hp
    rw [hqueue] at hp
    exact absurd hp List.not_mem_nil
  have hforeseen := (htracked c hc).complete hjoined id hpos
  rw [foreseen, hdown, List.foldl_nil] at hforeseen
  calc (t.peer c).scene.held id
      = (t.peer c).scene.live id := (hpeer.live_eq_held hpos).symm
    _ = t.host.scene.live id := hforeseen
    _ = t.host.scene.held id := hhost.live_eq_held hpos

/-- Client 2 joins after client 3 has created an entity, and client 3 deletes it. -/
def lateJoin : List Event :=
  [.connect 3 0 0, .serve 5 .silent, .peerCall 3 5 .silent Sample.create, .receive 3 0,
    .serve 5 .silent, .deliver 3 0, .connect 2 0 0, .hostCall 5 .silent Sample.create,
    .serve 5 .silent, .deliver 2 0, .deliver 2 0, .deliver 2 0, .deliver 3 0,
    .peerCall 3 5 .silent (.deleteEntity 1), .receive 3 0, .serve 5 .silent, .deliver 3 0,
    .deliver 2 0, .hostCall 5 .silent .update, .peerCall 2 5 .silent .update,
    .peerCall 3 5 .silent .update]

theorem settled_converged_lateJoin :
    ∃ t, Runs.run step (start Sample.registry) lateJoin = some t ∧ t.Converged := by
  have hsettled : ∃ t, Runs.run step (start Sample.registry) lateJoin = some t ∧ t.Settled :=
    Runs.exists_of_any (by decide +kernel)
  obtain ⟨t, ht, hsettled⟩ := hsettled
  have hmeets : Runs.Meets step JoinsUnmarked (start Sample.registry) lateJoin := by
    decide +kernel
  exact ⟨t, ht, settled_converged hmeets ht hsettled⟩

/-- A deletion by client 3 and a `CONNECTED` of client 2 are served by one
`Server::update`. -/
def joinWhileMarked : List Event :=
  [.connect 3 0 0, .serve 5 .silent, .peerCall 3 5 .silent Sample.create, .receive 3 0,
    .serve 5 .silent, .deliver 3 0, .peerCall 3 5 .silent (.deleteEntity 1), .receive 3 0,
    .connect 2 0 0, .serve 5 .silent, .serve 5 .silent, .deliver 2 0, .deliver 2 0, .deliver 3 0,
    .hostCall 5 .silent .update, .peerCall 2 5 .silent .update, .peerCall 3 5 .silent .update]

/-- **A late join that diverges.**  Client 2 keeps an entity that nobody else has. -/
theorem late_join_diverges :
    ∃ t, Runs.run step (start Sample.registry) joinWhileMarked = some t ∧ t.Settled ∧
      ¬ t.Converged := by
  have hrun : ∃ t, Runs.run step (start Sample.registry) joinWhileMarked = some t ∧ t.Settled ∧
      2 ∈ t.host.connected ∧ (t.peer 2).scene.held 1 ≠ t.host.scene.held 1 :=
    Runs.exists_of_any (by decide +kernel)
  obtain ⟨t, ht, hsettled, hmem, hne⟩ := hrun
  exact ⟨t, ht, hsettled, fun h => hne (h 2 hmem 1 (by decide))⟩

end Session

end EnkiNet
