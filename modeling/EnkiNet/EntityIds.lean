import EnkiNet.SessionTurns

/-!
# Ids of networked entities

The server numbers the entities whose creation it announces from a counter, but only
those that are asked for with the id 0; it takes over any other id without looking
at its table.  As long as every request has the id 0 (`OnlyNew`), announced ids are
pairwise distinct, and whatever is stored under a positive id anywhere, or is on its
way, has been announced (`Numbered`).  So an announcement, which is of a fresh id,
meets no entity with that id, neither at the host nor where it arrives:
`creations_are_fresh`.  `hijacked_entity` is a run in which a client asks for an id
that is taken.
-/

namespace EnkiNet

open ByteStore Packet Process

namespace Effect

/-- A creation does not replace an entity. -/
def Fresh : Effect → Prop
  | .announce _ held | .spawn _ held => held = none
  | _ => True

instance : DecidablePred Fresh
  | .announce _ _ | .spawn _ _ => inferInstanceAs (Decidable (_ = _))
  | .onSpawn _ _ | .deserializeOnTick _ _ | .deserializeOnConnection _ _ | .execute _ _ _
  | .restore _ _ | .snapshot _ _ | .tick _ => .isTrue trivial

end Effect

/-- The id of the entity that the message is to create. -/
def Message.brings : Message → Option EntityID
  | .creation info _ | .restore info => some info.ID
  | _ => none

namespace Process

/-! ## Announced ids -/

def Announced (s : Process) (id : EntityID) : Prop :=
  ∃ info held, Effect.announce info held ∈ s.effects ∧ info.ID = id

/-- An id that no effect announces has not been announced. -/
theorem Unannounced.not_announced {s : Process} {id : EntityID} (h : Unannounced s id) :
    ¬ Announced s id := by
  rintro ⟨info, held, hmem, hid⟩
  exact h info held hmem hid

/-- What was announced stays announced. -/
theorem Announced.mono {s s' : Process} {id : EntityID} {new : List Effect}
    (hnew : s'.effects = s.effects ++ new) (h : Announced s id) : Announced s' id := by
  obtain ⟨info, held, hmem, hid⟩ := h
  refine ⟨info, held, ?_, hid⟩
  rw [hnew]
  exact List.mem_append_left new hmem

/-- Handling a message spawns under a new id, if a creation is for one. -/
theorem Caused.fresh {origin : ClientID} {m : Message} {s : Process} {e : Effect}
    (h : Caused origin m s e)
    (hm : ∀ info spawnInfo, m = .creation info spawnInfo → s.scene.held info.ID = none) :
    e.Fresh := by
  cases h with
  | spawn info spawnInfo hmsg => exact hm info spawnInfo hmsg
  | _ => trivial

/-- Between messages nothing is spawned. -/
theorem Idle.fresh {π : Policy} {s : Process} {e : Effect} (h : Idle π s e) : e.Fresh := by
  cases h <;> trivial

/-! ## Channels -/

/-- What is on its way to a client, from the oldest to the newest: every creation is of
an entity that the client does not have, and that nothing before it creates. -/
structure FreshFor (p : Process) (ds : List Datagram) : Prop where
  new : ∀ d ∈ ds, ∀ info spawnInfo, messageOfData d.data = .ok (.creation info spawnInfo) →
    0 < info.ID → p.scene.held info.ID = none
  once : ds.Pairwise fun d d' => ∀ m info spawnInfo, messageOfData d.data = .ok m →
    messageOfData d'.data = .ok (.creation info spawnInfo) → m.brings ≠ some info.ID

theorem freshFor_nil (p : Process) : FreshFor p [] :=
  ⟨fun _ hd => absurd hd List.not_mem_nil, List.Pairwise.nil⟩

/-- A process with fewer entities finds no fewer datagrams fresh. -/
theorem FreshFor.of_held {p q : Process} {ds : List Datagram} (h : FreshFor p ds)
    (hheld : ∀ id, 0 < id → p.scene.held id = none → q.scene.held id = none) : FreshFor q ds where
  new d hd info spawnInfo hm hpos := hheld info.ID hpos (h.new d hd info spawnInfo hm hpos)
  once := h.once

/-- Other messages can follow. -/
theorem FreshFor.append {p : Process} {ds es : List Datagram} (h : FreshFor p ds)
    (hes : ∀ d ∈ es, ∀ info spawnInfo, messageOfData d.data ≠ .ok (.creation info spawnInfo)) :
    FreshFor p (ds ++ es) where
  new := by
    intro d hd info spawnInfo hm hpos
    rcases List.mem_append.mp hd with hold | hnew
    · exact h.new d hold info spawnInfo hm hpos
    · exact absurd hm (hes d hnew info spawnInfo)
  once := by
    rw [List.pairwise_append]
    refine ⟨h.once, ?_, ?_⟩
    · apply List.pairwise_of_forall_mem_list
      intro d _ d' hd' m info spawnInfo _ hm'
      exact absurd hm' (hes d' hd' info spawnInfo)
    · intro d _ d' hd' m info spawnInfo _ hm'
      exact absurd hm' (hes d' hd' info spawnInfo)

/-- The creation of an entity of which there is no trace yet can follow. -/
theorem FreshFor.append_creation {p : Process} {ds : List Datagram} {d : Datagram}
    {info : EntityInfo} {spawnInfo : Packet} (h : FreshFor p ds)
    (hd : messageOfData d.data = .ok (.creation info spawnInfo))
    (hheld : p.scene.held info.ID = none)
    (hbefore : ∀ d' ∈ ds, ∀ m, messageOfData d'.data = .ok m → m.brings ≠ some info.ID) :
    FreshFor p (ds ++ [d]) where
  new := by
    intro d' hd' info' spawnInfo' hm hpos
    rcases List.mem_append.mp hd' with hold | hself
    · exact h.new d' hold info' spawnInfo' hm hpos
    · cases List.mem_singleton.mp hself
      rw [hd] at hm
      cases hm
      exact hheld
  once := by
    rw [List.pairwise_append]
    refine ⟨h.once, List.pairwise_singleton _ _, ?_⟩
    intro d' hd' e he m info' spawnInfo' hm hm'
    cases List.mem_singleton.mp he
    rw [hd] at hm'
    cases hm'
    exact hbefore d' hd' m hm

/-- What a message stores is stored already or is what it brings. -/
theorem Handled.held_none {origin : ClientID} {m : Message} {s s' : Process}
    (h : Handled origin m s s') (hs : Kept s.scene) {id : EntityID} (hpos : 0 < id)
    (hnone : s.scene.held id = none) (hbrings : m.brings ≠ some id) :
    s'.scene.held id = none := by
  rw [h.held_eq hs id hpos, Message.onHeld]
  cases m with
  | creation info | restore info =>
      simp only [Message.created]
      split
      · next hcreated =>
        split at hcreated
        · cases hcreated
          rw [if_neg fun heq => hbrings (congrArg some heq)]
          exact hnone
        · cases hcreated
      · exact hnone
  | _ => exact hnone

/-- The oldest message is handled. -/
theorem FreshFor.handle {p q : Process} {d : Datagram} {ds : List Datagram} {m : Message}
    (h : FreshFor p (d :: ds)) (hd : messageOfData d.data = .ok m)
    (hhandled : Handled d.origin m p q) (hp : Kept p.scene) : FreshFor q ds := by
  obtain ⟨hfirst, hrest⟩ := List.pairwise_cons.mp h.once
  refine ⟨?_, hrest⟩
  intro d' hd' info spawnInfo hm hpos
  have hnone := h.new d' (List.mem_cons_of_mem d hd') info spawnInfo hm hpos
  exact hhandled.held_none hp hpos hnone (hfirst d' hd' m info spawnInfo hd hm)

end Process

namespace Session

/-! ## The invariant -/

/-- A client knows, or will be told of, announced entities only. -/
structure Follows (s : Session) (c : ClientID) : Prop where
  known : ∀ id, 0 < id → (s.peer c).scene.held id ≠ none → Announced s.host id
  brought : ∀ d ∈ s.host.pending c, ∀ m id, messageOfData d.data = .ok m →
    m.brings = some id → 0 < id → Announced s.host id
  fresh : FreshFor (s.peer c) (s.host.pending c)

structure Numbered (s : Session) : Prop where
  host_known : ∀ id, 0 < id → s.host.scene.held id ≠ none → Announced s.host id
  follows : ∀ c ∈ s.host.connected, s.Follows c
  fresh : s.Everywhere Effect.Fresh

/-- A change at the host that creates nothing. -/
theorem Numbered.of_host {s : Session} {h : Process} {queue : List Packet} (hs : s.Numbered)
    (hconnected : h.connected = s.host.connected)
    (heffects : ∃ new, h.effects = s.host.effects ++ new ∧ ∀ e ∈ new, e.Fresh)
    (hheld : ∀ id, 0 < id → h.scene.held id = s.host.scene.held id ∨ h.scene.held id = none)
    (hpending : ∀ c ∈ s.host.connected, ∃ ds, h.pending c = s.host.pending c ++ ds ∧
      ∀ d ∈ ds, ∀ m, messageOfData d.data = .ok m →
        (∀ info spawnInfo, m ≠ .creation info spawnInfo) ∧
        ∀ id, m.brings = some id → 0 < id → Announced s.host id) :
    Numbered { s with host := h, queue := queue } := by
  obtain ⟨new, hnew, hfresh⟩ := heffects
  refine ⟨?_, ?_, ?_, ?_⟩
  · intro id hpos hne
    rcases hheld id hpos with hsame | hnone
    · exact (hs.host_known id hpos (hsame ▸ hne)).mono hnew
    · exact absurd hnone hne
  · intro c hc
    have hc' : c ∈ s.host.connected := hconnected ▸ hc
    have hold := hs.follows c hc'
    obtain ⟨ds, hds, hmeans⟩ := hpending c hc'
    refine ⟨fun id hpos hne => (hold.known id hpos hne).mono hnew, ?_, ?_⟩
    · intro d hd m id hm hbrings hpos
      dsimp only at hd
      rw [hds] at hd
      rcases List.mem_append.mp hd with hd | hd
      · exact (hold.brought d hd m id hm hbrings hpos).mono hnew
      · exact ((hmeans d hd m hm).2 id hbrings hpos).mono hnew
    · dsimp only
      rw [hds]
      apply hold.fresh.append
      intro d hd info spawnInfo hm
      exact (hmeans d hd _ hm).1 info spawnInfo rfl
  · intro e he
    dsimp only at he
    rw [hnew] at he
    rcases List.mem_append.mp he with he | he
    · exact hs.fresh.1 e he
    · exact hfresh e he
  · intro c hc
    exact hs.fresh.2 c (hconnected ▸ hc)

/-- **The step that matters**: an announcement, which is of a fresh id. -/
theorem Numbered.announce {s : Session} {info : EntityInfo} {spawnInfo : Packet} {t h : Process}
    (hs : s.Numbered) (hkept : Kept s.host.scene) (hpos : 0 < info.ID)
    (hfresh : Unannounced s.host info.ID)
    (ht : t = { s.host with
      effects := s.host.effects ++ [.announce info (s.host.scene.held info.ID)] })
    (hbroadcast : Broadcast 1 (fun _ => true) (.creation info spawnInfo) t h) :
    Numbered { s with host := h } := by
  have hnone : s.host.scene.held info.ID = none := by
    by_contra hne
    exact hfresh.not_announced (hs.host_known info.ID hpos hne)
  obtain ⟨new, u, hu, hnew, hcaused⟩ := hbroadcast.effects
  have heffects : h.effects = s.host.effects ++
      (.announce info (s.host.scene.held info.ID) :: new) := by
    rw [hnew, ht]
    simp
  have hself : Announced h info.ID := by
    refine ⟨info, s.host.scene.held info.ID, ?_, rfl⟩
    rw [heffects]
    exact List.mem_append_right _ List.mem_cons_self
  have hconnected : h.connected = s.host.connected := by
    rw [hbroadcast.frame.connected_eq, ht]
  refine ⟨?_, ?_, ?_, ?_⟩
  · intro id hid hne
    by_cases heq : info.ID = id
    · exact heq ▸ hself
    · refine (hs.host_known id hid fun hold => hne ?_).mono heffects
      obtain ⟨v, hsent, ⟨_, _, hhandled⟩ | ⟨_, rfl⟩⟩ := hbroadcast
      · have hscene : v.scene = s.host.scene := by rw [hsent.scene_eq, ht]
        refine hhandled.held_none (hscene ▸ hkept) hid (hscene ▸ hold) ?_
        exact fun hbrings => heq (Option.some.inj hbrings)
      · have hscene : h.scene = s.host.scene := by rw [hsent.scene_eq, ht]
        exact hscene ▸ hold
  · intro c hc
    have hc' : c ∈ s.host.connected := hconnected ▸ hc
    have hold := hs.follows c hc'
    obtain ⟨hno, _⟩ | ⟨_, d, _, hdata, hpending⟩ :=
      hbroadcast.pending (c := c) (by rw [ht]; exact hc')
    · exact absurd rfl hno
    have hchannel : h.pending c = s.host.pending c ++ [d] := by
      rw [hpending, ht]
      rfl
    refine ⟨fun id hid hne => (hold.known id hid hne).mono heffects, ?_, ?_⟩
    · intro d' hd' m id hm hbrings hid
      dsimp only at hd'
      rw [hchannel] at hd'
      rcases List.mem_append.mp hd' with hd' | hd'
      · exact (hold.brought d' hd' m id hm hbrings hid).mono heffects
      · cases List.mem_singleton.mp hd'
        rw [hdata] at hm
        cases hm
        exact Option.some.inj hbrings ▸ hself
    · dsimp only
      rw [hchannel]
      apply hold.fresh.append_creation hdata
      · by_contra hne
        exact hfresh.not_announced (hold.known info.ID hpos hne)
      · intro d' hd' m hm hbrings
        exact hfresh.not_announced (hold.brought d' hd' m info.ID hm hbrings hpos)
  · intro e he
    dsimp only at he
    rw [heffects] at he
    rcases List.mem_append.mp he with he | he
    · exact hs.fresh.1 e he
    rcases List.mem_cons.mp he with rfl | he
    · exact hnone
    · apply (hcaused e he).fresh
      rintro _ _ ⟨⟩
      rw [hu, ht]
      exact hnone
  · intro c hc
    exact hs.fresh.2 c (hconnected ▸ hc)

/-- A client whose own process has changed, but not what is on its way to it. -/
theorem Numbered.of_peer {s : Session} {c : ClientID} {p : Process} (hs : s.Numbered)
    (hheld : ∀ id, 0 < id → p.scene.held id = (s.peer c).scene.held id ∨ p.scene.held id = none)
    (heffects : ∀ e ∈ p.effects, e ∈ (s.peer c).effects ∨ e.Fresh) :
    Numbered (s.setPeer c p) := by
  refine ⟨hs.host_known, ?_, hs.fresh.1, ?_⟩
  · intro c' hc'
    have hold := hs.follows c' hc'
    by_cases heq : c' = c
    · subst heq
      refine ⟨?_, hold.brought, ?_⟩
      · intro id hpos hne
        rw [setPeer_peer_self] at hne
        rcases hheld id hpos with hsame | hnone
        · exact hold.known id hpos (hsame ▸ hne)
        · exact absurd hnone hne
      · rw [setPeer_peer_self]
        apply hold.fresh.of_held
        intro id hpos hnone
        rcases hheld id hpos with hsame | hnone'
        · rw [hsame, hnone]
        · exact hnone'
    · have hsame : (s.setPeer c p).peer c' = s.peer c' := setPeer_peer_ne heq
      exact ⟨hsame ▸ hold.known, hold.brought, hsame ▸ hold.fresh⟩
  · intro c' hc' e he
    by_cases heq : c' = c
    · subst heq
      rw [setPeer_peer_self] at he
      rcases heffects e he with hold | hfresh
      · exact hs.fresh.2 c' hc' e hold
      · exact hfresh
    · rw [setPeer_peer_ne heq] at he
      exact hs.fresh.2 c' hc' e he

/-! ## Every turn keeps it -/

/-- The policy under which nobody chooses an id. -/
def numbering : Policy where
  chosen _ := False
  update _ _ := True
  snapshot _ := True

/-- Under the policy of numbering only the server gives out ids. -/
theorem strict_numbering : numbering.Strict := fun _ => not_false

/-- A move of the host keeps the ids numbered. -/
theorem Numbered.turn_host {s : Session} {h : Process} (hs : s.Obeys numbering) (hn : s.Numbered)
    (hmove : Move numbering s.host h) : Numbered { s with host := h } := by
  have hquiet : ∀ c ∈ s.host.connected, ∀ p : Process, p.outbox = s.host.outbox →
      ∃ ds, p.pending c = s.host.pending c ++ ds ∧ ∀ d ∈ ds, ∀ m, messageOfData d.data = .ok m →
        (∀ info spawnInfo, m ≠ .creation info spawnInfo) ∧
        ∀ id, m.brings = some id → 0 < id → Announced s.host id := by
    intro c _ p hp
    exact ⟨[], by simp [Process.pending, hp], by simp⟩
  cases hmove with
  | allocate hmax h =>
      subst h
      exact hn.of_host rfl ⟨[], by simp, by simp⟩ (fun _ _ => Or.inl rfl)
        fun c hc => hquiet c hc _ rfl
  | quiet h =>
      obtain ⟨new, hnew, hidle⟩ := h.effects
      exact hn.of_host h.frame.connected_eq ⟨new, hnew, fun e he => (hidle e he).fresh⟩
        (h.held_eq hs.host.kept) fun c hc => hquiet c hc _ h.outbox_eq
  | announce info spawnInfo t hrole hcreatable htells hfresh ht h =>
      have hpos : 0 < info.ID := htells.resolve_right fun hchosen => hchosen.2
      exact hn.announce hs.host.kept hpos (hfresh strict_numbering).2 ht h
  | relay origin who m hrole hm htells hall h =>
      have hcreation : ∀ info spawnInfo, m ≠ .creation info spawnInfo := by
        rintro info spawnInfo rfl
        exact hm
      have hbrings : m.brings = none := by
        cases m with
        | update info => rfl
        | rpc info => rfl
        | deletion id => rfl
        | _ => cases hm
      obtain ⟨new, u, hu, hnew, hcaused⟩ := h.effects
      refine hn.of_host h.frame.connected_eq ⟨new, hnew, ?_⟩ ?_ ?_
      · intro e he
        apply (hcaused e he).fresh
        intro info spawnInfo heq
        exact absurd heq (hcreation info spawnInfo)
      · intro id hpos
        by_cases hnone : s.host.scene.held id = none
        · obtain ⟨v, hsent, ⟨_, _, hhandled⟩ | ⟨_, rfl⟩⟩ := h
          · have hkept : Kept v.scene := hsent.scene_eq ▸ hs.host.kept
            exact Or.inr (hhandled.held_none hkept hpos (hsent.scene_eq ▸ hnone)
              (by rw [hbrings]; simp))
          · exact Or.inr (hsent.scene_eq ▸ hnone)
        · obtain ⟨v, hsent, ⟨_, _, hhandled⟩ | ⟨_, rfl⟩⟩ := h
          · have hkept : Kept v.scene := hsent.scene_eq ▸ hs.host.kept
            refine Or.inl ?_
            rw [hhandled.held_eq hkept id hpos, hsent.scene_eq, Message.onHeld]
            cases m with
            | creation info spawnInfo => exact absurd rfl (hcreation info spawnInfo)
            | restore info => cases hbrings
            | _ => rfl
          · exact Or.inl (by rw [hsent.scene_eq])
      · intro c hc
        rcases h.pending hc with ⟨_, hsame⟩ | ⟨_, d, _, hdata, hpost⟩
        · exact ⟨[], by rw [hsame, List.append_nil], by simp⟩
        · refine ⟨[d], hpost, ?_⟩
          intro d' hd' m' hm'
          cases List.mem_singleton.mp hd'
          rw [hdata] at hm'
          cases hm'
          exact ⟨hcreation, fun id hid => by rw [hbrings] at hid; cases hid⟩
  | request m hclient hasks h =>
      rw [hs.role_eq] at hclient
      cases hclient

/-- A move of a peer gives out no id. -/
theorem Numbered.turn_peer {s : Session} {c : ClientID} {p : Process} (hs : s.Obeys numbering)
    (hn : s.Numbered) (hc : c ∈ s.host.connected) (hmove : Move numbering (s.peer c) p) :
    Numbered (s.setPeer c p) := by
  have hclient := (hs.member c hc).role_eq
  cases hmove with
  | allocate hmax h =>
      subst h
      exact hn.of_peer (fun _ _ => Or.inl rfl) fun e he => Or.inl he
  | quiet h =>
      obtain ⟨new, hnew, hidle⟩ := h.effects
      refine hn.of_peer (h.held_eq (hs.member c hc).ready.kept) fun e he => ?_
      rw [hnew] at he
      exact (List.mem_append.mp he).imp id fun he => (hidle e he).fresh
  | announce info spawnInfo t hrole hcreatable htells hfresh ht h =>
      rw [hclient] at hrole
      cases hrole
  | relay origin who m hrole hm htells hall h =>
      rw [hclient] at hrole
      cases hrole
  | request m hrole hasks h =>
      refine hn.of_peer (fun id _ => Or.inl (by rw [h.scene_eq])) fun e he => Or.inl ?_
      rwa [h.effects_eq] at he

/-- A new client has been sent nothing yet. -/
theorem Numbered.turn_connect {s : Session} {c : ClientID} {sentAt receivedAt : UInt32}
    (hn : s.Numbered) : Numbered (s.connect c sentAt receivedAt) := by
  have hpeer : (s.connect c sentAt receivedAt).peer c = newcomer s.host.scene.registry c := by
    simp [connect]
  have hother : ∀ c', c' ≠ c → (s.connect c sentAt receivedAt).peer c' = s.peer c' := by
    intro c' hne
    simp [connect, hne]
  have hconnected : ∀ c' ∈ (s.connect c sentAt receivedAt).host.connected, c' ≠ c →
      c' ∈ s.host.connected := by
    intro c' hc' hne
    exact (List.mem_append.mp hc').resolve_right fun h => hne (List.mem_singleton.mp h)
  refine ⟨hn.host_known, ?_, hn.fresh.1, ?_⟩
  · intro c' hc'
    by_cases heq : c' = c
    · subst heq
      have hpending : (s.connect c' sentAt receivedAt).host.pending c' = [] :=
        (pending_forget s.host c' c').trans (if_pos rfl)
      refine ⟨?_, ?_, ?_⟩
      · intro id _ hne
        rw [hpeer] at hne
        exact absurd (by simp [newcomer, Scenegraph.held]) hne
      · rw [hpending]
        exact fun d hd => absurd hd List.not_mem_nil
      · rw [hpending]
        exact freshFor_nil _
    · have hold := hn.follows c' (hconnected c' hc' heq)
      have hpending : (s.connect c sentAt receivedAt).host.pending c' = s.host.pending c' :=
        (pending_forget s.host c c').trans (if_neg heq)
      refine ⟨?_, ?_, ?_⟩
      · rw [hother c' heq]
        exact hold.known
      · rw [hpending]
        exact hold.brought
      · rw [hpending, hother c' heq]
        exact hold.fresh
  · intro c' hc' e he
    by_cases heq : c' = c
    · subst heq
      rw [hpeer] at he
      cases he
    · rw [hother c' heq] at he
      exact hn.fresh.2 c' (hconnected c' hc' heq) e he

/-- A client that leaves takes no id with it. -/
theorem Numbered.turn_disconnect {s : Session} {c : ClientID} {sentAt receivedAt : UInt32}
    (hn : s.Numbered) : Numbered (s.disconnect c sentAt receivedAt) := by
  have hsub : ∀ c', c' ∈ (s.disconnect c sentAt receivedAt).host.connected →
      c' ∈ s.host.connected := fun c' h => List.mem_of_mem_erase h
  refine ⟨hn.host_known, ?_, hn.fresh.1, fun c' hc' => hn.fresh.2 c' (hsub c' hc')⟩
  intro c' hc'
  obtain ⟨hknown, hbrought, hfresh⟩ := hn.follows c' (hsub c' hc')
  exact ⟨hknown, hbrought, hfresh⟩

/-- The snapshot tells a new client of ids that were given out. -/
theorem Numbered.turn_welcome {s : Session} {p : Packet} {rest : List Packet} {h : Process}
    (hs : s.Obeys numbering) (hn : s.Numbered) (htold : Told p.info.senderID s.stored s.host h) :
    Numbered { s with host := h, queue := rest } := by
  refine hn.of_host htold.frame.connected_eq ⟨_, htold.effects_eq, ?_⟩ ?_ ?_
  · intro e he
    obtain ⟨info, _, rfl⟩ := List.mem_map.mp he
    trivial
  · intro id _
    exact Or.inl (by rw [htold.scene_eq])
  · intro c hc
    by_cases heq : c = p.info.senderID
    · subst heq
      obtain ⟨ds, hds, hmap⟩ := htold.posted hc
      refine ⟨ds, hds, ?_⟩
      intro d hd m hm
      have hpair := List.mem_map_of_mem
        (f := fun d : Datagram => (d.origin, messageOfData d.data)) hd
      rw [hmap] at hpair
      obtain ⟨info, hinfo, heq⟩ := List.mem_map.mp hpair
      obtain ⟨key, ent, hent, rfl⟩ := mem_stored hinfo
      obtain ⟨_, hdata⟩ := Prod.mk.inj heq
      rw [hm] at hdata
      cases hdata
      refine ⟨by simp, ?_⟩
      intro id hbrings hpos
      obtain ⟨hkey, _, _⟩ := hs.host.kept.stored key ent hent
      have hid : key = id := hkey ▸ Option.some.inj hbrings
      apply hn.host_known id hpos
      rw [Scenegraph.held, ← hid, hent]
      simp
    · exact ⟨[], by rw [htold.skipped c hc heq, List.append_nil], by simp⟩

/-- What is delivered was announced under a number of its own. -/
theorem Numbered.turn_deliver {s : Session} {c : ClientID} {d : Datagram} {rest : List Datagram}
    {m : Message} {p : Process} (hs : s.Obeys numbering) (hn : s.Numbered)
    (hc : c ∈ s.host.connected) (hpending : s.host.pending c = d :: rest)
    (hm : messageOfData d.data = .ok m) (hhandled : Handled d.origin m (s.peer c) p) :
    Numbered { s.setPeer c p with host := s.host.dropNext c } := by
  have hmember := hs.member c hc
  have hfollows := hn.follows c hc
  have hmem : d ∈ s.host.pending c := by
    rw [hpending]
    exact List.mem_cons_self
  have hdrop : ∀ c', (s.host.dropNext c).pending c' =
      if c' = c then rest else s.host.pending c' := by
    intro c'
    rw [pending_dropNext, hpending]
    rfl
  obtain ⟨new, hnew, hcaused⟩ := hhandled.effects
  refine ⟨hn.host_known, ?_, hn.fresh.1, ?_⟩
  · intro c' hc'
    by_cases heq : c' = c
    · subst heq
      have hpeer : (s.setPeer c' p).peer c' = p := setPeer_peer_self
      have hrest : (s.host.dropNext c').pending c' = rest := (hdrop c').trans (if_pos rfl)
      refine ⟨?_, ?_, ?_⟩
      · intro id hpos hne
        dsimp only at hne
        rw [hpeer] at hne
        by_cases hbrings : m.brings = some id
        · exact hfollows.brought d hmem m id hm hbrings hpos
        · apply hfollows.known id hpos
          exact fun hnone => hne (hhandled.held_none hmember.ready.kept hpos hnone hbrings)
      · intro d' hd' m' id hm' hbrings hpos
        dsimp only at hd'
        rw [hrest] at hd'
        exact hfollows.brought d' (hpending ▸ List.mem_cons_of_mem d hd') m' id hm' hbrings hpos
      · dsimp only
        rw [hrest, hpeer]
        exact (hpending ▸ hfollows.fresh).handle hm hhandled hmember.ready.kept
    · have hpeer : (s.setPeer c p).peer c' = s.peer c' := setPeer_peer_ne heq
      have hsame : (s.host.dropNext c).pending c' = s.host.pending c' :=
        (hdrop c').trans (if_neg heq)
      obtain ⟨hknown, hbrought, hfresh⟩ := hn.follows c' hc'
      refine ⟨?_, ?_, ?_⟩
      · exact hpeer ▸ hknown
      · exact hsame ▸ hbrought
      · exact hsame ▸ hpeer ▸ hfresh
  · intro c' hc' e he
    by_cases heq : c' = c
    · subst heq
      dsimp only at he
      rw [setPeer_peer_self, hnew] at he
      rcases List.mem_append.mp he with hold | hself
      · exact hn.fresh.2 c' hc' e hold
      · apply (hcaused e hself).fresh
        rintro info spawnInfo rfl
        obtain ⟨m', hm', htells⟩ := hmember.down d hmem
        rw [hm] at hm'
        cases hm'
        exact hfollows.fresh.new d hmem info spawnInfo hm
          (htells.resolve_right fun hchosen => hchosen.2)
    · dsimp only at he
      rw [setPeer_peer_ne heq] at he
      exact hn.fresh.2 c' hc' e he

/-- **One turn** of the session keeps the ids numbered. -/
theorem Numbered.turn {s s' : Session} (hs : s.Obeys numbering) (hn : s.Numbered)
    (h : Turn numbering s s') : s'.Numbered := by
  cases h with
  | host h hmove hs' => exact hs' ▸ hn.turn_host hs hmove
  | peer c p hc hmove hs' => exact hs' ▸ hn.turn_peer hs hc hmove
  | connect c sentAt receivedAt hc hzero hone hs' => exact hs' ▸ hn.turn_connect
  | disconnect c sentAt receivedAt hc hs' => exact hs' ▸ hn.turn_disconnect
  | send c data hc hasks hs' =>
      subst hs'
      exact hn.of_peer (fun _ _ => Or.inl rfl) fun e he => Or.inl he
  | receive c t d rest p hc hpending hp hs' =>
      subst hs'
      have hset : Numbered (s.setPeer c ((s.peer c).dropNext 1)) :=
        hn.of_peer (fun _ _ => Or.inl rfl) fun e he => Or.inl he
      obtain ⟨hhost, hfollows, hfresh⟩ := hset
      refine ⟨hhost, fun c' hc' => ?_, hfresh⟩
      obtain ⟨hknown, hbrought, hchannel⟩ := hfollows c' hc'
      exact ⟨hknown, hbrought, hchannel⟩
  | pop p rest hqueue hp hs' =>
      subst hs'
      exact hn.of_host rfl ⟨[], by simp, by simp⟩ (fun _ _ => Or.inl rfl)
        fun c hc => ⟨[], by simp, by simp⟩
  | welcome p rest h hqueue hp hjoin hsnapshot htold hs' => exact hs' ▸ hn.turn_welcome hs htold
  | deliver c d rest m p hc hpending hm hhandled hs' =>
      exact hs' ▸ hn.turn_deliver hs hc hpending hm hhandled

/-! ## Runs -/

/-- The info of a request for an entity. -/
def requested (data : List Byte) : Option EntityInfo :=
  match messageOfData data with
  | .ok (.creation info _) => some info
  | _ => none

/-- A call that leaves the ids of networked entities to the server. -/
def CallOnlyNew : GameCall → Prop
  | .createNetworkedEntity info _ _ => info.ID = 0
  | _ => True

instance : DecidablePred CallOnlyNew
  | .createNetworkedEntity _ _ _ => inferInstanceAs (Decidable (_ = _))
  | .createEntity _ _ _ | .deleteEntity _ | .update | .networkTick | .callRPC _ _ _ _
  | .setNetworkTickRate _ _ | .elapse _ => .isTrue trivial

/-- No request for an entity has an id of its own. -/
def OnlyNew (_ : Session) : Event → Prop
  | .send _ data => ∀ info ∈ requested data, info.ID = 0
  | .hostCall _ _ call | .peerCall _ _ _ call => CallOnlyNew call
  | _ => True

instance (s : Session) : DecidablePred s.OnlyNew
  | .send _ data => inferInstanceAs (Decidable (∀ info ∈ requested data, info.ID = 0))
  | .hostCall _ _ call | .peerCall _ _ _ call => inferInstanceAs (Decidable (CallOnlyNew call))
  | .connect _ _ _ | .disconnect _ _ _ | .receive _ _ | .serve _ _ | .deliver _ _ => .isTrue trivial

/-- Where game code creates only new entities the policy holds. -/
theorem permits_of_onlyNew {s : Session} {e : Event} (he : s.OnlyNew e) :
    numbering.Permits s e := by
  have hcall : ∀ (p : Process) (call : GameCall), CallOnlyNew call →
      numbering.PermitsCall p call := by
    intro p call h
    cases call with
    | createNetworkedEntity info spawnInfo sound => exact Or.inl h
    | networkTick => exact fun _ _ _ _ => trivial
    | _ => trivial
  cases e with
  | send c data =>
      intro m hm
      cases m with
      | creation info spawnInfo => exact Or.inl (he info (by rw [requested, hm]; rfl))
      | _ => trivial
  | serve stack hooks => exact fun _ _ _ => ⟨trivial, fun _ _ => trivial⟩
  | hostCall stack hooks call => exact hcall s.host call he
  | peerCall c stack hooks call => exact fun _ => hcall (s.peer c) call he
  | _ => trivial

/-- Nothing is numbered at the start. -/
theorem start_numbered (registry : Registry) : (start registry).Numbered where
  host_known id _ hne := absurd (by simp [start, Scenegraph.held]) hne
  follows _ hc := absurd hc List.not_mem_nil
  fresh := ⟨fun _ he => absurd he List.not_mem_nil, fun _ hc => absurd hc List.not_mem_nil⟩

/-- No creation has replaced an entity, at the host or at a client. -/
def CreationsFresh (s : Session) : Prop := s.Everywhere Effect.Fresh

instance (s : Session) : Decidable s.CreationsFresh :=
  inferInstanceAs (Decidable (s.Everywhere Effect.Fresh))

/-- **Ids are unique.**  In a run in which no request has an id of its own, every creation
that is announced or handled finds its id unused. -/
theorem creations_are_fresh {registry : Registry} {es : List Event} {t : Session}
    (hmeets : Runs.Meets step OnlyNew (start registry) es)
    (hrun : Runs.run step (start registry) es = some t) : t.CreationsFresh := by
  obtain ⟨_, _, hn⟩ := run_invariant_of_permits numbering Numbered
    (fun s e _ _ _ he => permits_of_onlyNew he) (fun _ _ hs hn h => hn.turn hs h)
    (start_numbered registry) hmeets hrun
  exact hn.fresh

/-- The host and a client create an entity each, and the client deletes its own. -/
def twoOwners : List Event :=
  [.hostCall 5 .silent Sample.create, .connect 2 0 0, .serve 5 .silent, .deliver 2 0,
    .peerCall 2 5 .silent Sample.create, .receive 2 0, .serve 5 .silent, .deliver 2 0,
    .peerCall 2 5 .silent (.deleteEntity 2), .receive 2 0, .serve 5 .silent, .deliver 2 0,
    .hostCall 5 .silent .update, .peerCall 2 5 .silent .update,
    .peerCall 2 5 .silent Sample.create, .receive 2 0, .serve 5 .silent, .deliver 2 0]

/-- The host and a client create one entity each. -/
theorem creations_are_fresh_twoOwners :
    ∃ t, Runs.run step (start Sample.registry) twoOwners = some t ∧ t.CreationsFresh := by
  have hsome : (Runs.run step (start Sample.registry) twoOwners).isSome := by decide +kernel
  obtain ⟨t, ht⟩ := Option.isSome_iff_exists.mp hsome
  have hmeets : Runs.Meets step OnlyNew (start Sample.registry) twoOwners := by decide +kernel
  exact ⟨t, ht, creations_are_fresh hmeets ht⟩

/-- Client 2 asks for the id of the host's entity. -/
def hijack : List Event :=
  [.hostCall 5 .silent Sample.create, .connect 2 0 0, .serve 5 .silent, .deliver 2 0,
    .peerCall 2 5 .silent
      (.createNetworkedEntity (Sample.info 1 0) (ofHeader {}) Sample.sound_blank),
    .receive 2 0, .serve 5 .silent]

/-- **An entity is hijacked.**  The host's entity is replaced by one that client 2 owns. -/
theorem hijacked_entity :
    ∃ t, Runs.run step (start Sample.registry) hijack = some t ∧
      ¬ t.CreationsFresh ∧ t.host.scene.held 1 = some (Sample.info 1 2) :=
  Runs.exists_of_any (by decide +kernel)

end Session

end EnkiNet
