import EnkiNet.Connections
import EnkiNet.Lasting

/-!
# Children without parents

`Scenegraph::update` takes an entity without its parent for one whose parent has been
deleted, and deletes it.  But the entities of a tree are announced from the bottom up, and
a snapshot starts with the greatest id: between two packets a client has children whose
parents it has not been told of yet.  If it updates then, it asks for the deletion of its
own child, and the server complies (`child_deleted`).

`nothing_deleted` is the other half.  In a session in which nobody means to delete
anything, networked entities last as long as no client updates while it has a networked
entity of its own without the parent, the server none with any, and no creation takes an
id that is in use.  Requests for other clients' entities are made all the same, and
refused: a client knows the owner that the server knows (`Orderly`).
-/

namespace EnkiNet

open ByteStore Packet Process

namespace Process

/-- The entity has a parent that is not there. -/
def Orphan (s : Process) (info : EntityInfo) : Prop :=
  info.parentID ≠ 0 ∧ ¬ s.scene.entityExists info.parentID

instance (s : Process) (info : EntityInfo) : Decidable (s.Orphan info) :=
  inferInstanceAs (Decidable (_ ∧ ¬ _))

/-- `entityExists` is a lookup in the map. -/
theorem entityExists_iff {g : Scenegraph} {id : EntityID} :
    g.entityExists id ↔ (g.held id).isSome := by
  rw [Scenegraph.entityExists, Scenegraph.held, Option.isSome_map,
    Std.TreeMap.contains_eq_isSome_getElem?]

/-- Whether an entity is an orphan depends on what is held. -/
theorem orphan_congr {s s' : Process} (h : ∀ id, s'.scene.held id = s.scene.held id)
    (info : EntityInfo) : s'.Orphan info ↔ s.Orphan info := by
  rw [Orphan, Orphan, entityExists_iff, entityExists_iff, h]

/-! ## The loop over orphans -/

/-- One round of the loop: nothing that concerns others, or a request. -/
inductive Sweep (P : EntityID → Prop) (s s' : Process) : Prop
  | quiet (h : Quiet Policy.any s s')
  | ask (id : EntityID) (hP : P id) (hrole : s.role = .client) (h : Requested (.deletion id) s s')

section

variable {P : EntityID → Prop} {s t s' : Process}

theorem Sweep.frame (h : Sweep P s s') : Frame s s' := by
  cases h with
  | quiet h => exact h.frame
  | ask id hP hrole h => exact h.frame

/-- An orphan is marked if it is local; a networked one is asked for. -/
theorem deleteEntity_sweep {id : EntityID} (hs : Kept s.scene)
    (hP : 0 < id → s.role = .client ∧ P id) (h : deleteEntity id s = (.ok (), s')) :
    Relation.ReflTransGen (Sweep P) s s' ∧ ∀ k, s'.scene.held k = s.scene.held k := by
  obtain ⟨ent, hent, hdeletion⟩ := deleteEntity_ok h
  obtain ⟨hid, hzero, _⟩ := hs.stored id ent hent
  have hasks : ¬ ent.info.ID < 0 → s.role = .client ∧ P id := by
    intro hlocal
    refine hP ?_
    rw [← hid]
    exact Int32.lt_of_le_of_ne (Int32.not_lt.mp hlocal) (hid ▸ Ne.symm hzero)
  cases hdeletion with
  | mark hlocal =>
      refine ⟨.single (.quiet (quiet_flag id fun _ => hid ▸ hlocal)), ?_⟩
      exact fun k => Scenegraph.held_flag _ _ _
  | offline hlocal hready => exact ⟨.refl, fun _ => rfl⟩
  | request hlocal hready hrole hmeans hsend =>
      have hrequest := sendToServer_ok hmeans hsend
      exact ⟨.single (.ask id (hasks hlocal).2 hrole hrequest),
        fun k => by rw [hrequest.scene_eq]⟩
  | announce hlocal hready hrole hmeans hsend => exact absurd (hasks hlocal).1 hrole

/-- A sweep leaves the table in order. -/
theorem Sweep.kept (h : Sweep P s s') (hs : Kept s.scene) : Kept s'.scene := by
  cases h with
  | quiet h => exact h.kept hs
  | ask id hP hrole h => exact h.scene_eq ▸ hs

/-- What one sweep preserves all of them preserve. -/
theorem sweeps_preserve {Q : Process → Prop} (hone : ∀ s s', Q s → Sweep P s s' → Q s')
    (h : Relation.ReflTransGen (Sweep P) s s') (hs : Q s) : Q s' := by
  induction h with
  | refl => exact hs
  | tail _ hlast ih => exact hone _ _ ih hlast

/-- **The loop**, by induction on the entities that are left.  Marks and requests make no
orphans. -/
theorem orphans_sweep {entries : List (EntityID × Entity)} (hs : Kept s.scene)
    (hP : ∀ entry ∈ entries, 0 < entry.2.info.ID → s.Orphan entry.2.info →
      s.role = .client ∧ P entry.2.info.ID)
    (h : Fallible.forEach entries (fun (_, ent) => do
      let s ← Fallible.get
      if ent.info.parentID = 0 ∨ s.scene.entityExists ent.info.parentID then return ()
      else deleteEntity ent.info.ID) s = (.ok (), s')) :
    Relation.ReflTransGen (Sweep P) s s' := by
  induction entries generalizing s with
  | nil =>
      cases h
      exact .refl
  | cons entry entries ih =>
      obtain ⟨_, t, hone, hrest⟩ := Fallible.bind_eq_ok h
      have hfirst : Relation.ReflTransGen (Sweep P) s t ∧ ∀ k, t.scene.held k = s.scene.held k := by
        dsimp only at hone
        rw [Fallible.bind_get] at hone
        split at hone
        · cases hone
          exact ⟨.refl, fun _ => rfl⟩
        · next horphan =>
          rw [not_or] at horphan
          exact deleteEntity_sweep hs (fun hpos => hP entry List.mem_cons_self hpos horphan) hone
      obtain ⟨hsweeps, hheld⟩ := hfirst
      have hkept := sweeps_preserve (Q := fun s => Kept s.scene) (fun _ _ hu hlast => hlast.kept hu)
        hsweeps hs
      have hrole := sweeps_preserve (Q := fun u => u.role = s.role)
        (fun _ _ hu hlast => hlast.frame.role_eq.trans hu) hsweeps rfl
      refine hsweeps.trans (ih hkept ?_ hrest)
      intro other hmem hpos horphan
      rw [hrole]
      exact hP other (List.mem_cons_of_mem entry hmem) hpos ((orphan_congr hheld _).mp horphan)

/-- `Scenegraph::update` makes requests about networked orphans only. -/
theorem update_sweeps (hs : Kept s.scene)
    (hP : ∀ (id : EntityID) (ent : Entity), s.scene.entities[id]? = some ent → 0 < id →
      s.Orphan ent.info → s.role = .client ∧ P id)
    (h : update s = (.ok (), s')) : Relation.ReflTransGen (Sweep P) s s' := by
  rw [update, Fallible.bind_get] at h
  obtain ⟨_, t, hloop, hlast⟩ := Fallible.bind_eq_ok h
  cases hlast
  refine (orphans_sweep hs ?_ hloop).tail (.quiet (quiet_eraseFlagged t))
  intro entry hentry hpos horphan
  have hent := Std.TreeMap.mem_toList_iff_getElem?_eq_some.mp hentry
  obtain ⟨hid, _, _⟩ := hs.stored entry.1 entry.2 hent
  rw [hid] at hpos ⊢
  exact hP entry.1 entry.2 hent hpos horphan

/-! ## A client's own doing -/

/-- A client's networked entities stay, and it asks for deletions of entities for which
`P` holds only. -/
structure Stays (P : EntityID → Prop) (s s' : Process) : Prop where
  frame : Frame s s'
  kept : Kept s'.scene
  unmarked : s.scene.Unmarked → s'.scene.Unmarked
  live : ∀ id, 0 < id → s'.scene.live id = s.scene.live id
  asked : ∃ ds, s'.pending 1 = s.pending 1 ++ ds ∧
    ∀ d ∈ ds, ∀ id, messageOfData d.data = .ok (.deletion id) → P id

theorem Stays.refl (hs : Kept s.scene) : Stays P s s :=
  ⟨Frame.refl s, hs, fun h => h, fun _ _ => rfl, [], (List.append_nil _).symm,
    fun _ hd => absurd hd List.not_mem_nil⟩

/-- What stays over two stretches stays over both. -/
theorem Stays.trans (h : Stays P s t) (h' : Stays P t s') : Stays P s s' := by
  obtain ⟨ds, hds, hP⟩ := h.asked
  obtain ⟨es, hes, hP'⟩ := h'.asked
  refine ⟨h.frame.trans h'.frame, h'.kept, fun hun => h'.unmarked (h.unmarked hun),
    fun id hpos => (h'.live id hpos).trans (h.live id hpos), ds ++ es, ?_, ?_⟩
  · rw [hes, hds, List.append_assoc]
  · intro d hd
    exact (List.mem_append.mp hd).elim (hP d) (hP' d)

/-- A quiet step makes no orphan. -/
theorem Quiet.stays {π : Policy} (h : Quiet π s s') (hs : Kept s.scene) : Stays P s s' := by
  refine ⟨h.frame, h.kept hs, (h.keeps hs).unmarked, h.live_eq hs, [], ?_,
    fun _ hd => absurd hd List.not_mem_nil⟩
  rw [List.append_nil, pending, h.outbox_eq, pending]

/-- A request deletes nothing, unless it asks for it. -/
theorem Requested.stays {m : Message} (h : Requested m s s') (hs : Kept s.scene)
    (hP : ∀ id, m = .deletion id → P id) : Stays P s s' := by
  obtain ⟨d, _, hdata, hpost⟩ := h.posted
  refine ⟨h.frame, h.scene_eq ▸ hs, fun hun => h.scene_eq ▸ hun, fun _ _ => by rw [h.scene_eq],
    [d], hpost, ?_⟩
  intro d' hd' id hm
  rw [List.mem_singleton.mp hd', hdata] at hm
  exact hP id (Except.ok.inj hm)

/-- Talking deletes nothing. -/
theorem Talk.stays {π : Policy} (h : Talk π s s') (hs : Kept s.scene) (hrole : s.role = .client) :
    Stays P s s' := by
  cases h with
  | quiet h => exact h.stays hs
  | relay origin who m hhost hm htells h =>
      rw [hrole] at hhost
      cases hhost
  | request m hclient hm hasks h =>
      exact h.stays hs fun id hdeletion => absurd hdeletion (hm.ne_deletion id)

theorem stays_of_talks {π : Policy} (h : Relation.ReflTransGen (Talk π) s s') (hs : Kept s.scene)
    (hrole : s.role = .client) : Stays P s s' := by
  induction h with
  | refl => exact Stays.refl hs
  | tail _ hlast ih => exact ih.trans (hlast.stays ih.kept (ih.frame.role_eq.trans hrole))

/-- Sweeps delete what they may. -/
theorem stays_of_sweeps (h : Relation.ReflTransGen (Sweep P) s s') (hs : Kept s.scene) :
    Stays P s s' := by
  induction h with
  | refl => exact Stays.refl hs
  | tail _ hlast ih =>
      refine ih.trans ?_
      cases hlast with
      | quiet h => exact h.stays ih.kept
      | ask id hP hrole h =>
          refine h.stays ih.kept fun id' heq => ?_
          rwa [← Message.deletion.inj heq]

/-- A process that is a client and stores what it should. -/
def Joining (s : Process) : Prop := s.role = .client ∧ Kept s.scene

/-- Asking for an entity deletes none. -/
theorem sendCreation_stays {info : EntityInfo} {spawnInfo : Packet} (hsound : spawnInfo.Sound) :
    Fallible.Moves Joining (Stays P) (sendCreation info spawnInfo) := by
  intro s _ s' hs h
  obtain ⟨sent, _, _, hcreation⟩ := sendCreation_ok hsound h
  cases hcreation with
  | offline hready => exact ⟨.refl, hs⟩
  | request hready hrole hmeans hsend =>
      have hstays := (sendToServer_ok hmeans hsend).stays (P := P) hs.2 (by simp)
      exact ⟨.single hstays, hstays.frame.role_eq.trans hs.1, hstays.kept⟩
  | announce hready hrole hmeans hsend => exact absurd hs.1 hrole

/-- A client asks for creations, by induction on the room for nested calls. -/
theorem createNetworkedEntity_stays (stack : Nat) (info : EntityInfo) {spawnInfo : Packet}
    (hsound : spawnInfo.Sound) :
    Fallible.Moves Joining (Stays P) (createNetworkedEntity stack info spawnInfo) := by
  induction stack generalizing info spawnInfo with
  | zero => exact Fallible.Moves.fail _
  | succ stack ih =>
      rw [createNetworkedEntity]
      refine Fallible.Moves.get fun s _ s' hs h => ?_
      split at h
      · cases h
        exact ⟨.refl, hs⟩
      rw [if_neg fun hserver => hserver.1 hs.1, createFamily, Fallible.bind_get] at h
      have hchildren := Fallible.Moves.forEach fun child
          (_ : child ∈ s.scene.registry.childTypes info.type) =>
        ih (child.entity 0 info.ownerID info.ID) child.sound
      exact (hchildren.bind fun _ => sendCreation_stays hsound) s () s' hs h

/-- A program that only sends and marks. -/
theorem stays_of_moves {x : ProcessM Unit} (h : Fallible.Moves Joining (Stays P) x)
    (hs : Joining s) (hrun : x s = (.ok (), s')) : Stays P s s' := by
  have hmoves := (h s () s' hs hrun).1
  clear hrun
  induction hmoves with
  | refl => exact Stays.refl hs.2
  | tail _ hlast ih => exact ih.trans hlast

end

end Process

namespace Session

/-! ## The invariant -/

/-- The server has the networked entity, and its owner is somebody else. -/
def Foreign (h : Process) (c : ClientID) (id : EntityID) : Prop :=
  0 < id ∧ ∃ info, h.scene.live id = some info ∧ info.ownerID ≠ c

/-- A client has, and will be told of, entities that the server has; it asks for the
deletion of others' entities only. -/
structure Trusts (s : Session) (c : ClientID) : Prop where
  unmarked : (s.peer c).scene.Unmarked
  agrees : ∀ id, 0 < id → ∀ info, (s.peer c).scene.live id = some info →
    s.host.scene.live id = some info
  told : ∀ d ∈ s.host.pending c, ∀ m, messageOfData d.data = .ok m → s.host.Bears m
  asks : ∀ d ∈ (s.peer c).pending 1, ∀ id, messageOfData d.data = .ok (.deletion id) →
    Foreign s.host c id

structure Orderly (s : Session) : Prop where
  obeys : s.Obeys Policy.any
  unmarked : s.host.scene.Unmarked
  trusts : ∀ c ∈ s.host.connected, s.Trusts c
  queue : ∀ p ∈ s.queue, ∀ id, messageOf p = .ok (.deletion id) →
    Foreign s.host p.info.senderID id

/-- Networked entities that were live are live, at the server and at every client. -/
structure Lasts (s t : Session) : Prop where
  host : ∀ id, 0 < id → ∀ info, s.host.scene.live id = some info → t.host.scene.live id = some info
  peers : ∀ c ∈ s.host.connected, c ∈ t.host.connected ∧ ∀ id, 0 < id → ∀ info,
    (s.peer c).scene.live id = some info → (t.peer c).scene.live id = some info

section

variable {s t s' : Session} {c : ClientID}

/-- An entity that is another's stays another's. -/
theorem Foreign.mono {h h' : Process} {id : EntityID} (hforeign : Foreign h c id)
    (hlive : ∀ id, 0 < id → ∀ info, h.scene.live id = some info → h'.scene.live id = some info) :
    Foreign h' c id := by
  obtain ⟨hpos, info, hsome, howner⟩ := hforeign
  exact ⟨hpos, info, hlive id hpos info hsome, howner⟩

theorem Lasts.refl (s : Session) : Lasts s s :=
  ⟨fun _ _ _ h => h, fun _ hc => ⟨hc, fun _ _ _ h => h⟩⟩

/-- What lasts over two stretches lasts over both. -/
theorem Lasts.trans (h : Lasts s t) (h' : Lasts t s') : Lasts s s' := by
  refine ⟨fun id hpos info hsome => h'.host id hpos info (h.host id hpos info hsome), ?_⟩
  intro c hc
  obtain ⟨hc', hlive⟩ := h.peers c hc
  obtain ⟨hc'', hlive'⟩ := h'.peers c hc'
  exact ⟨hc'', fun id hpos info hsome => hlive' id hpos info (hlive id hpos info hsome)⟩

/-- The server's process has changed, and its queue has become shorter. -/
theorem Orderly.of_host {h : Process} {queue : List Packet} (hs : s.Orderly)
    (hkeeps : Keeps s.host h) (hqueue : ∀ p ∈ queue, p ∈ s.queue)
    (hobeys : Obeys Policy.any { s with host := h, queue := queue }) :
    Orderly { s with host := h, queue := queue } ∧
      Lasts s { s with host := h, queue := queue } := by
  refine ⟨⟨hobeys, hkeeps.unmarked hs.unmarked, ?_, ?_⟩, hkeeps.live, ?_⟩
  · intro c hc
    have hc' : c ∈ s.host.connected := hkeeps.frame.connected_eq ▸ hc
    have hold := hs.trusts c hc'
    refine ⟨hold.unmarked, ?_, ?_, ?_⟩
    · exact fun id hpos info hsome => hkeeps.live id hpos info (hold.agrees id hpos info hsome)
    · obtain ⟨ds, hds, hbears⟩ := hkeeps.posted c hc'
      intro d hd m hm
      dsimp only at hd
      rw [hds] at hd
      rcases List.mem_append.mp hd with hd | hd
      · exact (hold.told d hd m hm).mono hkeeps.live
      · exact hbears d hd m hm
    · exact fun d hd id hm => (hold.asks d hd id hm).mono hkeeps.live
  · exact fun p hp id hm => (hs.queue p (hqueue p hp) id hm).mono hkeeps.live
  · intro c hc
    exact ⟨hkeeps.frame.connected_eq.symm ▸ hc, fun _ _ _ hsome => hsome⟩

/-- A client's process has changed, and perhaps the server's queues. -/
theorem Orderly.of_peer {p h : Process} {queue : List Packet} (hs : s.Orderly)
    (hscene : h.scene = s.host.scene) (hconnected : h.connected = s.host.connected)
    (hpending : ∀ c, ∀ d ∈ h.pending c, d ∈ s.host.pending c)
    (hqueue : ∀ q ∈ queue, q ∈ s.queue ∨
      ∀ id, messageOf q = .ok (.deletion id) → Foreign s.host q.info.senderID id)
    (hunmarked : p.scene.Unmarked)
    (hagrees : ∀ id, 0 < id → ∀ info, p.scene.live id = some info →
      s.host.scene.live id = some info)
    (hlive : ∀ id, 0 < id → ∀ info, (s.peer c).scene.live id = some info →
      p.scene.live id = some info)
    (hasks : ∀ d ∈ p.pending 1, ∀ id, messageOfData d.data = .ok (.deletion id) →
      Foreign s.host c id)
    (hobeys : Obeys Policy.any { s.setPeer c p with host := h, queue := queue }) :
    Orderly { s.setPeer c p with host := h, queue := queue } ∧
      Lasts s { s.setPeer c p with host := h, queue := queue } := by
  have hforeign : ∀ {c id}, Foreign s.host c id → Foreign h c id := fun hf =>
    hf.mono fun _ _ _ hsome => by rwa [hscene]
  refine ⟨⟨hobeys, ?_, ?_, ?_⟩, ?_, ?_⟩
  · dsimp only
    rw [hscene]
    exact hs.unmarked
  · intro c' hc'
    have hold := hs.trusts c' (hconnected ▸ hc')
    have htold : ∀ d ∈ h.pending c', ∀ m, messageOfData d.data = .ok m → h.Bears m := by
      intro d hd m hm
      refine (hold.told d (hpending c' d hd) m hm).mono fun _ _ _ hsome => ?_
      rwa [hscene]
    by_cases heq : c' = c
    · subst heq
      have hself : ({ s.setPeer c' p with host := h, queue := queue } : Session).peer c' = p :=
        setPeer_peer_self
      refine ⟨?_, ?_, htold, ?_⟩
      · rw [hself]
        exact hunmarked
      · rw [hself]
        dsimp only
        rw [hscene]
        exact hagrees
      · rw [hself]
        exact fun d hd id hm => hforeign (hasks d hd id hm)
    · have hother : ({ s.setPeer c p with host := h, queue := queue } : Session).peer c' =
          s.peer c' := setPeer_peer_ne heq
      refine ⟨hother ▸ hold.unmarked, ?_, htold, ?_⟩
      · rw [hother]
        dsimp only
        rw [hscene]
        exact hold.agrees
      · rw [hother]
        exact fun d hd id hm => hforeign (hold.asks d hd id hm)
  · intro q hq id hm
    rcases hqueue q hq with hold | hnew
    · exact hforeign (hs.queue q hold id hm)
    · exact hforeign (hnew id hm)
  · intro id _ info hsome
    dsimp only
    rwa [hscene]
  · intro c' hc'
    refine ⟨hconnected.symm ▸ hc', fun id hpos info hsome => ?_⟩
    by_cases heq : c' = c
    · subst heq
      have hself : ({ s.setPeer c' p with host := h, queue := queue } : Session).peer c' = p :=
        setPeer_peer_self
      rw [hself]
      exact hlive id hpos info hsome
    · have hother : ({ s.setPeer c p with host := h, queue := queue } : Session).peer c' =
          s.peer c' := setPeer_peer_ne heq
      rwa [hother]

/-- A new client has been told of nothing that is gone. -/
theorem Orderly.connect {sentAt receivedAt : UInt32} (hs : s.Orderly) (hc : c ∉ s.host.connected)
    (hobeys : Obeys Policy.any (s.connect c sentAt receivedAt)) :
    Orderly (s.connect c sentAt receivedAt) ∧ Lasts s (s.connect c sentAt receivedAt) := by
  have hother : ∀ c', c' ≠ c → (s.connect c sentAt receivedAt).peer c' = s.peer c' ∧
      (s.connect c sentAt receivedAt).host.pending c' = s.host.pending c' := fun c' hne =>
    ⟨by simp [Session.connect, hne], (pending_forget s.host c c').trans (if_neg hne)⟩
  refine ⟨⟨hobeys, hs.unmarked, ?_, ?_⟩, fun _ _ _ hsome => hsome, ?_⟩
  · intro c' hc'
    by_cases heq : c' = c
    · subst heq
      have hpeer : (s.connect c' sentAt receivedAt).peer c' =
          newcomer s.host.scene.registry c' := by
        simp [Session.connect]
      have hpending : (s.connect c' sentAt receivedAt).host.pending c' = [] :=
        (pending_forget s.host c' c').trans (if_pos rfl)
      refine ⟨?_, ?_, ?_, ?_⟩
      · rw [hpeer]
        exact Scenegraph.unmarked_of_live
          fun _ _ => by simp [newcomer, Scenegraph.live, Scenegraph.held]
      · rw [hpeer]
        intro id _ info hsome
        simp [newcomer, Scenegraph.live] at hsome
      · rw [hpending]
        exact fun d hd => absurd hd List.not_mem_nil
      · rw [hpeer]
        exact fun d hd => absurd hd List.not_mem_nil
    · obtain ⟨hpeer, hpending⟩ := hother c' heq
      have hold := hs.trusts c'
        ((List.mem_append.mp hc').resolve_right fun h => heq (List.mem_singleton.mp h))
      exact ⟨hpeer ▸ hold.unmarked, hpeer ▸ hold.agrees, hpending ▸ hold.told, hpeer ▸ hold.asks⟩
  · intro p hp id hm
    rcases List.mem_append.mp hp with hold | hself
    · exact hs.queue p hold id hm
    · cases List.mem_singleton.mp hself
      cases hm
  · intro c' hc'
    refine ⟨List.mem_append_left _ hc', fun id _ info hsome => ?_⟩
    rwa [(hother c' fun heq => hc (heq ▸ hc')).1]

end

/-! ## Steps -/

/-- The entity that a client asks to be deleted. -/
def disposed (data : List Byte) : Option EntityID :=
  match messageOfData data with
  | .ok (.deletion target) => some target
  | _ => none

/-- The entity that a packet asks the server to create. -/
def wanted (p : Packet) : Option EntityInfo :=
  match messageOf p with
  | .ok (.creation info _) => some info
  | _ => none

/-- Nobody means to delete an entity, and nobody leaves. -/
def DeletesNothing : Event → Prop
  | .disconnect _ _ _ => False
  | .send _ data => disposed data = none
  | .hostCall _ _ (.deleteEntity _) | .peerCall _ _ _ (.deleteEntity _) => False
  | _ => True

/-- A client updates when it has no networked entity of its own without the parent, and
the server when it has none at all; a creation takes no id of a stored networked entity. -/
def WithParents (s : Session) : Event → Prop
  | .serve stack _ => ∀ p ∈ s.queue.head?, ∀ info ∈ wanted p, s.host.Unused stack info
  | .hostCall stack _ (.createNetworkedEntity info _ _) => s.host.Unused stack info
  | .hostCall _ _ .update => ∀ entry ∈ s.host.scene.entities.toList, 0 < entry.1 →
      ¬ s.host.Orphan entry.2.info
  | .peerCall c _ _ .update => ∀ entry ∈ (s.peer c).scene.entities.toList, 0 < entry.1 →
      entry.2.info.ownerID = c → ¬ (s.peer c).Orphan entry.2.info
  | _ => True

instance : DecidablePred DeletesNothing
  | .send _ _ => inferInstanceAs (Decidable (_ = _))
  | .disconnect _ _ _ => .isFalse not_false
  | .hostCall _ _ (.deleteEntity _) | .peerCall _ _ _ (.deleteEntity _) => .isFalse not_false
  | .connect _ _ _ | .receive _ _ | .serve _ _ | .deliver _ _
  | .hostCall _ _ (.createEntity _ _ _) | .hostCall _ _ (.createNetworkedEntity _ _ _)
  | .hostCall _ _ .update | .hostCall _ _ .networkTick | .hostCall _ _ (.callRPC _ _ _ _)
  | .hostCall _ _ (.setNetworkTickRate _ _) | .hostCall _ _ (.elapse _)
  | .peerCall _ _ _ (.createEntity _ _ _) | .peerCall _ _ _ (.createNetworkedEntity _ _ _)
  | .peerCall _ _ _ .update | .peerCall _ _ _ .networkTick | .peerCall _ _ _ (.callRPC _ _ _ _)
  | .peerCall _ _ _ (.setNetworkTickRate _ _) | .peerCall _ _ _ (.elapse _) => .isTrue trivial

instance (s : Session) : DecidablePred s.WithParents
  | .serve stack _ =>
      inferInstanceAs (Decidable (∀ p ∈ s.queue.head?, ∀ info ∈ wanted p, s.host.Unused stack info))
  | .hostCall stack _ (.createNetworkedEntity info _ _) =>
      inferInstanceAs (Decidable (s.host.Unused stack info))
  | .hostCall _ _ .update =>
      inferInstanceAs (Decidable (∀ entry ∈ s.host.scene.entities.toList, 0 < entry.1 →
        ¬ s.host.Orphan entry.2.info))
  | .peerCall c _ _ .update =>
      inferInstanceAs (Decidable (∀ entry ∈ (s.peer c).scene.entities.toList, 0 < entry.1 →
        entry.2.info.ownerID = c → ¬ (s.peer c).Orphan entry.2.info))
  | .connect _ _ _ | .disconnect _ _ _ | .send _ _ | .receive _ _ | .deliver _ _
  | .hostCall _ _ (.createEntity _ _ _) | .hostCall _ _ (.deleteEntity _)
  | .hostCall _ _ .networkTick | .hostCall _ _ (.callRPC _ _ _ _)
  | .hostCall _ _ (.setNetworkTickRate _ _) | .hostCall _ _ (.elapse _)
  | .peerCall _ _ _ (.createEntity _ _ _) | .peerCall _ _ _ (.createNetworkedEntity _ _ _)
  | .peerCall _ _ _ (.deleteEntity _) | .peerCall _ _ _ .networkTick
  | .peerCall _ _ _ (.callRPC _ _ _ _) | .peerCall _ _ _ (.setNetworkTickRate _ _)
  | .peerCall _ _ _ (.elapse _) => .isTrue trivial

section

variable {s t s' : Session} {c : ClientID} {e : Event}

/-- A datagram that disposes of nothing is no deletion. -/
theorem disposed_eq_none {data : List Byte} (h : disposed data = none) (id : EntityID) :
    messageOfData data ≠ .ok (.deletion id) := by
  intro hm
  rw [disposed, hm] at h
  cases h

/-- What game code does on the server. -/
theorem hostCall_keeps {stack : Nat} {hooks : Hooks} {call : GameCall} {h : Process}
    (hs : s.Orderly) (hdeletes : DeletesNothing (.hostCall stack hooks call))
    (hparents : s.WithParents (.hostCall stack hooks call))
    (hrun : call.run stack hooks s.host = (.ok (), h)) : Keeps s.host h := by
  have hhost := hs.obeys.hosting
  cases call with
  | createNetworkedEntity info spawnInfo sound =>
      exact createNetworkedEntity_keeps hhost sound hparents hrun
  | deleteEntity id => cases hdeletes
  | update =>
      have hsweeps : Relation.ReflTransGen (Sweep fun _ => False) s.host h := by
        refine update_sweeps hhost.kept ?_ hrun
        intro id ent hent hpos horphan
        exact absurd horphan
          (hparents (id, ent) (Std.TreeMap.mem_toList_iff_getElem?_eq_some.mpr hent) hpos)
      clear hrun
      induction hsweeps with
      | refl => exact Keeps.refl hhost.kept
      | tail _ hlast ih =>
          refine ih.trans ?_
          cases hlast with
          | quiet h => exact h.keeps ih.kept
          | ask id hfalse hrole h => cases hfalse
  | createEntity | networkTick | callRPC | setNetworkTickRate | elapse =>
      have htalks := (GameCall.talks (by trivial) hs.obeys.host
        (Policy.any_permits s (.hostCall stack hooks _)) hrun).1
      exact keeps_of_talks htalks hhost.kept hhost.role_eq

/-- What game code does on a client. -/
theorem peerCall_stays {stack : Nat} {hooks : Hooks} {call : GameCall} {p : Process}
    (hs : s.Orderly) (hc : c ∈ s.host.connected)
    (hdeletes : DeletesNothing (.peerCall c stack hooks call))
    (hparents : s.WithParents (.peerCall c stack hooks call))
    (hrun : call.run stack hooks (s.peer c) = (.ok (), p)) :
    Stays (Foreign s.host c) (s.peer c) p := by
  have hmember := hs.obeys.member c hc
  have htrusts := hs.trusts c hc
  cases call with
  | createNetworkedEntity info spawnInfo sound =>
      exact stays_of_moves (createNetworkedEntity_stays stack info sound)
        ⟨hmember.role_eq, hmember.ready.kept⟩ hrun
  | deleteEntity id => cases hdeletes
  | update =>
      refine stays_of_sweeps (update_sweeps hmember.ready.kept ?_ hrun) hmember.ready.kept
      intro id ent hent hpos horphan
      refine ⟨hmember.role_eq, hpos, ent.info, ?_, fun howner => ?_⟩
      · apply htrusts.agrees id hpos
        rw [htrusts.unmarked.live_eq_held hpos, Scenegraph.held, hent, Option.map_some]
      · exact hparents (id, ent) (Std.TreeMap.mem_toList_iff_getElem?_eq_some.mpr hent) hpos
          howner horphan
  | createEntity | networkTick | callRPC | setNetworkTickRate | elapse =>
      have htalks := (GameCall.talks (by trivial) hmember.ready
        (Policy.any_permits s (.peerCall c stack hooks _) hc) hrun).1
      exact stays_of_talks htalks hmember.ready.kept hmember.role_eq

/-- Requests: creations take no id that is in use, and deletions are refused. -/
theorem serve_keeps {stack : Nat} {hooks : Hooks} {p : Packet} {rest : List Packet} {h : Process}
    (hs : s.Orderly) (hparents : s.WithParents (.serve stack hooks)) (hqueue : s.queue = p :: rest)
    (hp : p.header.type ≠ .connected)
    (hrun : serverHandler stack hooks.script p s.host = (.ok (), h)) : Keeps s.host h := by
  have hhost := hs.obeys.hosting
  have hmem : p ∈ s.queue := hqueue ▸ List.mem_cons_self
  obtain ⟨harrived, _⟩ := hs.obeys.queue p hmem
  cases htype : p.header.type with
  | connected => exact absurd htype hp
  | entityCreation =>
      obtain ⟨info, spawnInfo, hm⟩ := creation_of_served htype hrun
      obtain ⟨_, _, _, hspawn⟩ := reads_of_creation htype hm
      rw [serverHandler_creation htype hm] at hrun
      have hunused : s.host.Unused stack info :=
        hparents p (by rw [hqueue]; rfl) info (by rw [wanted, hm]; rfl)
      have hsame : s.host.Unused stack { info with ownerID := p.info.senderID } := hunused
      exact createNetworkedEntity_keeps hhost (getPacket_sound hspawn) hsame hrun
  | entityUpdate =>
      exact keeps_of_talks (serverHandler_talks harrived (Or.inl htype) hhost.role_eq hs.obeys.host
        hrun).1 hhost.kept hhost.role_eq
  | entityRpc =>
      exact keeps_of_talks (serverHandler_talks harrived (Or.inr htype) hhost.role_eq hs.obeys.host
        hrun).1 hhost.kept hhost.role_eq
  | entityDeletion =>
      have hnone : s.host.ownerCheck p = none := by
        by_contra hsome
        obtain ⟨info, hcheck⟩ := Option.ne_none_iff_exists'.mp hsome
        obtain ⟨howner, _⟩ := ownerCheck_some hcheck
        rw [ownerCheck, htype] at hcheck
        dsimp only at hcheck
        split at hcheck
        · next id hid =>
          have hm : messageOf p = .ok (.deletion (Int32.ofBitVec id)) := by
            rcases hread : getScalar 4 p with ⟨r, q⟩
            rw [hread] at hid
            dsimp only at hid
            rw [hid] at hread
            rw [messageOf, htype, readMessage, Fallible.bind_ok hread]
            rfl
          obtain ⟨_, other, hlive, hother⟩ := hs.queue p hmem _ hm
          rw [Scenegraph.held_of_live hlive] at hcheck
          cases (Option.filter_eq_some_iff.mp hcheck).1
          exact hother howner
        · cases hcheck
      rw [deletion_refused htype hnone hrun]
      exact Keeps.refl hhost.kept
  | _ =>
      simp only [serverHandler, htype] at hrun
      cases hrun
      exact Keeps.refl hhost.kept

/-- Telling a new client of the entities deletes none. -/
theorem welcome_keeps {p : Packet} {h : Process} (hs : s.Orderly)
    (htold : Told p.info.senderID s.stored s.host h) : Keeps s.host h := by
  have hkept := hs.obeys.host.kept
  refine ⟨htold.frame, htold.scene_eq ▸ hkept, fun hun => htold.scene_eq ▸ hun,
    fun _ _ _ hsome => by rwa [htold.scene_eq], ?_⟩
  intro c hc
  by_cases heq : c = p.info.senderID
  · subst heq
    obtain ⟨ds, hds, hmap⟩ := htold.posted hc
    refine ⟨ds, hds, fun d hd m hm => ?_⟩
    have hpair := List.mem_map_of_mem
      (f := fun d : Datagram => (d.origin, messageOfData d.data)) hd
    rw [hmap] at hpair
    obtain ⟨info, hinfo, hsame⟩ := List.mem_map.mp hpair
    obtain ⟨_, hdata⟩ := Prod.mk.inj hsame
    rw [hm] at hdata
    cases hdata
    obtain ⟨id, ent, hent, rfl⟩ := mem_stored hinfo
    intro hpos
    rw [htold.scene_eq, hs.unmarked.live_eq_held hpos, Scenegraph.held,
      (hkept.stored id ent hent).1, hent, Option.map_some]
  · refine ⟨[], ?_, fun _ hd => absurd hd List.not_mem_nil⟩
    rw [htold.skipped c hc heq, List.append_nil]

/-- A client handles what it is told. -/
theorem Orderly.deliver {d : Datagram} {rest : List Datagram} {m : Message} {p : Process}
    (hs : s.Orderly) (hc : c ∈ s.host.connected) (hpending : s.host.pending c = d :: rest)
    (hm : messageOfData d.data = .ok m) (hhandled : Handled d.origin m (s.peer c) p)
    (hobeys : Obeys Policy.any { s.setPeer c p with host := s.host.dropNext c }) :
    Orderly { s.setPeer c p with host := s.host.dropNext c } ∧
      Lasts s { s.setPeer c p with host := s.host.dropNext c } := by
  have hmember := hs.obeys.member c hc
  have htrusts := hs.trusts c hc
  have hkept := hmember.ready.kept
  have hbears : s.host.Bears m := htrusts.told d (hpending ▸ List.mem_cons_self) m hm
  have hdeletion : ∀ id, m ≠ .deletion id := by
    rintro id rfl
    exact hbears
  have hlive : ∀ id, 0 < id → p.scene.live id =
      m.onHeld (s.peer c).scene.registry (s.peer c).scene.live id := by
    intro id hpos
    rw [hhandled.live_eq hkept id hpos, Message.onLive, if_neg (hdeletion id)]
  -- what the message creates is there at the server
  have hcreated : ∀ info, m.created (s.peer c).scene.registry = some info → 0 < info.ID →
      s.host.scene.live info.ID = some info := by
    intro info hcreated hpos
    cases m with
    | creation other spawnInfo =>
        rw [Message.created] at hcreated
        split at hcreated
        · cases hcreated
          exact hbears hpos
        · cases hcreated
    | restore other =>
        rw [Message.created] at hcreated
        split at hcreated
        · cases hcreated
          exact hbears hpos
        · cases hcreated
    | _ => cases hcreated
  have hwithin : ∀ id, 0 < id → ∀ info, p.scene.live id = some info →
      s.host.scene.live id = some info := by
    intro id hpos info hsome
    rw [hlive id hpos, Message.onHeld] at hsome
    split at hsome
    · next other hother =>
      split at hsome
      · next heq =>
        subst heq
        rw [hcreated other hother hpos, hsome]
      · exact htrusts.agrees id hpos info hsome
    · exact htrusts.agrees id hpos info hsome
  refine hs.of_peer rfl rfl (fun _ _ hd => mem_of_mem_dropNext hd)
    (fun q hq => Or.inl hq) ?_ hwithin
    ?_ ?_ hobeys
  · apply Scenegraph.unmarked_of_live
    intro id hpos
    rw [hlive id hpos, hhandled.held_eq hkept id hpos]
    exact Message.onHeld_congr (htrusts.unmarked.live_eq_held hpos)
  · intro id hpos info hsome
    rw [hlive id hpos, Message.onHeld]
    split
    · next other hother =>
      split
      · next heq =>
        subst heq
        rw [← hcreated other hother hpos]
        exact htrusts.agrees other.ID hpos info hsome
      · exact hsome
    · exact hsome
  · rw [Process.pending, hhandled.outbox_eq]
    exact htrusts.asks

/-- **One event.** -/
theorem Orderly.step (hs : s.Orderly) (hdeletes : DeletesNothing e) (hparents : s.WithParents e)
    (hstep : s.step e = some s') : s'.Orderly ∧ Lasts s s' := by
  have hobeys := (obeys_of_step hs.obeys hstep).1
  cases step_outcome hs.obeys (Policy.any_permits s e) hstep with
  | connect c sentAt receivedAt hc hzero hone => exact hs.connect hc hobeys
  | disconnect c sentAt receivedAt hc => cases hdeletes
  | send c data hc =>
      have htrusts := hs.trusts c hc
      refine hs.of_peer rfl rfl (fun _ _ hd => hd) (fun q hq => Or.inl hq) htrusts.unmarked
        htrusts.agrees (fun _ _ _ hsome => hsome) ?_ hobeys
      intro d hd id hm
      have hpost := pending_post (s.peer c) [1] { origin := c, data := data } 1
      rw [List.map_singleton] at hpost
      rw [hpost] at hd
      rcases List.mem_append.mp hd with hold | hself
      · exact htrusts.asks d hold id hm
      · cases List.mem_singleton.mp hself
        exact absurd hm (disposed_eq_none hdeletes id)
  | receive c receivedAt d rest p hc hpending hp =>
      have htrusts := hs.trusts c hc
      obtain ⟨_, _, hsender, hmessage⟩ := onClientDataReceived_ok hp
      refine hs.of_peer rfl rfl (fun _ _ hd => hd) ?_ htrusts.unmarked htrusts.agrees
        (fun _ _ _ hsome => hsome) (fun d hd => htrusts.asks d (mem_of_mem_dropNext hd)) hobeys
      intro q hq
      rcases List.mem_append.mp hq with hold | hself
      · exact Or.inl hold
      · cases List.mem_singleton.mp hself
        refine Or.inr fun id hm => ?_
        rw [hsender]
        exact htrusts.asks d (hpending ▸ List.mem_cons_self) id (hmessage ▸ hm)
  | serve stack hooks p rest h hqueue hp hrun hmoves =>
      exact hs.of_host (serve_keeps hs hparents hqueue hp hrun)
        (fun q hq => hqueue ▸ List.mem_cons_of_mem p hq) hobeys
  | welcome stack hooks p rest h hqueue hp hjoin hsnapshot htold =>
      exact hs.of_host (welcome_keeps hs htold) (fun q hq => hqueue ▸ List.mem_cons_of_mem p hq)
        hobeys
  | deliver c receivedAt d rest m p hc hpending hm hhandled =>
      exact hs.deliver hc hpending hm hhandled hobeys
  | hostCall stack hooks call h hrun hmoves =>
      exact hs.of_host (hostCall_keeps hs hdeletes hparents hrun) (fun q hq => hq) hobeys
  | peerCall c stack hooks call p hc hrun hmoves =>
      have htrusts := hs.trusts c hc
      have hstays := peerCall_stays hs hc hdeletes hparents hrun
      refine hs.of_peer rfl rfl (fun _ _ hd => hd) (fun q hq => Or.inl hq)
        (hstays.unmarked htrusts.unmarked) ?_ ?_ ?_ hobeys
      · intro id hpos info hsome
        exact htrusts.agrees id hpos info ((hstays.live id hpos).symm.trans hsome)
      · exact fun id hpos info hsome => (hstays.live id hpos).trans hsome
      · obtain ⟨ds, hds, hforeign⟩ := hstays.asked
        intro d hd id hm
        rw [hds] at hd
        rcases List.mem_append.mp hd with hold | hnew
        · exact htrusts.asks d hold id hm
        · exact hforeign d hnew id hm

end

/-! ## Runs -/

/-- A session starts in order. -/
theorem start_orderly (registry : Registry) : (start registry).Orderly where
  obeys := start_obeys registry
  unmarked := Scenegraph.unmarked_of_live fun _ _ => by
    simp [start, Scenegraph.live, Scenegraph.held]
  trusts _ hc := absurd hc List.not_mem_nil
  queue _ hp := absurd hp List.not_mem_nil

/-- What holds of each step holds of the run. -/
theorem Orderly.run {es : List Event} {s t : Session} (hs : s.Orderly)
    (hmeets : Runs.Meets Session.step (fun s e => DeletesNothing e ∧ s.WithParents e) s es)
    (hrun : Runs.run Session.step s es = some t) : t.Orderly ∧ Lasts s t := by
  have hone : ∀ (u : Session) (e : Event) (u' : Session), (u.Orderly ∧ Lasts s u) →
      (DeletesNothing e ∧ u.WithParents e) → u.step e = some u' → u'.Orderly ∧ Lasts s u' := by
    intro u e u' hu he hstep
    obtain ⟨hend, hlasts⟩ := hu.1.step he.1 he.2 hstep
    exact ⟨hend, hu.2.trans hlasts⟩
  exact Runs.run_invariant_of_meets hone hmeets hrun ⟨hs, Lasts.refl s⟩

/-- **Nothing is deleted.**  In a run in which nobody means to delete an entity or leaves,
networked entities last, if entities are updated together with their parents. -/
theorem nothing_deleted {registry : Registry} {es later : List Event} {s t : Session}
    (hmeets : Runs.Meets step (fun s e => DeletesNothing e ∧ s.WithParents e) (start registry)
      (es ++ later))
    (hrun : Runs.run step (start registry) es = some s) (hlater : Runs.run step s later = some t) :
    Lasts s t := by
  obtain ⟨hbefore, hafter⟩ := Runs.meets_append hrun hmeets
  have hs := ((start_orderly registry).run hbefore hrun).1
  exact (hs.run hafter hlater).2

/-- The host creates a family for client 2. -/
def given : List Event :=
  [.connect 2 0 0, .serve 5 .silent,
    .hostCall 5 .silent (.createNetworkedEntity (Sample.info 0 2) (ofHeader {}) Sample.child.sound)]

/-- The client updates when it has been told of the whole family. -/
theorem nothing_deleted_given : ∃ s t, Runs.run step (start Sample.family) given = some s ∧
    Runs.run step s [.deliver 2 0, .deliver 2 0, .peerCall 2 5 .silent .update] = some t ∧
    Lasts s t := by
  have hsome : (Runs.run step (start Sample.family) given).any (fun s => (Runs.run step s
      [.deliver 2 0, .deliver 2 0, .peerCall 2 5 .silent .update]).isSome) = true := by
    decide +kernel
  obtain ⟨s, hrun, hsome⟩ := (Option.any_eq_true _ _).mp hsome
  obtain ⟨t, hlater⟩ := Option.isSome_iff_exists.mp hsome
  have hmeets : Runs.Meets step (fun s e => DeletesNothing e ∧ s.WithParents e)
      (start Sample.family)
      (given ++ [.deliver 2 0, .deliver 2 0, .peerCall 2 5 .silent .update]) := by
    decide +kernel
  exact ⟨s, t, hrun, hlater, nothing_deleted hmeets hrun hlater⟩

/-- The client updates when it has been told of the child only. -/
def hasty : List Event :=
  [.deliver 2 0, .peerCall 2 5 .silent .update, .receive 2 0, .serve 5 .silent]

/-- **A child is deleted** that nobody has meant to delete. -/
theorem child_deleted : (∀ e ∈ given ++ hasty, DeletesNothing e) ∧
    ∃ s t, Runs.run step (start Sample.family) given = some s ∧ Runs.run step s hasty = some t ∧
      ¬ Lasts s t := by
  refine ⟨by decide +kernel, ?_⟩
  have hany : (Runs.run step (start Sample.family) given).any (fun s =>
      (Runs.run step s hasty).any fun t =>
        (s.host.scene.live 2).isSome ∧ t.host.scene.live 2 = none) = true := by decide +kernel
  obtain ⟨s, hrun, hany⟩ := (Option.any_eq_true _ _).mp hany
  obtain ⟨t, hlater, hany⟩ := (Option.any_eq_true _ _).mp hany
  obtain ⟨hbefore, hafter⟩ := of_decide_eq_true hany
  obtain ⟨info, hinfo⟩ := Option.isSome_iff_exists.mp hbefore
  refine ⟨s, t, hrun, hlater, fun hlasts => ?_⟩
  rw [hlasts.host 2 (by decide) info hinfo] at hafter
  cases hafter

end Session

end EnkiNet
