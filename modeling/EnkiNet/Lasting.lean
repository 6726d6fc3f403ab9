import EnkiNet.Convergence
import EnkiNet.EntityTrees

/-!
# Networked entities that last

What a listen server does besides deleting: `Keeps` says that every networked entity that
was live is live afterwards, with the same info, and that what has been posted to the
clients meanwhile agrees with that.  Local changes, updates, calls and snapshots keep the
entities (`Talk.keeps`, `Told.keeps`).  An announcement does so if its id is not in use,
and a call for a new entity if none of the ids that it takes is (`Unused`): its own, when
it names one, and those that the counter gives out for the entities below it.
-/

namespace EnkiNet

open ByteStore Packet

namespace Scenegraph

/-- What lives is held. -/
theorem held_of_live {g : Scenegraph} {id : EntityID} {info : EntityInfo}
    (h : g.live id = some info) : g.held id = some info := by
  rw [live] at h
  obtain ⟨ent, hent, hinfo⟩ := Option.bind_eq_some_iff.mp h
  split at hinfo
  · cases hinfo
  · rw [held, hent, Option.map_some, Option.some.inj hinfo]

/-- Where all that is held lives, nothing is marked. -/
theorem unmarked_of_live {g : Scenegraph} (h : ∀ id, 0 < id → g.live id = g.held id) :
    g.Unmarked := by
  intro entry hentry hpos
  have hent := Std.TreeMap.mem_toList_iff_getElem?_eq_some.mp hentry
  have hsame := h entry.1 hpos
  rw [live, held, hent] at hsame
  cases hremove : entry.2.remove with
  | false => rfl
  | true => simp [hremove] at hsame

end Scenegraph

namespace Message

/-- What is stored under an id depends on what was stored under it. -/
theorem onHeld_congr {r : Registry} {m : Message} {f g : EntityID → Option EntityInfo}
    {id : EntityID} (h : f id = g id) : m.onHeld r f id = m.onHeld r g id := by
  unfold onHeld
  split
  · rw [h]
  · exact h

/-- Talking creates and deletes nothing. -/
theorem Talks.onHeld_eq {m : Message} (hm : m.Talks) (r : Registry)
    (held : EntityID → Option EntityInfo) (id : EntityID) : m.onHeld r held id = held id := by
  cases m with
  | update info => rfl
  | rpc info => rfl
  | _ => cases hm

/-- A creation takes effect under its own id. -/
theorem onHeld_creation {r : Registry} {info : EntityInfo} (hcreatable : Process.Creatable r info)
    (spawnInfo : Packet) (held : EntityID → Option EntityInfo) (id : EntityID) :
    (creation info spawnInfo).onHeld r held id = if info.ID = id then some info else held id := by
  rw [onHeld, created, if_pos hcreatable]

end Message

namespace Process

/-- The message deletes nothing, and what it creates is there. -/
def Bears (s : Process) : Message → Prop
  | .creation info _ | .restore info => 0 < info.ID → s.scene.live info.ID = some info
  | .deletion _ => False
  | _ => True

/-- The networked entities stay, and whoever is told something is told of such. -/
structure Keeps (s s' : Process) : Prop where
  frame : Frame s s'
  kept : Kept s'.scene
  unmarked : s.scene.Unmarked → s'.scene.Unmarked
  live : ∀ id, 0 < id → ∀ info, s.scene.live id = some info → s'.scene.live id = some info
  posted : ∀ c ∈ s.connected, ∃ ds, s'.pending c = s.pending c ++ ds ∧
    ∀ d ∈ ds, ∀ m, messageOfData d.data = .ok m → s'.Bears m

section

variable {s t s' : Process}

/-- A process that has more entities bears no fewer messages. -/
theorem Bears.mono {m : Message} (h : s.Bears m)
    (hlive : ∀ id, 0 < id → ∀ info, s.scene.live id = some info → s'.scene.live id = some info) :
    s'.Bears m := by
  cases m with
  | creation info spawnInfo => exact fun hpos => hlive info.ID hpos info (h hpos)
  | restore info => exact fun hpos => hlive info.ID hpos info (h hpos)
  | deletion id => exact h
  | _ => trivial

/-- Talking needs no entity to be there. -/
theorem bears_of_talks {m : Message} (hm : m.Talks) (s : Process) : s.Bears m := by
  cases m with
  | update info => trivial
  | rpc info => trivial
  | _ => cases hm

theorem Keeps.refl (hs : Kept s.scene) : Keeps s s :=
  ⟨Frame.refl s, hs, fun h => h, fun _ _ _ h => h, fun _ _ => ⟨[], (List.append_nil _).symm,
    fun _ hd => absurd hd List.not_mem_nil⟩⟩

/-- What two stretches keep is kept over both. -/
theorem Keeps.trans (h : Keeps s t) (h' : Keeps t s') : Keeps s s' := by
  refine ⟨h.frame.trans h'.frame, h'.kept, fun hun => h'.unmarked (h.unmarked hun), ?_, ?_⟩
  · exact fun id hpos info hlive => h'.live id hpos info (h.live id hpos info hlive)
  · intro c hc
    obtain ⟨ds, hds, hbears⟩ := h.posted c hc
    obtain ⟨es, hes, hbears'⟩ := h'.posted c (h.frame.connected_eq.symm ▸ hc)
    refine ⟨ds ++ es, by rw [hes, hds, List.append_assoc], ?_⟩
    intro d hd m hm
    rcases List.mem_append.mp hd with hold | hnew
    · exact (hbears d hold m hm).mono h'.live
    · exact hbears' d hnew m hm

/-! ## What keeps the entities -/

/-- A quiet step deletes nothing. -/
theorem Quiet.keeps {π : Policy} (h : Quiet π s s') (hs : Kept s.scene) : Keeps s s' := by
  refine ⟨h.frame, h.kept hs, ?_, ?_, ?_⟩
  · intro hun
    apply Scenegraph.unmarked_of_live
    intro id hpos
    have hlive := h.live_eq hs id hpos
    rcases h.held_eq hs id hpos with hsame | hnone
    · rw [hlive, hsame, hun.live_eq_held hpos]
    · rw [hnone]
      cases hsome : s'.scene.live id with
      | none => rfl
      | some info =>
          rw [Scenegraph.held_of_live hsome] at hnone
          cases hnone
  · exact fun id hpos info hlive => (h.live_eq hs id hpos).trans hlive
  · intro c _
    refine ⟨[], ?_, fun _ hd => absurd hd List.not_mem_nil⟩
    rw [List.append_nil, pending, h.outbox_eq, pending]

/-- A broadcast that keeps the entities at the server and tells of nothing else. -/
theorem Broadcast.keeps {origin : ClientID} {who : ClientID → Prop} {m : Message}
    (h : Broadcast origin who m s s') (hs : Kept s.scene) (hdeletion : ∀ id, m ≠ .deletion id)
    (hlive : ∀ id, 0 < id → ∀ info, s.scene.live id = some info →
      m.onHeld s.scene.registry s.scene.live id = some info) (hbears : s'.Bears m) :
    Keeps s s' := by
  have hcast := h
  have hscene : (s'.scene.Unmarked ∨ ¬ s.scene.Unmarked) ∧ ∀ id, 0 < id → ∀ info,
      s.scene.live id = some info → s'.scene.live id = some info := by
    obtain ⟨t, hsent, ⟨_, _, hhandled⟩ | ⟨_, rfl⟩⟩ := hcast
    · have hkept : Kept t.scene := hsent.scene_eq ▸ hs
      have hafter : ∀ id, 0 < id →
          s'.scene.live id = m.onHeld s.scene.registry s.scene.live id := by
        intro id hpos
        rw [hhandled.live_eq hkept id hpos, Message.onLive, if_neg (hdeletion id), hsent.scene_eq]
      refine ⟨?_, fun id hpos info hsome => (hafter id hpos).trans (hlive id hpos info hsome)⟩
      rw [or_iff_not_imp_right, not_not]
      intro hun
      apply Scenegraph.unmarked_of_live
      intro id hpos
      rw [hafter id hpos, hhandled.held_eq hkept id hpos, hsent.scene_eq]
      exact Message.onHeld_congr (hun.live_eq_held hpos)
    · rw [hsent.scene_eq]
      exact ⟨em _, fun _ _ _ hsome => hsome⟩
  refine ⟨h.frame, h.kept hs, fun hun => hscene.1.resolve_right (not_not_intro hun), hscene.2, ?_⟩
  intro c hc
  rcases h.pending hc with ⟨_, hsame⟩ | ⟨_, d, _, hdata, hpost⟩
  · exact ⟨[], by rw [hsame, List.append_nil], fun _ hd => absurd hd List.not_mem_nil⟩
  · refine ⟨[d], hpost, ?_⟩
    intro d' hd' m' hm'
    rw [List.mem_singleton.mp hd', hdata] at hm'
    cases hm'
    exact hbears

/-- Talking deletes nothing. -/
theorem Talk.keeps {π : Policy} (h : Talk π s s') (hs : Kept s.scene) (hrole : s.role = .host) :
    Keeps s s' := by
  cases h with
  | quiet h => exact h.keeps hs
  | relay origin who m hhost hm htells h =>
      refine h.keeps hs hm.ne_deletion ?_ (bears_of_talks hm s')
      intro id _ info hsome
      rw [hm.onHeld_eq, hsome]
  | request m hclient hm hasks h =>
      rw [hrole] at hclient
      cases hclient

/-- Neither does any amount of it. -/
theorem keeps_of_talks {π : Policy} (h : Relation.ReflTransGen (Talk π) s s') (hs : Kept s.scene)
    (hrole : s.role = .host) : Keeps s s' := by
  induction h with
  | refl => exact Keeps.refl hs
  | tail _ hlast ih => exact ih.trans (hlast.keeps ih.kept (ih.frame.role_eq.trans hrole))

/-! ## Creating networked entities -/

/-- The networked entities of a run stay, `n` ids are taken from the counter, and what is
new is stored under these ids or under those for which `P` holds. -/
structure Fills (P : EntityID → Prop) (n : Nat) (s s' : Process) : Prop where
  keeps : Keeps s s'
  counter : s'.scene.ID.toInt = s.scene.ID.toInt + n
  within : ∀ id, 0 < id → s.scene.held id = none → s'.scene.held id ≠ none →
    P id ∨ s.scene.ID.toInt ≤ id.toInt ∧ id.toInt < s.scene.ID.toInt + n

/-- The next `n` ids of the counter are not in use. -/
def Room (n : Nat) (s : Process) : Prop :=
  ∀ id : EntityID, s.scene.ID.toInt ≤ id.toInt → id.toInt < s.scene.ID.toInt + n →
    s.scene.held id = none

/-- Ids that are filled one stretch after the other. -/
theorem Fills.trans {P Q : EntityID → Prop} {n k : Nat} (h : Fills P n s t) (h' : Fills Q k t s') :
    Fills (fun id => P id ∨ Q id) (n + k) s s' := by
  refine ⟨h.keeps.trans h'.keeps, ?_, ?_⟩
  · rw [h'.counter, h.counter]
    omega
  · intro id hpos hnone hsome
    by_cases hmid : t.scene.held id = none
    · rcases h'.within id hpos hmid hsome with hQ | ⟨hlow, hhigh⟩
      · exact Or.inl (Or.inr hQ)
      · rw [h.counter] at hlow hhigh
        exact Or.inr ⟨by omega, by omega⟩
    · rcases h.within id hpos hnone hmid with hP | ⟨hlow, hhigh⟩
      · exact Or.inl (Or.inl hP)
      · exact Or.inr ⟨hlow, by omega⟩

theorem Fills.mono {P Q : EntityID → Prop} {n : Nat} (h : Fills P n s s')
    (hmono : ∀ id, P id → Q id) :
    Fills Q n s s' :=
  ⟨h.keeps, h.counter, fun id hpos hnone hsome => (h.within id hpos hnone hsome).imp_left
    (hmono id)⟩

/-- What is to be taken later is still not in use. -/
theorem Fills.room {n k : Nat} (h : Fills (fun _ => False) n s t) (hs : Kept s.scene)
    (hroom : Room (n + k) s) : Room k t := by
  intro id hlow hhigh
  rw [h.counter] at hlow hhigh
  by_contra hsome
  have hpos : 0 < id := by
    have := Int32.lt_iff_toInt_lt.mp hs.ID_pos
    rw [Int32.lt_iff_toInt_lt]
    change (0 : Int) < _ at this
    change (0 : Int) < _
    omega
  rcases h.within id hpos (hroom id (by omega) (by omega)) hsome with hfalse | ⟨_, hbelow⟩
  · exact hfalse
  · omega

/-- **An entity is announced** under an id that is not in use. -/
theorem sendCreation_fills {info : EntityInfo} {spawnInfo : Packet} (hs : Hosting s)
    (hsound : spawnInfo.Sound) (hcreatable : Creatable s.scene.registry info)
    (hfree : 0 < info.ID → s.scene.held info.ID = none)
    (h : sendCreation info spawnInfo s = (.ok (), s')) : Fills (fun id => id = info.ID) 0 s s' := by
  obtain ⟨sent, hID, hsent, hcreation⟩ := sendCreation_ok hsound h
  have hcreatable' : Creatable s.scene.registry sent := hsent _ hcreatable
  have hcast : ∃ origin, Broadcast origin (fun _ => true)
      (.creation sent (received spawnInfo.bytes))
      { s with effects := s.effects ++ [.announce sent (s.scene.held sent.ID)] } s' := by
    cases hcreation with
    | offline hready => exact absurd hs.networkReady hready
    | request hready hrole hmeans hsend =>
        rw [hs.role_eq] at hrole
        cases hrole
    | announce hready hrole hmeans hsend =>
        exact ⟨_, sendPacketToAllClients_ok (by exact hs.nodup) hmeans hsend⟩
  obtain ⟨_, hcast⟩ := hcast
  have hkeeping := hcast
  obtain ⟨t, hposted, ⟨_, _, hhandled⟩ | ⟨hnone, _⟩⟩ := hcast
  · have hscene : t.scene = s.scene := hposted.scene_eq
    have hkept : Kept t.scene := hscene ▸ hs.kept
    have hheld : ∀ id, 0 < id →
        s'.scene.held id = if sent.ID = id then some sent else s.scene.held id := by
      intro id hpos
      rw [hhandled.held_eq hkept id hpos, hscene, Message.onHeld_creation hcreatable']
    have hlive : ∀ id, 0 < id →
        s'.scene.live id = if sent.ID = id then some sent else s.scene.live id := by
      intro id hpos
      rw [hhandled.live_eq hkept id hpos, hscene, Message.onLive, if_neg (by simp),
        Message.onHeld_creation hcreatable']
    refine ⟨?_, ?_, ?_⟩
    · have hkeeps := hkeeping.keeps hs.kept (by simp) ?_ ?_
      · exact ⟨⟨hkeeps.frame.role_eq, hkeeps.frame.id_eq, hkeeps.frame.connected_eq,
          hkeeps.frame.registry_eq, hkeeps.frame.ready_eq⟩, hkeeps.kept, hkeeps.unmarked,
          hkeeps.live, hkeeps.posted⟩
      · intro id hpos other hsome
        rw [Message.onHeld_creation hcreatable', if_neg, hsome]
        intro heq
        have hsome' := Scenegraph.held_of_live hsome
        rw [← heq, hID] at hsome' hpos
        rw [hfree hpos] at hsome'
        cases hsome'
      · intro hpos
        rw [hlive sent.ID hpos, if_pos rfl]
    · rw [hhandled.counter_eq, hscene, Int.natCast_zero, Int.add_zero]
    · intro id hpos hnone hsome
      rw [hheld id hpos] at hsome
      split at hsome
      · next heq => exact Or.inl (heq.symm.trans hID)
      · exact absurd hnone hsome
  · exact absurd ⟨hs.role_eq, rfl⟩ hnone

end

/-! ### How many ids a call takes -/

instance (r : Registry) (child : ChildEntityCreationInfo) : Decidable (Usable r child) :=
  inferInstanceAs (Decidable (Creatable _ _))

/-- The number of ids for these child types and those below them; `stack` is the room for
nested calls. -/
def numbered (r : Registry) : (stack : Nat) → List ChildEntityCreationInfo → Nat
  | 0, _ => 0
  | stack + 1, children =>
      (children.map fun child =>
        if Usable r child then numbered r stack (r.childTypes child.type) + 1 else 0).sum

theorem numbered_cons (r : Registry) (stack : Nat) (child : ChildEntityCreationInfo)
    (children : List ChildEntityCreationInfo) :
    numbered r (stack + 1) (child :: children) =
      (if Usable r child then numbered r stack (r.childTypes child.type) + 1 else 0) +
        numbered r (stack + 1) children := by
  rw [numbered, List.map_cons, List.sum_cons, numbered]

section

variable {r : Registry} {stack : Nat} {s s' : Process}

/-- A process that hosts, before any of the entities is created. -/
structure Filling (r : Registry) (n : Nat) (s : Process) : Prop where
  hosting : Hosting s
  registry_eq : s.scene.registry = r
  room : Room n s

/-- The ids that are left can still be filled. -/
theorem Filling.next {n k : Nat} {t : Process} (hs : Filling r (n + k) s)
    (h : Fills (fun _ => False) n s t) : Filling r k t :=
  ⟨hs.hosting.of_frame h.keeps.frame h.keeps.kept,
    h.keeps.frame.registry_eq.trans hs.registry_eq, h.room hs.hosting.kept hs.room⟩

/-- The loop over child types, if the recursive call does what it should. -/
theorem createAll_fills {owner : ClientID} {parent : EntityID}
    {children : List ChildEntityCreationInfo}
    (hcall : ∀ (child : ChildEntityCreationInfo) (t t' : Process),
      Filling r (if Usable r child then numbered r stack (r.childTypes child.type) + 1 else 0) t →
      createNetworkedEntity (stack + 1) (child.entity 0 owner parent) child.spawnInfo t =
        (.ok (), t') →
      Fills (fun _ => False)
        (if Usable r child then numbered r stack (r.childTypes child.type) + 1 else 0) t t')
    (hs : Filling r (numbered r (stack + 1) children) s)
    (h : createAll (stack + 1) owner parent children s = (.ok (), s')) :
    Fills (fun _ => False) (numbered r (stack + 1) children) s s' := by
  induction children generalizing s with
  | nil =>
      cases h
      exact ⟨Keeps.refl hs.hosting.kept, (Int.add_zero _).symm, fun _ _ hnone hsome =>
        absurd hnone hsome⟩
  | cons child children ih =>
      obtain ⟨_, t, hone, hrest⟩ := Fallible.bind_eq_ok h
      rw [numbered_cons] at hs ⊢
      have hfirst := hcall child s t
        ⟨hs.hosting, hs.registry_eq, fun id hlow hhigh => hs.room id hlow (by omega)⟩ hone
      exact (hfirst.trans (ih (hs.next hfirst) hrest)).mono fun _ h => h.elim (fun h => h)
        fun h => h

/-- An entity and those below it, under an id that has been taken or chosen. -/
theorem createFamily_fills (info : EntityInfo) {spawnInfo : Packet}
    (hall : ∀ (owner : ClientID) (parent : EntityID) (children : List ChildEntityCreationInfo)
      (t t' : Process), Filling r (numbered r stack children) t →
      createAll stack owner parent children t = (.ok (), t') →
      Fills (fun _ => False) (numbered r stack children) t t')
    (hs : Filling r (numbered r stack (r.childTypes info.type)) s) (hsound : spawnInfo.Sound)
    (hcreatable : Creatable r info)
    (hfree : 0 < info.ID → s.scene.held info.ID = none ∧ ¬ (s.scene.ID.toInt ≤ info.ID.toInt ∧
      info.ID.toInt < s.scene.ID.toInt + numbered r stack (r.childTypes info.type)))
    (h : createFamily (createNetworkedEntity stack) info spawnInfo s = (.ok (), s')) :
    Fills (fun id => id = info.ID) (numbered r stack (r.childTypes info.type)) s s' := by
  rw [createFamily, Fallible.bind_get, hs.registry_eq] at h
  obtain ⟨_, t, hchildren, hlast⟩ := Fallible.bind_eq_ok h
  have hbelow := hall info.ownerID info.ID _ s t hs hchildren
  have ht := hs.hosting.of_frame hbelow.keeps.frame hbelow.keeps.kept
  have hcreatable' : Creatable t.scene.registry info := by
    rw [hbelow.keeps.frame.registry_eq, hs.registry_eq]
    exact hcreatable
  have hself := sendCreation_fills ht hsound hcreatable' ?_ hlast
  · exact (hbelow.trans hself).mono fun _ h => h.elim False.elim fun h => h
  · intro hpos
    by_contra hsome
    obtain ⟨hnone, hout⟩ := hfree hpos
    exact (hbelow.within info.ID hpos hnone hsome).elim (fun h => h) hout

/-- A call for an entity that is numbered. -/
theorem createNew_fills {info : EntityInfo} {spawnInfo : Packet}
    (hall : ∀ (owner : ClientID) (parent : EntityID) (children : List ChildEntityCreationInfo)
      (t t' : Process), Filling r (numbered r stack children) t →
      createAll stack owner parent children t = (.ok (), t') →
      Fills (fun _ => False) (numbered r stack children) t t')
    (hs : Filling r (numbered r stack (r.childTypes info.type) + 1) s) (hsound : spawnInfo.Sound)
    (hcreatable : Creatable r info) (hnew : info.ID = 0)
    (h : createNetworkedEntity (stack + 1) info spawnInfo s = (.ok (), s')) :
    Fills (fun _ => False) (numbered r stack (r.childTypes info.type) + 1) s s' := by
  have hcan : ¬ (¬ info.Named ∨ s.scene.registry.builders info.type = none) := by
    rw [hs.registry_eq, not_or, not_not]
    exact ⟨hcreatable.1, Option.isSome_iff_ne_none.mp hcreatable.2⟩
  have hserver : s.role ≠ .client ∧ info.ID = 0 := by
    rw [hs.hosting.role_eq]
    exact ⟨by simp, hnew⟩
  rw [createNetworkedEntity, Fallible.bind_get, if_neg hcan, if_pos hserver] at h
  obtain ⟨id, t, hid, h⟩ := Fallible.bind_eq_ok h
  obtain ⟨hmax, rfl, rfl⟩ := nextID_ok hid
  have hadd := toInt_add_one hmax
  have hn := hosting_numbered hs.hosting hmax
  -- the id of the entity comes before those of the entities below it
  have hroom : Filling r (numbered r stack (r.childTypes info.type))
      { s with scene := { s.scene with ID := s.scene.ID + 1 } } := by
    refine ⟨hn, hs.registry_eq, fun id hlow hhigh => hs.room id ?_ ?_⟩
    · change (s.scene.ID + 1).toInt ≤ _ at hlow
      omega
    · change _ < (s.scene.ID + 1).toInt + _ at hhigh
      omega
  have hself : Creatable r { info with ID := s.scene.ID } := hcreatable
  have hown : s.scene.held s.scene.ID = none := hs.room s.scene.ID (Int.le_refl _) (by omega)
  have hfamily : Fills (fun id => id = s.scene.ID) (numbered r stack (r.childTypes info.type))
      { s with scene := { s.scene with ID := s.scene.ID + 1 } } s' := by
    refine createFamily_fills { info with ID := s.scene.ID } hall hroom hsound hself
      (fun _ => ⟨hown, fun hin => ?_⟩) h
    have hlow : (s.scene.ID + 1).toInt ≤ s.scene.ID.toInt := hin.1
    omega
  have hframe := hfamily.keeps.frame
  refine ⟨⟨⟨hframe.role_eq, hframe.id_eq, hframe.connected_eq, hframe.registry_eq,
    hframe.ready_eq⟩, hfamily.keeps.kept, hfamily.keeps.unmarked, hfamily.keeps.live,
    hfamily.keeps.posted⟩, ?_, ?_⟩
  · rw [hfamily.counter]
    dsimp only
    omega
  · intro id hpos hnone hsome
    refine Or.inr ?_
    rcases hfamily.within id hpos hnone hsome with rfl | ⟨hlow, hhigh⟩
    · exact ⟨Int.le_refl _, by omega⟩
    · dsimp only at hlow hhigh
      exact ⟨by omega, by omega⟩

/-- **The loop takes ids from the counter only**, by induction on the room for nested
calls. -/
theorem createAll_fills_all (stack : Nat) (owner : ClientID) (parent : EntityID)
    (children : List ChildEntityCreationInfo) (s s' : Process)
    (hs : Filling r (numbered r stack children) s)
    (h : createAll stack owner parent children s = (.ok (), s')) :
    Fills (fun _ => False) (numbered r stack children) s s' := by
  induction stack generalizing owner parent children s s' with
  | zero =>
      cases children with
      | nil =>
          cases h
          exact ⟨Keeps.refl hs.hosting.kept, (Int.add_zero _).symm, fun _ _ hnone hsome =>
            absurd hnone hsome⟩
      | cons child children =>
          obtain ⟨_, _, hone, _⟩ := Fallible.bind_eq_ok h
          cases hone
  | succ stack ih =>
      refine createAll_fills ?_ hs h
      intro child t t' ht hone
      by_cases husable : Usable r child
      · rw [if_pos husable] at ht ⊢
        have hself : Creatable r (child.entity 0 owner parent) := husable
        exact createNew_fills ih ht child.sound hself rfl hone
      · rw [if_neg husable]
        have hrefused : ¬ (child.entity 0 owner parent).Named ∨
            t.scene.registry.builders (child.entity 0 owner parent).type = none := by
          rw [ht.registry_eq, ← Option.not_isSome_iff_eq_none]
          exact not_and_or.mp husable
        rw [createNetworkedEntity, Fallible.bind_get, if_pos hrefused] at hone
        cases hone
        exact ⟨Keeps.refl ht.hosting.kept, (Int.add_zero _).symm, fun _ _ hnone hsome =>
          absurd hnone hsome⟩

end

/-! ### Calls -/

/-- How many ids a call takes from the counter. -/
def taken (r : Registry) (stack : Nat) (info : EntityInfo) : Nat :=
  numbered r (stack - 1) (r.childTypes info.type) + if info.ID = 0 then 1 else 0

/-- The call takes this id. -/
def Takes (s : Process) (stack : Nat) (info : EntityInfo) (id : EntityID) : Prop :=
  Creatable s.scene.registry info ∧ (info.ID ≠ 0 ∧ id = info.ID ∨
    s.scene.ID.toInt ≤ id.toInt ∧ id.toInt < s.scene.ID.toInt + taken s.scene.registry stack info)

instance (s : Process) (stack : Nat) (info : EntityInfo) (id : EntityID) :
    Decidable (s.Takes stack info id) :=
  inferInstanceAs (Decidable (_ ∧ (_ ∨ _ ∧ _)))

/-- The call takes no id of a stored networked entity, and none twice. -/
def Unused (s : Process) (stack : Nat) (info : EntityInfo) : Prop :=
  (∀ entry ∈ s.scene.entities.toList, 0 < entry.1 → ¬ s.Takes stack info entry.1) ∧
    ¬ (0 < info.ID ∧ s.scene.ID.toInt ≤ info.ID.toInt ∧
      info.ID.toInt < s.scene.ID.toInt + taken s.scene.registry stack info)

instance (s : Process) (stack : Nat) (info : EntityInfo) : Decidable (s.Unused stack info) :=
  inferInstanceAs (Decidable ((∀ entry ∈ _, _) ∧ ¬ (_ ∧ _)))

/-- An id that is going to be used is free. -/
theorem Unused.held_eq {s : Process} {stack : Nat} {info : EntityInfo} (h : s.Unused stack info)
    {id : EntityID} (hpos : 0 < id) (htakes : s.Takes stack info id) : s.scene.held id = none := by
  rw [Scenegraph.held]
  cases hent : s.scene.entities[id]? with
  | none => rfl
  | some ent =>
      have hmem : (id, ent) ∈ s.scene.entities.toList :=
        Std.TreeMap.mem_toList_iff_getElem?_eq_some.mpr hent
      exact absurd htakes (h.1 (id, ent) hmem hpos)

/-- **A call for a new entity keeps all others**, if it takes no id that is in use. -/
theorem createNetworkedEntity_keeps {s s' : Process} {stack : Nat} {info : EntityInfo}
    {spawnInfo : Packet} (hs : Hosting s) (hsound : spawnInfo.Sound) (hunused : s.Unused stack info)
    (h : createNetworkedEntity stack info spawnInfo s = (.ok (), s')) : Keeps s s' := by
  cases stack with
  | zero => cases h
  | succ stack =>
      by_cases hcreatable : Creatable s.scene.registry info
      · have hroom : Room (taken s.scene.registry (stack + 1) info) s := by
          intro id hlow hhigh
          have hpos : 0 < id := by
            have hcounter := Int32.lt_iff_toInt_lt.mp hs.kept.ID_pos
            rw [Int32.lt_iff_toInt_lt]
            change (0 : Int) < _ at hcounter
            change (0 : Int) < _
            omega
          exact hunused.held_eq hpos ⟨hcreatable, Or.inr ⟨hlow, hhigh⟩⟩
        by_cases hnew : info.ID = 0
        · have htaken : taken s.scene.registry (stack + 1) info =
              numbered s.scene.registry stack (s.scene.registry.childTypes info.type) + 1 := by
            rw [taken, if_pos hnew]
            rfl
          rw [htaken] at hroom
          exact (createNew_fills (createAll_fills_all stack) ⟨hs, rfl, hroom⟩ hsound hcreatable
            hnew h).keeps
        · have htaken : taken s.scene.registry (stack + 1) info =
              numbered s.scene.registry stack (s.scene.registry.childTypes info.type) := by
            rw [taken, if_neg hnew]
            rfl
          have hcan : ¬ (¬ info.Named ∨ s.scene.registry.builders info.type = none) := by
            rw [not_or, not_not]
            exact ⟨hcreatable.1, Option.isSome_iff_ne_none.mp hcreatable.2⟩
          rw [createNetworkedEntity, Fallible.bind_get, if_neg hcan,
            if_neg fun hboth => hnew hboth.2] at h
          rw [htaken] at hroom
          have hfamily := createFamily_fills info (createAll_fills_all stack) ⟨hs, rfl, hroom⟩
            hsound hcreatable ?_ h
          · exact hfamily.keeps
          · intro hpos
            refine ⟨hunused.held_eq hpos ⟨hcreatable, Or.inl ⟨hnew, rfl⟩⟩, fun hin => ?_⟩
            rw [← htaken] at hin
            exact hunused.2 ⟨hpos, hin⟩
      · have hrefused : ¬ info.Named ∨ s.scene.registry.builders info.type = none := by
          rw [← Option.not_isSome_iff_eq_none]
          exact not_and_or.mp hcreatable
        rw [createNetworkedEntity, Fallible.bind_get, if_pos hrefused] at h
        cases h
        exact Keeps.refl hs.kept

end Process

end EnkiNet
