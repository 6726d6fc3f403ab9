import EnkiNet.Ancestry
import EnkiNet.Announcements
import EnkiNet.Costs
import EnkiNet.Orphans

/-!
# Deleting a tree

`Scenegraph::deleteEntity` marks one entity.  `Scenegraph::update` erases what is marked, after it
has deleted the entities whose parent is not there, so every update takes one generation of
descendants with it.  A listen server marks a networked entity by way of a broadcast and its own
client's handler, in the middle of the loop over the map.

`deleteEntity_ends` says once what a deletion does, in every role, and `update_ends` what an update
does that way; `cascade_exact` is what comes of a deletion and any number of updates.
-/

namespace EnkiNet

open ByteStore Packet
open Fallible (Returns)

namespace Process

/-! ## One deletion -/

/-- The packet of a deletion is written, can be sent and says what it is for. -/
theorem deletion_written (id : EntityID) :
    ∃ w, putScalar (k := 4) id.toBitVec (ofHeader { type := .entityDeletion }) = (.ok (), w) ∧
      Says w (.deletion id) ∧ w.header.type = .entityDeletion ∧
      ∀ t, ∃ data, (stamped t w).wire = .ok data := by
  obtain ⟨w, hrun, hw, hext, _⟩ := mirrors_scalar (k := 4) id.toBitVec _
    (wellWritten_ofHeader { type := .entityDeletion })
  have howned : Packet.Owned w := by
    have hstores := (stores_serialize (scalarBytes (k := 4) id.toBitVec)
      (ofHeader { type := .entityDeletion }) (Nat.le_refl _) trivial).2.2
    have hrun' : serialize (some (scalarBytes (k := 4) id.toBitVec))
        (ofHeader { type := .entityDeletion }) = (.ok (), w) := hrun
    rwa [hrun'] at hstores
  refine ⟨w, hrun, says_deletion hrun, congrArg PacketHeader.type hext.header_eq, fun t => ?_⟩
  obtain ⟨data, hwire, _, _⟩ := (Copies.refl hw howned).wire hw t
  exact ⟨data, hwire⟩

/-- A deletion that arrives marks the entity that it names. -/
theorem clientHandler_deletion {origin : ClientID} {p : Packet} {id : EntityID} {s : Process}
    (htype : p.header.type = .entityDeletion) (hm : messageOf p = .ok (.deletion id))
    (hexists : s.scene.entityExists id) :
    clientHandler origin p s = (.ok (), { s with scene := s.scene.flag id }) := by
  obtain ⟨bits, q, hread, hid⟩ := (messageOf_deletion_iff htype).mp hm
  cases hid
  simp only [clientHandler, htype]
  rw [bind_onPacket hread]
  dsimp only
  rw [Fallible.bind_get, if_pos hexists]
  rfl

/-- The deletions of these entities have been broadcast, in this order: each of them has been
handed to the transport once for every connected client, and nothing else has been handed to
it. -/
structure DeletionsSent (ids : List EntityID) (s s' : Process) : Prop where
  log : ∃ ps, s'.broadcasts = s.broadcasts ++ ps ∧
    ps.map said = ids.map fun id => .ok (.deletion id)
  posted : ∃ ds : List Datagram,
    s'.outbox = s.outbox ++ ds.flatMap (fun d => s.connected.map fun c => (c, d)) ∧
    ds.map (fun d => (d.origin, messageOfData d.data)) =
      ids.map fun id => (s.ownID, .ok (.deletion id))

section
variable {ids more : List EntityID} {s t s' : Process}

/-- Where nothing is sent no deletion is. -/
theorem DeletionsSent.none (hlog : s'.broadcasts = s.broadcasts) (hposted : s'.outbox = s.outbox) :
    DeletionsSent [] s s' :=
  ⟨⟨[], by rw [hlog, List.append_nil], rfl⟩, [], by rw [hposted, List.flatMap_nil, List.append_nil],
    rfl⟩

/-- Deletions are sent one stretch after the other, in order. -/
theorem DeletionsSent.trans (h : DeletionsSent ids s t) (hframe : Frame s t)
    (h' : DeletionsSent more t s') : DeletionsSent (ids ++ more) s s' where
  log := by
    obtain ⟨ps, hps, hsaid⟩ := h.log
    obtain ⟨qs, hqs, hsaid'⟩ := h'.log
    refine ⟨ps ++ qs, ?_, ?_⟩
    · rw [hqs, hps, List.append_assoc]
    · rw [List.map_append, hsaid, hsaid', List.map_append]
  posted := by
    obtain ⟨ds, hds, hsaid⟩ := h.posted
    obtain ⟨es, hes, hsaid'⟩ := h'.posted
    have hown : t.ownID = s.ownID := by rw [ownID, ownID, hframe.role_eq, hframe.id_eq]
    refine ⟨ds ++ es, ?_, ?_⟩
    · rw [hes, hds, hframe.connected_eq, List.flatMap_append, List.append_assoc]
    · rw [List.map_append, hsaid, hsaid', hown, List.map_append]

/-- What goes to everyone goes to each of them. -/
theorem DeletionsSent.pending (h : DeletionsSent ids s s') (hnodup : s.connected.Nodup)
    {c : ClientID} (hc : c ∈ s.connected) :
    ∃ ds, s'.pending c = s.pending c ++ ds ∧
      ds.map (fun d => (d.origin, messageOfData d.data)) =
        ids.map fun id => (s.ownID, .ok (.deletion id)) := by
  obtain ⟨ds, hds, hsaid⟩ := h.posted
  refine ⟨ds, ?_, hsaid⟩
  rw [Process.pending, hds, List.filterMap_append]
  refine congrArg (s.pending c ++ ·) ?_
  clear hds hsaid
  induction ds with
  | nil => rfl
  | cons d ds ih =>
      have hone := pending_post { s with outbox := [] } s.connected d c
      rw [List.count_eq_one_of_mem hnodup hc] at hone
      rw [List.flatMap_cons, List.filterMap_append, ih]
      exact congrArg (· ++ ds) hone

end

/-- What the deletion of a stored entity has done. -/
structure Deleted (id : EntityID) (ent : Entity) (s s' : Process) : Prop where
  frame : Frame s s'
  scene_eq : s'.scene =
    if ent.info.ID < 0 ∨ s.scene.networkReady ∧ s.role = .host then s.scene.flag id else s.scene
  sent : ent.info.ID < 0 ∨ s.role ≠ .client →
    DeletionsSent (if ent.info.ID < 0 ∨ ¬ s.scene.networkReady then [] else [id]) s s'

/-- `deleteEntity` marks an entity of the table and tells everybody. -/
theorem deleteEntity_ends {id : EntityID} {ent : Entity} {s : Process}
    (hent : s.scene.entities[id]? = some ent) :
    ∃ s', deleteEntity id s = (.ok (), s') ∧ Deleted id ent s s' := by
  have hexists : s.scene.entityExists id := by
    rw [Scenegraph.entityExists, Std.TreeMap.contains_eq_isSome_getElem?, hent]
    rfl
  rw [deleteEntity, Fallible.bind_get, hent]
  dsimp only
  by_cases hlocal : ent.info.ID < 0
  · rw [if_pos hlocal]
    refine ⟨_, rfl, ⟨⟨rfl, rfl, rfl, rfl, rfl⟩, ?_, fun _ => ?_⟩⟩
    · rw [if_pos (Or.inl hlocal)]
    · rw [if_pos (Or.inl hlocal)]
      exact DeletionsSent.none rfl rfl
  rw [if_neg hlocal]
  by_cases hready : s.scene.networkReady
  · obtain ⟨w, hrun, hmeans, htype, hwire⟩ := deletion_written id
    obtain ⟨data, hdata⟩ := hwire s.now
    rw [if_pos hready, bind_onPacket hrun]
    dsimp only
    by_cases hclient : s.role = .client
    · rw [if_pos hclient]
      have hsend : sendToServer w s = (.ok (stamped s.now w), s.handedOver [1]
          { origin := s.id, data := data }) := by
        rw [sendToServer, Fallible.bind_get, bind_stamp, bind_wireBytes hdata]
        rfl
      refine ⟨s.handedOver [1] { origin := s.id, data := data }, ?_, ⟨rfl, rfl, rfl, rfl, rfl⟩, ?_,
        fun hsender => ?_⟩
      · rw [Fallible.bind_ok hsend]
        rfl
      · have hnothost : s.role ≠ .host := by
          rw [hclient]
          exact Role.noConfusion
        rw [if_neg fun h => h.elim hlocal fun h => hnothost h.2]
        rfl
      · exact absurd hclient (hsender.resolve_left hlocal)
    · have hall : (s.connected.filter fun _ => true) = s.connected :=
        List.filter_eq_self.mpr fun _ _ => rfl
      have hsent : ∀ scene, DeletionsSent [id] s { s.handedOver s.connected
          { origin := s.ownID, data := data } with
          broadcasts := s.broadcasts ++ [stamped s.now w], scene := scene } := by
        refine fun scene =>
          ⟨⟨[stamped s.now w], rfl, ?_⟩, [{ origin := s.ownID, data := data }], ?_, ?_⟩
        · rw [List.map_singleton, said, (hmeans s.now).1]
          rfl
        · rw [List.flatMap_singleton]
          rfl
        · rw [List.map_singleton, (hmeans s.now).2 data hdata]
          rfl
      have hone : (if ent.info.ID < 0 ∨ ¬ s.scene.networkReady then [] else [id]) = [id] :=
        if_neg fun h => h.elim hlocal fun h => h hready
      rw [if_neg hclient, sendPacketToAllClients_eq s.ownID hdata, hall]
      by_cases hhost : s.role = .host
      · have hm : messageOf (emittedToClient s.now w) = .ok (.deletion id) := by
          rw [emittedToClient, messageOf_info, (hmeans s.now).1]
        rw [if_pos hhost]
        refine ⟨_, clientHandler_deletion htype hm hexists, ⟨rfl, rfl, rfl, rfl, rfl⟩, ?_,
          fun _ => ?_⟩
        · rw [if_pos (Or.inr ⟨hready, hhost⟩)]
          rfl
        · rw [hone]
          exact hsent _
      · rw [if_neg hhost]
        refine ⟨_, rfl, ⟨rfl, rfl, rfl, rfl, rfl⟩, ?_, fun _ => ?_⟩
        · rw [if_neg fun h => h.elim hlocal fun h => hhost h.2]
          rfl
        · rw [hone]
          exact hsent _
  · rw [if_neg hready]
    refine ⟨s, rfl, Frame.refl s, ?_, fun _ => ?_⟩
    · rw [if_neg fun h => h.elim hlocal fun h => hready h.1]
    · rw [if_pos (Or.inr hready)]
      exact DeletionsSent.none rfl rfl

/-! ## Many deletions -/

/-- Entities are stored under their own ids, and whatever is deleted is marked: it is local, or the
process has a server and a client, and networking has been enabled. -/
structure Deletes (s : Process) : Prop where
  own : ∀ (id : EntityID) (ent : Entity), s.scene.entities[id]? = some ent → ent.info.ID = id
  marks : (∀ (id : EntityID) (ent : Entity), s.scene.entities[id]? = some ent → id < 0) ∨
    s.role = .host ∧ s.scene.networkReady

/-- These entities have been marked, and the networked ones among them announced, in this
order. -/
structure Marked (ids : List EntityID) (s s' : Process) : Prop where
  frame : Frame s s'
  entities_eq : ∀ id : EntityID, s'.scene.entities[id]? =
    (s.scene.entities[id]?).map fun ent => if id ∈ ids then { ent with remove := true } else ent
  sent : DeletionsSent (ids.filter fun id => 0 ≤ id) s s'

section
variable {ids more : List EntityID} {s t s' : Process}

theorem Marked.refl (s : Process) : Marked [] s s where
  frame := Frame.refl s
  entities_eq id := by
    cases s.scene.entities[id]? with
    | none => rfl
    | some ent => rfl
  sent := DeletionsSent.none rfl rfl

/-- Marks add up. -/
theorem Marked.trans (h : Marked ids s t) (h' : Marked more t s') : Marked (ids ++ more) s s' where
  frame := h.frame.trans h'.frame
  entities_eq id := by
    rw [h'.entities_eq, h.entities_eq]
    cases s.scene.entities[id]? with
    | none => rfl
    | some ent =>
        by_cases hid : id ∈ ids
        · simp [hid]
        · by_cases hmore : id ∈ more
          · simp [hid, hmore]
          · simp [hid, hmore]
  sent := by
    rw [List.filter_append]
    exact h.sent.trans h.frame h'.sent

/-- Marking moves no entity. -/
theorem Marked.held_eq (h : Marked ids s s') (id : EntityID) :
    s'.scene.held id = s.scene.held id := by
  rw [Scenegraph.held, Scenegraph.held, h.entities_eq, Option.map_map]
  cases s.scene.entities[id]? with
  | none => rfl
  | some ent =>
      refine congrArg some ?_
      change (if id ∈ ids then { ent with remove := true } else ent).info = ent.info
      split
      · rfl
      · rfl

/-- An entity that is stored afterwards was stored before. -/
theorem stored_of_marked (h : Marked ids s s') {id : EntityID} {ent : Entity}
    (hent : s'.scene.entities[id]? = some ent) :
    ∃ before, s.scene.entities[id]? = some before ∧ ent.info = before.info := by
  have hheld : s.scene.held id = some ent.info := by
    rw [← h.held_eq, Scenegraph.held, hent]
    rfl
  obtain ⟨before, hbefore, hinfo⟩ := Option.map_eq_some_iff.mp hheld
  exact ⟨before, hbefore, hinfo.symm⟩

/-- A table with marks can still be cleared up. -/
theorem Deletes.of_marked (hs : Deletes s) (h : Marked ids s s') : Deletes s' where
  own id ent hent := by
    obtain ⟨before, hbefore, hinfo⟩ := stored_of_marked h hent
    rw [hinfo]
    exact hs.own id before hbefore
  marks := by
    rcases hs.marks with hlocal | ⟨hhost, hready⟩
    · refine Or.inl fun id ent hent => ?_
      obtain ⟨before, hbefore, _⟩ := stored_of_marked h hent
      exact hlocal id before hbefore
    · exact Or.inr ⟨h.frame.role_eq.trans hhost, h.frame.ready_eq.trans hready⟩

/-- One call of `deleteEntity` is one mark. -/
theorem deleteEntity_marks (hs : Deletes s) {id : EntityID}
    (hexists : s.scene.entityExists id) :
    ∃ s', deleteEntity id s = (.ok (), s') ∧ Marked [id] s s' := by
  rw [Scenegraph.entityExists, Std.TreeMap.contains_eq_isSome_getElem?] at hexists
  obtain ⟨ent, hent⟩ := Option.isSome_iff_exists.mp hexists
  obtain ⟨s', hrun, hdeleted⟩ := deleteEntity_ends hent
  have hid : ent.info.ID = id := hs.own id ent hent
  have hscene := hdeleted.scene_eq
  have hsender : ent.info.ID < 0 ∨ s.role ≠ .client := by
    rcases hs.marks with hlocal | ⟨hhost, _⟩
    · exact Or.inl (hid ▸ hlocal id ent hent)
    · refine Or.inr ?_
      rw [hhost]
      exact Role.noConfusion
  have hsent := hdeleted.sent hsender
  rw [hid] at hsent hscene
  have hflag : s'.scene = s.scene.flag id := by
    rw [hscene]
    rcases hs.marks with hlocal | ⟨hhost, hready⟩
    · exact if_pos (Or.inl (hlocal id ent hent))
    · exact if_pos (Or.inr ⟨hready, hhost⟩)
  refine ⟨s', hrun, hdeleted.frame, fun other => ?_, ?_⟩
  · rw [hflag, Scenegraph.getElem?_flag]
    by_cases hother : id = other
    · subst hother
      rw [if_pos rfl, hent]
      simp
    · have hnot : other ∉ [id] := fun h => hother (List.mem_singleton.mp h).symm
      rw [if_neg hother]
      simp only [if_neg hnot, Option.map_id']
  · by_cases hneg : id < 0
    · rw [if_pos (Or.inl hneg)] at hsent
      rwa [List.filter_cons_of_neg (by simpa using hneg)]
    · have hready : ¬ (id < 0 ∨ ¬ s.scene.networkReady) := by
        rcases hs.marks with hlocal | ⟨_, hready⟩
        · exact absurd (hlocal id ent hent) hneg
        · exact fun h => h.elim hneg fun h => h hready
      rw [if_neg hready] at hsent
      rwa [List.filter_cons_of_pos (by simpa using Int32.not_lt.mp hneg)]

/-- **The loop**, by induction on the entities that are left.  Marks make no orphans, so it does
not matter in which order the entities come. -/
theorem orphans_marked {entries : List (EntityID × Entity)} (hs : Deletes s)
    (hentries : ∀ entry ∈ entries, s.scene.held entry.1 = some entry.2.info) :
    ∃ s', Fallible.forEach entries (fun (_, ent) => do
        let s ← Fallible.get
        if ent.info.parentID = 0 ∨ s.scene.entityExists ent.info.parentID then return ()
        else deleteEntity ent.info.ID) s = (.ok (), s') ∧
      Marked ((entries.filter fun entry => s.Orphan entry.2.info).map Prod.fst) s s' := by
  induction entries generalizing s with
  | nil => exact ⟨s, rfl, Marked.refl s⟩
  | cons entry rest ih =>
      have hheld := hentries entry List.mem_cons_self
      have hrest : ∀ other ∈ rest, s.scene.held other.1 = some other.2.info := fun other hother =>
        hentries other (List.mem_cons_of_mem entry hother)
      have hid : entry.2.info.ID = entry.1 := by
        obtain ⟨ent, hent, hinfo⟩ := Option.map_eq_some_iff.mp hheld
        rw [← hinfo]
        exact hs.own entry.1 ent hent
      rw [Fallible.forEach]
      by_cases horphan : s.Orphan entry.2.info
      · have hexists : s.scene.entityExists entry.1 := by
          rw [entityExists_iff, hheld]
          rfl
        obtain ⟨t, hdelete, hmarked⟩ := deleteEntity_marks hs hexists
        obtain ⟨s', hloop, hlater⟩ := ih (hs.of_marked hmarked) fun other hother =>
          (hmarked.held_eq other.1).trans (hrest other hother)
        have hsame : (rest.filter fun other => t.Orphan other.2.info) =
            rest.filter fun other => s.Orphan other.2.info :=
          List.filter_congr fun other _ => by
            simp only [orphan_congr hmarked.held_eq]
        have hone : (do
            let s ← Fallible.get
            if entry.2.info.parentID = 0 ∨ s.scene.entityExists entry.2.info.parentID then return ()
            else deleteEntity entry.2.info.ID : ProcessM Unit) s = (.ok (), t) := by
          rw [Fallible.bind_get, if_neg (not_or.mpr horphan), hid]
          exact hdelete
        rw [hsame] at hlater
        rw [List.filter_cons_of_pos (by simpa using horphan), List.map_cons]
        refine ⟨s', ?_, hmarked.trans hlater⟩
        rw [Fallible.bind_ok hone]
        exact hloop
      · obtain ⟨s', hloop, hlater⟩ := ih hs hrest
        have hone : (do
            let s ← Fallible.get
            if entry.2.info.parentID = 0 ∨ s.scene.entityExists entry.2.info.parentID then return ()
            else deleteEntity entry.2.info.ID : ProcessM Unit) s = (.ok (), s) := by
          rw [Fallible.bind_get, if_pos (by rwa [Orphan, not_and_or, not_not, not_not] at horphan)]
          rfl
        rw [List.filter_cons_of_neg (by simpa using horphan)]
        refine ⟨s', ?_, hlater⟩
        rw [Fallible.bind_ok hone]
        exact hloop

/-! ## One update -/

/-- What an update has done: the orphans `ids` have been deleted, and what is marked is gone. -/
structure Updated (ids : List EntityID) (s s' : Process) : Prop where
  frame : Frame s s'
  nodup : ids.Nodup
  orphans : ∀ id, id ∈ ids ↔ ∃ ent, s.scene.entities[id]? = some ent ∧ s.Orphan ent.info
  entities_eq : ∀ id : EntityID, s'.scene.entities[id]? =
    (s.scene.entities[id]?).filter fun ent : Entity => !ent.remove && !decide (s.Orphan ent.info)
  sent : DeletionsSent (ids.filter fun id => 0 ≤ id) s s'

/-- `Scenegraph::update` comes to its end. -/
theorem update_ends (hs : Deletes s) :
    ∃ ids s', update s = (.ok (), s') ∧ Updated ids s s' := by
  have hentries : ∀ entry ∈ s.scene.entities.toList, s.scene.held entry.1 = some entry.2.info := by
    intro entry hentry
    rw [Scenegraph.held, Std.TreeMap.mem_toList_iff_getElem?_eq_some.mp hentry]
    rfl
  obtain ⟨t, hloop, hmarked⟩ := orphans_marked hs hentries
  have horphans : ∀ id, id ∈ ((s.scene.entities.toList.filter fun entry =>
      s.Orphan entry.2.info).map Prod.fst) ↔
      ∃ ent, s.scene.entities[id]? = some ent ∧ s.Orphan ent.info := by
    intro id
    rw [List.mem_map]
    constructor
    · intro h
      obtain ⟨entry, hentry, rfl⟩ := h
      obtain ⟨hmem, horphan⟩ := List.mem_filter.mp hentry
      exact ⟨entry.2, Std.TreeMap.mem_toList_iff_getElem?_eq_some.mp hmem, by simpa using horphan⟩
    · intro h
      obtain ⟨ent, hent, horphan⟩ := h
      exact ⟨(id, ent), List.mem_filter.mpr
        ⟨Std.TreeMap.mem_toList_iff_getElem?_eq_some.mpr hent, by simpa using horphan⟩, rfl⟩
  refine ⟨_, { t with scene := t.scene.eraseFlagged }, ?_, ⟨hmarked.frame.role_eq,
    hmarked.frame.id_eq, hmarked.frame.connected_eq, hmarked.frame.registry_eq,
    hmarked.frame.ready_eq⟩, ?_, horphans, ?_, hmarked.sent.log, hmarked.sent.posted⟩
  · rw [update, Fallible.bind_get, Fallible.bind_ok hloop]
    rfl
  · rw [List.Nodup, List.pairwise_map]
    refine (Std.TreeMap.distinct_keys_toList.filter _).imp fun hne heq => hne ?_
    rw [heq]
    exact Std.ReflCmp.compare_self
  · intro id
    change t.scene.eraseFlagged.entities[id]? = _
    rw [Scenegraph.getElem?_eraseFlagged, hmarked.entities_eq]
    cases hent : s.scene.entities[id]? with
    | none => rfl
    | some ent =>
        by_cases horphan : s.Orphan ent.info
        · have hmem := (horphans id).mpr ⟨ent, hent, horphan⟩
          rw [Option.map_some, if_pos hmem, Option.filter_some, Option.filter_some]
          simp [horphan]
        · have hnot : id ∉ (s.scene.entities.toList.filter fun entry =>
              s.Orphan entry.2.info).map Prod.fst := by
            intro hmem
            obtain ⟨other, hother, hit⟩ := (horphans id).mp hmem
            rw [hent] at hother
            cases hother
            exact horphan hit
          rw [Option.map_some, if_neg hnot, Option.filter_some, Option.filter_some]
          simp [horphan]

/-! ## Many updates -/

end

/-- That many calls of `Scenegraph::update`. -/
def updates : Nat → ProcessM Unit
  | 0 => return ()
  | k + 1 => do
      updates k
      update

end Process

/-- The parent of a stored entity that has one. -/
def Scenegraph.parentOf (g : Scenegraph) (id : EntityID) : Option EntityID :=
  (g.entities[id]?).bind fun ent => if ent.info.parentID = 0 then none else some ent.info.parentID

namespace Process

/-- The entities of `s` that are left are those in `A`, and the networked ones that have gone have
been announced, each of them once. -/
structure Reduced (A : Set EntityID) (s t : Process) : Prop where
  frame : Frame s t
  left : ∀ id ∈ A, t.scene.entities[id]? = s.scene.entities[id]?
  gone : ∀ id, id ∉ A → t.scene.entities[id]? = none
  sent : ∃ ids : List EntityID, ids.Nodup ∧ (∀ id, id ∈ ids ↔ s.scene.entityExists id ∧ id ∉ A) ∧
    DeletionsSent (ids.filter fun id => 0 ≤ id) s t

section
variable {A : Set EntityID} {s t : Process} {e : EntityID}

/-- The entities of a scenegraph, by their ids. -/
def stored (s : Process) : Set EntityID := {id | s.scene.entityExists id}

theorem mem_stored {id : EntityID} : id ∈ s.stored ↔ ∃ ent, s.scene.entities[id]? = some ent := by
  change s.scene.entityExists id = true ↔ _
  rw [Scenegraph.entityExists, Std.TreeMap.contains_eq_isSome_getElem?, Option.isSome_iff_exists]

/-- The parent of an entity is the one in its info, unless that is 0. -/
theorem parentOf_eq_some {g : Scenegraph} {id parent : EntityID} {ent : Entity}
    (hent : g.entities[id]? = some ent) :
    g.parentOf id = some parent ↔ ent.info.parentID ≠ 0 ∧ ent.info.parentID = parent := by
  rw [Scenegraph.parentOf, hent, Option.bind_some]
  by_cases hnone : ent.info.parentID = 0
  · rw [if_pos hnone]
    exact iff_of_false (fun h => by cases h) fun h => h.1 hnone
  · rw [if_neg hnone, Option.some_inj, and_iff_right hnone]

/-- What is left is what was to be left. -/
theorem Reduced.exists_iff (h : Reduced A s t) (hsub : A ⊆ s.stored) (id : EntityID) :
    t.scene.entityExists id ↔ id ∈ A := by
  rw [Scenegraph.entityExists, Std.TreeMap.contains_eq_isSome_getElem?]
  by_cases hid : id ∈ A
  · obtain ⟨ent, hent⟩ := mem_stored.mp (hsub hid)
    rw [h.left id hid, hent]
    exact iff_of_true rfl hid
  · rw [h.gone id hid]
    exact iff_of_false Bool.false_ne_true hid

/-- An entity that is left is an orphan if a sweep drops it. -/
theorem Reduced.orphan_iff (h : Reduced A s t) (hsub : A ⊆ s.stored) {id : EntityID} {ent : Entity}
    (hid : id ∈ A) (hent : s.scene.entities[id]? = some ent) :
    t.Orphan ent.info ↔ id ∉ Ancestry.sweep s.scene.parentOf A := by
  rw [Orphan, h.exists_iff hsub]
  constructor
  · intro horphan hsweep
    exact horphan.2 (hsweep.2 _ ((parentOf_eq_some hent).mpr ⟨horphan.1, rfl⟩))
  · intro hout
    by_contra hnot
    refine hout ⟨hid, fun parent hparent => ?_⟩
    obtain ⟨hnone, rfl⟩ := (parentOf_eq_some hent).mp hparent
    by_contra hgone
    exact hnot ⟨hnone, hgone⟩

/-- A reduced table can be reduced further. -/
theorem Reduced.deletes (h : Reduced A s t) (hs : Deletes s) : Deletes t := by
  have hbefore : ∀ (id : EntityID) (ent : Entity), t.scene.entities[id]? = some ent →
      s.scene.entities[id]? = some ent := by
    intro id ent hent
    by_cases hid : id ∈ A
    · exact (h.left id hid).symm.trans hent
    · rw [h.gone id hid] at hent
      cases hent
  refine ⟨fun id ent hent => hs.own id ent (hbefore id ent hent), ?_⟩
  rcases hs.marks with hlocal | ⟨hhost, hready⟩
  · exact Or.inl fun id ent hent => hlocal id ent (hbefore id ent hent)
  · exact Or.inr ⟨h.frame.role_eq.trans hhost, h.frame.ready_eq.trans hready⟩

/-- **One more update takes the next generation.** -/
theorem Reduced.update (hs : Deletes s)
    (hunmarked : ∀ (id : EntityID) (ent : Entity), s.scene.entities[id]? = some ent →
      ent.remove = false) (h : Reduced A s t) (hsub : A ⊆ s.stored) :
    ∃ t', update t = (.ok (), t') ∧ Reduced (Ancestry.sweep s.scene.parentOf A) s t' := by
  obtain ⟨ids, t', hrun, hupdated⟩ := update_ends (h.deletes hs)
  have hstays : ∀ id ∈ A, ∀ ent, s.scene.entities[id]? = some ent →
      t'.scene.entities[id]? = if t.Orphan ent.info then none else some ent := by
    intro id hid ent hent
    rw [hupdated.entities_eq, h.left id hid, hent, Option.filter_some, hunmarked id ent hent]
    by_cases horphan : t.Orphan ent.info
    · simp [horphan]
    · simp [horphan]
  have hids : ∀ id, id ∈ ids ↔ id ∈ A ∧ id ∉ Ancestry.sweep s.scene.parentOf A := by
    intro id
    rw [hupdated.orphans]
    constructor
    · intro horphan
      obtain ⟨ent, hent, horphan⟩ := horphan
      have hin : id ∈ A := by
        by_contra hout
        rw [h.gone id hout] at hent
        cases hent
      rw [h.left id hin] at hent
      exact ⟨hin, (h.orphan_iff hsub hin hent).mp horphan⟩
    · intro hid
      obtain ⟨ent, hent⟩ := mem_stored.mp (hsub hid.1)
      exact ⟨ent, (h.left id hid.1).trans hent, (h.orphan_iff hsub hid.1 hent).mpr hid.2⟩
  refine ⟨t', hrun, h.frame.trans hupdated.frame, ?_, ?_, ?_⟩
  · intro id hid
    obtain ⟨ent, hent⟩ := mem_stored.mp (hsub hid.1)
    rw [hstays id hid.1 ent hent, if_neg fun horphan =>
      (h.orphan_iff hsub hid.1 hent).mp horphan hid,
      hent]
  · intro id hid
    by_cases hin : id ∈ A
    · obtain ⟨ent, hent⟩ := mem_stored.mp (hsub hin)
      rw [hstays id hin ent hent, if_pos ((h.orphan_iff hsub hin hent).mpr hid)]
    · rw [hupdated.entities_eq, h.gone id hin]
      rfl
  · obtain ⟨before, hnodup, hbefore, hsent⟩ := h.sent
    refine ⟨before ++ ids, ?_, ?_, ?_⟩
    · refine List.Nodup.append hnodup hupdated.nodup fun id hold hnew => ?_
      exact ((hbefore id).mp hold).2 ((hids id).mp hnew).1
    · intro id
      rw [List.mem_append, hbefore, hids]
      constructor
      · intro hid
        rcases hid with ⟨hstored, hout⟩ | ⟨hin, hout⟩
        · exact ⟨hstored, fun hsweep => hout hsweep.1⟩
        · exact ⟨hsub hin, hout⟩
      · intro hid
        by_cases hin : id ∈ A
        · exact Or.inr ⟨hin, hid.2⟩
        · exact Or.inl ⟨hid.1, hin⟩
    · rw [List.filter_append]
      exact hsent.trans h.frame hupdated.sent

/-- The first update takes the entity that has been deleted. -/
theorem reduced_first (hs : Deletes s)
    (hunmarked : ∀ (id : EntityID) (ent : Entity), s.scene.entities[id]? = some ent →
      ent.remove = false) (hclosed : Ancestry.Closed s.scene.parentOf s.stored)
    (he : s.scene.entityExists e) :
    ∃ t t', deleteEntity e s = (.ok (), t) ∧ Process.update t = (.ok (), t') ∧
      Reduced (s.stored \ {e}) s t' := by
  obtain ⟨t, hdelete, hmarked⟩ := deleteEntity_marks hs he
  obtain ⟨ids, t', hrun, hupdated⟩ := update_ends (hs.of_marked hmarked)
  have hnone : ∀ (id : EntityID) (ent : Entity), s.scene.entities[id]? = some ent →
      ¬ t.Orphan ent.info := by
    intro id ent hent horphan
    obtain ⟨hparent, hgone⟩ := (orphan_congr hmarked.held_eq ent.info).mp horphan
    exact hgone (hclosed id (mem_stored.mpr ⟨ent, hent⟩) _
      ((parentOf_eq_some hent).mpr ⟨hparent, rfl⟩))
  have hids : ids = [] := by
    refine List.eq_nil_iff_forall_not_mem.mpr fun id hid => ?_
    obtain ⟨ent, hent, horphan⟩ := (hupdated.orphans id).mp hid
    obtain ⟨before, hbefore, hinfo⟩ := stored_of_marked hmarked hent
    exact hnone id before hbefore (hinfo ▸ horphan)
  have hentry : ∀ (id : EntityID) (ent : Entity), s.scene.entities[id]? = some ent →
      t'.scene.entities[id]? = if id = e then none else some ent := by
    intro id ent hent
    rw [hupdated.entities_eq, hmarked.entities_eq, hent, Option.map_some, Option.filter_some]
    by_cases heq : id = e
    · simp [heq]
    · simp [heq, hunmarked id ent hent, hnone id ent hent]
  refine ⟨t, t', hdelete, hrun, hmarked.frame.trans hupdated.frame, ?_, ?_, ?_⟩
  · intro id hid
    obtain ⟨ent, hent⟩ := mem_stored.mp hid.1
    have hne : id ≠ e := hid.2
    rw [hentry id ent hent, if_neg hne, hent]
  · intro id hid
    cases hent : s.scene.entities[id]? with
    | none =>
        rw [hupdated.entities_eq, hmarked.entities_eq, hent]
        rfl
    | some ent =>
        have heq : id = e := by
          by_contra hne
          exact hid ⟨mem_stored.mpr ⟨ent, hent⟩, hne⟩
        rw [hentry id ent hent, if_pos heq]
  · have hsent := hmarked.sent.trans hmarked.frame hupdated.sent
    rw [hids, List.filter_nil, List.append_nil] at hsent
    refine ⟨[e], List.nodup_singleton e, fun id => ?_, hsent⟩
    rw [List.mem_singleton]
    constructor
    · intro heq
      subst heq
      exact ⟨he, fun hid => hid.2 rfl⟩
    · intro hid
      by_contra hne
      exact hid.2 ⟨hid.1, hne⟩

/-! ## A deletion and the updates that follow -/

/-- What has come of the deletion of `e` after updates that take `k` generations with it: exactly
what descends from `e` in at most `k` steps has gone.  The networked entities that have gone have
been announced, each of them once: these deletions are what has been broadcast, all that has been
handed to the transport, and what each connected client is to get. -/
structure Cascaded (e : EntityID) (k : Nat) (s s' : Process) : Prop where
  gone : ∀ id, Ancestry.Within s.scene.parentOf e k id → s'.scene.entities[id]? = none
  kept : ∀ id, ¬ Ancestry.Within s.scene.parentOf e k id →
    s'.scene.entities[id]? = s.scene.entities[id]?
  announced : ∃ ids : List EntityID, ids.Nodup ∧
    (∀ id, id ∈ ids ↔ 0 ≤ id ∧ s.scene.entityExists id ∧ ¬ s'.scene.entityExists id) ∧
    DeletionsSent ids s s' ∧
    (s.connected.Nodup → ∀ c ∈ s.connected, ∃ ds, s'.pending c = s.pending c ++ ds ∧
      ds.map (fun d => (d.origin, messageOfData d.data)) =
        ids.map fun id => (s.ownID, .ok (.deletion id)))

/-- No line of descendants of `e` is longer than this. -/
def HeightLe (g : Scenegraph) (e : EntityID) (height : Nat) : Prop :=
  ∀ id, g.entityExists id → Ancestry.Descends g.parentOf e id →
    Ancestry.Within g.parentOf e height id

/-- There are finitely many entities. -/
theorem finite_stored (s : Process) : s.stored.Finite := by
  refine (List.finite_toSet (s.scene.entities.toList.map Prod.fst)).subset fun id hid => ?_
  obtain ⟨ent, hent⟩ := mem_stored.mp hid
  exact List.mem_map.mpr ⟨(id, ent), Std.TreeMap.mem_toList_iff_getElem?_eq_some.mpr hent, rfl⟩

/-- Every entity has a height, since there are finitely many. -/
theorem exists_height (s : Process) (e : EntityID) : ∃ height, HeightLe s.scene e height :=
  Ancestry.exists_height s.finite_stored e

/-- **By induction on the updates.** -/
theorem reduced_updates (hs : Deletes s)
    (hunmarked : ∀ (id : EntityID) (ent : Entity), s.scene.entities[id]? = some ent →
      ent.remove = false) (hclosed : Ancestry.Closed s.scene.parentOf s.stored)
    (he : s.scene.entityExists e) (k : Nat) :
    ∃ s', (do deleteEntity e; updates (k + 1)) s = (.ok (), s') ∧
      Reduced {id | id ∈ s.stored ∧ ¬ Ancestry.Within s.scene.parentOf e k id} s s' := by
  obtain ⟨t, hdelete, hrun⟩ : ∃ t, deleteEntity e s = (.ok (), t) ∧
      ∃ s', updates (k + 1) t = (.ok (), s') ∧
        Reduced ((Ancestry.sweep s.scene.parentOf)^[k] (s.stored \ {e})) s s' := by
    obtain ⟨t, t', hdelete, hupdate, hreduced⟩ := reduced_first hs hunmarked hclosed he
    refine ⟨t, hdelete, ?_⟩
    induction k with
    | zero => exact ⟨t', hupdate, hreduced⟩
    | succ k ih =>
        obtain ⟨u, hupdates, hreduced⟩ := ih
        have hsub : (Ancestry.sweep s.scene.parentOf)^[k] (s.stored \ {e}) ⊆ s.stored := by
          rw [Ancestry.sweep_iterate hclosed]
          exact fun id hid => hid.1
        obtain ⟨s', hlast, hreduced⟩ := hreduced.update hs hunmarked hsub
        rw [Function.iterate_succ_apply']
        exact ⟨s', (Fallible.bind_ok hupdates _).trans hlast, hreduced⟩
  obtain ⟨s', hupdates, hreduced⟩ := hrun
  rw [Ancestry.sweep_iterate hclosed] at hreduced
  exact ⟨s', (Fallible.bind_ok hdelete _).trans hupdates, hreduced⟩

/-- **Cascading deletion is exact.** -/
theorem cascade_exact (hs : Deletes s)
    (hunmarked : ∀ (id : EntityID) (ent : Entity), s.scene.entities[id]? = some ent →
      ent.remove = false)
    (hparents : ∀ (id : EntityID) (ent : Entity), s.scene.entities[id]? = some ent →
      ent.info.parentID = 0 ∨ s.scene.entityExists ent.info.parentID)
    (he : s.scene.entityExists e) (k : Nat) :
    ∃ s', (do deleteEntity e; updates (k + 1)) s = (.ok (), s') ∧ Cascaded e k s s' ∧
      (∃ height, HeightLe s.scene e height) ∧
      ∀ height, HeightLe s.scene e height → height ≤ k → ∀ id, s.scene.entityExists id →
        (¬ s'.scene.entityExists id ↔ Ancestry.Descends s.scene.parentOf e id) := by
  have hclosed : Ancestry.Closed s.scene.parentOf s.stored := by
    intro id hid parent hparent
    obtain ⟨ent, hent⟩ := mem_stored.mp hid
    obtain ⟨hnone, rfl⟩ := (parentOf_eq_some hent).mp hparent
    exact (hparents id ent hent).resolve_left hnone
  obtain ⟨s', hrun, hreduced⟩ := reduced_updates hs hunmarked hclosed he k
  have hexists : ∀ id, s'.scene.entityExists id ↔
      id ∈ s.stored ∧ ¬ Ancestry.Within s.scene.parentOf e k id :=
    hreduced.exists_iff fun id hid => hid.1
  refine ⟨s', hrun, ⟨?_, ?_, ?_⟩, s.exists_height e, ?_⟩
  · intro id hwithin
    exact hreduced.gone id fun hid => hid.2 hwithin
  · intro id hwithin
    by_cases hstored : id ∈ s.stored
    · exact hreduced.left id ⟨hstored, hwithin⟩
    · rw [hreduced.gone id fun hid => hstored hid.1]
      refine (Option.eq_none_iff_forall_not_mem.mpr fun ent hent => ?_).symm
      exact hstored (mem_stored.mpr ⟨ent, hent⟩)
  · obtain ⟨ids, hnodup, hids, hsent⟩ := hreduced.sent
    refine ⟨ids.filter fun id => 0 ≤ id, hnodup.filter _, fun id => ?_, hsent,
      fun hdistinct c hc => hsent.pending hdistinct hc⟩
    rw [List.mem_filter, hids, hexists, decide_eq_true_iff]
    exact and_comm
  · intro height hheight hle id hid
    rw [hexists, not_and, not_not]
    constructor
    · intro hwithin
      exact ⟨k, hwithin hid⟩
    · intro hdescends _
      exact (hheight id hid hdescends).mono hle

end

end Process

/-! ## A small tree -/

namespace Sample

/-- An entity of the sample class with this parent. -/
def childOf (id parent : EntityID) : Entity :=
  { info := { type := letter 65, name := letter 66, ID := id, ownerID := 1, parentID := parent } }

/-- A host with a local entity, and three networked ones in a line, and with client 2. -/
def lineage : Process where
  role := .host
  id := 1
  connected := [2]
  scene := ((((({ networkReady := true } : Scenegraph).setEntity 1 (childOf 1 0)).setEntity 2
    (childOf 2 1)).setEntity 3 (childOf 3 2)).setEntity (-1) (childOf (-1) 1))

end Sample

namespace Process

/-- What holds of the entries of the map holds of what is stored. -/
theorem forall_stored {g : Scenegraph} {P : EntityID → Entity → Prop}
    (h : ∀ entry ∈ g.entities.toList, P entry.1 entry.2) (id : EntityID) (ent : Entity)
    (hent : g.entities[id]? = some ent) : P id ent :=
  h (id, ent) (Std.TreeMap.mem_toList_iff_getElem?_eq_some.mpr hent)

/-- Two updates take the entity, its local child and its networked one, and client 2 is to hear of
the two that are networked. -/
theorem cascade_exact_lineage : ∃ s',
    (do deleteEntity 1; updates 2) Sample.lineage = (.ok (), s') ∧
      Cascaded 1 1 Sample.lineage s' ∧
      s'.scene.entities.keys = [3] ∧
      (s'.pending 2).map (fun d => (messageOfData d.data).toOption) =
        [some (.deletion 1), some (.deletion 2)] := by
  have hown : ∀ entry ∈ Sample.lineage.scene.entities.toList, entry.2.info.ID = entry.1 := by
    decide +kernel
  have hunmarked : ∀ entry ∈ Sample.lineage.scene.entities.toList, entry.2.remove = false := by
    decide +kernel
  have hparents : ∀ entry ∈ Sample.lineage.scene.entities.toList, entry.2.info.parentID = 0 ∨
      Sample.lineage.scene.entityExists entry.2.info.parentID := by
    decide +kernel
  obtain ⟨s', hrun, hcascaded, _⟩ := cascade_exact (e := 1)
    ⟨forall_stored hown, Or.inr ⟨rfl, rfl⟩⟩ (forall_stored hunmarked) (forall_stored hparents)
    (by decide +kernel) 1
  have hleft : ((do deleteEntity 1; updates 2) Sample.lineage).2.scene.entities.keys = [3] ∧
      (((do deleteEntity 1; updates 2) Sample.lineage).2.pending 2).map
        (fun d : Datagram => (messageOfData d.data).toOption) =
          [some (.deletion 1), some (.deletion 2)] := by
    decide +kernel
  rw [hrun] at hleft
  exact ⟨s', hrun, hcascaded, hleft⟩

end Process

end EnkiNet
