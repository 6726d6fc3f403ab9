import EnkiNet.Sending

/-!
# Packets that the library writes

Each kind of packet that the library builds says the message it was built for,
whatever game code appends to it.
-/

namespace EnkiNet

open ByteStore Packet

/-! ## Mirrored packets -/

/-- A successful write keeps what was written before. -/
theorem written_of_mirrors {α : Type} {write : PacketM Unit} {read : PacketM α} {a : α}
    (h : Mirrors write read a) {w w' : Packet} (hw : WellWritten w)
    (hrun : write w = (.ok (), w')) : WellWritten w' ∧ Extends w w' := by
  obtain ⟨v, hv, hvw, hext, _⟩ := h w hw
  rw [hrun] at hv
  cases hv
  exact ⟨hvw, hext⟩

/-- A packet that starts with an `EntityInfo` says whatever the receiver makes of the
info. -/
theorem says_entityInfo {info : EntityInfo} {m : Message} {v w w' : Packet}
    (hmirror : Mirrors (putEntityInfo info) (readMessage v.header.type) m) (hv : WellWritten v)
    (hcursor : v.writeCursor = ⟨headerSize, 8⟩) (hwrite : putEntityInfo info v = (.ok (), w))
    (hw' : WellWritten w') (hext : Extends w w') : Says w' m := by
  have hheader : w'.header = v.header :=
    hext.header_eq.trans (written_of_mirrors hmirror hv hwrite).2.header_eq
  exact Says.of_written (by rw [hheader]; exact hmirror) hv hcursor hwrite hw' hext

/-- A nested packet that could be read is one that exists. -/
theorem getPacket_sound {p p' q : Packet} (h : getPacket p = (.ok q, p')) : q.Sound := by
  obtain ⟨b, p₁, hb, h⟩ := Fallible.bind_eq_ok h
  obtain ⟨size, p₂, hsize, hb⟩ := Fallible.bind_eq_ok hb
  obtain ⟨bytes, p₃, _, hb⟩ := Fallible.bind_eq_ok hb
  obtain ⟨raw, p₄, hraw, hsize⟩ := Fallible.bind_eq_ok hsize
  have hlt : size < 2 ^ 64 := by
    have hbound := leNat_lt raw
    rw [length_of_deserialize hraw] at hbound
    cases hsize
    exact hbound
  have hlen : b.length = size := by
    cases hb
    simp [scalarsOf]
  by_cases hhead : headerSize ≤ b.length
  · rw [ofData_eq hhead] at h
    cases h
    exact ⟨hhead, hlen ▸ hlt⟩
  · rw [ofData, if_pos (Nat.not_le.mp hhead)] at h
    cases h

/-- What `sendCreation` writes is what the handlers read. -/
theorem mirrors_creation (info : EntityInfo) {spawnInfo : Packet} (h : spawnInfo.Sound) :
    Mirrors (do putEntityInfo info; putPacket spawnInfo) (readMessage .entityCreation)
      (.creation info (received spawnInfo.bytes)) :=
  Mirrors.bind (mirrors_entityInfo info) ((mirrors_packet h.1 h.2).andThen rfl)

/-- What a snapshot writes about an entity. -/
theorem mirrors_restore (info : EntityInfo) :
    Mirrors (putEntityInfo info) (readMessage .entityCreationOnConnection) (.restore info) :=
  (mirrors_entityInfo info).andThen rfl

/-- What a tick writes first about an entity. -/
theorem mirrors_update (info : EntityInfo) :
    Mirrors (putEntityInfo info) (readMessage .entityUpdate) (.update info) :=
  (mirrors_entityInfo info).andThen rfl

/-- What a call starts with. -/
theorem mirrors_rpc (info : EntityInfo) :
    Mirrors (putEntityInfo info) (readMessage .entityRpc) (.rpc info) :=
  (mirrors_entityInfo info).andThen rfl

/-- What `deleteEntity` writes. -/
theorem mirrors_deletion (id : EntityID) :
    Mirrors (putScalar (k := 4) id.toBitVec) (readMessage .entityDeletion) (.deletion id) :=
  (mirrors_scalar (k := 4) id.toBitVec).andThen rfl

/-- A packet written by `sendCreation` says so to whoever reads it. -/
theorem says_creation {info : EntityInfo} {spawnInfo w w' : Packet} (h : spawnInfo.Sound)
    (hinfo : putEntityInfo info (ofHeader { type := .entityCreation }) = (.ok (), w))
    (hspawn : putPacket spawnInfo w = (.ok (), w')) :
    Says w' (.creation info (received spawnInfo.bytes)) := by
  have hv := wellWritten_ofHeader { type := .entityCreation }
  have hwrite := (Fallible.bind_ok hinfo fun _ => putPacket spawnInfo).trans hspawn
  obtain ⟨hw', hext⟩ := written_of_mirrors (mirrors_creation info h) hv hwrite
  refine Says.of_written ?_ hv rfl hwrite hw' (Extends.refl w')
  rw [hext.header_eq]
  exact mirrors_creation info h

/-- A packet written by `deleteEntity` says so to whoever reads it. -/
theorem says_deletion {id : EntityID} {w : Packet}
    (hwrite : putScalar (k := 4) id.toBitVec (ofHeader { type := .entityDeletion }) =
      (.ok (), w)) : Says w (.deletion id) := by
  have hv := wellWritten_ofHeader { type := .entityDeletion }
  obtain ⟨hw, hext⟩ := written_of_mirrors (mirrors_deletion id) hv hwrite
  refine Says.of_written ?_ hv rfl hwrite hw (Extends.refl w)
  rw [hext.header_eq]
  exact mirrors_deletion id

/-- A packet that has been written and not read since. -/
structure Written (p : Packet) (m : Message) : Prop where
  means : Says p m
  unread : p.readCursor = ⟨headerSize, 8⟩
  headerSize_le : headerSize ≤ p.bytes.length

/-- The buffer that a cleared packet has as far as a writer can tell. -/
def blank (p : Packet) : Packet := { p.clear with bytes := List.replicate headerSize 0 }

/-- After `clear` the header is there and nothing behind it is read. -/
theorem wellWritten_blank (p : Packet) : WellWritten (blank p) :=
  ⟨Nat.le_refl _, Nat.le_refl _,
    Nat.le_refl _, by simp [blank, clear, writeCursor, Cursor.pos, headerSize]⟩

/-- Writing after `clear` is writing to a blank packet. -/
theorem putEntityInfo_clear (info : EntityInfo) (p : Packet) :
    putEntityInfo info p.clear = putEntityInfo info (blank p) := by
  have hfirst : putScalar (k := 4) info.ID.toBitVec p.clear =
      putScalar (k := 4) info.ID.toBitVec (blank p) := by
    have hlen : (scalarBytes (k := 4) info.ID.toBitVec).length = 4 := length_leBytes 4 _
    simp only [putScalar, serialize, hlen]
    rfl
  have hok := (mirrors_scalar (k := 4) info.ID.toBitVec) (blank p) (wellWritten_blank p)
  obtain ⟨w, hw, _⟩ := hok
  rw [putEntityInfo, Fallible.bind_ok hw, Fallible.bind_ok (hfirst.trans hw)]

/-- A packet that starts with an `EntityInfo` and goes on with a script. -/
theorem written_entityInfo {info : EntityInfo} {script : List WriteOp} {m : Message}
    {v w w' : Packet} (hrep : WriteOp.AllRepresentable script)
    (hmirror : Mirrors (putEntityInfo info) (readMessage v.header.type) m) (hv : WellWritten v)
    (hcursor : v.writeCursor = ⟨headerSize, 8⟩) (hread : v.readCursor = ⟨headerSize, 8⟩)
    (hlen : headerSize ≤ v.bytes.length)
    (hinfo : putEntityInfo info v = (.ok (), w))
    (hscript : WriteOp.performAll script w = (.ok (), w')) :
    Written w' m ∧ w'.header = v.header := by
  obtain ⟨hw, hext⟩ := written_of_mirrors hmirror hv hinfo
  obtain ⟨hw', hext'⟩ := written_of_mirrors (WriteOp.mirrorsAll script hrep) hw hscript
  have hboth := hext.trans hext'
  exact ⟨⟨says_entityInfo hmirror hv hcursor hinfo hw' hext', hboth.readCursor_eq.trans hread,
    Nat.le_trans hlen hboth.length_le⟩, hboth.header_eq⟩

end EnkiNet
