import EnkiNet.Process

/-!
# What a packet says to a client

A client's handler first reads a message off the packet (`messageOf`) and then acts
on it.  The message depends on the header's type and on the bytes behind the
header, so it survives what the send functions do to a packet:

* `messageOf_setHeader`: stamping the header with a time;
* `messageOfData_wire`: a trip through the transport, for a packet that came from
  the transport;
* `messageOf_of_holds`: for a packet that this process has written, whatever else
  the receiver's buffer contains.
-/

namespace EnkiNet

open ByteStore Packet

namespace Packet

/-! ## Operations that only read -/

/-- Two packets that a reader cannot tell apart from where it stands. -/
structure SameAhead (p q : Packet) : Prop where
  readCursor_eq : q.readCursor = p.readCursor
  length_eq : q.bytes.length = p.bytes.length
  ahead_eq : q.bytes.drop p.bytesRead = p.bytes.drop p.bytesRead

/-- The operation looks at what is ahead, and moves the read cursor forward only. -/
def Reads {α : Type} (x : PacketM α) : Prop :=
  ∀ p q, SameAhead p q → ∃ r c, x p = (r, p.withRead c) ∧ x q = (r, q.withRead c) ∧
    p.bytesRead ≤ c.byte

variable {α β : Type}

theorem Reads.pure (a : α) : Reads (pure a : PacketM α) := by
  intro p q h
  refine ⟨.ok a, p.readCursor, rfl, ?_, Nat.le_refl _⟩
  rw [← h.readCursor_eq]
  rfl

theorem Reads.fail (e : Fault) : Reads (Fallible.fail e : PacketM α) := by
  intro p q h
  refine ⟨.error e, p.readCursor, rfl, ?_, Nat.le_refl _⟩
  rw [← h.readCursor_eq]
  rfl

/-- Two packets that agree ahead of a cursor agree ahead of any later one. -/
theorem SameAhead.withRead {p q : Packet} (h : SameAhead p q) {c : Cursor}
    (hc : p.bytesRead ≤ c.byte) : SameAhead (p.withRead c) (q.withRead c) where
  readCursor_eq := rfl
  length_eq := h.length_eq
  ahead_eq := by
    obtain ⟨k, hk⟩ := Nat.exists_eq_add_of_le hc
    simp only [withRead_bytes, withRead_bytesRead]
    rw [hk, ← List.drop_drop, ← List.drop_drop, h.ahead_eq]

/-- Reading after reading is reading. -/
theorem Reads.bind {x : PacketM α} {f : α → PacketM β} (hx : Reads x) (hf : ∀ a, Reads (f a)) :
    Reads (x >>= f) := by
  intro p q h
  obtain ⟨r, c, hp, hq, hc⟩ := hx p q h
  cases r with
  | error e => exact ⟨.error e, c, Fallible.bind_error hp f, Fallible.bind_error hq f, hc⟩
  | ok a =>
      obtain ⟨r, d, hp', hq', hd⟩ := hf a _ _ (h.withRead hc)
      refine ⟨r, d, ?_, ?_, Nat.le_trans hc hd⟩
      · rw [Fallible.bind_ok hp, hp', withRead_withRead]
      · rw [Fallible.bind_ok hq, hq', withRead_withRead]

/-- Reading does not touch the info. -/
theorem Reads.info_eq {x : PacketM α} {p q : Packet} {r : Except Fault α} (h : Reads x)
    (hx : x p = (r, q)) : q.info = p.info := by
  obtain ⟨_, c, hp, _⟩ := h p p ⟨rfl, rfl, rfl⟩
  rw [hx] at hp
  rw [(Prod.mk.inj hp).2]
  rfl

/-- Reading does not change the header. -/
theorem Reads.header_eq {x : PacketM α} {p q : Packet} {r : Except Fault α} (h : Reads x)
    (hx : x p = (r, q)) : q.header = p.header := by
  obtain ⟨_, c, hp, _⟩ := h p p ⟨rfl, rfl, rfl⟩
  rw [hx] at hp
  rw [(Prod.mk.inj hp).2]
  rfl

/-- Bytes are read from behind the cursor. -/
theorem reads_deserialize (size : Nat) (isNull : Bool) : Reads (deserialize size isNull) := by
  intro p q h
  have hcur : q.bytesRead = p.bytesRead := congrArg Cursor.byte h.readCursor_eq
  have hbit : q.bitsRead = p.bitsRead := congrArg Cursor.bit h.readCursor_eq
  have hstay : ∀ r : Except Fault (List Byte), ∃ r' c, (r, p) = (r', p.withRead c) ∧
      (r, q) = (r', q.withRead c) ∧ p.bytesRead ≤ c.byte := by
    intro r
    refine ⟨r, p.readCursor, rfl, ?_, Nat.le_refl _⟩
    rw [← h.readCursor_eq]
    rfl
  unfold deserialize
  rw [h.length_eq, hcur]
  split
  · exact hstay _
  split
  · exact hstay _
  · refine ⟨_, ⟨p.bytesRead + size, 8⟩, rfl, ?_, Nat.le_add_right _ _⟩
    rw [slice, h.ahead_eq]
    rfl

theorem reads_getScalar (k : Nat) : Reads (getScalar k) :=
  (reads_deserialize k false).bind fun _ => Reads.pure _

theorem reads_getSize : Reads getSize :=
  (reads_deserialize 8 false).bind fun _ => Reads.pure _

theorem reads_getString : Reads getString := by
  refine reads_getSize.bind fun length => (reads_deserialize length false).bind fun bytes => ?_
  split
  · exact Reads.pure _
  · exact Reads.fail _

theorem reads_getVector (k : Nat) : Reads (getVector k) :=
  reads_getSize.bind fun _ => (reads_deserialize _ _).bind fun _ => Reads.pure _

/-- An inner packet is read as any vector of bytes. -/
theorem reads_getPacket : Reads getPacket := by
  refine (reads_getVector 1).bind fun b => ?_
  split
  · exact Reads.pure _
  · exact Reads.fail _

theorem reads_getEntityInfo : Reads getEntityInfo :=
  (reads_getScalar 4).bind fun _ => (reads_getScalar 4).bind fun _ =>
    reads_getString.bind fun _ => reads_getString.bind fun _ =>
      (reads_getScalar 4).bind fun _ => Reads.pure _

end Packet

/-! ## Messages -/

inductive Message
  | creation (info : EntityInfo) (spawnInfo : Packet)
  | restore (info : EntityInfo)
  | update (info : EntityInfo)
  | rpc (info : EntityInfo)
  | deletion (id : EntityID)
  | other
  deriving DecidableEq, Repr

/-- What the client's handler reads first from a packet of each type. -/
def readMessage : PacketType → PacketM Message
  | .entityCreation => do
      let info ← getEntityInfo
      let spawnInfo ← getPacket
      return .creation info spawnInfo
  | .entityCreationOnConnection => do
      let info ← getEntityInfo
      return .restore info
  | .entityUpdate => do
      let info ← getEntityInfo
      return .update info
  | .entityRpc => do
      let info ← getEntityInfo
      return .rpc info
  | .entityDeletion => do
      let id ← getScalar 4
      return .deletion (Int32.ofBitVec id)
  | _ => return .other

def messageOf (p : Packet) : Except Fault Message := (readMessage p.header.type p).1

/-- The message in a datagram. -/
def messageOfData (data : List Byte) : Except Fault Message := do
  let p ← ofData data
  messageOf p

/-- What a handler reads of a packet of each type. -/
theorem reads_readMessage (type : PacketType) : Reads (readMessage type) := by
  cases type with
  | entityCreation =>
      exact reads_getEntityInfo.bind fun _ => reads_getPacket.bind fun _ => Reads.pure _
  | entityCreationOnConnection => exact reads_getEntityInfo.bind fun _ => Reads.pure _
  | entityUpdate => exact reads_getEntityInfo.bind fun _ => Reads.pure _
  | entityRpc => exact reads_getEntityInfo.bind fun _ => Reads.pure _
  | entityDeletion => exact (reads_getScalar 4).bind fun _ => Reads.pure _
  | _ => exact Reads.pure _

/-- Packets with one type and the same bytes ahead say the same. -/
theorem messageOf_eq_of_sameAhead {p q : Packet} (htype : q.header.type = p.header.type)
    (h : SameAhead p q) : messageOf q = messageOf p := by
  obtain ⟨r, c, hp, hq, _⟩ := reads_readMessage p.header.type p q h
  rw [messageOf, messageOf, htype, hp, hq]

/-! ## Stamped packets -/

/-- A new header leaves the body alone. -/
theorem drop_setHeader (h : PacketHeader) (p : Packet) :
    (p.setHeader h).bytes.drop headerSize = p.bytes.drop headerSize := by
  simp only [setHeader, overwrite, PacketHeader.length_toBytes, List.take_zero, List.nil_append,
    Nat.zero_add]
  rcases Nat.le_total headerSize p.bytes.length with hlen | hlen
  · rw [List.take_of_length_le (by simp; omega), List.drop_left' (by simp)]
  · rw [List.drop_eq_nil_of_le (by simp; omega), List.drop_eq_nil_of_le hlen]

theorem length_setHeader (h : PacketHeader) (p : Packet) :
    (p.setHeader h).bytes.length = p.bytes.length := by
  simp [setHeader, overwrite]
  omega

/-- A new header takes the place of the old one. -/
theorem setHeader_bytes (h : PacketHeader) {p : Packet} (hlen : headerSize ≤ p.bytes.length) :
    (p.setHeader h).bytes = h.toBytes ++ p.bytes.drop headerSize := by
  simp only [setHeader, overwrite, PacketHeader.length_toBytes, List.take_zero, List.nil_append,
    Nat.zero_add]
  exact List.take_of_length_le (by simp; omega)

/-- The header that was set is the one that is received. -/
theorem ofBytes_setHeader (h : PacketHeader) {p : Packet} (hlen : headerSize ≤ p.bytes.length) :
    PacketHeader.ofBytes (p.setHeader h).bytes = h := by
  rw [setHeader_bytes h hlen]
  exact PacketHeader.ofBytes_toBytes h _

/-- A second stamp replaces the first. -/
theorem setHeader_setHeader (h h' : PacketHeader) {p : Packet}
    (hlen : headerSize ≤ p.bytes.length) :
    (p.setHeader h).setHeader h' = p.setHeader h' := by
  have hlen' : headerSize ≤ (p.setHeader h).bytes.length := by rwa [length_setHeader]
  have hbytes : ((p.setHeader h).setHeader h').bytes = (p.setHeader h').bytes := by
    rw [setHeader_bytes h' hlen', setHeader_bytes h' hlen, drop_setHeader]
  calc (p.setHeader h).setHeader h'
      = { p with header := h', bytes := ((p.setHeader h).setHeader h').bytes } := rfl
    _ = { p with header := h', bytes := (p.setHeader h').bytes } := by rw [hbytes]

/-- A time in the header does not change the message. -/
theorem messageOf_setHeader {h : PacketHeader} {p : Packet} (htype : h.type = p.header.type)
    (hread : p.bytesRead = headerSize) : messageOf (p.setHeader h) = messageOf p := by
  refine messageOf_eq_of_sameAhead htype ⟨rfl, length_setHeader h p, ?_⟩
  rw [hread]
  exact drop_setHeader h p

/-- A packet whose buffer is exactly what was written to it, as one from the
transport is. -/
def FromWire (p : Packet) : Prop :=
  headerSize ≤ p.bytes.length ∧ p.bytesWritten = p.bytes.length

/-- The receiver of a packet from the transport that is sent on reads what the sender
reads. -/
theorem messageOfData_wire {h : PacketHeader} {p : Packet} {data : List Byte}
    (hp : FromWire p) (hdata : (p.setHeader h).wire = .ok data) :
    messageOfData data = messageOf (p.setHeader h).resetReadPosition := by
  have hbytes : data = (p.setHeader h).bytes := by
    unfold wire at hdata
    split at hdata
    · cases hdata
      have hw : (p.setHeader h).bytesWritten = (p.setHeader h).bytes.length := by
        rw [length_setHeader]
        exact hp.2
      rw [hw, List.take_length]
    · cases hdata
  have hlen : headerSize ≤ data.length := by
    rw [hbytes, length_setHeader]
    exact hp.1
  have hmsg : messageOf (received data) = messageOf (p.setHeader h).resetReadPosition := by
    refine messageOf_eq_of_sameAhead ?_ ⟨rfl, ?_, ?_⟩
    · rw [hbytes]
      exact congrArg PacketHeader.type (ofBytes_setHeader h hp.1)
    · rw [hbytes]
      rfl
    · rw [hbytes]
      rfl
  rw [messageOfData, ofData_eq hlen]
  exact hmsg

/-! ## Written packets -/

/-- Whoever holds what was written reads the message that was written. -/
theorem messageOf_of_holds {write : PacketM Unit} {type : PacketType} {m : Message}
    {v w r : Packet} (hmirror : Mirrors write (readMessage type) m) (hv : WellWritten v)
    (hwrite : write v = (.ok (), w)) (hr : r.readCursor = v.writeCursor)
    (htype : r.header.type = type) (hholds : Holds w r) : messageOf r = .ok m := by
  obtain ⟨w', hw', _, _, hread⟩ := hmirror v hv
  rw [hwrite] at hw'
  cases hw'
  rw [messageOf, htype, hread r hr hholds]

/-- The header is no part of what was written. -/
theorem bitAt_setHeader (h : PacketHeader) (p : Packet) {pos : Nat} (hpos : 8 * headerSize ≤ pos) :
    bitAt (p.setHeader h).bytes pos = bitAt p.bytes pos := by
  have hdrop := drop_setHeader h p
  obtain ⟨k, hk⟩ := Nat.exists_eq_add_of_le (show headerSize ≤ pos / 8 by omega)
  have hget : ∀ s : List Byte, byteAt s (pos / 8) = byteAt (s.drop headerSize) k := by
    intro s
    rw [hk, byteAt, byteAt, List.getD_eq_getElem?_getD, List.getD_eq_getElem?_getD,
      List.getElem?_drop]
  rw [bitAt, bitAt, hget, hget, hdrop]

/-- A new header keeps the packet well written. -/
theorem wellWritten_setHeader {w : Packet} (hw : WellWritten w) (h : PacketHeader) :
    WellWritten (w.setHeader h) where
  headerSize_le := hw.headerSize_le
  bit_le := hw.bit_le
  payload_le := hw.payload_le
  stored := by
    rw [length_setHeader]
    exact hw.stored

/-- A stamped packet holds what was written before the stamp. -/
theorem holds_setHeader {w : Packet} (hw : WellWritten w) (h : PacketHeader) :
    Holds w (w.setHeader h) := by
  refine ⟨?_, fun pos hpay _ => bitAt_setHeader h w hpay⟩
  rw [length_setHeader]
  exact hw.stored

/-- What the transport takes of a stamped packet: as many bytes as were written, and they
start with the new header. -/
theorem wire_setHeader {p : Packet} (hhead : headerSize ≤ p.bytesWritten) {h : PacketHeader}
    {data : List Byte} (hdata : (p.setHeader h).wire = .ok data) :
    data.length = p.bytesWritten ∧ PacketHeader.ofBytes data = h ∧
      ∀ i, i < data.length → data[i]? = (p.setHeader h).bytes[i]? := by
  unfold wire at hdata
  split at hdata
  · next hle =>
    have hlen : data.length = p.bytesWritten := by
      rw [← Except.ok.inj hdata]
      exact List.length_take_of_le hle
    have hfull : headerSize ≤ p.bytes.length := by
      rw [← length_setHeader h p]
      exact Nat.le_trans hhead hle
    have hsplit : data = h.toBytes ++ (p.bytes.drop headerSize).take (p.bytesWritten - 8) := by
      have htake : h.toBytes.length ≤ p.bytesWritten := by
        rw [PacketHeader.length_toBytes]
        exact hhead
      rw [← Except.ok.inj hdata, setHeader_bytes h hfull, List.take_append,
        PacketHeader.length_toBytes]
      congr 1
      exact List.take_of_length_le htake
    refine ⟨hlen, ?_, ?_⟩
    · rw [hsplit]
      exact PacketHeader.ofBytes_toBytes h _
    · intro i hi
      rw [← Except.ok.inj hdata]
      exact List.getElem?_take_of_lt (by rw [hlen] at hi; exact hi)
  · cases hdata

/-- A receiver of a stamped packet holds what was written before the stamp, and it has the
new header. -/
theorem holds_wire {w : Packet} (hw : WellWritten w) {h : PacketHeader} {data : List Byte}
    (hdata : (w.setHeader h).wire = .ok data) :
    Holds w (received data) ∧ headerSize ≤ data.length ∧ PacketHeader.ofBytes data = h := by
  obtain ⟨hlen, hheader, hbytes⟩ := wire_setHeader hw.headerSize_le hdata
  have hholds : Holds (w.setHeader h) (received data) :=
    holds_received (wellWritten_setHeader hw h) hlen fun i hi _ => hbytes i hi
  refine ⟨⟨hholds.stored, ?_⟩, ?_, hheader⟩
  · intro pos hpay hpos
    rw [hholds.bits_eq pos hpay hpos, bitAt_setHeader h w hpay]
  · rw [hlen]
    exact hw.headerSize_le

end EnkiNet
