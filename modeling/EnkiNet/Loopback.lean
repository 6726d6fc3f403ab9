import EnkiNet.PacketCalls

/-!
# Loopback and wire

A listen server and its own client pass packets to each other in the process, as copies
of the packet object; a remote peer builds its packet from the bytes that were written.
`loopback_agrees_iff` says which packets a reader cannot tell apart on the two ways.

Equal buffers and read cursors are enough for that; what is left to read has the same length in
packets that no reader can tell apart, so a buffer that is longer than what was written shows.
-/

namespace EnkiNet

open ByteStore Packet

/-! ## The two ways -/

/-- `ServerHost::sendPacketToAllClients`, `sendPacketToSomeClients` and
`sendPacketToAllExceptOneClient` up to the emission to the handlers of the host's client. -/
def emittedToClient (now : UInt32) (p : Packet) : Packet :=
  { (Process.stamped now p).resetReadPosition with info := { senderID := 1, timeReceived := now } }

/-- `ServerHost::sendPacketToOneClient` for the client 1. -/
def emittedToOneClient (now : UInt32) (p : Packet) : Packet :=
  (Process.stamped now p).resetReadPosition

/-- A remote peer gets a packet from which no reader can tell `q` apart. -/
def AgreesWithWire (now : UInt32) (p q : Packet) : Prop :=
  ∃ data r, (Process.stamped now p).wire = .ok data ∧ ofData data = .ok r ∧ Indistinguishable q r

namespace Process

/-- The send functions of a listen server emit these packets. -/
theorem loopback_stamped (origin : ClientID) (p : Packet) (s : Process) :
    loopback origin (stamped s.now p) s = clientHandler origin (emittedToClient s.now p) s := rfl

/-- The host's own client is handed the packet itself. -/
theorem sendPacketToOneClient_host {s : Process} (h : s.role = .host) (origin : ClientID)
    (p : Packet) :
    sendPacketToOneClient origin 1 p s = clientHandler origin (emittedToOneClient s.now p) s := by
  rw [sendPacketToOneClient, Fallible.bind_get, bind_stamp, if_pos ⟨h, rfl⟩]
  rfl

end Process

/-! ## The read cursor of the sender -/

/-- The read cursor is at the front or behind it. -/
def Legal (c : Cursor) : Prop := c = ⟨headerSize, 8⟩ ∨ headerSize < c.byte

namespace Packet

variable {α β : Type}

/-- The read cursor stays where it is. -/
def Writing (x : PacketM α) : Prop := ∀ p, (x p).2.readCursor = p.readCursor

theorem Writing.pure (a : α) : Writing (pure a : PacketM α) := fun _ => rfl

/-- A change that leaves the read cursor where it was. -/
theorem Writing.modify {f : Packet → Packet} (hf : ∀ p, (f p).readCursor = p.readCursor) :
    Writing (Fallible.modify f) := hf

/-- Writing after writing is writing. -/
theorem Writing.bind {x : PacketM α} {f : α → PacketM β} (hx : Writing x)
    (hf : ∀ a, Writing (f a)) : Writing (x >>= f) := by
  intro p
  have hone := hx p
  rcases hrun : x p with ⟨e | a, p'⟩
  · rw [Fallible.bind_error hrun]
    rw [hrun] at hone
    exact hone
  · rw [Fallible.bind_ok hrun, hf a p']
    rw [hrun] at hone
    exact hone

/-- `serialize` moves the write cursor only. -/
theorem writing_serialize (d : Option (List Byte)) : Writing (serialize d) := by
  intro p
  cases d <;> rfl

theorem writing_string (s : StdString) : Writing (putString s) :=
  (writing_serialize _).bind fun _ => writing_serialize _

theorem writing_vector {k : Nat} (xs : List (BitVec (8 * k))) : Writing (putVector xs) :=
  (writing_serialize _).bind fun _ => writing_serialize _

theorem writing_writeBitRun (data : BitVec 32) (shift : Int) (bits i : Nat) :
    Writing (writeBitRun data shift bits i) := by
  have hbit : ∀ i shift, Writing (writeBit data i shift) := by
    intro i shift p
    unfold writeBit
    split
    · rfl
    split <;> rfl
  induction bits generalizing i with
  | zero => exact Writing.pure ()
  | succ bits ih => exact (hbit _ _).bind fun _ => ih _

/-- The loop over the bytes moves the cursors its turns move. -/
theorem writing_bitsLoop {run : Int → Nat → α → PacketM α} {nextByte : Packet → Packet}
    {addBits : Nat → Packet → Packet} (hrun : ∀ shift bits a, Writing (run shift bits a))
    (hnext : Writing (Fallible.modify nextByte))
    (hadd : ∀ bits, Writing (Fallible.modify (addBits bits))) (bits offset : Int)
    (turns bitsAvailable : Nat) (bitsLeft : Int) (a : α) :
    Writing (bitsLoop run nextByte addBits bits offset turns bitsAvailable bitsLeft a) := by
  induction turns generalizing bitsAvailable bitsLeft a with
  | zero => exact Writing.pure a
  | succ turns ih =>
      rw [bitsLoop]
      split
      · exact Writing.pure a
      split
      · exact (hrun _ _ _).bind fun _ => hnext.bind fun _ => ih _ _ _
      split
      · exact (hrun _ _ _).bind fun _ => hnext.bind fun _ => ih _ _ _
      · exact (hrun _ _ _).bind fun _ => (hadd _).bind fun _ => ih _ _ _

theorem writing_writeBits (data : BitVec 32) (width offset : Int) :
    Writing (writeBits data width offset) := by
  have hnormalize : Writing (Fallible.modify normalizeWrite) := by
    apply Writing.modify
    intro p
    unfold normalizeWrite
    split <;> rfl
  have hreserve : ∀ needed, Writing (reserveBits needed) := by
    intro needed p
    unfold reserveBits
    dsimp only
    split
    · rfl
    split <;> rfl
  refine hnormalize.bind fun _ => ?_
  intro p
  dsimp only
  split
  · rfl
  split
  · rfl
  split
  · rfl
  · have hnext : Writing (Fallible.modify nextWriteByte) := fun _ => rfl
    have hadd : ∀ bits, Writing (Fallible.modify (addWriteBits bits)) := fun _ _ => rfl
    have hloop := writing_bitsLoop (fun shift bits _ => writing_writeBitRun data shift bits 0) hnext
      hadd width offset width.toNat (8 - p.bitsWritten) width ()
    exact (hreserve _).bind (fun _ => hloop) p

/-- No `operator<<` moves the read cursor. -/
theorem writing_put (x : Item) : Writing x.put := by
  cases x with
  | scalar k v => exact writing_serialize _
  | string s => exact writing_string s
  | vector k xs => exact writing_vector xs.elems
  | array k xs null => exact (writing_serialize _).bind fun _ => writing_serialize _
  | packet q => exact writing_vector (k := 1) q.bytes

end Packet

/-- The operation keeps the read cursor legal. -/
def Onward {α : Type} (x : PacketM α) : Prop :=
  ∀ p, Legal p.readCursor → Legal (x p).2.readCursor

section
variable {α β : Type}

theorem Onward.pure (a : α) : Onward (pure a : PacketM α) := fun _ h => h

theorem Onward.fail (e : Fault) : Onward (Fallible.fail e : PacketM α) := fun _ h => h

/-- Going on after going on. -/
theorem Onward.bind {x : PacketM α} {f : α → PacketM β} (hx : Onward x) (hf : ∀ a, Onward (f a)) :
    Onward (x >>= f) := by
  intro p hp
  have hone := hx p hp
  rcases hrun : x p with ⟨e | a, p'⟩
  · rw [Fallible.bind_error hrun]
    rw [hrun] at hone
    exact hone
  · rw [Fallible.bind_ok hrun]
    rw [hrun] at hone
    exact hf a p' hone

/-- Writing leaves the read cursor where it was, which is far enough. -/
theorem Onward.of_writing {x : PacketM α} (hx : Writing x) : Onward x := fun p hp => by
  rw [hx p]
  exact hp

/-- `deserialize` reads on or throws. -/
theorem onward_deserialize (size : Nat) (isNull : Bool) : Onward (deserialize size isNull) := by
  intro p hp
  unfold deserialize
  split
  · exact hp
  split
  · exact hp
  · cases size with
    | zero =>
        rcases hp with hp | hp
        · left
          change (⟨p.bytesRead + 0, 8⟩ : Cursor) = _
          have hbyte : p.bytesRead = headerSize := congrArg Cursor.byte hp
          rw [hbyte]
        · exact Or.inr hp
    | succ size =>
        right
        change headerSize < p.bytesRead + (size + 1)
        have hle : headerSize ≤ p.bytesRead := by
          rcases hp with hp | hp
          · exact Nat.le_of_eq (congrArg Cursor.byte hp).symm
          · exact Nat.le_of_lt hp
        omega

theorem onward_getSize : Onward getSize := (onward_deserialize _ _).bind fun _ => Onward.pure _

theorem onward_getScalar (k : Nat) : Onward (getScalar k) :=
  (onward_deserialize _ _).bind fun _ => Onward.pure _

theorem onward_getString : Onward getString := by
  refine onward_getSize.bind fun _ => (onward_deserialize _ _).bind fun _ => ?_
  split
  · exact Onward.pure _
  · exact Onward.fail _

theorem onward_getVector (k capacity : Nat) : Onward (getVector k capacity) :=
  onward_getSize.bind fun _ => (onward_deserialize _ _).bind fun _ => Onward.pure _

theorem onward_getArrayInto (k n : Nat) (null : Bool) (memory : Memory) :
    Onward (getArrayInto k n null memory) := by
  refine onward_getSize.bind fun _ => ?_
  split
  · exact (onward_deserialize _ _).bind fun _ => Onward.pure _
  · exact Onward.fail _

/-- An inner packet is read through to its end. -/
theorem onward_getPacket : Onward getPacket := by
  refine (onward_getVector 1 0).bind fun b => ?_
  split
  · exact Onward.pure _
  · exact Onward.fail _

/-- Reading bits starts by leaving the header. -/
theorem onward_readBits (width offset : Int) : Onward (readBits width offset) := by
  intro p hp
  have hafter : headerSize < p.normalizeRead.bytesRead := by
    rw [normalizeRead_eq, withRead_bytesRead]
    rcases hp with hp | hp
    · rw [hp]
      decide
    · exact Nat.lt_of_lt_of_le hp (Cursor.le_normalize_byte _)
  have htwice : p.normalizeRead.normalizeRead = p.normalizeRead := by
    have hbit : p.normalizeRead.bitsRead < 8 := by
      rw [normalizeRead_eq]
      exact Cursor.normalize_bit_lt _
    exact if_neg (Nat.not_le.mpr hbit)
  have hsame : readBits width offset p = readBits width offset p.normalizeRead := by
    rw [readBits, Fallible.bind_modify, Fallible.bind_modify, htwice]
  obtain ⟨r, c, hrun, _, hc⟩ :=
    reading_readBits width offset p.normalizeRead p.normalizeRead rfl rfl
  rw [hsame, hrun]
  exact Or.inr (Nat.lt_of_lt_of_le hafter hc)

end

/-- No `operator>>` reads back. -/
theorem onward_get (t : Target) : Onward t.get := by
  cases t with
  | scalar k => exact (onward_getScalar k).bind fun _ => Onward.pure _
  | string => exact onward_getString.bind fun _ => Onward.pure _
  | vector k capacity => exact (onward_getVector k capacity).bind fun _ => Onward.pure _
  | array k n null memory =>
      exact (onward_getArrayInto k n null memory).bind fun _ => Onward.pure _
  | packet => exact onward_getPacket.bind fun _ => Onward.pure _

/-- A call moves the read cursor on, or leaves it between the header and the content. -/
theorem Call.onward (c : Call) : Onward c.perform := by
  cases c with
  | put x => exact (Onward.of_writing (writing_put x)).bind fun _ => Onward.pure _
  | get t => exact onward_get t
  | writeBits data width offset _ _ =>
      exact (Onward.of_writing (writing_writeBits data width offset)).bind fun _ => Onward.pure _
  | readBits width offset _ _ => exact (onward_readBits width offset).bind fun _ => Onward.pure _
  | resetReadPosition => exact fun _ _ => Or.inl rfl
  | clear => exact fun _ _ => Or.inl rfl
  | setHeader h => exact fun _ hp => hp

/-- A call keeps the read cursor behind the header. -/
theorem legal_step {p p' : Packet} {c : Call} (hp : Legal p.readCursor) (h : c.step p = some p') :
    Legal p'.readCursor := by
  have hafter := c.onward p hp
  unfold Call.step at h
  rcases hrun : c.perform p with ⟨e | a, q⟩
  · rw [hrun] at h hafter
    cases e with
    | undefined u => cases h
    | _ =>
        cases h
        exact hafter
  · rw [hrun] at h hafter
    cases h
    exact hafter

/-- Whatever a program has done, it has not read back into the header. -/
theorem Packet.Arises.legal {p : Packet} (h : p.Arises) : Legal p.readCursor := by
  obtain ⟨origin, calls, hrun⟩ := h
  have hstart : Legal origin.packet.readCursor := by
    cases origin with
    | header h => exact Or.inl rfl
    | data bytes long => exact Or.inl rfl
  have hone : ∀ (p : Packet) (c : Call) (p' : Packet), Legal p.readCursor → c.step p = some p' →
      Legal p'.readCursor := fun _ _ _ hp hstep => legal_step hp hstep
  exact Runs.run_invariant hone hrun hstart

/-! ## When the two ways agree -/

/-- What the transport takes of a stamped packet. -/
theorem wire_stamped {now : UInt32} {p : Packet} {data : List Byte}
    (hdata : (Process.stamped now p).wire = .ok data) :
    data = (Process.stamped now p).bytes.take p.bytesWritten ∧
      data.length = p.bytesWritten ∧ p.bytesWritten ≤ p.bytes.length := by
  unfold wire at hdata
  split at hdata
  · next hle =>
    cases hdata
    have hlength : (Process.stamped now p).bytes.length = p.bytes.length := length_setHeader _ p
    rw [hlength] at hle
    exact ⟨rfl, List.length_take_of_le (hlength ▸ hle), hle⟩
  · cases hdata

/-- The constructor from bytes accepts a header's length or more. -/
theorem received_of_ofData {data : List Byte} {r : Packet} (h : ofData data = .ok r) :
    headerSize ≤ data.length ∧ r = received data := by
  by_cases hlen : headerSize ≤ data.length
  · rw [ofData_eq hlen] at h
    exact ⟨hlen, (Except.ok.inj h).symm⟩
  · rw [ofData, if_pos (Nat.not_le.mp hlen)] at h
    cases h

section
variable {now : UInt32} {p q : Packet}

/-- The wire carries as many bytes as the copy has to read from the front. -/
theorem fromWire_of_agrees (hbytes : q.bytes = (Process.stamped now p).bytes)
    (h : AgreesWithWire now p q) : FromWire p ∧ ∃ r, r.bytes.length = p.bytes.length ∧
      r.readCursor = ⟨headerSize, 8⟩ ∧ Indistinguishable q r := by
  obtain ⟨data, r, hdata, hr, hsame⟩ := h
  obtain ⟨_, hwritten, hle⟩ := wire_stamped hdata
  obtain ⟨hlen, rfl⟩ := received_of_ofData hr
  have hlength : q.bytes.length = p.bytes.length := by
    rw [hbytes]
    exact length_setHeader _ p
  have hrest := hsame.reset.rest_eq
  change q.bytes.length - headerSize = data.length - headerSize at hrest
  have hfull : p.bytesWritten = p.bytes.length := by omega
  refine ⟨⟨by omega, hfull⟩, received data, ?_, rfl, hsame⟩
  change data.length = _
  omega

/-- A copy with the read cursor at the front is what the wire would have brought. -/
theorem agrees_of_fromWire (hp : FromWire p) (hbytes : q.bytes = (Process.stamped now p).bytes)
    (hcursor : q.readCursor = ⟨headerSize, 8⟩) : AgreesWithWire now p q := by
  obtain ⟨hhead, hfull⟩ := hp
  have hlength : (Process.stamped now p).bytes.length = p.bytes.length := length_setHeader _ p
  have hwire : (Process.stamped now p).wire = .ok q.bytes := by
    have howned : (Process.stamped now p).bytesWritten ≤ (Process.stamped now p).bytes.length := by
      rw [hlength]
      exact Nat.le_of_eq hfull
    rw [wire, if_pos howned, hbytes]
    congr 1
    apply List.take_of_length_le
    rw [hlength]
    exact Nat.le_of_eq hfull.symm
  have hhead' : headerSize ≤ q.bytes.length := by rwa [hbytes, hlength]
  exact ⟨q.bytes, received q.bytes, hwire, ofData_eq hhead',
    indistinguishable_of_eq rfl hcursor.symm⟩

/-- A packet that is read from its front agrees with the one from the wire exactly if it came from
there. -/
theorem agrees_iff_of_front (hbytes : q.bytes = (Process.stamped now p).bytes)
    (hcursor : q.readCursor = ⟨headerSize, 8⟩) : AgreesWithWire now p q ↔ FromWire p :=
  ⟨fun h => (fromWire_of_agrees hbytes h).1, fun h => agrees_of_fromWire h hbytes hcursor⟩

/-- A copy that keeps the read cursor of the sender. -/
theorem agrees_iff_of_kept (hp : Legal p.readCursor)
    (hbytes : q.bytes = (Process.stamped now p).bytes) (hcursor : q.readCursor = p.readCursor) :
    AgreesWithWire now p q ↔ FromWire p ∧ p.bytesRead = headerSize := by
  have hbyte : q.bytesRead = p.bytesRead := congrArg Cursor.byte hcursor
  have hlength : q.bytes.length = p.bytes.length := by
    rw [hbytes]
    exact length_setHeader _ p
  constructor
  · intro h
    obtain ⟨hfull, r, hr, hfront, hsame⟩ := fromWire_of_agrees hbytes h
    have hhead := hfull.1
    have hrest := hsame.rest_eq
    have hin := hsame.within
    have hrbyte : r.bytesRead = headerSize := congrArg Cursor.byte hfront
    rw [hbyte, hlength, hrbyte, hr] at hrest hin
    exact ⟨hfull, by omega⟩
  · rintro ⟨hfull, hfront⟩
    rcases hp with hp | hp
    · exact agrees_of_fromWire hfull hbytes (hcursor.trans hp)
    · exact absurd hfront (Nat.ne_of_gt hp)

end

/-- **Loopback delivery agrees with wire delivery** precisely for packets whose whole
buffer has been written to, and, on the way from the host's client to its server, that
have not been read from. -/
theorem loopback_agrees_iff {p : Packet} (hp : p.Arises) (now received : UInt32) :
    (AgreesWithWire now p (emittedToClient now p) ↔ FromWire p) ∧
      (AgreesWithWire now p (emittedToOneClient now p) ↔ FromWire p) ∧
      (AgreesWithWire now p (stampByClientHost now received p) ↔
        FromWire p ∧ p.bytesRead = headerSize) :=
  ⟨agrees_iff_of_front rfl rfl, agrees_iff_of_front rfl rfl, agrees_iff_of_kept hp.legal rfl rfl⟩

/-- A packet with one number in it. -/
def oneNumber : Packet := (putScalar (k := 4) 7 (ofHeader {})).2

/-- The packet with one number, on each of the three ways. -/
theorem loopback_agrees_oneNumber :
    (AgreesWithWire 0 oneNumber (emittedToClient 0 oneNumber) ↔ FromWire oneNumber) ∧
      (AgreesWithWire 0 oneNumber (emittedToOneClient 0 oneNumber) ↔ FromWire oneNumber) ∧
      (AgreesWithWire 0 oneNumber (stampByClientHost 0 0 oneNumber) ↔
        FromWire oneNumber ∧ oneNumber.bytesRead = headerSize) :=
  loopback_agrees_iff ⟨.header {}, [.put (.scalar 4 7)], rfl⟩ 0 0

/-- The buffer of `oneNumber` is longer than what was written, and a received packet that
was read from is not read from its start by the host's server. -/
theorem loopback_differs :
    ¬ AgreesWithWire 0 oneNumber (emittedToClient 0 oneNumber) ∧
      ¬ AgreesWithWire 0 oneNumber (emittedToOneClient 0 oneNumber) ∧
      ¬ AgreesWithWire 0 ((getScalar 1 (received (List.replicate 9 0))).2)
        (stampByClientHost 0 0 (getScalar 1 (received (List.replicate 9 0))).2) := by
  have hpartly : ¬ FromWire oneNumber := by
    rintro ⟨_, hfull⟩
    exact absurd hfull (by decide)
  have hread : Legal (getScalar 1 (received (List.replicate 9 0))).2.readCursor :=
    Or.inr (by decide)
  refine ⟨fun h => hpartly ?_, fun h => hpartly ?_, fun h => ?_⟩
  · exact (fromWire_of_agrees (q := emittedToClient 0 oneNumber) rfl h).1
  · exact (fromWire_of_agrees (q := emittedToOneClient 0 oneNumber) rfl h).1
  · have hkept := agrees_iff_of_kept hread
      (q := stampByClientHost 0 0 (getScalar 1 (received (List.replicate 9 0))).2) rfl rfl
    exact absurd (hkept.mp h).2 (by decide)

end EnkiNet
