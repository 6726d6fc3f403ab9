import EnkiNet.Fields
import EnkiNet.Operations
import EnkiNet.WireLength

/-!
# A remote procedure call, packet by packet

A call is written to a packet by the caller, relayed by the server and read by every
receiver.  Each of these packets is a copy of the one that the caller has written
(`Copies`), as far as its type and its content go, so all of them carry the call
(`CallPacket`):

* `clientHandler_call`: whoever has the entity and the function reads the parameters and executes
  it once, unless reading them throws an exception;
* `routeRPC_call`: the server sends the packet to the clients that `relayed` says;
* `callRPC_client`, `callRPC_host`: the caller sends it to the server, executes it, or does both.

The arguments are values of `operator<<`, as `fillPacket` writes them.  What the wrapper of the
function reads may be something else, so it is a parameter here (`outcome`).
-/

namespace EnkiNet

open ByteStore Packet Process

/-! ## Copies of a packet -/

namespace Packet

/-- `p` has the type of `w` and holds what was written to `w`, all of it before its own
write cursor and inside its buffer. -/
structure Copies (w p : Packet) : Prop where
  type_eq : p.header.type = w.header.type
  sent : w.writeCursor.pos ≤ 8 * p.bytesWritten
  owned : p.bytesWritten ≤ p.bytes.length
  bits_eq : ∀ pos, 8 * headerSize ≤ pos → pos < w.writeCursor.pos →
    bitAt p.bytes pos = bitAt w.bytes pos

variable {w p : Packet}

theorem Copies.holds (h : Copies w p) : Holds w p := by
  have hsent := h.sent
  have howned := h.owned
  exact ⟨by omega, h.bits_eq⟩

theorem Copies.refl (hw : WellWritten w) (howned : Owned w) : Copies w w := by
  have hbit := hw.bit_le
  have hhead : 8 ≤ w.bytesWritten := hw.headerSize_le
  have hpos : w.writeCursor.pos = 8 * (w.bytesWritten - 1) + w.bitsWritten := rfl
  exact ⟨rfl, by omega, howned, fun _ _ _ => rfl⟩

/-- The cursors for reading and the sender do not matter. -/
theorem Copies.of_same {q : Packet} (h : Copies w p) (htype : q.header.type = p.header.type)
    (hwritten : q.bytesWritten = p.bytesWritten) (hbytes : q.bytes = p.bytes) : Copies w q where
  type_eq := htype.trans h.type_eq
  sent := hwritten ▸ h.sent
  owned := by
    rw [hwritten, hbytes]
    exact h.owned
  bits_eq := hbytes ▸ h.bits_eq

theorem Copies.stamped (h : Copies w p) (t : UInt32) : Copies w (Process.stamped t p) where
  type_eq := h.type_eq
  sent := h.sent
  owned := by
    rw [Process.stamped, length_setHeader]
    exact h.owned
  bits_eq pos hpay hpos := (bitAt_setHeader _ p hpay).trans (h.bits_eq pos hpay hpos)

/-- A stamped copy can be sent, and its receiver has a copy. -/
theorem Copies.wire (h : Copies w p) (hw : WellWritten w) (t : UInt32) :
    ∃ data, (Process.stamped t p).wire = .ok data ∧ headerSize ≤ data.length ∧
      Copies w (received data) := by
  have hpay := hw.payload_le
  have hsent := h.sent
  have hstamped := h.stamped t
  have hhead : headerSize ≤ p.bytesWritten := by omega
  have hwire : (Process.stamped t p).wire = .ok ((Process.stamped t p).bytes.take p.bytesWritten) :=
    if_pos hstamped.owned
  obtain ⟨hlen, hheader, hbytes⟩ := wire_setHeader hhead hwire
  refine ⟨_, hwire, by omega, ⟨?_, ?_, Nat.le_refl _, ?_⟩⟩
  · rw [received, hheader]
    exact h.type_eq
  · rw [received, hlen]
    exact hsent
  · intro pos hpos hlt
    have hbyte := hbytes (pos / 8) (by omega)
    rw [← hstamped.bits_eq pos hpos hlt]
    simp only [received, bitAt, byteAt, List.getD_eq_getElem?_getD, hbyte]
    rfl

end Packet

/-! ## Running forward -/

namespace Process

theorem bind_onPacket {α β : Type} {x : PacketM α} {p p' : Packet} {a : α}
    (h : x p = (.ok a, p')) (f : α × Packet → ProcessM β) (s : Process) :
    (onPacket x p >>= f) s = f (a, p') s := by
  apply Fallible.bind_ok
  rw [onPacket, h]

theorem bind_wireBytes {β : Type} {p : Packet} {data : List Byte} (h : p.wire = .ok data)
    (f : List Byte → ProcessM β) (s : Process) : (wireBytes p >>= f) s = f data s := by
  apply Fallible.bind_ok
  rw [wireBytes, h]

/-- When nobody is connected, sending to all of them is no different. -/
theorem postIf_eq {predicate : ClientID → Bool} {origin : ClientID} {p : Packet}
    {data : List Byte} (h : p.wire = .ok data) (s : Process) :
    postIf predicate origin p s = (.ok (), { s with
      outbox := s.outbox ++ (s.connected.filter predicate).map fun c =>
        (c, { origin := origin, data := data }) }) := by
  rw [postIf, Fallible.bind_get]
  split
  · next hnone =>
    cases s
    cases hnone
    simp [Fallible.pure_apply]
  · rw [bind_wireBytes h]
    rfl

end Process

/-! ## The content of a call -/

/-- `operator<<`, and not `writeBits`. -/
def WriteOp.Streamed : WriteOp → Prop
  | .bits _ => False
  | _ => True

/-- `operator>>`, and not `readBits`. -/
def ReadOp.Streamed : ReadOp → Prop
  | .bits _ => False
  | _ => True

/-- The parameter that the argument is for; a nested packet is read as a whole. -/
def WriteOp.parameter : WriteOp → ReadOp
  | .scalar k _ => .scalar k
  | .string _ => .string
  | .vector k _ _ => .vector k
  | .entityInfo _ => .entityInfo
  | .packet _ _ => .packet []
  | .bits f => .bits f.width

theorem stores_streamed {op : WriteOp} (hstream : op.Streamed) (hrep : op.Representable) :
    Stores Packet.Owned op.perform := by
  cases op with
  | scalar k v => exact (stores_serialize _).weaken
  | string s => exact (stores_putString s).weaken
  | vector k xs nonempty => exact (stores_putVector _).weaken
  | entityInfo e => exact (stores_putEntityInfo e).weaken
  | packet h script =>
      obtain ⟨q, hwrite, _⟩ :=
        WriteOp.mirrorsAll script hrep.1 (ofHeader h) (wellWritten_ofHeader h)
      intro p hp howned
      simp only [WriteOp.perform, hwrite]
      exact (stores_putVector _).weaken p hp howned
  | bits f => cases hstream

theorem stores_arguments {arguments : List WriteOp} (hstream : ∀ op ∈ arguments, op.Streamed)
    (hrep : WriteOp.AllRepresentable arguments) :
    Stores Packet.Owned (WriteOp.performAll arguments) := by
  induction arguments with
  | nil => exact fun p hp howned => ⟨by simp [WriteOp.performAll], hp, howned⟩
  | cons op ops ih =>
      apply Stores.bind (stores_streamed (hstream op List.mem_cons_self) hrep.1)
      exact ih (fun o ho => hstream o (List.mem_cons_of_mem op ho)) hrep.2

/-! ### Reading parameters -/

/-- An argument is read as what it has been written as. -/
theorem WriteOp.mirrors_parameter {op : WriteOp} (hrep : op.Representable) :
    ∃ v, Mirrors op.perform op.parameter.perform v := by
  cases op with
  | scalar k v => exact ⟨_, WriteOp.mirrors (.scalar k v) hrep⟩
  | string s => exact ⟨_, WriteOp.mirrors (.string s) hrep⟩
  | vector k xs nonempty => exact ⟨_, WriteOp.mirrors (.vector k xs nonempty) hrep⟩
  | entityInfo e => exact ⟨_, WriteOp.mirrors (.entityInfo e) hrep⟩
  | bits f => exact ⟨_, WriteOp.mirrors (.bits f) hrep⟩
  | packet h script =>
      obtain ⟨q, hwrite, _, hext, _⟩ :=
        WriteOp.mirrorsAll script hrep.1 (ofHeader h) (wellWritten_ofHeader h)
      have hlt := hrep.2
      rw [hwrite] at hlt
      have hlen : headerSize ≤ q.bytes.length := by
        have hle := hext.length_le
        simpa [ofHeader] using hle
      have hput : (WriteOp.packet h script).perform = putPacket q := by
        funext p
        simp only [WriteOp.perform, hwrite]
      rw [hput]
      exact ⟨.packet (received q.bytes).header [], (mirrors_packet hlen hlt).andThen rfl⟩

theorem WriteOp.mirrors_parameters {ops : List WriteOp} (hrep : WriteOp.AllRepresentable ops) :
    ∃ vs, Mirrors (WriteOp.performAll ops) (ReadOp.performAll (ops.map WriteOp.parameter)) vs := by
  induction ops with
  | nil => exact ⟨[], Mirrors.pure []⟩
  | cons op ops ih =>
      obtain ⟨v, hfirst⟩ := WriteOp.mirrors_parameter hrep.1
      obtain ⟨vs, hrest⟩ := ih hrep.2
      exact ⟨v :: vs, hfirst.bind (hrest.andThen rfl)⟩

theorem streamed_parameter {op : WriteOp} (h : op.Streamed) : op.parameter.Streamed := by
  cases op <;> exact h

theorem reads_streamed {op : ReadOp} (h : op.Streamed) : Reads op.perform := by
  cases op with
  | scalar k => exact (reads_getScalar k).bind fun _ => Reads.pure _
  | string => exact reads_getString.bind fun _ => Reads.pure _
  | vector k => exact (reads_getVector k).bind fun _ => Reads.pure _
  | entityInfo => exact reads_getEntityInfo.bind fun _ => Reads.pure _
  | packet script =>
      refine reads_getPacket.bind fun q => ?_
      rcases ReadOp.performAll script q with ⟨e | vs, _⟩
      · exact Reads.fail e
      · exact Reads.pure _
  | bits width => cases h

theorem reads_performAll {ops : List ReadOp} (h : ∀ op ∈ ops, op.Streamed) :
    Reads (ReadOp.performAll ops) := by
  induction ops with
  | nil => exact Reads.pure []
  | cons op ops ih =>
      refine (reads_streamed (h op List.mem_cons_self)).bind fun v => ?_
      exact (ih fun o ho => h o (List.mem_cons_of_mem op ho)).bind fun _ => Reads.pure _

/-- What is in the packet of a call, with the parameters as the wrapper of the function reads
them. -/
def readParameters (rpc : EntityRPC) : PacketM (List Value) := do
  let _ ← getEntityInfo
  let _ ← getString
  ReadOp.performAll rpc.parameters

/-- The function can be called with what is in the packet. -/
def EntityRPC.Legible (rpc : EntityRPC) (p : Packet) : Prop :=
  ∃ values, (readParameters rpc p).1 = .ok values

/-- The effects of handling a packet that carries a call: an exception is caught.  There are none
where reading the parameters runs into undefined behaviour. -/
def EntityRPC.outcome (rpc : EntityRPC) (info : EntityInfo) (name : StdString) (p : Packet) :
    Option (List Effect) :=
  match (readParameters rpc p).1 with
  | .ok values => some [.execute info name values]
  | .error (.undefined _) => none
  | .error _ => some []

theorem EntityRPC.legible_iff {rpc : EntityRPC} (info : EntityInfo) (name : StdString)
    {p : Packet} :
    rpc.Legible p ↔ ∃ values, rpc.outcome info name p = some [.execute info name values] := by
  rw [Legible, outcome]
  rcases (readParameters rpc p).1 with e | values
  · cases e <;> simp
  · simp

theorem EntityRPC.outcome_congr {rpc : EntityRPC} (hrpc : ∀ op ∈ rpc.parameters, op.Streamed)
    (info : EntityInfo) (name : StdString) {p q : Packet} (h : SameAhead p q) :
    rpc.outcome info name q = rpc.outcome info name p := by
  have hreads : Reads (readParameters rpc) :=
    reads_getEntityInfo.bind fun _ => reads_getString.bind fun _ => reads_performAll hrpc
  obtain ⟨r, c, hp, hq, _⟩ := hreads p q h
  rw [outcome, outcome, hp, hq]

/-! ### Packets that carry a call -/

/-- What `RPCManager::call` writes: to a fresh packet the info, then the name, then the
arguments. -/
structure WrittenCall (info : EntityInfo) (name : StdString) (arguments : List WriteOp)
    (w₁ w₂ w : Packet) : Prop where
  info_ok : putEntityInfo info (ofHeader { type := .entityRpc }) = (.ok (), w₁)
  name_ok : putString name w₁ = (.ok (), w₂)
  arguments_ok : WriteOp.performAll arguments w₂ = (.ok (), w)

/-- The packet that `RPCManager::call` makes of a call on an entity. -/
def entityCall (info : EntityInfo) (name : StdString) (arguments : List WriteOp) : Packet :=
  ((do putEntityInfo info; putString name; WriteOp.performAll arguments : PacketM Unit)
    (ofHeader { type := .entityRpc })).2

/-- The packet carries the call: it is a copy of the packet that the caller has written, with the
same bytes behind the header. -/
structure CallPacket (info : EntityInfo) (name : StdString) (arguments : List WriteOp)
    (p : Packet) :
    Prop where
  copies : Copies (entityCall info name arguments) p
  written_eq : p.written.drop headerSize = (entityCall info name arguments).written.drop headerSize

/-- A datagram that carries the call. -/
def CallDatagram (info : EntityInfo) (name : StdString) (arguments : List WriteOp)
    (data : List Byte) : Prop :=
  headerSize ≤ data.length ∧ CallPacket info name arguments (received data)

/-- The packet that somebody else gets. -/
def receivedCall (info : EntityInfo) (name : StdString) (arguments : List WriteOp) : Packet :=
  received (entityCall info name arguments).written

section

variable {info : EntityInfo} {name : StdString} {arguments : List WriteOp} {p w₁ w₂ w : Packet}

theorem WrittenCall.eq_entityCall (h : WrittenCall info name arguments w₁ w₂ w) :
    w = entityCall info name arguments := by
  rw [entityCall, Fallible.bind_ok h.info_ok, Fallible.bind_ok h.name_ok, h.arguments_ok]

/-- Each part of a written call starts where the one before it ends. -/
structure WrittenCall.Parts (w₁ w₂ w : Packet) : Prop where
  info : WellWritten w₁ ∧ Extends (ofHeader { type := .entityRpc }) w₁
  name : WellWritten w₂ ∧ Extends w₁ w₂
  arguments : WellWritten w ∧ Extends w₂ w

theorem WrittenCall.parts (h : WrittenCall info name arguments w₁ w₂ w)
    (hrep : WriteOp.AllRepresentable arguments) : WrittenCall.Parts w₁ w₂ w := by
  have hfresh := wellWritten_ofHeader { type := .entityRpc }
  have hinfo := written_of_mirrors (mirrors_entityInfo info) hfresh h.info_ok
  have hname := written_of_mirrors (mirrors_string name) hinfo.1 h.name_ok
  exact ⟨hinfo, hname,
    written_of_mirrors (WriteOp.mirrorsAll arguments hrep) hname.1 h.arguments_ok⟩

/-- Writing a call succeeds. -/
theorem exists_writtenCall (info : EntityInfo) (name : StdString) {arguments : List WriteOp}
    (hrep : WriteOp.AllRepresentable arguments) :
    ∃ w₁ w₂, WrittenCall info name arguments w₁ w₂ (entityCall info name arguments) := by
  obtain ⟨w₁, hinfo, hw₁, _, _⟩ := mirrors_entityInfo info _
    (wellWritten_ofHeader { type := .entityRpc })
  obtain ⟨w₂, hname, hw₂, _, _⟩ := mirrors_string name w₁ hw₁
  obtain ⟨w, harguments, _, _, _⟩ := WriteOp.mirrorsAll arguments hrep w₂ hw₂
  have hwritten : WrittenCall info name arguments w₁ w₂ w := ⟨hinfo, hname, harguments⟩
  exact ⟨w₁, w₂, hwritten.eq_entityCall ▸ hwritten⟩

theorem wellWritten_entityCall (info : EntityInfo) (name : StdString) {arguments : List WriteOp}
    (hrep : WriteOp.AllRepresentable arguments) :
    WellWritten (entityCall info name arguments) ∧
      Extends (ofHeader { type := .entityRpc }) (entityCall info name arguments) := by
  obtain ⟨w₁, w₂, hwritten⟩ := exists_writtenCall info name hrep
  have hparts := hwritten.parts hrep
  exact ⟨hparts.arguments.1, (hparts.info.2.trans hparts.name.2).trans hparts.arguments.2⟩

/-- The packet that the caller has written carries the call. -/
theorem callPacket_entityCall (info : EntityInfo) (name : StdString) {arguments : List WriteOp}
    (hrep : WriteOp.AllRepresentable arguments) (hstream : ∀ op ∈ arguments, op.Streamed) :
    CallPacket info name arguments (entityCall info name arguments) ∧
      (entityCall info name arguments).readCursor = ⟨headerSize, 8⟩ := by
  obtain ⟨w₁, w₂, hwritten⟩ := exists_writtenCall info name hrep
  obtain ⟨hw, hext⟩ := wellWritten_entityCall info name hrep
  have hname := (hwritten.parts hrep).name.1
  have howned₂ : Packet.Owned w₂ := by
    have h := (stores_putString name w₁ (hwritten.parts hrep).info.1.headerSize_le trivial).2.2
    rwa [hwritten.name_ok] at h
  have howned : Packet.Owned (entityCall info name arguments) := by
    have h := (stores_arguments hstream hrep w₂ hname.headerSize_le howned₂).2.2
    rwa [hwritten.arguments_ok] at h
  exact ⟨⟨Copies.refl hw howned, rfl⟩, hext.readCursor_eq⟩

theorem CallPacket.of_same {q : Packet} (h : CallPacket info name arguments p)
    (htype : q.header.type = p.header.type) (hwritten : q.bytesWritten = p.bytesWritten)
    (hbytes : q.bytes = p.bytes) : CallPacket info name arguments q where
  copies := h.copies.of_same htype hwritten hbytes
  written_eq := by
    rw [written, hwritten, hbytes]
    exact h.written_eq

/-- A new header does not change what is behind it. -/
theorem written_stamped (t : UInt32) (p : Packet) :
    (Process.stamped t p).written.drop headerSize = p.written.drop headerSize := by
  rw [written, written, List.drop_take, List.drop_take]
  congr 1
  exact drop_setHeader _ p

theorem CallPacket.stamped (h : CallPacket info name arguments p) (t : UInt32) :
    CallPacket info name arguments (Process.stamped t p) where
  copies := h.copies.stamped t
  written_eq := (written_stamped t p).trans h.written_eq

/-- A packet that carries a call can be sent, and so does what arrives. -/
theorem CallPacket.wire (h : CallPacket info name arguments p)
    (hrep : WriteOp.AllRepresentable arguments) (t : UInt32) :
    ∃ data, (Process.stamped t p).wire = .ok data ∧ CallDatagram info name arguments data := by
  obtain ⟨data, hwire, hlen, hreceived⟩ := h.copies.wire (wellWritten_entityCall info name hrep).1 t
  refine ⟨data, hwire, hlen, hreceived, ?_⟩
  have hdata : data = (Process.stamped t p).written := by
    unfold Packet.wire at hwire
    split at hwire
    · exact (Except.ok.inj hwire).symm
    · cases hwire
  have hall : (received data).written = data := List.take_length
  rw [hall, hdata]
  exact (h.stamped t).written_eq

theorem CallPacket.type_eq (h : CallPacket info name arguments p)
    (hrep : WriteOp.AllRepresentable arguments) : p.header.type = .entityRpc := by
  rw [h.copies.type_eq, (wellWritten_entityCall info name hrep).2.header_eq]
  rfl

/-- What everyone reads first from a packet that carries a call. -/
theorem CallPacket.reads (h : CallPacket info name arguments p)
    (hrep : WriteOp.AllRepresentable arguments) (hunread : p.readCursor = ⟨headerSize, 8⟩) :
    ∃ c₁ c₂, getEntityInfo p = (.ok info, p.withRead c₁) ∧
      getString (p.withRead c₁) = (.ok name, p.withRead c₂) ∧
      ∀ (ops : List ReadOp) (values : List Value),
        Mirrors (WriteOp.performAll arguments) (ReadOp.performAll ops) values →
        (ReadOp.performAll ops (p.withRead c₂)).1 = .ok values := by
  obtain ⟨w₁, w₂, hwrite⟩ := exists_writtenCall info name hrep
  have hparts := hwrite.parts hrep
  obtain ⟨v₁, hv₁, _, _, hread₁⟩ := mirrors_entityInfo info _
    (wellWritten_ofHeader { type := .entityRpc })
  obtain ⟨v₂, hv₂, _, _, hread₂⟩ := mirrors_string name w₁ hparts.info.1
  rw [hwrite.info_ok] at hv₁
  rw [hwrite.name_ok] at hv₂
  cases hv₁
  cases hv₂
  have hholds := h.copies.holds
  have hholds₂ := hholds.of_extends hparts.arguments.2
  have hholds₁ := hholds₂.of_extends hparts.name.2
  have hinfo := hread₁ p hunread hholds₁
  have hname := hread₂ (p.withRead w₁.writeCursor) (withRead_readCursor _ _) (hholds₂.withRead _)
  rw [withRead_withRead] at hname
  refine ⟨w₁.writeCursor, w₂.writeCursor, hinfo, hname, fun ops values hmirror => ?_⟩
  obtain ⟨v, hv, _, _, hread⟩ := hmirror w₂ hparts.name.1
  rw [hwrite.arguments_ok] at hv
  cases hv
  have harguments := hread (p.withRead w₂.writeCursor) (withRead_readCursor _ _)
    (hholds.withRead _)
  rw [harguments]

/-- There is more than a header. -/
theorem CallPacket.headerSize_lt (h : CallPacket info name arguments p)
    (hrep : WriteOp.AllRepresentable arguments) (hunread : p.readCursor = ⟨headerSize, 8⟩) :
    headerSize < p.bytes.length := by
  obtain ⟨c₁, _, hinfo, _, _⟩ := h.reads hrep hunread
  obtain ⟨ID, p₁, hID, _⟩ := Fallible.bind_eq_ok hinfo
  obtain ⟨raw, p₂, hraw, _⟩ := Fallible.bind_eq_ok hID
  have hbyte : p.bytesRead = headerSize := congrArg Cursor.byte hunread
  unfold deserialize at hraw
  split at hraw
  · cases hraw
  · next hin =>
    rw [hbyte] at hin
    omega

/-- The parameters are read from where the name ends. -/
theorem CallPacket.readParameters_eq (h : CallPacket info name arguments p)
    (hrep : WriteOp.AllRepresentable arguments) (hunread : p.readCursor = ⟨headerSize, 8⟩)
    {r : Registry} {rpc : EntityRPC} (hrpc : r.entityRpcs info.type name = some rpc) :
    (Process.readCall r p).1 = (readParameters rpc p).1.map fun values => (name, some values) := by
  obtain ⟨c₁, c₂, hinfo, hname, _⟩ := h.reads hrep hunread
  rw [Process.readCall, readParameters, Fallible.bind_ok hinfo, Fallible.bind_ok hname,
    Fallible.bind_ok hinfo, Fallible.bind_ok hname]
  simp only [hrpc]
  rcases hread : ReadOp.performAll rpc.parameters (p.withRead c₂) with ⟨e | values, q⟩
  · rw [Fallible.bind_error hread]
    rfl
  · rw [Fallible.bind_ok hread]
    rfl

/-- **Parameters that are read as the arguments have been written** can be read. -/
theorem CallPacket.legible (h : CallPacket info name arguments p)
    (hrep : WriteOp.AllRepresentable arguments) (hunread : p.readCursor = ⟨headerSize, 8⟩)
    {rpc : EntityRPC} (hparameters : rpc.parameters = arguments.map WriteOp.parameter) :
    rpc.Legible p := by
  obtain ⟨c₁, c₂, hinfo, hname, hread⟩ := h.reads hrep hunread
  obtain ⟨values, hmirror⟩ := WriteOp.mirrors_parameters hrep
  refine ⟨values, ?_⟩
  rw [readParameters, Fallible.bind_ok hinfo, Fallible.bind_ok hname, hparameters]
  exact hread _ values hmirror

/-- The packet has been made of bytes that have come. -/
def OnWire (p : Packet) : Prop := p.bytesWritten = p.bytes.length

/-- **All receivers read the same.** -/
theorem CallPacket.outcome_eq (h : CallPacket info name arguments p)
    (hrep : WriteOp.AllRepresentable arguments) (hunread : p.readCursor = ⟨headerSize, 8⟩)
    (hwire : OnWire p) {rpc : EntityRPC} (hrpc : ∀ op ∈ rpc.parameters, op.Streamed) :
    rpc.outcome info name p = rpc.outcome info name (receivedCall info name arguments) := by
  have hall : p.written = p.bytes := by
    rw [written, hwire, List.take_length]
  have hsame := h.written_eq
  rw [hall] at hsame
  have hbyte : (receivedCall info name arguments).bytesRead = headerSize := rfl
  have hw := (wellWritten_entityCall info name hrep).1
  have hcopies := h.copies
  have hlong : headerSize ≤ (entityCall info name arguments).written.length := by
    have hpay := hw.payload_le
    have hlen := hw.headerSize_le
    have hdrop := congrArg List.length hsame
    have hlt := h.headerSize_lt hrep hunread
    rw [List.length_drop, List.length_drop] at hdrop
    omega
  refine EntityRPC.outcome_congr hrpc info name ⟨hunread, ?_, ?_⟩
  · have hdrop := congrArg List.length hsame
    have hlt := h.headerSize_lt hrep hunread
    rw [List.length_drop, List.length_drop] at hdrop
    change p.bytes.length = (entityCall info name arguments).written.length
    omega
  · rw [hbyte]
    exact hsame

theorem CallPacket.outcome_stamped (h : p.readCursor = ⟨headerSize, 8⟩) {q : Packet}
    (hread : q.readCursor = p.readCursor) {t : UInt32}
    (hbytes : q.bytes = (Process.stamped t p).bytes) {rpc : EntityRPC}
    (hrpc : ∀ op ∈ rpc.parameters, op.Streamed) :
    rpc.outcome info name q = rpc.outcome info name p := by
  have hbyte : p.bytesRead = headerSize := congrArg Cursor.byte h
  refine EntityRPC.outcome_congr hrpc info name ⟨hread, ?_, ?_⟩
  · rw [hbytes]
    exact length_setHeader _ p
  · rw [hbyte, hbytes]
    exact drop_setHeader _ p

/-! ## Executing a call -/

/-- The process has the entity, and the function under this type. -/
structure Shares (info : EntityInfo) (name : StdString) (rpc : EntityRPC) (s : Process) : Prop where
  held : s.scene.held info.ID = some info
  registered : s.scene.registry.entityRpcs info.type name = some rpc

namespace Process

variable {rpc : EntityRPC} {s : Process} {origin : ClientID} {ran : List Effect}

/-- `RPCManager::receive` executes the function once, or catches an exception. -/
theorem receiveRPC_call (h : CallPacket info name arguments p)
    (hrep : WriteOp.AllRepresentable arguments) (hunread : p.readCursor = ⟨headerSize, 8⟩)
    (hs : Shares info name rpc s) (hran : rpc.outcome info name p = some ran) :
    receiveRPC p info s = (.ok (), { s with effects := s.effects ++ ran }) := by
  have hread := h.readParameters_eq hrep hunread hs.registered
  have hlen := h.headerSize_lt hrep hunread
  have hbyte : p.bytesRead = headerSize := congrArg Cursor.byte hunread
  rw [receiveRPC, Fallible.bind_get, if_neg (by omega)]
  rw [EntityRPC.outcome] at hran
  rw [hread]
  cases hvalues : (readParameters rpc p).1 with
  | ok values =>
      rw [hvalues] at hran
      cases hran
      rfl
  | error e =>
      rw [hvalues] at hran
      cases e with
      | undefined u => cases hran
      | _ =>
          cases hran
          rw [List.append_nil]
          rfl

/-- Undefined behaviour is not caught. -/
theorem receiveRPC_undefined {s' : Process} (h : CallPacket info name arguments p)
    (hrep : WriteOp.AllRepresentable arguments) (hunread : p.readCursor = ⟨headerSize, 8⟩)
    (hs : Shares info name rpc s) (hnone : rpc.outcome info name p = none) :
    receiveRPC p info s ≠ (.ok (), s') := by
  have hread := h.readParameters_eq hrep hunread hs.registered
  have hlen := h.headerSize_lt hrep hunread
  have hbyte : p.bytesRead = headerSize := congrArg Cursor.byte hunread
  rw [receiveRPC, Fallible.bind_get, if_neg (by omega)]
  rw [EntityRPC.outcome] at hnone
  rw [hread]
  cases hvalues : (readParameters rpc p).1 with
  | ok values =>
      rw [hvalues] at hnone
      cases hnone
  | error e =>
      rw [hvalues] at hnone
      cases e with
      | undefined u =>
          intro hrun
          cases hrun
      | _ => cases hnone

/-- Handling a call comes down to reading it from the front. -/
theorem clientHandler_eq (origin : ClientID) (h : CallPacket info name arguments p)
    (hrep : WriteOp.AllRepresentable arguments) (hunread : p.readCursor = ⟨headerSize, 8⟩)
    (hs : Shares info name rpc s) :
    ∃ q, CallPacket info name arguments q ∧ q.readCursor = ⟨headerSize, 8⟩ ∧ q.bytes = p.bytes ∧
      clientHandler origin p s = receiveRPC q info s := by
  obtain ⟨c₁, _, hinfo, _, _⟩ := h.reads hrep hunread
  obtain ⟨ent, hent, heq⟩ := Option.map_eq_some_iff.mp hs.held
  refine ⟨(p.withRead c₁).resetReadPosition, h.of_same rfl rfl rfl, rfl, rfl, ?_⟩
  simp only [clientHandler, h.type_eq hrep]
  rw [bind_onPacket hinfo, Fallible.bind_get]
  simp only [hent, heq, if_true]

/-- **A receiver executes the function once**, if it can read the parameters. -/
theorem clientHandler_call (h : CallPacket info name arguments p)
    (hrep : WriteOp.AllRepresentable arguments) (hunread : p.readCursor = ⟨headerSize, 8⟩)
    (hs : Shares info name rpc s) (hrpc : ∀ op ∈ rpc.parameters, op.Streamed)
    (hran : rpc.outcome info name p = some ran) :
    clientHandler origin p s = (.ok (), { s with effects := s.effects ++ ran }) := by
  obtain ⟨q, hq, hread, hbytes, hrun⟩ := clientHandler_eq origin h hrep hunread hs
  have hsame : rpc.outcome info name q = rpc.outcome info name p :=
    EntityRPC.outcome_congr hrpc info name
      ⟨hread.trans hunread.symm, by rw [hbytes], by rw [hbytes]⟩
  rw [hrun, receiveRPC_call hq hrep hread hs (hsame.trans hran)]

theorem clientHandler_undefined {s' : Process} (h : CallPacket info name arguments p)
    (hrep : WriteOp.AllRepresentable arguments) (hunread : p.readCursor = ⟨headerSize, 8⟩)
    (hs : Shares info name rpc s) (hrpc : ∀ op ∈ rpc.parameters, op.Streamed)
    (hnone : rpc.outcome info name p = none) : clientHandler origin p s ≠ (.ok (), s') := by
  obtain ⟨q, hq, hread, hbytes, hrun⟩ := clientHandler_eq origin h hrep hunread hs
  have hsame : rpc.outcome info name q = rpc.outcome info name p :=
    EntityRPC.outcome_congr hrpc info name
      ⟨hread.trans hunread.symm, by rw [hbytes], by rw [hbytes]⟩
  rw [hrun]
  exact receiveRPC_undefined hq hrep hread hs (hsame.trans hnone)

/-! ## Relaying a call -/

/-- The call has been sent to the clients that satisfy `who`, and if the local client is one of
them, handling it has had the effects `ran`. -/
structure Relayed (info : EntityInfo) (name : StdString) (arguments : List WriteOp)
    (ran : List Effect) (who : ClientID → Bool) (s s' : Process) : Prop where
  frame : Frame s s'
  scene_eq : s'.scene = s.scene
  effects_eq : s'.effects = s.effects ++ if who 1 then ran else []
  posted : ∀ c ∈ s.connected, who c = true →
    ∃ d, CallDatagram info name arguments d.data ∧ s'.pending c = s.pending c ++ [d]
  skipped : ∀ c ∈ s.connected, who c = false → s'.pending c = s.pending c

theorem Relayed.nobody {who : ClientID → Bool} (h : ∀ c, who c = false) :
    Relayed info name arguments ran who s s where
  frame := Frame.refl s
  scene_eq := rfl
  effects_eq := by simp [h 1]
  posted c _ hyes := by simp [h c] at hyes
  skipped _ _ _ := rfl

theorem Relayed.congr {who who' : ClientID → Bool} {s' : Process}
    (h : Relayed info name arguments ran who s s') (hwho : ∀ c, who' c = who c) :
    Relayed info name arguments ran who' s s' := by
  rw [funext hwho]
  exact h

/-- The caller handles its own call. -/
theorem Relayed.own {who : ClientID → Bool} {t : Process}
    (h : Relayed info name arguments [] who s t)
    (hone : who 1 = false) (hreserved : 1 ∉ s.connected) (own : Bool) :
    Relayed info name arguments ran (fun c => (c = 1 && own) || who c) s
      { t with effects := t.effects ++ if own then ran else [] } where
  frame := by
    have hframe := h.frame
    exact ⟨hframe.role_eq, hframe.id_eq, hframe.connected_eq, hframe.registry_eq, hframe.ready_eq⟩
  scene_eq := h.scene_eq
  effects_eq := by simp [h.effects_eq, hone]
  posted c hc hyes := by
    have hne : c ≠ 1 := fun heq => hreserved (heq ▸ hc)
    exact h.posted c hc (by simpa [hne] using hyes)
  skipped c hc hno := by
    have hne : c ≠ 1 := fun heq => hreserved (heq ▸ hc)
    exact h.skipped c hc (by simpa [hne] using hno)

/-- Post a call, and let the local client handle it if it is to. -/
theorem relayed_post {who : ClientID → Bool} {data : List Byte} (origin : ClientID)
    (dests : List ClientID) {t : Process} (hdata : CallDatagram info name arguments data)
    (hyes : ∀ c ∈ s.connected, who c = true → dests.count c = 1)
    (hno : ∀ c ∈ s.connected, who c = false → dests.count c = 0)
    (ht : t = { s with
      outbox := s.outbox ++ dests.map fun c => (c, { origin := origin, data := data })
      effects := s.effects ++ if who 1 then ran else [] }) :
    Relayed info name arguments ran who s t := by
  subst ht
  have hpending : ∀ c, pending { s with
      outbox := s.outbox ++ dests.map fun c => (c, { origin := origin, data := data })
      effects := s.effects ++ if who 1 then ran else [] } c =
      s.pending c ++ List.replicate (dests.count c) { origin := origin, data := data } :=
    pending_post s dests { origin := origin, data := data }
  refine ⟨⟨rfl, rfl, rfl, rfl, rfl⟩, rfl, rfl, ?_, ?_⟩
  · intro c hc hwho
    refine ⟨{ origin := origin, data := data }, hdata, ?_⟩
    rw [hpending, hyes c hc hwho]
    rfl
  · intro c hc hwho
    rw [hpending, hno c hc hwho, List.replicate_zero, List.append_nil]

/-- `x` sends the call to the clients that satisfy `who`, and the local client handles it if it is
one of them.  It does not come to an end if that is undefined behaviour. -/
structure SendsCall (info : EntityInfo) (name : StdString) (arguments : List WriteOp)
    (outcome : Option (List Effect)) (who : ClientID → Bool) (x : ProcessM Unit) (s : Process) :
    Prop where
  runs : (who 1 = true → outcome ≠ none) →
    ∃ s', x s = (.ok (), s') ∧ Relayed info name arguments (outcome.getD []) who s s'
  stuck : who 1 = true → outcome = none → ∀ s', x s ≠ (.ok (), s')

variable {outcome : Option (List Effect)} {x : ProcessM Unit}

theorem SendsCall.nobody {who : ClientID → Bool} (h : ∀ c, who c = false) :
    SendsCall info name arguments outcome who (return ()) s where
  runs _ := ⟨s, rfl, Relayed.nobody h⟩
  stuck hone := by simp [h 1] at hone

theorem SendsCall.congr {who who' : ClientID → Bool}
    (h : SendsCall info name arguments outcome who x s)
    (hwho : ∀ c, who' c = who c) : SendsCall info name arguments outcome who' x s := by
  rw [funext hwho]
  exact h

/-- The local client handles the packet last. -/
theorem SendsCall.of_handled {who : ClientID → Bool} {q : Packet} {t : Process}
    (hone : who 1 = true) (hrun : x s = clientHandler origin q t)
    (hq : CallPacket info name arguments q) (hrep : WriteOp.AllRepresentable arguments)
    (hunread : q.readCursor = ⟨headerSize, 8⟩) (ht : Shares info name rpc t)
    (hrpc : ∀ op ∈ rpc.parameters, op.Streamed)
    (hposted : ∀ ran, Relayed info name arguments ran who s
    { t with effects := t.effects ++ ran }) :
    SendsCall info name arguments (rpc.outcome info name q) who x s where
  runs hdefined := by
    obtain ⟨ran, hran⟩ := Option.ne_none_iff_exists'.mp (hdefined hone)
    rw [hrun, hran]
    exact ⟨_, clientHandler_call hq hrep hunread ht hrpc hran, hposted ran⟩
  stuck _ hnone s' := by
    rw [hrun]
    exact clientHandler_undefined hq hrep hunread ht hrpc hnone

/-- The local client does not get the packet. -/
theorem SendsCall.of_posted {who : ClientID → Bool} {t : Process} (hone : who 1 = false)
    (hrun : x s = (.ok (), t)) (hposted : ∀ ran, Relayed info name arguments ran who s t) :
    SendsCall info name arguments outcome who x s where
  runs _ := ⟨t, hrun, hposted _⟩
  stuck hyes := by simp [hone] at hyes

theorem sendPacketToAllExceptOneClient_call (origin excluded : ClientID)
    (h : CallPacket info name arguments p) (hrep : WriteOp.AllRepresentable arguments)
    (hs : Shares info name rpc s) (hrpc : ∀ op ∈ rpc.parameters, op.Streamed)
    (hrole : s.role = .host) (hnodup : s.connected.Nodup) :
    SendsCall info name arguments (rpc.outcome info name p.resetReadPosition)
      (fun c => c ≠ excluded)
      (sendPacketToAllExceptOneClient origin excluded p) s := by
  obtain ⟨data, hwire, hdata⟩ := h.wire hrep s.now
  have hyes : ∀ c ∈ s.connected, decide (c ≠ excluded) = true →
      (s.connected.filter fun c => c ≠ excluded).count c = 1 := by
    intro c hc hwho
    exact List.count_eq_one_of_mem (hnodup.filter _) (List.mem_filter.mpr ⟨hc, hwho⟩)
  have hno : ∀ c ∈ s.connected, decide (c ≠ excluded) = false →
      (s.connected.filter fun c => c ≠ excluded).count c = 0 := by
    intro c _ hwho
    apply List.count_eq_zero_of_not_mem
    intro hmem
    rw [(List.mem_filter.mp hmem).2] at hwho
    cases hwho
  by_cases hone : excluded = 1
  · have hrun : sendPacketToAllExceptOneClient origin excluded p s = (.ok (), { s with
        outbox := s.outbox ++ (s.connected.filter fun c => c ≠ excluded).map fun c =>
          (c, { origin := origin, data := data }) }) := by
      rw [sendPacketToAllExceptOneClient, Fallible.bind_get, bind_stamp,
        Fallible.bind_ok (postIf_eq hwire s), if_neg fun hboth => hboth.2 hone]
      rfl
    exact SendsCall.of_posted (by simp [hone]) hrun fun ran =>
      relayed_post origin _ hdata hyes hno (by simp [hone])
  · have hloop : CallPacket info name arguments
        { (stamped s.now p).resetReadPosition with
          info := { senderID := 1, timeReceived := s.now } } :=
      (h.stamped s.now).of_same rfl rfl rfl
    have hsame : rpc.outcome info name
        { (stamped s.now p).resetReadPosition with
          info := { senderID := 1, timeReceived := s.now } } =
        rpc.outcome info name p.resetReadPosition :=
      CallPacket.outcome_stamped (p := p.resetReadPosition) rfl (by rfl) (t := s.now) (by rfl) hrpc
    rw [← hsame]
    have hrun : sendPacketToAllExceptOneClient origin excluded p s = clientHandler origin
        { (stamped s.now p).resetReadPosition with info :=
          { senderID := 1, timeReceived := s.now } }
        { s with outbox := s.outbox ++ (s.connected.filter fun c => c ≠ excluded).map fun c =>
          (c, { origin := origin, data := data }) } := by
      rw [sendPacketToAllExceptOneClient, Fallible.bind_get, bind_stamp,
        Fallible.bind_ok (postIf_eq hwire s), if_pos ⟨hrole, hone⟩, loopback, Fallible.bind_get]
    exact SendsCall.of_handled (by simp [Ne.symm hone]) hrun hloop hrep rfl
      ⟨hs.held, hs.registered⟩ hrpc
      fun ran => relayed_post origin _ hdata hyes hno (by simp [Ne.symm hone])

theorem sendPacketToOneClient_call (origin client : ClientID)
    (h : CallPacket info name arguments p) (hrep : WriteOp.AllRepresentable arguments)
    (hs : Shares info name rpc s) (hrpc : ∀ op ∈ rpc.parameters, op.Streamed)
    (hrole : s.role = .host) (hreserved : 1 ∉ s.connected) :
    SendsCall info name arguments (rpc.outcome info name p.resetReadPosition) (fun c => c = client)
      (sendPacketToOneClient origin client p) s := by
  obtain ⟨data, hwire, hdata⟩ := h.wire hrep s.now
  by_cases hone : client = 1
  · have hloop : CallPacket info name arguments (stamped s.now p).resetReadPosition :=
      (h.stamped s.now).of_same rfl rfl rfl
    have hsame : rpc.outcome info name (stamped s.now p).resetReadPosition =
        rpc.outcome info name p.resetReadPosition :=
      CallPacket.outcome_stamped (p := p.resetReadPosition) rfl (by rfl) (t := s.now) (by rfl) hrpc
    rw [← hsame]
    have hrun : sendPacketToOneClient origin client p s =
        clientHandler origin (stamped s.now p).resetReadPosition s := by
      rw [sendPacketToOneClient, Fallible.bind_get, bind_stamp, if_pos ⟨hrole, hone⟩]
    refine SendsCall.of_handled (by simp [hone]) hrun hloop hrep rfl hs hrpc fun ran => ?_
    apply relayed_post origin [] hdata
    · intro c hc hwho
      rw [of_decide_eq_true hwho, hone] at hc
      exact absurd hc hreserved
    · exact fun _ _ _ => rfl
    · simp [hone]
  · have hrun : sendPacketToOneClient origin client p s = (.ok (), { s with
        outbox := s.outbox ++ [client].map fun c => (c, { origin := origin, data := data }) }) := by
      rw [sendPacketToOneClient, Fallible.bind_get, bind_stamp, if_neg fun hboth => hone hboth.2,
        bind_wireBytes hwire]
      rfl
    refine SendsCall.of_posted (by simp [Ne.symm hone]) hrun fun ran => ?_
    apply relayed_post origin [client] hdata
    · intro c _ hwho
      rw [of_decide_eq_true hwho]
      simp
    · intro c _ hwho
      simp [Ne.symm (of_decide_eq_false hwho)]
    · simp [Ne.symm hone]

/-- Whom the server sends a call by client `caller` of an entity that `owner` owns. -/
def relayed (type : RPCType) (caller owner c : ClientID) : Bool :=
  match type with
  | .onlyLocal => false
  | .master => owner ≠ caller ∧ c = owner
  | .remote | .remoteAndLocal => owner = caller ∧ c ≠ caller
  | .masterAndRemote | .all => c ≠ caller

/-- What the server does with the type of the function. -/
def dispatch (type : RPCType) (owner : ClientID) (p : Packet) : ProcessM Unit :=
  match type with
  | .onlyLocal => return ()
  | .master =>
      if owner = p.info.senderID then return ()
      else sendPacketToOneClient p.info.senderID owner p
  | .remote | .remoteAndLocal =>
      if owner = p.info.senderID then
        sendPacketToAllExceptOneClient p.info.senderID p.info.senderID p
      else return ()
  | .masterAndRemote | .all =>
      sendPacketToAllExceptOneClient p.info.senderID p.info.senderID p

theorem dispatch_call (type : RPCType) (h : CallPacket info name arguments p)
    (hrep : WriteOp.AllRepresentable arguments) (hs : Shares info name rpc s)
    (hrpc : ∀ op ∈ rpc.parameters, op.Streamed) (hrole : s.role = .host)
    (hnodup : s.connected.Nodup) (hreserved : 1 ∉ s.connected) :
    SendsCall info name arguments (rpc.outcome info name p.resetReadPosition)
      (relayed type p.info.senderID info.ownerID) (dispatch type info.ownerID p) s := by
  have hothers := sendPacketToAllExceptOneClient_call p.info.senderID p.info.senderID h hrep hs
    hrpc hrole hnodup
  cases type with
  | onlyLocal => exact SendsCall.nobody fun _ => rfl
  | master =>
      rw [dispatch]
      by_cases hself : info.ownerID = p.info.senderID
      · rw [if_pos hself]
        exact SendsCall.nobody fun c => by simp [relayed, hself]
      · rw [if_neg hself]
        have hone := sendPacketToOneClient_call p.info.senderID info.ownerID h hrep hs hrpc hrole
          hreserved
        exact hone.congr fun c => by simp [relayed, hself]
  | remote | remoteAndLocal =>
      rw [dispatch]
      by_cases hself : info.ownerID = p.info.senderID
      · rw [if_pos hself]
        exact hothers.congr fun c => by simp [relayed, hself]
      · rw [if_neg hself]
        exact SendsCall.nobody fun c => by simp [relayed, hself]
  | masterAndRemote | all => exact hothers

/-- **The server's routing.** -/
theorem routeRPC_call (h : CallPacket info name arguments p)
    (hrep : WriteOp.AllRepresentable arguments) (hunread : p.readCursor = ⟨headerSize, 8⟩)
    (hs : Shares info name rpc s) (hrpc : ∀ op ∈ rpc.parameters, op.Streamed)
    (hrole : s.role = .host) (hnodup : s.connected.Nodup) (hreserved : 1 ∉ s.connected) :
    SendsCall info name arguments (rpc.outcome info name p)
      (relayed rpc.rpctype p.info.senderID info.ownerID) (routeRPC p) s := by
  obtain ⟨c₁, c₂, hinfo, hname, _⟩ := h.reads hrep hunread
  obtain ⟨ent, hent, heq⟩ := Option.map_eq_some_iff.mp hs.held
  have hroute : routeRPC p s = dispatch rpc.rpctype info.ownerID (p.withRead c₂) s := by
    rw [routeRPC, bind_onPacket hinfo]
    dsimp only
    rw [bind_onPacket hname, Fallible.bind_get]
    simp only [hs.registered, hent, heq, if_true]
    cases rpc.rpctype <;> rfl
  have hsame : rpc.outcome info name (p.withRead c₂).resetReadPosition =
      rpc.outcome info name p :=
    EntityRPC.outcome_congr hrpc info name ⟨hunread.symm, rfl, rfl⟩
  have hdispatch := dispatch_call rpc.rpctype (p := p.withRead c₂) (h.of_same rfl rfl rfl) hrep hs
    hrpc hrole hnodup hreserved
  rw [hsame] at hdispatch
  exact ⟨fun hdefined => hroute ▸ hdispatch.runs hdefined,
    fun hone hnone => hroute ▸ hdispatch.stuck hone hnone⟩

theorem serverHandler_call (stack : Nat) (hook : EntityID → List WriteOp)
    (h : CallPacket info name arguments p) (hrep : WriteOp.AllRepresentable arguments)
    (hunread : p.readCursor = ⟨headerSize, 8⟩) (hs : Shares info name rpc s)
    (hrpc : ∀ op ∈ rpc.parameters, op.Streamed) (hrole : s.role = .host)
    (hnodup : s.connected.Nodup) (hreserved : 1 ∉ s.connected) :
    SendsCall info name arguments (rpc.outcome info name p)
      (relayed rpc.rpctype p.info.senderID info.ownerID) (serverHandler stack hook p) s := by
  have htype := h.type_eq hrep
  have hbranch : serverHandler stack hook p = routeRPC p := by simp only [serverHandler, htype]
  rw [hbranch]
  exact routeRPC_call h hrep hunread hs hrpc hrole hnodup hreserved

/-! ## Making a call -/

/-- Who executes a call by client `caller` of an entity that `owner` owns. -/
def executes (type : RPCType) (caller owner c : ClientID) : Bool :=
  match type with
  | .master => c = owner
  | .remote => owner = caller ∧ c ≠ owner
  | .remoteAndLocal => owner = caller
  | .masterAndRemote => c ≠ caller
  | .onlyLocal => c = caller
  | .all => true

/-- The server sends nothing back to the caller. -/
theorem relayed_caller (type : RPCType) (caller owner : ClientID) :
    relayed type caller owner caller = false := by
  cases type <;> simp [relayed, eq_comm]

/-- **The pieces agree**: what the caller does itself and what the server relays is what
the type of the function promises. -/
theorem executes_eq (type : RPCType) (caller owner c : ClientID) :
    executes type caller owner c =
      ((c = caller && (RPCInfo type (caller = owner)).1) ||
        ((RPCInfo type (caller = owner)).2 && relayed type caller owner c)) := by
  by_cases howner : caller = owner
  · subst howner
    by_cases hc : c = caller <;> cases type <;> simp [executes, RPCInfo, relayed, hc]
  · by_cases hc : c = caller
    · subst hc
      cases type <;> simp [executes, RPCInfo, relayed, howner, Ne.symm howner]
    · cases type <;> simp [executes, RPCInfo, relayed, howner, hc, Ne.symm howner]

theorem executes_caller (type : RPCType) (caller owner : ClientID) :
    executes type caller owner caller = (RPCInfo type (caller = owner)).1 := by
  simp [executes_eq, relayed_caller]

/-- The entity is networked, so its owner is who it says. -/
theorem isOwner_eq {ent : Entity} (hrole : s.role ≠ .server) (hpos : 0 < ent.info.ID) :
    s.isOwner ent = decide (s.id = ent.info.ownerID) := by
  have hlocal : ¬ ent.info.ID < 0 := Int32.not_lt.mpr (Int32.le_of_lt hpos)
  rw [isOwner, if_neg hlocal, if_neg hrole]

/-- The end of a call: the caller executes the function itself if it is to. -/
theorem receiveRPC_self (own : Bool) (h : CallPacket info name arguments p)
    (hrep : WriteOp.AllRepresentable arguments) (hunread : p.readCursor = ⟨headerSize, 8⟩)
    (hs : Shares info name rpc s) (hdefined : own = true → rpc.outcome info name p ≠ none) :
    (if own then receiveRPC p info else return ()) s = (.ok (), { s with
      effects := s.effects ++ if own then (rpc.outcome info name p).getD [] else [] }) := by
  cases own with
  | true =>
      obtain ⟨ran, hran⟩ := Option.ne_none_iff_exists'.mp (hdefined rfl)
      rw [hran]
      exact receiveRPC_call h hrep hunread hs hran
  | false =>
      simp only [Bool.false_eq_true, if_false, List.append_nil]
      rfl

variable (stack : Nat) (hook : EntityID → List WriteOp) {target : Entity}

/-- What a call comes down to when the packet has been written. -/
theorem callRPC_eq {w₁ w₂ w : Packet} (hwritten : WrittenCall info name arguments w₁ w₂ w)
    (hs : Shares info name rpc s) (hrole : s.role ≠ .server) (htarget : target.info = info)
    (hpos : 0 < info.ID) :
    callRPC stack hook target name arguments s = (do
      let p ← if (RPCInfo rpc.rpctype (s.id = info.ownerID)).2 then sendPacket stack hook w
        else pure w
      if (RPCInfo rpc.rpctype (s.id = info.ownerID)).1 then receiveRPC p info
        else return ()) s := by
  subst htarget
  rw [callRPC, Fallible.bind_get, if_neg hrole]
  simp only [hs.registered]
  rw [bind_onPacket hwritten.info_ok]
  dsimp only
  rw [bind_onPacket hwritten.name_ok]
  dsimp only
  rw [bind_onPacket hwritten.arguments_ok, isOwner_eq hrole hpos]

/-- Sending does not change what `call` then hands to `receive`. -/
theorem callRPC_client_eq (hrep : WriteOp.AllRepresentable arguments)
    (hstream : ∀ op ∈ arguments, op.Streamed) (hs : Shares info name rpc s)
    (hrpc : ∀ op ∈ rpc.parameters, op.Streamed) (hrole : s.role = .client)
    (htarget : target.info = info) (hpos : 0 < info.ID) :
    ∃ q d, CallPacket info name arguments q ∧ q.readCursor = ⟨headerSize, 8⟩ ∧
      rpc.outcome info name q = rpc.outcome info name (entityCall info name arguments) ∧
      CallDatagram info name arguments d.data ∧
      callRPC stack hook target name arguments s =
        (if (RPCInfo rpc.rpctype (s.id = info.ownerID)).1 then receiveRPC q info else return ())
          { s with outbox := s.outbox ++
              if (RPCInfo rpc.rpctype (s.id = info.ownerID)).2 then [(1, d)] else [] } := by
  obtain ⟨w₁, w₂, hwritten⟩ := exists_writtenCall info name hrep
  obtain ⟨hcall, hunread⟩ := callPacket_entityCall info name hrep hstream
  obtain ⟨data, hwire, hdata⟩ := hcall.wire hrep s.now
  rw [callRPC_eq stack hook hwritten hs (by rw [hrole]; simp) htarget hpos]
  cases hsend : (RPCInfo rpc.rpctype (s.id = info.ownerID)).2 with
  | false =>
      refine ⟨_, { origin := 0, data := data }, hcall, hunread, rfl, hdata, ?_⟩
      simp only [Bool.false_eq_true, if_false, List.append_nil]
      rfl
  | true =>
      have hsent : sendPacket stack hook (entityCall info name arguments) s =
          (.ok (stamped s.now (entityCall info name arguments)),
            { s with outbox := s.outbox ++ [(1, { origin := s.id, data := data })] }) := by
        rw [sendPacket, Fallible.bind_get, if_neg (by rw [hrole]; simp), sendToServer,
          Fallible.bind_get, bind_stamp, bind_wireBytes hwire]
        rfl
      refine ⟨_, { origin := s.id, data := data }, hcall.stamped s.now, hunread,
        CallPacket.outcome_stamped hunread (by rfl) (t := s.now) (by rfl) hrpc, hdata, ?_⟩
      exact Fallible.bind_ok hsent _

/-- **A call by a remote client.** -/
theorem callRPC_client (hrep : WriteOp.AllRepresentable arguments)
    (hstream : ∀ op ∈ arguments, op.Streamed) (hs : Shares info name rpc s)
    (hrpc : ∀ op ∈ rpc.parameters, op.Streamed) (hrole : s.role = .client)
    (htarget : target.info = info) (hpos : 0 < info.ID)
    (hdefined : (RPCInfo rpc.rpctype (s.id = info.ownerID)).1 = true →
      rpc.outcome info name (entityCall info name arguments) ≠ none) :
    ∃ s', callRPC stack hook target name arguments s = (.ok (), s') ∧ Frame s s' ∧
      s'.scene = s.scene ∧
      s'.effects = s.effects ++ (if (RPCInfo rpc.rpctype (s.id = info.ownerID)).1 then
        (rpc.outcome info name (entityCall info name arguments)).getD [] else []) ∧
      ∃ d, CallDatagram info name arguments d.data ∧ s'.pending 1 = s.pending 1 ++
        if (RPCInfo rpc.rpctype (s.id = info.ownerID)).2 then [d] else [] := by
  obtain ⟨q, d, hq, hunread, hsame, hd, hrun⟩ :=
    callRPC_client_eq stack hook hrep hstream hs hrpc hrole htarget hpos
  rw [← hsame] at hdefined ⊢
  refine ⟨_, hrun.trans (receiveRPC_self _ hq hrep hunread ⟨hs.held, hs.registered⟩ hdefined),
    ⟨rfl, rfl, rfl, rfl, rfl⟩, rfl, rfl, d, hd, ?_⟩
  cases (RPCInfo rpc.rpctype (s.id = info.ownerID)).2 with
  | true => exact pending_post s [1] d 1
  | false =>
      simp only [Bool.false_eq_true, if_false, List.append_nil]
      rfl

theorem callRPC_client_undefined {s' : Process} (hrep : WriteOp.AllRepresentable arguments)
    (hstream : ∀ op ∈ arguments, op.Streamed) (hs : Shares info name rpc s)
    (hrpc : ∀ op ∈ rpc.parameters, op.Streamed) (hrole : s.role = .client)
    (htarget : target.info = info) (hpos : 0 < info.ID)
    (hown : (RPCInfo rpc.rpctype (s.id = info.ownerID)).1 = true)
    (hnone : rpc.outcome info name (entityCall info name arguments) = none) :
    callRPC stack hook target name arguments s ≠ (.ok (), s') := by
  obtain ⟨q, d, hq, hunread, hsame, _, hrun⟩ :=
    callRPC_client_eq stack hook hrep hstream hs hrpc hrole htarget hpos
  rw [hrun, if_pos hown]
  exact receiveRPC_undefined hq hrep hunread ⟨hs.held, hs.registered⟩ (hsame.trans hnone)

/-- The host's own client has the server relay its call, and then executes it itself. -/
theorem callRPC_host_eq (hrep : WriteOp.AllRepresentable arguments)
    (hstream : ∀ op ∈ arguments, op.Streamed) (hs : Shares info name rpc s)
    (hrpc : ∀ op ∈ rpc.parameters, op.Streamed) (hrole : s.role = .host) (hid : s.id = 1)
    (hnodup : s.connected.Nodup) (hreserved : 1 ∉ s.connected) (htarget : target.info = info)
    (hpos : 0 < info.ID) :
    ∃ q t, CallPacket info name arguments q ∧ q.readCursor = ⟨headerSize, 8⟩ ∧
      rpc.outcome info name q = rpc.outcome info name (entityCall info name arguments) ∧
      Relayed info name arguments [] (fun c => (RPCInfo rpc.rpctype (1 = info.ownerID)).2 &&
        relayed rpc.rpctype 1 info.ownerID c) s t ∧
      callRPC stack hook target name arguments s =
        (if (RPCInfo rpc.rpctype (1 = info.ownerID)).1 then receiveRPC q info else
          return ()) t := by
  obtain ⟨w₁, w₂, hwritten⟩ := exists_writtenCall info name hrep
  obtain ⟨hcall, hunread⟩ := callPacket_entityCall info name hrep hstream
  rw [callRPC_eq stack hook hwritten hs (by rw [hrole]; simp) htarget hpos, hid]
  cases hsend : (RPCInfo rpc.rpctype (1 = info.ownerID)).2 with
  | false => exact ⟨_, s, hcall, hunread, rfl, Relayed.nobody fun _ => rfl, rfl⟩
  | true =>
      have hnot := relayed_caller rpc.rpctype 1 info.ownerID
      have hemitted : CallPacket info name arguments
          { stamped s.now (entityCall info name arguments) with
            info := { senderID := s.id, timeReceived := s.now } } :=
        (hcall.stamped s.now).of_same rfl rfl rfl
      have hserve := serverHandler_call stack hook hemitted hrep hunread hs hrpc hrole hnodup
        hreserved
      rw [hid] at hserve
      obtain ⟨t, hrun, hrelayed⟩ := hserve.runs fun hyes => by rw [hnot] at hyes; cases hyes
      have hsent : sendPacket stack hook (entityCall info name arguments) s = (.ok
          { stamped s.now (entityCall info name arguments) with
            info := { senderID := s.id, timeReceived := s.now } }, t) := by
        rw [sendPacket, Fallible.bind_get, if_pos hrole, bind_stamp, hid]
        exact Fallible.bind_ok hrun _
      refine ⟨_, t, hemitted, hunread,
        CallPacket.outcome_stamped hunread (by rfl) (t := s.now) (by rfl) hrpc, ?_,
        Fallible.bind_ok hsent _⟩
      have heffects := hrelayed.effects_eq
      rw [hnot] at heffects
      exact ⟨hrelayed.frame, hrelayed.scene_eq, by simpa [hnot] using heffects, hrelayed.posted,
        hrelayed.skipped⟩

/-- **A call by the host's own client.** -/
theorem callRPC_host (hrep : WriteOp.AllRepresentable arguments)
    (hstream : ∀ op ∈ arguments, op.Streamed) (hs : Shares info name rpc s)
    (hrpc : ∀ op ∈ rpc.parameters, op.Streamed) (hrole : s.role = .host) (hid : s.id = 1)
    (hnodup : s.connected.Nodup) (hreserved : 1 ∉ s.connected) (htarget : target.info = info)
    (hpos : 0 < info.ID) :
    SendsCall info name arguments (rpc.outcome info name (entityCall info name arguments))
      (executes rpc.rpctype 1 info.ownerID) (callRPC stack hook target name arguments) s := by
  obtain ⟨q, t, hq, hunread, hsame, hrelayed, hrun⟩ :=
    callRPC_host_eq stack hook hrep hstream hs hrpc hrole hid hnodup hreserved htarget hpos
  have ht : Shares info name rpc t :=
    ⟨hrelayed.scene_eq ▸ hs.held, hrelayed.scene_eq ▸ hs.registered⟩
  have hexec := executes_eq rpc.rpctype 1 info.ownerID
  have hnot := relayed_caller rpc.rpctype 1 info.ownerID
  have hself := executes_caller rpc.rpctype 1 info.ownerID
  rw [← hsame]
  refine ⟨fun hdefined => ?_, fun hone hnone s' => ?_⟩
  · rw [hself] at hdefined
    refine ⟨_, hrun.trans (receiveRPC_self _ hq hrep hunread ht hdefined), ?_⟩
    exact (hrelayed.own (by simp [hnot]) hreserved _).congr hexec
  · rw [hrun, if_pos (hself ▸ hone)]
    exact receiveRPC_undefined hq hrep hunread ht hnone

end Process

end

end EnkiNet
