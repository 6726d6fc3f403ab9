import EnkiNet.Mirror

/-!
# Whole scripts of packet operations

A script is what a program writes to a fresh packet: values of any of the
serializable types, bit fields, and nested packets that are themselves written by
a script.  The matching script of reads forgets the values and keeps the types,
the widths and the nesting.

`script_round_trip` says that the reads give back exactly what the writes were
given, with the read cursor following the write cursor step by step.  The proof
is an induction over the syntax of scripts: `WriteOp.mirrors` has one case for
each operation, and a sequence is an instance of `Mirrors.bind`.
-/

namespace EnkiNet

open ByteStore Packet

/-! ## Syntax -/

/-- A value and a width it fits in. -/
structure BitField where
  value : BitVec 32
  width : Nat
  width_pos : 1 ≤ width
  width_le : width ≤ 32
  fits : value.toNat < 2 ^ width

inductive WriteOp
  | scalar (k : Nat) (v : BitVec (8 * k))
  | string (s : StdString)
  | vector (k : Nat) (xs : Sized (BitVec (8 * k))) (nonempty : xs.elems ≠ [])
  | entityInfo (e : EntityInfo)
  | packet (h : PacketHeader) (script : List WriteOp)
  | bits (f : BitField)

inductive ReadOp
  | scalar (k : Nat)
  | string
  | vector (k : Nat)
  | entityInfo
  | packet (script : List ReadOp)
  | bits (width : Nat)

/-- What a read returns; a nested packet is known by its header and by what its
own script reads. -/
inductive Value
  | scalar (k : Nat) (v : BitVec (8 * k))
  | string (s : StdString)
  | vector (k : Nat) (xs : List (BitVec (8 * k)))
  | entityInfo (e : EntityInfo)
  | packet (h : PacketHeader) (contents : List Value)
  | bits (v : BitVec 32)

/-! ## Meaning -/

mutual

def WriteOp.perform : WriteOp → PacketM Unit
  | .scalar _ v => putScalar v
  | .string s => putString s
  | .vector _ xs _ => putVector xs.elems
  | .entityInfo e => putEntityInfo e
  | .packet h script => fun p =>
      match WriteOp.performAll script (ofHeader h) with
      | (.ok (), q) => putPacket q p
      | (.error e, _) => (.error e, p)
  | .bits f => writeBits f.value f.width

def WriteOp.performAll : List WriteOp → PacketM Unit
  | [] => pure ()
  | op :: ops => do
      op.perform
      WriteOp.performAll ops

end

mutual

def ReadOp.perform : ReadOp → PacketM Value
  | .scalar k => do
      let v ← getScalar k
      return .scalar k v
  | .string => do
      let s ← getString
      return .string s
  | .vector k => do
      let xs ← getVector k
      return .vector k xs
  | .entityInfo => do
      let e ← getEntityInfo
      return .entityInfo e
  | .packet script => do
      let q ← getPacket
      match ReadOp.performAll script q with
      | (.ok vs, _) => return .packet q.header vs
      | (.error e, _) => Fallible.fail e
  | .bits width => do
      let v ← readBits width
      return .bits v

def ReadOp.performAll : List ReadOp → PacketM (List Value)
  | [] => pure []
  | op :: ops => do
      let v ← op.perform
      let vs ← ReadOp.performAll ops
      return v :: vs

end

mutual

/-- The read that matches a write: it knows the type and not the value. -/
def WriteOp.matching : WriteOp → ReadOp
  | .scalar k _ => .scalar k
  | .string _ => .string
  | .vector k _ _ => .vector k
  | .entityInfo _ => .entityInfo
  | .packet _ script => .packet (WriteOp.matchingAll script)
  | .bits f => .bits f.width

def WriteOp.matchingAll : List WriteOp → List ReadOp
  | [] => []
  | op :: ops => op.matching :: WriteOp.matchingAll ops

end

mutual

/-- The value a write was given. -/
def WriteOp.value : WriteOp → Value
  | .scalar k v => .scalar k v
  | .string s => .string s
  | .vector k xs _ => .vector k xs.elems
  | .entityInfo e => .entityInfo e
  | .packet h script => .packet h (WriteOp.values script)
  | .bits f => .bits f.value

def WriteOp.values : List WriteOp → List Value
  | [] => []
  | op :: ops => op.value :: WriteOp.values ops

end

mutual

/-- The buffer of every nested packet has a length that is a `size_t`. -/
def WriteOp.Representable : WriteOp → Prop
  | .packet h script =>
      WriteOp.AllRepresentable script ∧
        (WriteOp.performAll script (ofHeader h)).2.bytes.length < 2 ^ 64
  | _ => True

def WriteOp.AllRepresentable : List WriteOp → Prop
  | [] => True
  | op :: ops => op.Representable ∧ WriteOp.AllRepresentable ops

end

/-! ## Sequences -/

namespace WriteOp

theorem performAll_append (ops ops' : List WriteOp) (p : Packet) :
    performAll (ops ++ ops') p = (do performAll ops; performAll ops') p := by
  induction ops generalizing p with
  | nil => rfl
  | cons op ops ih =>
      rw [List.cons_append, performAll, performAll]
      rcases hop : op.perform p with ⟨_ | _, p'⟩
      · rw [Fallible.bind_error hop, Fallible.bind_error (Fallible.bind_error hop _)]
      · rw [Fallible.bind_ok hop, ih]
        rcases hrest : performAll ops p' with ⟨_ | _, p''⟩
        · rw [Fallible.bind_error hrest,
            Fallible.bind_error ((Fallible.bind_ok hop _).trans hrest)]
        · rw [Fallible.bind_ok hrest, Fallible.bind_ok ((Fallible.bind_ok hop _).trans hrest)]

theorem allRepresentable_append {ops ops' : List WriteOp} :
    AllRepresentable (ops ++ ops') ↔ AllRepresentable ops ∧ AllRepresentable ops' := by
  induction ops with
  | nil => simp [AllRepresentable]
  | cons op ops ih => simp [AllRepresentable, ih, and_assoc]

end WriteOp

/-! ## Nested packets -/

/-- A packet that was only written to still starts with its header. -/
theorem Packet.ofBytes_of_extends {h : PacketHeader} {q : Packet}
    (hext : Extends (ofHeader h) q) : PacketHeader.ofBytes q.bytes = h := by
  have hpos : (ofHeader h).writeCursor.pos = 64 := rfl
  have hlen : headerSize ≤ q.bytes.length := by
    have hle := hext.length_le
    simpa [ofHeader] using hle
  have hbits : ∀ pos, pos < 64 → bitAt q.bytes pos = bitAt h.toBytes pos := by
    intro pos hlt
    exact hext.bits_eq pos (by omega)
  have htype : byteAt q.bytes 0 = byteAt h.toBytes 0 := by
    apply byteAt_eq_of_bits
    intro j hj
    exact hbits _ (by omega)
  have htime : slice q.bytes 4 4 = slice h.toBytes 4 4 := by
    have hsize : (slice h.toBytes 4 4).length = 4 := length_slice (by simp)
    have hback := slice_eq_of_bits (s := q.bytes) (d := slice h.toBytes 4 4) (i := 4)
      (by rw [hsize]; omega)
    rw [hsize] at hback
    apply hback
    intro pos hlt
    rw [hbits _ (by omega)]
    have hsplit : h.toBytes = [h.type.code, 0, 0, 0] ++ slice h.toBytes 4 4 := by
      simp [PacketHeader.toBytes, slice]
    have hbyte : byteAt h.toBytes ((8 * 4 + pos) / 8) = byteAt (slice h.toBytes 4 4) (pos / 8) := by
      have hdiv : (8 * 4 + pos) / 8 = 4 + pos / 8 := by omega
      rw [hdiv]
      conv_lhs => rw [hsplit]
      simp [byteAt, List.getD_eq_getElem?_getD, Nat.add_comm 4]
    rw [bitAt, bitAt, hbyte]
    congr 1
    omega
  have hfresh := PacketHeader.ofBytes_toBytes h []
  rw [List.append_nil] at hfresh
  rw [← hfresh]
  simp only [PacketHeader.ofBytes, htype, htime]

/-- A nested packet is written by its own script and read back by the matching one. -/
theorem mirrors_nested {script : List WriteOp} {h : PacketHeader}
    (hmirror : Mirrors (WriteOp.performAll script)
      (ReadOp.performAll (WriteOp.matchingAll script)) (WriteOp.values script))
    (hlt : (WriteOp.performAll script (ofHeader h)).2.bytes.length < 2 ^ 64) :
    Mirrors (WriteOp.packet h script).perform (WriteOp.packet h script).matching.perform
      (WriteOp.packet h script).value := by
  obtain ⟨q, hwrite, hq, hext, hread⟩ := hmirror (ofHeader h) (wellWritten_ofHeader h)
  rw [hwrite] at hlt
  have hlen : headerSize ≤ q.bytes.length := by
    have hle := hext.length_le
    simpa [ofHeader] using hle
  have hput : (WriteOp.packet h script).perform = putPacket q := by
    funext p
    simp only [WriteOp.perform, hwrite]
  have hinner := hread (received q.bytes) rfl ⟨hq.stored, fun _ _ _ => rfl⟩
  have hheader : (received q.bytes).header = h := ofBytes_of_extends hext
  rw [hput]
  refine (mirrors_packet hlen hlt).andThen ?_
  simp only [hinner, hheader, WriteOp.value]

/-! ## Every script -/

mutual

/-- **Every operation is mirrored by its matching read.** -/
theorem WriteOp.mirrors : (op : WriteOp) → op.Representable →
    Mirrors op.perform op.matching.perform op.value
  | .scalar _ v, _ => (mirrors_scalar v).andThen rfl
  | .string s, _ => (mirrors_string s).andThen rfl
  | .vector _ xs hne, _ => (mirrors_vector hne xs.length_lt).andThen rfl
  | .entityInfo e, _ => (mirrors_entityInfo e).andThen rfl
  | .packet _ script, hrep => mirrors_nested (WriteOp.mirrorsAll script hrep.1) hrep.2
  | .bits f, _ => (mirrors_bits f.width_pos f.width_le f.fits).andThen rfl

theorem WriteOp.mirrorsAll : (ops : List WriteOp) → WriteOp.AllRepresentable ops →
    Mirrors (WriteOp.performAll ops) (ReadOp.performAll (WriteOp.matchingAll ops))
      (WriteOp.values ops)
  | [], _ => Mirrors.pure []
  | op :: ops, hrep =>
      (WriteOp.mirrors op hrep.1).bind ((WriteOp.mirrorsAll ops hrep.2).andThen rfl)

end

/-- Reading `r` by the matching script follows the writing of a fresh packet with
header `h`: after every prefix of the script the reads have returned the written
values, and the read cursor is where the write cursor was. -/
def ReadsBack (h : PacketHeader) (script : List WriteOp) (r : Packet) : Prop :=
  ∀ k, k ≤ script.length → ∃ w r',
    WriteOp.performAll (script.take k) (ofHeader h) = (.ok (), w) ∧
    ReadOp.performAll (WriteOp.matchingAll (script.take k)) r =
      (.ok (WriteOp.values (script.take k)), r') ∧
    r'.bytesRead = w.bytesWritten ∧ r'.bitsRead = w.bitsWritten

/-- Everything a script writes can be read back from any packet that holds it. -/
theorem readsBack_of_holds {h : PacketHeader} {script : List WriteOp} {w r : Packet}
    (hrep : WriteOp.AllRepresentable script)
    (hwrite : WriteOp.performAll script (ofHeader h) = (.ok (), w))
    (hr : r.readCursor = (ofHeader h).writeCursor) (hholds : Holds w r) :
    ReadsBack h script r := by
  intro k _
  have hsplit : script.take k ++ script.drop k = script := List.take_append_drop k script
  rw [← hsplit] at hrep hwrite
  obtain ⟨hpre, hpost⟩ := WriteOp.allRepresentable_append.mp hrep
  obtain ⟨v, hv, hvw, _, hread⟩ :=
    WriteOp.mirrorsAll (script.take k) hpre (ofHeader h) (wellWritten_ofHeader h)
  obtain ⟨w', hw', _, hext, _⟩ := WriteOp.mirrorsAll (script.drop k) hpost v hvw
  have hend : w' = w := by
    have hboth := WriteOp.performAll_append (script.take k) (script.drop k) (ofHeader h)
    rw [Fallible.bind_ok hv, hw', hwrite] at hboth
    exact (congrArg Prod.snd hboth).symm
  subst hend
  exact ⟨v, r.withRead v.writeCursor, hv, hread r hr (hholds.of_extends hext), rfl, rfl⟩

/-- A receiver built from the wire bytes of a packet holds what was written to it. -/
theorem holds_received {w : Packet} (hw : WellWritten w) {data : List Byte}
    (hlen : data.length = w.bytesWritten)
    (hdata : ∀ i, i < data.length → i < w.bytes.length → data[i]? = w.bytes[i]?) :
    Holds w (received data) := by
  have hhead : 8 ≤ w.bytesWritten := hw.headerSize_le
  have hbit := hw.bit_le
  have hstored := hw.stored
  have hpos : w.writeCursor.pos = 8 * (w.bytesWritten - 1) + w.bitsWritten := rfl
  refine ⟨?_, ?_⟩
  · simp only [received]
    omega
  · intro pos _ hlt
    have hbyte := hdata (pos / 8) (by omega) (by omega)
    simp only [received, bitAt, byteAt, List.getD_eq_getElem?_getD, hbyte]

/-- **The packet format round trip.**  Writing a script to a fresh packet never
fails; a receiver built from `bytesWritten` bytes that agree with the buffer
reads every value back, and so does the packet itself, from the start or after
any number of reads and `resetReadPosition`. -/
theorem script_round_trip (h : PacketHeader) (script : List WriteOp)
    (hrep : WriteOp.AllRepresentable script) :
    ∃ w, WriteOp.performAll script (ofHeader h) = (.ok (), w) ∧
      (∀ data : List Byte, data.length = w.bytesWritten →
        (∀ i, i < data.length → i < w.bytes.length → data[i]? = w.bytes[i]?) →
        ∃ r, ofData data = .ok r ∧ ReadsBack h script r) ∧
      ReadsBack h script w ∧
      ∀ c, ReadsBack h script (w.withRead c).resetReadPosition := by
  obtain ⟨w, hwrite, hw, hext, _⟩ :=
    WriteOp.mirrorsAll script hrep (ofHeader h) (wellWritten_ofHeader h)
  refine ⟨w, hwrite, ?_, ?_, ?_⟩
  · intro data hlen hdata
    have hhead : headerSize ≤ data.length := by
      rw [hlen]
      exact hw.headerSize_le
    exact ⟨received data, ofData_eq hhead,
      readsBack_of_holds hrep hwrite rfl (holds_received hw hlen hdata)⟩
  · exact readsBack_of_holds hrep hwrite hext.readCursor_eq (Holds.refl hw)
  · intro c
    exact readsBack_of_holds hrep hwrite rfl ((Holds.refl hw).withRead ⟨headerSize, 8⟩)

/-- A string, a bit field and a nested packet that ends inside a byte. -/
def sampleScript : List WriteOp :=
  [ .string ⟨[0x68, 0x69], by decide⟩,
    .bits ⟨5, 3, by decide, by decide, by decide⟩,
    .packet { type := .entityUpdate } [.scalar 4 7, .bits ⟨1, 2, by decide, by decide, by decide⟩] ]

theorem script_round_trip_sample :
    ∃ w, WriteOp.performAll sampleScript (ofHeader {}) = (.ok (), w) ∧
      ReadsBack {} sampleScript w := by
  have hinner : (WriteOp.performAll
      [.scalar 4 7, .bits ⟨1, 2, by decide, by decide, by decide⟩]
      (ofHeader { type := .entityUpdate })).2.bytes.length < 2 ^ 64 := by decide +kernel
  obtain ⟨w, hwrite, _, hself, _⟩ := script_round_trip {} sampleScript
    ⟨trivial, trivial, ⟨⟨trivial, trivial, trivial⟩, hinner⟩, trivial⟩
  exact ⟨w, hwrite, hself⟩

end EnkiNet
