import EnkiNet.RpcArguments

/-!
# The whole buffer of a packet

A buffer that is too small becomes twice as large as it has to be, and the new bytes are zero.
A packet that has been written is therefore longer than what was written to it, and its
reader does not know where that ends.

* `Lays`: what a sequence of writes leaves in the buffer, its zeros included;
* `Local`: what an operation reads depends only on the bytes from the read cursor on.
-/

namespace EnkiNet

open ByteStore

namespace Packet

/-! ## Writing -/

/-- How many zeros there are behind what has been written when these chunks have been written
too. -/
def room : (written zeros : Nat) → List (List Byte) → Nat
  | _, zeros, [] => zeros
  | written, zeros, c :: cs =>
      room (written + c.length) (if c.length ≤ zeros then zeros - c.length else written + c.length)
        cs

/-- The growth of the buffer depends on the writes that came before only through their length. -/
theorem room_append (written zeros : Nat) (cs ds : List (List Byte)) :
    room written zeros (cs ++ ds) = room (written + cs.flatten.length)
      (room written zeros cs) ds := by
  induction cs generalizing written zeros with
  | nil => rfl
  | cons c cs ih =>
      rw [List.cons_append, room, ih, room, List.flatten_cons, List.length_append, Nat.add_assoc]

/-- All of `d` has been written, and there are only zeros behind it. -/
structure Filled (d : List Byte) (zeros : Nat) (w : Packet) : Prop where
  bytes_eq : w.bytes = d ++ List.replicate zeros 0
  written_eq : w.bytesWritten = d.length

/-- The operation writes these chunks, one after the other. -/
def Lays (x : PacketM Unit) (cs : List (List Byte)) : Prop :=
  ∀ w d zeros, Filled d zeros w → ∃ w', x w = (.ok (), w') ∧
    Filled (d ++ cs.flatten) (room d.length zeros cs) w' ∧ w'.readCursor = w.readCursor ∧
    w'.header = w.header

/-- A new packet holds its header and no spare room. -/
theorem Filled.ofHeader (h : PacketHeader) : Filled h.toBytes 0 (ofHeader h) where
  bytes_eq := (List.append_nil _).symm
  written_eq := (PacketHeader.length_toBytes h).symm

/-- All that was written is in the buffer. -/
theorem Filled.le {d : List Byte} {zeros : Nat} {w : Packet} (h : Filled d zeros w) :
    w.bytesWritten ≤ w.bytes.length := by
  rw [h.bytes_eq, h.written_eq, List.length_append]
  exact Nat.le_add_right _ _

theorem Lays.pure : Lays (pure ()) [] := by
  intro w d zeros hw
  refine ⟨w, rfl, ?_, rfl, rfl⟩
  rw [List.flatten_nil, List.append_nil]
  exact hw

/-- Two pieces of code lay down what the one and then the other does. -/
theorem Lays.bind {x y : PacketM Unit} {cs ds : List (List Byte)} (hx : Lays x cs)
    (hy : Lays y ds) : Lays (do x; y) (cs ++ ds) := by
  intro w d zeros hw
  obtain ⟨w₁, hrun, hw₁, hread, hheader⟩ := hx w d zeros hw
  obtain ⟨w₂, hrun', hw₂, hread', hheader'⟩ := hy w₁ _ _ hw₁
  refine ⟨w₂, ?_, ?_, hread'.trans hread, hheader'.trans hheader⟩
  · rw [Fallible.bind_ok hrun]
    exact hrun'
  · rw [room_append, List.flatten_append, ← List.append_assoc]
    rwa [List.length_append] at hw₂

/-- Writing behind the content uses up the zeros there. -/
theorem overwrite_zeros (d c : List Byte) (zeros : Nat) :
    overwrite (d ++ List.replicate zeros 0) d.length c =
      d ++ c ++ List.replicate (zeros - c.length) 0 := by
  rw [overwrite, List.take_left, List.drop_append, List.drop_replicate,
    List.drop_eq_nil_of_le (Nat.le_add_right _ _), Nat.add_sub_cancel_left, List.nil_append]

/-- `serialize` lays down its argument in one piece. -/
theorem lays_serialize (c : List Byte) : Lays (serialize (some c)) [c] := by
  intro w d zeros hw
  refine ⟨_, rfl, ⟨?_, ?_⟩, rfl, rfl⟩
  · dsimp only
    rw [hw.bytes_eq, hw.written_eq, List.flatten_singleton, room, room, List.length_append,
      List.length_replicate]
    by_cases hfits : c.length ≤ zeros
    · rw [if_neg (by omega), if_pos hfits]
      exact overwrite_zeros d c zeros
    · rw [if_pos (by omega), if_neg hfits, resize, List.take_of_length_le ?_, List.append_assoc,
        List.replicate_append_replicate, overwrite_zeros]
      · congr 2
        rw [List.length_append, List.length_replicate]
        omega
      · rw [List.length_append, List.length_replicate]
        omega
  · dsimp only
    rw [hw.written_eq, List.flatten_singleton, List.length_append]

/-- A size and a content are two writes, each of which may grow the buffer. -/
theorem lays_sized {n : Nat} {content : List Byte} :
    Lays (do putSizeOf 8 n; serialize (some content)) [leBytes 8 n, content] :=
  (lays_serialize _).bind (lays_serialize content)

/-- The size of a vector comes before its elements. -/
theorem lays_vector {k : Nat} {xs : List (BitVec (8 * k))} (hne : xs ≠ []) :
    Lays (putVectorOf 8 xs) [leBytes 8 xs.length, xs.flatMap scalarBytes] := by
  rw [putVectorOf, vectorData, if_neg hne]
  exact lays_sized

/-! ## Reading -/

variable {α β : Type}

/-- What the operation does depends only on the bytes from the read cursor on. -/
def Local (x : PacketM α) : Prop :=
  ∀ p q, p.Between → q.Between → p.bytes.drop p.bytesRead = q.bytes.drop q.bytesRead →
    ∃ r n, x p = (r, p.skip n) ∧ x q = (r, q.skip n) ∧
      p.bytesRead + n ≤ p.bytes.length ∧ q.bytesRead + n ≤ q.bytes.length

theorem Local.pure (a : α) : Local (pure a : PacketM α) := by
  intro p q hp hq _
  refine ⟨.ok a, 0, ?_, ?_, hp.le, hq.le⟩
  · rw [skip_zero hp]
    rfl
  · rw [skip_zero hq]
    rfl

theorem Local.fail (e : Fault) : Local (Fallible.fail e : PacketM α) := by
  intro p q hp hq _
  refine ⟨.error e, 0, ?_, ?_, hp.le, hq.le⟩
  · rw [skip_zero hp]
    rfl
  · rw [skip_zero hq]
    rfl

/-- What reads locally and then locally reads locally. -/
theorem Local.bind {x : PacketM α} {f : α → PacketM β} (hx : Local x) (hf : ∀ a, Local (f a)) :
    Local (x >>= f) := by
  intro p q hp hq hahead
  obtain ⟨r, n, hxp, hxq, hpn, hqn⟩ := hx p q hp hq hahead
  cases r with
  | error e =>
      exact ⟨.error e, n, Fallible.bind_error hxp f, Fallible.bind_error hxq f, hpn, hqn⟩
  | ok a =>
      have hp' : (p.skip n).Between := ⟨rfl, hpn⟩
      have hq' : (q.skip n).Between := ⟨rfl, hqn⟩
      have hahead' : (p.skip n).bytes.drop (p.skip n).bytesRead =
          (q.skip n).bytes.drop (q.skip n).bytesRead := by
        change p.bytes.drop (p.bytesRead + n) = q.bytes.drop (q.bytesRead + n)
        rw [← List.drop_drop, ← List.drop_drop, hahead]
      obtain ⟨r, m, hfp, hfq, hpm, hqm⟩ := hf a _ _ hp' hq' hahead'
      rw [skip_skip] at hfp hfq
      refine ⟨r, n + m, ?_, ?_, ?_, ?_⟩
      · rw [Fallible.bind_ok hxp]
        exact hfp
      · rw [Fallible.bind_ok hxq]
        exact hfq
      · change p.bytesRead + n + m ≤ p.bytes.length at hpm
        omega
      · change q.bytesRead + n + m ≤ q.bytes.length at hqm
        omega

/-- `deserialize` looks at the bytes behind the cursor and at the length of the buffer only. -/
theorem local_deserialize (size : Nat) (isNull : Bool) : Local (deserialize size isNull) := by
  intro p q hp hq hahead
  have hlen := congrArg List.length hahead
  rw [List.length_drop, List.length_drop] at hlen
  have hple := hp.le
  have hqle := hq.le
  have hstay : ∀ r : Except Fault (List Byte), ∃ r' n, (r, p) = (r', p.skip n) ∧
      (r, q) = (r', q.skip n) ∧ p.bytesRead + n ≤ p.bytes.length ∧
      q.bytesRead + n ≤ q.bytes.length := by
    intro r
    refine ⟨r, 0, ?_, ?_, hple, hqle⟩
    · rw [skip_zero hp]
    · rw [skip_zero hq]
  unfold deserialize
  by_cases hout : p.bytesRead + size > p.bytes.length
  · rw [if_pos hout, if_pos (by omega)]
    exact hstay _
  have hout' : ¬ q.bytesRead + size > q.bytes.length := by omega
  rw [if_neg hout, if_neg hout']
  by_cases hnull : isNull
  · rw [if_pos hnull, if_pos hnull]
    exact hstay _
  · rw [if_neg hnull, if_neg hnull]
    refine ⟨_, size, rfl, ?_, by omega, by omega⟩
    rw [slice, slice, hahead]
    rfl

theorem local_getSizeOf : Local (getSizeOf 8) :=
  (local_deserialize 8 false).bind fun _ => Local.pure _

theorem local_getScalar (k : Nat) : Local (getScalar k) :=
  (local_deserialize k false).bind fun _ => Local.pure _

theorem local_getStringOf : Local (getStringOf 8) := by
  refine local_getSizeOf.bind fun length => (local_deserialize length false).bind fun bytes => ?_
  split
  · exact Local.pure _
  · exact Local.fail _

theorem local_getVectorOf (k : Nat) : Local (getVectorOf 8 k) :=
  local_getSizeOf.bind fun _ => (local_deserialize _ _).bind fun _ => Local.pure _

theorem local_getEntityInfoOf : Local (getEntityInfoOf 8) :=
  (local_getScalar 4).bind fun _ => (local_getScalar 4).bind fun _ =>
    local_getStringOf.bind fun _ => local_getStringOf.bind fun _ =>
      (local_getScalar 4).bind fun _ => Local.pure _

theorem local_sized (xs : List α) : Local (sized xs) := by
  unfold sized
  split
  · exact Local.pure _
  · exact Local.fail _

/-- Reading a list of values is local if reading each of them is. -/
theorem local_readAll {τ : Type} {get : τ → PacketM α} (h : ∀ t, Local (get t)) (ts : List τ) :
    Local (readAll get ts) := by
  induction ts with
  | nil => exact Local.pure _
  | cons t ts ih => exact (h t).bind fun _ => ih.bind fun _ => Local.pure _

end Packet

open Packet

/-! ## Arguments -/

theorem FieldType.local_get (t : FieldType) : Local (t.get 8) := by
  cases t with
  | scalar k => exact (local_getScalar k).bind fun _ => Local.pure _
  | string => exact local_getStringOf.bind fun _ => Local.pure _
  | vector k =>
      exact (local_getVectorOf k).bind fun _ => (local_sized _).bind fun _ => Local.pure _
  | entityInfo => exact local_getEntityInfoOf.bind fun _ => Local.pure _
  | packet =>
      refine (local_getVectorOf 1).bind fun b => ?_
      rcases ofData b with e | q
      · exact Local.fail e
      · exact (local_sized _).bind fun _ => Local.pure _

/-- Reading a parameter is local, whatever its type. -/
theorem ParameterType.local_get (memory : Memory) (t : ParameterType) : Local (t.get memory) := by
  cases t with
  | field t => exact t.local_get.bind fun _ => Local.pure _
  | array k n =>
      have harray : Local (getArray k n memory) := by
        refine local_getSizeOf.bind fun stored => ?_
        split
        · exact (local_deserialize _ _).bind fun _ => Local.pure _
        · exact Local.fail _
      refine harray.bind fun xs => ?_
      split
      · exact Local.pure _
      · exact Local.fail _

/-- So is reading all of them, in either order of evaluation. -/
theorem local_readArguments (memory : Memory) (order : EvaluationOrder)
    (types : List ParameterType) : Local (readArguments memory order types) := by
  cases order with
  | leftToRight => exact local_readAll (ParameterType.local_get memory) types
  | rightToLeft =>
      exact (local_readAll (ParameterType.local_get memory) types.reverse).bind fun _ =>
        Local.pure _

namespace Field

/-- The writes of `operator<<`. -/
def chunks : Field → List (List Byte)
  | .scalar _ v => [scalarBytes v]
  | .string s => [leBytes 8 s.elems.length, s.elems]
  | .vector _ xs => [leBytes 8 xs.elems.length, xs.elems.flatMap scalarBytes]
  | .entityInfo e =>
      [scalarBytes (k := 4) e.ID.toBitVec, scalarBytes (k := 4) e.ownerID.toBitVec,
        leBytes 8 e.type.elems.length, e.type.elems, leBytes 8 e.name.elems.length, e.name.elems,
        scalarBytes (k := 4) e.parentID.toBitVec]
  | .packet buffer =>
      [leBytes 8 buffer.elems.length, buffer.elems.flatMap (scalarBytes (k := 1))]

/-- The writes of a field make up its encoding. -/
theorem flatten_chunks (f : Field) : f.chunks.flatten = f.bytes 8 := by
  cases f <;> simp [chunks, bytes, sizedBytes, infoBytes]

/-- The value can be written: an empty vector has no data. -/
def Writable : Field → Prop
  | .vector _ xs => xs.elems ≠ []
  | .packet buffer => buffer.elems ≠ []
  | _ => True

/-- A field that can be written is laid down write by write. -/
theorem lays {f : Field} (hf : f.Writable) : Lays (f.put 8) f.chunks := by
  cases f with
  | scalar k v => exact lays_serialize _
  | string s => exact (lays_serialize _).bind (lays_serialize _)
  | vector k xs => exact lays_vector hf
  | packet buffer =>
      exact (lays_vector hf : Lays (putVectorOf 8 (k := 1) buffer.elems) _)
  | entityInfo e =>
      exact (lays_serialize _).bind ((lays_serialize _).bind (lays_sized.bind (lays_sized.bind
        (lays_serialize _))))

end Field

namespace Argument

def chunks : Argument → List (List Byte)
  | .field f => f.chunks
  | .array _ _ xs _ => [leBytes 8 xs.elems.length, xs.elems.flatMap scalarBytes]

theorem flatten_chunks (a : Argument) : a.chunks.flatten = a.bytes := by
  cases a with
  | field f => exact f.flatten_chunks
  | array k pos xs nonempty => simp [chunks, bytes, sizedBytes]

def Writable : Argument → Prop
  | .field f => f.Writable
  | .array _ _ _ _ => True

theorem lays {a : Argument} (ha : a.Writable) : Lays a.put a.chunks := by
  cases a with
  | field f => exact Field.lays ha
  | array k pos xs nonempty => exact lays_sized

/-- What was written without an exception could be written. -/
theorem writable_of_put {a : Argument} {p p' : Packet} (h : a.put p = (.ok (), p')) :
    a.Writable := by
  cases a with
  | array k pos xs nonempty => trivial
  | field f =>
      cases f with
      | vector k xs => exact ne_nil_of_putVectorOf h
      | packet buffer => exact ne_nil_of_putVectorOf h
      | _ => trivial

end Argument

variable {arguments : List Argument}

/-- The arguments of a call are laid down from the last to the first. -/
theorem lays_fillPacket (h : ∀ a ∈ arguments, a.Writable) :
    Lays (fillPacket arguments) (arguments.reverse.flatMap Argument.chunks) := by
  induction arguments with
  | nil => exact Lays.pure
  | cons a as ih =>
      rw [List.reverse_cons, List.flatMap_append, List.flatMap_singleton]
      exact (ih fun b hb => h b (List.mem_cons_of_mem a hb)).bind
        (Argument.lays (h a List.mem_cons_self))

/-- A call that was packed had arguments that can be written. -/
theorem writable_of_fillPacket {p p' : Packet} (h : fillPacket arguments p = (.ok (), p')) :
    ∀ a ∈ arguments, a.Writable := by
  induction arguments generalizing p' with
  | nil => exact List.forall_mem_nil _
  | cons a as ih =>
      obtain ⟨_, q, hrest, hlast⟩ := Fallible.bind_eq_ok h
      exact List.forall_mem_cons.mpr ⟨Argument.writable_of_put hlast, ih hrest⟩

end EnkiNet
