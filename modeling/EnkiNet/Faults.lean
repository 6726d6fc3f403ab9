import EnkiNet.PacketScript

/-!
# How the operations of a packet fail

Whole bytes are counted before they are copied: an operation on them that fails throws an
exception (`Catchable`).  Bit fields are not always counted, and neither is the header of a packet
inside a packet, so a script of reads can also end in undefined behaviour at its own buffer
(`Fault.OfReading`).  Neither ends for want of stack or at a null pointer.
-/

namespace EnkiNet

open ByteStore Packet
open Fallible (Faults)

/-- What an operation that reads can end in. -/
def Fault.OfReading (e : Fault) : Prop :=
  e.IsException ∨ e = .undefined .outOfBounds ∨ e = .undefined .shiftAmount ∨
    e = .undefined .signedOverflow

/-- Reading does not recurse without bound. -/
theorem Fault.not_ofReading_stackOverflow : ¬ Fault.OfReading .stackOverflow := by
  rintro (h | h | h | h)
  · exact h
  · cases h
  · cases h
  · cases h

/-- Reading follows no pointer of the entity table. -/
theorem Fault.not_ofReading_nullDereference : ¬ Fault.OfReading (.undefined .nullDereference) := by
  rintro (h | h | h | h)
  · exact h
  · cases h
  · cases h
  · cases h

/-- Where the operation fails, it throws an exception. -/
abbrev Catchable {α : Type} (x : PacketM α) : Prop := Faults Fault.IsException x

/-- Reading whole bytes is reading. -/
theorem Catchable.reading {α : Type} {x : PacketM α} (hx : Catchable x) :
    Faults Fault.OfReading x :=
  hx.mono fun _ he => Or.inl he

namespace Packet

variable {α : Type}

/-! ## Whole bytes -/

/-- `serialize` throws for a null pointer and for nothing else. -/
theorem catchable_serialize (d : Option (List Byte)) : Catchable (serialize d) := by
  intro p e p' h
  cases d with
  | none =>
      cases h
      trivial
  | some d => cases h

/-- Both checks of `deserialize` throw. -/
theorem catchable_deserialize (size : Nat) (isNull : Bool) :
    Catchable (deserialize size isNull) := by
  intro p e p' h
  rw [deserialize] at h
  split at h
  · cases h
    trivial
  split at h
  · cases h
    trivial
  · cases h

theorem catchable_getScalar (k : Nat) : Catchable (getScalar k) :=
  (catchable_deserialize k false).bind fun _ => Faults.pure _

theorem catchable_getSize : Catchable getSize :=
  (catchable_deserialize 8 false).bind fun _ => Faults.pure _

/-- A length that no string can have throws too. -/
theorem catchable_getString : Catchable getString := by
  refine catchable_getSize.bind fun length => (catchable_deserialize length false).bind
    fun bytes => ?_
  split
  · exact Faults.pure _
  · exact Faults.fail trivial

theorem catchable_getVector (k capacity : Nat) : Catchable (getVector k capacity) :=
  catchable_getSize.bind fun _ => (catchable_deserialize _ _).bind fun _ => Faults.pure _

theorem catchable_getEntityInfo : Catchable getEntityInfo :=
  (catchable_getScalar 4).bind fun _ => (catchable_getScalar 4).bind fun _ =>
    catchable_getString.bind fun _ => catchable_getString.bind fun _ =>
      (catchable_getScalar 4).bind fun _ => Faults.pure _

theorem catchable_putString (s : StdString) : Catchable (putString s) :=
  (catchable_serialize _).bind fun _ => catchable_serialize _

theorem catchable_putEntityInfo (info : EntityInfo) : Catchable (putEntityInfo info) :=
  (catchable_serialize _).bind fun _ => (catchable_serialize _).bind fun _ =>
    (catchable_putString _).bind fun _ => (catchable_putString _).bind fun _ =>
      catchable_serialize _

theorem catchable_putPacket (q : Packet) : Catchable (putPacket q) :=
  (catchable_serialize _).bind fun _ => catchable_serialize _

/-! ## Reading -/

/-- The header of the inner packet is copied without a check. -/
theorem faults_getPacket : Faults Fault.OfReading getPacket := by
  refine (catchable_getVector 1 0).reading.bind fun b => ?_
  rw [ofData]
  by_cases hshort : b.length < headerSize
  · rw [if_pos hshort]
    exact Faults.fail (Or.inr (Or.inl rfl))
  · rw [if_neg hshort]
    exact Faults.pure _

/-- A bit outside the buffer or a shift outside the word is undefined behaviour. -/
theorem faults_readBit (data : BitVec 32) (i : Nat) (shift : Int) :
    Faults Fault.OfReading (readBit data i shift) := by
  intro p e p' h
  rw [readBit] at h
  split at h
  · cases h
    exact Or.inr (Or.inr (Or.inl rfl))
  split at h
  · cases h
    exact Or.inr (Or.inl rfl)
  · cases h

theorem faults_readBitRun (shift : Int) (bits i : Nat) (data : BitVec 32) :
    Faults Fault.OfReading (readBitRun shift bits i data) := by
  induction bits generalizing i data with
  | zero => exact Faults.pure _
  | succ bits ih => exact (faults_readBit data i _).bind fun data => ih (i + 1) data

/-- The loop over the bytes adds no fault to those of its turns. -/
theorem faults_bitsLoop {E : Fault → Prop} {run : Int → Nat → α → PacketM α}
    (hrun : ∀ shift bits a, Faults E (run shift bits a)) (nextByte : Packet → Packet)
    (addBits : Nat → Packet → Packet) (bits offset : Int) (turns available : Nat) (left : Int)
    (a : α) :
    Faults E (bitsLoop run nextByte addBits bits offset turns available left a) := by
  induction turns generalizing available left a with
  | zero => exact Faults.pure a
  | succ turns ih =>
      have hturn : ∀ (shift : Int) (k : Nat) (f : Packet → Packet) (available : Nat) (left : Int),
          Faults E (do
            let a ← run shift k a
            Fallible.modify f
            bitsLoop run nextByte addBits bits offset turns available left a) :=
        fun shift k f available left => (hrun shift k a).bind fun a =>
          (Faults.modify f).bind fun _ => ih available left a
      rw [bitsLoop]
      split
      · exact Faults.pure a
      split
      · exact hturn _ _ _ _ _
      split
      · exact hturn _ _ _ _ _
      · exact hturn _ _ _ _ _

/-- The checks of `readBits` throw; what they let through is up to `readBit`. -/
theorem faults_readBits (n o : Int) : Faults Fault.OfReading (readBits n o) := by
  intro p e p' h
  rw [readBits_eq_with, readBitsWith_unfold] at h
  split at h
  · cases h
    exact Or.inr (Or.inr (Or.inr rfl))
  split at h
  · cases h
    exact Or.inl trivial
  split at h
  · cases h
    exact Or.inl trivial
  · exact faults_bitsLoop (fun shift bits data => faults_readBitRun shift bits 0 data)
      _ _ _ _ _ _ _ _ _ _ _ h

end Packet

/-! ## Scripts -/

mutual

/-- One read of a script. -/
theorem ReadOp.faults : (op : ReadOp) → Faults Fault.OfReading op.perform
  | .scalar k => (catchable_getScalar k).reading.bind fun _ => Faults.pure _
  | .string => catchable_getString.reading.bind fun _ => Faults.pure _
  | .vector k => (catchable_getVector k 0).reading.bind fun _ => Faults.pure _
  | .entityInfo => catchable_getEntityInfo.reading.bind fun _ => Faults.pure _
  | .packet script => by
      refine faults_getPacket.bind fun q => ?_
      have hscript := ReadOp.faults_performAll script q
      rcases hrun : ReadOp.performAll script q with ⟨e | vs, q'⟩
      · exact Faults.fail (hscript e q' hrun)
      · exact Faults.pure _
  | .bits width => (faults_readBits _ _).bind fun _ => Faults.pure _

/-- A script of reads. -/
theorem ReadOp.faults_performAll :
    (ops : List ReadOp) → Faults Fault.OfReading (ReadOp.performAll ops)
  | [] => Faults.pure _
  | op :: ops => (ReadOp.faults op).bind fun _ => (ReadOp.faults_performAll ops).bind fun _ =>
      Faults.pure _

end

end EnkiNet
