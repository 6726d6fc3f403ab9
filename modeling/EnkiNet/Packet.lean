import EnkiNet.ByteStore
import EnkiNet.Fallible

/-!
# The packet

`Packet` is the growing byte buffer every message is written to and read from.
It has two write cursors and two read cursors: `bytesWritten` counts bytes, and
`bitsWritten` counts bits inside byte `bytesWritten - 1`, so that `8` stands for
"between two bytes".  Whole values are copied in behind `bytesWritten`;
`writeBits` first folds whole bytes of `bitsWritten` into `bytesWritten` and then
writes bit by bit.

The packet that an operation leaves matters after a thrown exception too, because
the cursors may have moved before the throw.  Two idealisations are made: a `std::vector` can
always grow (the one wrapped, impossible size that `writeBits` can ask for
excepted), and `size_t` sums of lengths that exist in memory do not wrap.
-/

namespace EnkiNet

open ByteStore

/-! ## How an operation fails -/

/-- Behaviour the language leaves undefined. -/
inductive Undefined
  | outOfBounds
  | shiftAmount
  | signedOverflow
  | nullDereference
  deriving DecidableEq, Repr

/-- What ends an operation early: an exception, or undefined behaviour. -/
inductive Fault
  | runtimeError (what : String)
  | lengthError
  | outOfRange
  | stackOverflow
  | undefined (what : Undefined)
  deriving DecidableEq, Repr

/-- The exceptions that derive from `std::exception`. -/
def Fault.IsException : Fault → Prop
  | .runtimeError _ => True
  | .lengthError => True
  | .outOfRange => True
  | _ => False

instance (e : Fault) : Decidable e.IsException := by
  cases e <;> unfold Fault.IsException <;> infer_instance

/-- How a piece of code ends, and the calls of functions that it has made. -/
abbrev Attempt (κ : Type) : Type := Except Fault Unit × List κ

/-- `catch (std::exception&)`. -/
def Attempt.catchException {κ : Type} : Attempt κ → Attempt κ
  | (.error e, calls) => if e.IsException then (.ok (), calls) else (.error e, calls)
  | outcome => outcome

/-- Catching undoes no call. -/
theorem Attempt.catchException_calls {κ : Type} (outcome : Attempt κ) :
    outcome.catchException.2 = outcome.2 := by
  obtain ⟨e | _, calls⟩ := outcome
  · by_cases he : e.IsException
    · rw [catchException, if_pos he]
    · rw [catchException, if_neg he]
  · rfl

/-! ## Header and info -/

/-- `unsigned int` in the source. -/
abbrev ClientID := UInt32

/-- The underlying type is a byte, so a received header can hold a code that has
no name. -/
inductive PacketType
  | none
  | command
  | clientInitialized
  | connected
  | disconnected
  | globalRpc
  | entityRpc
  | classRpc
  | entityCreation
  | entityCreationOnConnection
  | entityUpdate
  | entityDeletion
  | unnamed (code : Byte) (large : 12 ≤ code.toNat)
  deriving DecidableEq, Repr

namespace PacketType

def code : PacketType → Byte
  | none => 0
  | command => 1
  | clientInitialized => 2
  | connected => 3
  | disconnected => 4
  | globalRpc => 5
  | entityRpc => 6
  | classRpc => 7
  | entityCreation => 8
  | entityCreationOnConnection => 9
  | entityUpdate => 10
  | entityDeletion => 11
  | unnamed c _ => c

def ofCode (c : Byte) : PacketType :=
  match h : c.toNat with
  | 0 => none
  | 1 => command
  | 2 => clientInitialized
  | 3 => connected
  | 4 => disconnected
  | 5 => globalRpc
  | 6 => entityRpc
  | 7 => classRpc
  | 8 => entityCreation
  | 9 => entityCreationOnConnection
  | 10 => entityUpdate
  | 11 => entityDeletion
  | _ + 12 => unnamed c (by omega)

@[simp] theorem ofCode_code (t : PacketType) : ofCode t.code = t := by
  cases t with
  | unnamed c large =>
      unfold ofCode
      split <;> rename_i h <;> simp only [code] at h <;> first | omega | rfl
  | _ => rfl

end PacketType

structure PacketHeader where
  type : PacketType := .none
  timeSent : UInt32 := 0
  deriving DecidableEq, Repr

structure PacketInfo where
  senderID : ClientID := 0
  timeReceived : UInt32 := 0
  deriving DecidableEq, Repr

/-- `sizeof(PacketHeader)`: one byte of type, three of padding, four of time. -/
abbrev headerSize : Nat := 8

namespace PacketHeader

def toBytes (h : PacketHeader) : List Byte :=
  [h.type.code, 0, 0, 0] ++ leBytes 4 h.timeSent.toNat

def ofBytes (s : List Byte) : PacketHeader where
  type := .ofCode (byteAt s 0)
  timeSent := .ofNat (leNat (slice s 4 4))

@[simp] theorem length_toBytes (h : PacketHeader) : h.toBytes.length = headerSize := by
  simp [toBytes]

@[simp] theorem ofBytes_toBytes (h : PacketHeader) (rest : List Byte) :
    ofBytes (h.toBytes ++ rest) = h := by
  have htime : slice (h.toBytes ++ rest) 4 4 = leBytes 4 h.timeSent.toNat := by
    simp [toBytes, slice]
  have hback : leNat (leBytes 4 h.timeSent.toNat) = h.timeSent.toNat :=
    leNat_leBytes_of_lt (by simpa using h.timeSent.toNat_lt)
  have htype : byteAt (h.toBytes ++ rest) 0 = h.type.code := by
    simp [toBytes, byteAt]
  simp [ofBytes, htime, hback, htype]

end PacketHeader

/-! ## Packets and their operations -/

structure Packet where
  info : PacketInfo := {}
  bytes : List Byte
  header : PacketHeader
  bytesWritten : Nat
  bytesRead : Nat
  bitsWritten : Nat
  bitsRead : Nat
  deriving DecidableEq, Repr

/-- An operation on a packet. -/
abbrev PacketM (α : Type) : Type := Fallible Fault Packet α

/-- A standard container as the packet sees it: its length is a `size_t`. -/
structure Sized (α : Type) where
  elems : List α
  length_lt : elems.length < 2 ^ 64
  deriving DecidableEq, Repr

abbrev StdString := Sized Byte

namespace Packet

/-- `Packet(PacketHeader)`; the default constructor passes the default header. -/
def ofHeader (h : PacketHeader) : Packet where
  bytes := h.toBytes
  header := h
  bytesWritten := headerSize
  bytesRead := headerSize
  bitsWritten := 8
  bitsRead := 8

/-- `Packet(data, size)`.  The header is copied out of the buffer before anything
checks that the buffer has eight bytes. -/
def ofData (data : List Byte) : Except Fault Packet :=
  if data.length < headerSize then .error (.undefined .outOfBounds)
  else .ok {
    bytes := data
    header := .ofBytes data
    bytesWritten := data.length
    bytesRead := headerSize
    bitsWritten := 8
    bitsRead := 8 }

/-! ### Whole bytes -/

/-- `serialize(data, size)`; `none` is the null pointer. -/
def serialize (data : Option (List Byte)) : PacketM Unit := fun p =>
  match data with
  | none =>
      (.error (.runtimeError
        "Failed to serialize data into packet, data is a nullptr"), p)
  | some data =>
      let buffer :=
        if p.bytesWritten + data.length > p.bytes.length then
          resize p.bytes ((p.bytesWritten + data.length) * 2)
        else p.bytes
      (.ok (), { p with
        bytes := overwrite buffer p.bytesWritten data
        bytesWritten := p.bytesWritten + data.length
        bitsWritten := 8 })

/-- `deserialize(data, size)`, returning the bytes copied out; `isNull` says that
the destination is the null pointer. -/
def deserialize (size : Nat) (isNull : Bool) : PacketM (List Byte) := fun p =>
  if p.bytesRead + size > p.bytes.length then
    (.error (.runtimeError
      "Failed to deserialize data in packet, would be reading past end of packet buffer"), p)
  else if isNull then
    (.error (.runtimeError "Failed to deserialize data in packet, data is a nullptr"), p)
  else
    (.ok (slice p.bytes p.bytesRead size), { p with
      bytesRead := p.bytesRead + size
      bitsRead := 8 })

/-- The object representation of a value of `sizeof` `k`. -/
def scalarBytes {k : Nat} (v : BitVec (8 * k)) : List Byte := leBytes k v.toNat

/-- `operator<<` for an arithmetic type of `sizeof` `k`. -/
def putScalar {k : Nat} (v : BitVec (8 * k)) : PacketM Unit :=
  serialize (some (scalarBytes v))

/-- `operator>>` for an arithmetic type of `sizeof` `k`. -/
def getScalar (k : Nat) : PacketM (BitVec (8 * k)) := do
  let bytes ← deserialize k false
  return BitVec.ofNat (8 * k) (leNat bytes)

/-- `operator<<` for a `size_t`. -/
def putSize (n : Nat) : PacketM Unit := serialize (some (leBytes 8 n))

/-- `operator>>` for a `size_t`. -/
def getSize : PacketM Nat := do
  let bytes ← deserialize 8 false
  return leNat bytes

/-- `operator<<(std::string)`. -/
def putString (s : StdString) : PacketM Unit := do
  putSize s.elems.length
  serialize (some s.elems)

/-- `operator>>(std::string&)`. -/
def getString : PacketM StdString := do
  let length ← getSize
  let bytes ← deserialize length false
  if h : bytes.length < 2 ^ 64 then return ⟨bytes, h⟩
  else Fallible.fail .lengthError

/-- `data()` of a vector that was passed by value: the copy of an empty vector has
no storage, and its pointer is null. -/
def vectorData {k : Nat} (xs : List (BitVec (8 * k))) : Option (List Byte) :=
  if xs = [] then none else some (xs.flatMap scalarBytes)

/-- `operator<<(std::vector<T>)` for elements of `sizeof` `k`. -/
def putVector {k : Nat} (xs : List (BitVec (8 * k))) : PacketM Unit := do
  putSize xs.length
  serialize (vectorData xs)

/-- The `n` elements of `sizeof` `k` stored in `bytes`. -/
def scalarsOf (k n : Nat) (bytes : List Byte) : List (BitVec (8 * k)) :=
  (List.range n).map fun i => BitVec.ofNat (8 * k) (leNat (slice bytes (k * i) k))

/-- `operator>>(std::vector<T>&)` into a vector that has `capacity` elements of
storage.  Resizing to a length that cannot exist throws in the source; here the
bounds check that follows does. -/
def getVector (k : Nat) (capacity : Nat := 0) : PacketM (List (BitVec (8 * k))) := do
  let size ← getSize
  let bytes ← deserialize (k * size) (size = 0 ∧ capacity = 0)
  return scalarsOf k size bytes

/-- `operator<<(std::array<T, size>)`, whose storage is part of the object. -/
def putArray {k : Nat} (xs : List (BitVec (8 * k))) : PacketM Unit := do
  putSize xs.length
  serialize (some (xs.flatMap scalarBytes))

/-- `operator<<(Packet&)`: the whole buffer, as a vector of bytes. -/
def putPacket (q : Packet) : PacketM Unit := putVector (k := 1) q.bytes

/-- `operator>>(Packet&)`. -/
def getPacket : PacketM Packet := do
  let b ← getVector 1
  match ofData b with
  | .ok q => return q
  | .error e => Fallible.fail e

/-! ### Bits -/

/-- `static_cast<float>` of an `int`, as the integer it stands for: 24 significant
bits, ties to even. -/
def floatOfInt (n : Int) : Int :=
  let drop := n.natAbs.log2 + 1 - 24
  let kept := n.natAbs / 2 ^ drop
  let rest := n.natAbs % 2 ^ drop
  let half := 2 ^ drop / 2
  let rounded := if half < rest ∨ (rest = half ∧ 0 < drop ∧ kept % 2 = 1) then kept + 1 else kept
  n.sign * (rounded * 2 ^ drop : Nat)

/-- `static_cast<int>(std::ceil(static_cast<float>(bits_needed) / 8.0f))`. -/
def bytesNeeded (bitsNeeded : Int) : Int := (floatOfInt bitsNeeded + 7) / 8

def IsInt (n : Int) : Prop := -2147483648 ≤ n ∧ n < 2147483648

instance (n : Int) : Decidable (IsInt n) :=
  decidable_of_iff (n.toNat ≤ 2147483647 ∧ (-n).toNat ≤ 2147483648) (by unfold IsInt; omega)

theorem isInt_zero : IsInt 0 := by decide

/-- `sizeof(data) * 8 < bits + offset`, the sum being converted to `size_t`, where a
negative number is a huge one. -/
def overflowsData (bits offset : Int) : Prop := bits + offset < 0 ∨ 32 < bits + offset

instance (bits offset : Int) : Decidable (overflowsData bits offset) :=
  inferInstanceAs (Decidable (_ ∨ _))

/-- One turn of the loop in the `write_bits` lambda: bit `shift` of `data` goes to
bit `i + bits_written` of the current byte. -/
def writeBit (data : BitVec 32) (i : Nat) (shift : Int) : PacketM Unit := fun p =>
  if shift < 0 ∨ 31 < shift then (.error (.undefined .shiftAmount), p)
  else if p.bytes.length ≤ p.bytesWritten - 1 then (.error (.undefined .outOfBounds), p)
  else
    (.ok (), { p with
      bytes := setBit p.bytes (p.bytesWritten - 1) (i + p.bitsWritten)
        (data.getLsbD shift.toNat) })

/-- `write_bits(bits, extra_offset)` from loop index `i` on, `shift` being
`offset + extra_offset`. -/
def writeBitRun (data : BitVec 32) (shift : Int) : (bits i : Nat) → PacketM Unit
  | 0, _ => pure ()
  | bits + 1, i => do
      writeBit data i (i + shift)
      writeBitRun data shift bits (i + 1)

/-- The `while (bits_left > 0)` loop, which `writeBits` and `readBits` share.  `run`
is the lambda that transfers bits (`write_bits`, `read_bits`), called with the
sum of the two offsets; `nextByte` moves the cursor to the next byte and
`addBits` inside it.  Every turn takes at least one bit off `bitsLeft`, so as
many turns as there are bits are enough. -/
def bitsLoop {α : Type} (run : Int → Nat → α → PacketM α) (nextByte : Packet → Packet)
    (addBits : Nat → Packet → Packet) (bits offset : Int) :
    (turns bitsAvailable : Nat) → (bitsLeft : Int) → α → PacketM α
  | 0, _, _, a => pure a
  | turns + 1, bitsAvailable, bitsLeft, a =>
      if bitsLeft ≤ 0 then pure a
      else if bitsAvailable < 8 then do
        let a ← run offset bitsAvailable a
        Fallible.modify nextByte
        bitsLoop run nextByte addBits bits offset turns 8 (bitsLeft - bitsAvailable) a
      else if bitsLeft / 8 ≥ 1 then do
        let a ← run (offset + (bits - bitsLeft)) 8 a
        Fallible.modify nextByte
        bitsLoop run nextByte addBits bits offset turns bitsAvailable (bitsLeft - 8) a
      else do
        let a ← run (offset + (bits - bitsLeft)) (bitsLeft % 8).toNat a
        Fallible.modify (addBits (bitsLeft % 8).toNat)
        bitsLoop run nextByte addBits bits offset turns bitsAvailable 0 a

/-- Fold whole bytes of the bit cursor into the byte cursor. -/
def normalizeWrite (p : Packet) : Packet :=
  if p.bitsWritten ≥ 8 then
    { p with
      bytesWritten := p.bytesWritten + p.bitsWritten / 8
      bitsWritten := p.bitsWritten % 8 }
  else p

def nextWriteByte (p : Packet) : Packet :=
  { p with bytesWritten := p.bytesWritten + 1, bitsWritten := 0 }

def addWriteBits (bits : Nat) (p : Packet) : Packet :=
  { p with bitsWritten := p.bitsWritten + bits }

/-- Make room for the bytes `writeBits` will touch.  A negative sum is a huge
`size_t`, and no vector can have that size. -/
def reserveBits (bitsNeeded : Int) : PacketM Unit := fun p =>
  let size : Int := p.bytesWritten + bytesNeeded bitsNeeded
  if size < 0 then (.error .lengthError, p)
  else if size > p.bytes.length then
    (.ok (), { p with bytes := resize p.bytes size.toNat })
  else (.ok (), p)

def writeBits (data : BitVec 32) (bitsToWrite : Int) (offset : Int := 0) : PacketM Unit := do
  Fallible.modify normalizeWrite
  fun p =>
    let bitsAvailable := 8 - p.bitsWritten
    let bitsNeeded := bitsToWrite - bitsAvailable
    if ¬ IsInt (bitsToWrite + offset) then (.error (.undefined .signedOverflow), p)
    else if overflowsData bitsToWrite offset then
      (.error (.runtimeError
        "Writing these bits with this offset would cause an overflow of the data passed in"), p)
    else if ¬ IsInt bitsNeeded then (.error (.undefined .signedOverflow), p)
    else
      (do
        reserveBits bitsNeeded
        bitsLoop (fun shift bits _ => writeBitRun data shift bits 0) nextWriteByte addWriteBits
          bitsToWrite offset bitsToWrite.toNat bitsAvailable bitsToWrite ()) p

/-- One turn of the loop in the `read_bits` lambda: bit `bits_read + i` of the
current byte goes to bit `shift` of `data`. -/
def readBit (data : BitVec 32) (i : Nat) (shift : Int) : PacketM (BitVec 32) := fun p =>
  if shift < 0 ∨ 31 < shift then (.error (.undefined .shiftAmount), p)
  else if p.bytes.length ≤ p.bytesRead - 1 then (.error (.undefined .outOfBounds), p)
  else
    (.ok (putBit data shift.toNat ((byteAt p.bytes (p.bytesRead - 1)).getLsbD (p.bitsRead + i))), p)

/-- `read_bits(bits, extra_offset)` from loop index `i` on. -/
def readBitRun (shift : Int) : (bits i : Nat) → (data : BitVec 32) → PacketM (BitVec 32)
  | 0, _, data => pure data
  | bits + 1, i, data => do
      let data ← readBit data i (i + shift)
      readBitRun shift bits (i + 1) data

def normalizeRead (p : Packet) : Packet :=
  if p.bitsRead ≥ 8 then
    { p with
      bytesRead := p.bytesRead + p.bitsRead / 8
      bitsRead := p.bitsRead % 8 }
  else p

def nextReadByte (p : Packet) : Packet :=
  { p with bytesRead := p.bytesRead + 1, bitsRead := 0 }

def addReadBits (bits : Nat) (p : Packet) : Packet :=
  { p with bitsRead := p.bitsRead + bits }

/-- `bytes_read + bytes_needed - 1 > bytes.size()` in `size_t` arithmetic, where a
negative number is a huge one. -/
def pastBuffer (p : Packet) (bitsNeeded : Int) : Prop :=
  (p.bytesRead : Int) + bytesNeeded bitsNeeded - 1 < 0 ∨
    (p.bytes.length : Int) < p.bytesRead + bytesNeeded bitsNeeded - 1

instance (p : Packet) (bitsNeeded : Int) : Decidable (pastBuffer p bitsNeeded) :=
  inferInstanceAs (Decidable (_ ∨ _))

def readBits (bitsToRead : Int) (offset : Int := 0) : PacketM (BitVec 32) := do
  Fallible.modify normalizeRead
  fun p =>
    let bitsAvailable := 8 - p.bitsRead
    let bitsNeeded := bitsToRead - bitsAvailable
    if ¬ IsInt bitsNeeded ∨ ¬ IsInt (bitsToRead + offset) then
      (.error (.undefined .signedOverflow), p)
    else if overflowsData bitsToRead offset then
      (.error (.runtimeError
        "Reading these bits with this offset would cause an overflow of the return value"), p)
    else if pastBuffer p bitsNeeded then
      (.error (.runtimeError
        "Tried to read past the packet buffer, not enough bytes written"), p)
    else
      bitsLoop (fun shift bits data => readBitRun shift bits 0 data) nextReadByte addReadBits
        bitsToRead offset bitsToRead.toNat bitsAvailable bitsToRead 0 p

/-! ### Cursors and header -/

def resetReadPosition (p : Packet) : Packet :=
  { p with bytesRead := headerSize, bitsRead := 8 }

/-- Copy the header over the first bytes of the buffer.  What lands past the end
of the vector, in storage it has reserved, is no element of it. -/
def setHeader (h : PacketHeader) (p : Packet) : Packet :=
  { p with
    header := h
    bytes := (overwrite p.bytes 0 h.toBytes).take p.bytes.length }

/-- The header is copied to a buffer that has just been emptied, so it reaches no
element of it. -/
def clear (p : Packet) : Packet :=
  { p with
    bytes := []
    bytesRead := headerSize
    bitsRead := 8
    bytesWritten := headerSize
    bitsWritten := 8 }

/-- What `enet_packet_create(getBytes().data(), getBytesWritten(), _)` copies. -/
def wire (p : Packet) : Except Fault (List Byte) :=
  if p.bytesWritten ≤ p.bytes.length then .ok (p.bytes.take p.bytesWritten)
  else .error (.undefined .outOfBounds)

/-- A packet that a constructor can make: it has a header, and its size is a `size_t`. -/
def Sound (p : Packet) : Prop := headerSize ≤ p.bytes.length ∧ p.bytes.length < 2 ^ 64

instance (p : Packet) : Decidable p.Sound := inferInstanceAs (Decidable (_ ∧ _))

end Packet

end EnkiNet
