import EnkiNet.ClientIds
import EnkiNet.RpcArguments
import EnkiNet.Sending
import EnkiNet.WireLength

/-!
# What a reader sees

A reader is any list of `Probe`s: it takes values out of a packet, asks `canDeserialize` and goes
back to the front.  Two packets are indistinguishable if no reader gets different answers.  All
probes depend on the buffer and on the read cursor alone (`Reading`), so equal buffers and cursors
are enough; that as much must be left to read in both (`Indistinguishable.rest_eq`) is seen by
reading single bytes until one read throws.
-/

namespace EnkiNet

open ByteStore Packet

/-! ## What a reader can do -/

inductive Probe
  | scalar (k : Nat)
  | string
  | vector (k capacity : Nat)
  | array (k n : Nat) (memory : Memory)
  | entityInfo
  | packet
  | bits (width offset : Int)
  | canDeserialize (sizes : List Nat)
  | resetReadPosition

inductive Answer
  | scalar (k : Nat) (v : BitVec (8 * k))
  | string (s : StdString)
  | vector (k : Nat) (xs : List (BitVec (8 * k)))
  | entityInfo (e : EntityInfo)
  | packet (q : Packet)
  | bits (v : BitVec 32)
  | canDeserialize (can : Bool)
  | resetReadPosition

/-- `std::accumulate(sizes.begin(), sizes.end(), 0)`: the sum is an `int` after each term. -/
def accumulate (sizes : List Nat) : Int :=
  sizes.foldl (fun (size : Int) (next : Nat) => (size + next).bmod (2 ^ 32)) 0

/-- Only the sum counts, as far as it is an `int`. -/
theorem accumulate_eq (sizes : List Nat) : accumulate sizes = (sizes.sum : Int).bmod (2 ^ 32) := by
  have hfrom : ∀ start : Int, -2 ^ 31 ≤ start → start < 2 ^ 31 →
      sizes.foldl (fun (size : Int) (next : Nat) => (size + next).bmod (2 ^ 32)) start =
        (start + sizes.sum).bmod (2 ^ 32) := by
    induction sizes with
    | nil =>
        intro start hlow hhigh
        rw [List.foldl_nil, List.sum_nil, Int.natCast_zero, Int.add_zero]
        exact (Int.bmod_eq_of_le_mul_two (by omega) (by omega)).symm
    | cons s sizes ih =>
        intro start _ _
        rw [List.foldl_cons, ih, Int.bmod_add_bmod, List.sum_cons, Int.natCast_add, Int.add_assoc]
        · exact Int.le_bmod (by decide)
        · exact Int.bmod_lt (by decide)
  rw [accumulate, hfrom 0 (by decide) (by decide), Int.zero_add]

/-- `canDeserialize<Args...>`, of the sizes of the types.  A negative sum is a huge `size_t`. -/
def Packet.canDeserialize (sizes : List Nat) : PacketM Bool := fun p =>
  let size := accumulate sizes
  (.ok (decide (0 ≤ p.bytesRead + size ∧ p.bytesRead + size ≤ p.bytes.length)), p)

namespace Probe

def perform : Probe → PacketM Answer
  | .scalar k => do
      let v ← getScalar k
      return .scalar k v
  | .string => do
      let s ← getString
      return .string s
  | .vector k capacity => do
      let xs ← getVector k capacity
      return .vector k xs
  | .array k n memory => do
      let xs ← getArray k n memory
      return .vector k xs
  | .entityInfo => do
      let e ← getEntityInfo
      return .entityInfo e
  | .packet => do
      let q ← getPacket
      return .packet q
  | .bits width offset => do
      let v ← readBits width offset
      return .bits v
  | .canDeserialize sizes => do
      let can ← Packet.canDeserialize sizes
      return .canDeserialize can
  | .resetReadPosition => do
      Fallible.modify Packet.resetReadPosition
      return .resetReadPosition

/-- What the reader sees, one result for each probe.  A probe that throws leaves a packet
that the next one goes on with. -/
def performAll : List Probe → Packet → List (Except Fault Answer)
  | [], _ => []
  | q :: qs, p => (q.perform p).1 :: performAll qs (q.perform p).2

end Probe

/-- The same value, or no value in both cases. -/
def SameOutcome : Except Fault Answer → Except Fault Answer → Prop
  | .ok a, .ok b => a = b
  | .error _, .error _ => True
  | _, _ => False

/-- No reader sees a difference. -/
def Indistinguishable (p q : Packet) : Prop :=
  ∀ probes, List.Forall₂ SameOutcome (Probe.performAll probes p) (Probe.performAll probes q)

/-! ## Operations that only read -/

namespace Packet

variable {α β : Type}

/-- The result depends on the buffer and on the read cursor, and only the latter is moved,
onward. -/
def Reading (x : PacketM α) : Prop :=
  ∀ p q : Packet, q.bytes = p.bytes → q.readCursor = p.readCursor →
    ∃ r c, x p = (r, p.withRead c) ∧ x q = (r, q.withRead c) ∧ p.bytesRead ≤ c.byte

/-- Reading from a cursor is reading. -/
theorem Reads.reading {x : PacketM α} (h : Reads x) : Reading x := by
  intro p q hbytes hcursor
  exact h p q ⟨hcursor, by rw [hbytes], by rw [hbytes]⟩

theorem Reading.pure (a : α) : Reading (pure a : PacketM α) := (Reads.pure a).reading

theorem Reading.fail (e : Fault) : Reading (Fallible.fail e : PacketM α) := (Reads.fail e).reading

/-- Reads one after the other. -/
theorem Reading.bind {x : PacketM α} {f : α → PacketM β} (hx : Reading x)
    (hf : ∀ a, Reading (f a)) : Reading (x >>= f) := by
  intro p q hbytes hcursor
  obtain ⟨r, c, hp, hq, hc⟩ := hx p q hbytes hcursor
  cases r with
  | error e => exact ⟨.error e, c, Fallible.bind_error hp f, Fallible.bind_error hq f, hc⟩
  | ok a =>
      obtain ⟨r, d, hp', hq', hd⟩ := hf a (p.withRead c) (q.withRead c) hbytes rfl
      refine ⟨r, d, ?_, ?_, Nat.le_trans hc hd⟩
      · rw [Fallible.bind_ok hp, hp', withRead_withRead]
      · rw [Fallible.bind_ok hq, hq', withRead_withRead]

/-- A move of the read cursor. -/
theorem Reading.modify {f : Packet → Packet} {g : Cursor → Cursor}
    (hf : ∀ p, f p = p.withRead (g p.readCursor)) (hg : ∀ c, c.byte ≤ (g c).byte) :
    Reading (Fallible.modify f) := by
  intro p q _ hcursor
  refine ⟨.ok (), g p.readCursor, ?_, ?_, hg p.readCursor⟩
  · rw [Fallible.modify, hf]
  · rw [Fallible.modify, hf, hcursor]

/-- A failure that leaves the packet as it is. -/
theorem stays {p q : Packet} (hcursor : q.readCursor = p.readCursor) (r : Except Fault α) :
    ∃ r' c, (r, p) = (r', p.withRead c) ∧ (r, q) = (r', q.withRead c) ∧ p.bytesRead ≤ c.byte := by
  refine ⟨r, p.readCursor, rfl, ?_, Nat.le_refl _⟩
  rw [← hcursor]
  rfl

theorem reading_getVector (k capacity : Nat) : Reading (getVector k capacity) :=
  reads_getSize.reading.bind fun _ => (reads_deserialize _ _).reading.bind fun _ => Reading.pure _

/-- A `std::array` is read or refused. -/
theorem reading_getArray (k n : Nat) (memory : Memory) : Reading (getArray k n memory) := by
  refine reads_getSize.reading.bind fun stored => ?_
  split
  · exact (reads_deserialize _ _).reading.bind fun _ => Reading.pure _
  · exact Reading.fail _

/-- `canDeserialize` only looks. -/
theorem reading_canDeserialize (sizes : List Nat) : Reading (canDeserialize sizes) := by
  intro p q hbytes hcursor
  refine ⟨.ok _, p.readCursor, rfl, ?_, Nat.le_refl _⟩
  have hbyte : q.bytesRead = p.bytesRead := congrArg Cursor.byte hcursor
  rw [canDeserialize, hbytes, hbyte, ← hcursor]
  rfl

/-! ### Bits -/

/-- A bit is read from the bytes alone. -/
theorem reading_readBit (data : BitVec 32) (i : Nat) (shift : Int) :
    Reading (readBit data i shift) := by
  intro p q hbytes hcursor
  have hbyte : q.bytesRead = p.bytesRead := congrArg Cursor.byte hcursor
  have hbit : q.bitsRead = p.bitsRead := congrArg Cursor.bit hcursor
  unfold readBit
  rw [hbytes, hbyte, hbit]
  split
  · exact stays hcursor _
  split
  · exact stays hcursor _
  · exact stays hcursor _

theorem reading_readBitRun (shift : Int) (bits i : Nat) (data : BitVec 32) :
    Reading (readBitRun shift bits i data) := by
  induction bits generalizing i data with
  | zero => exact Reading.pure _
  | succ bits ih => exact (reading_readBit data i _).bind fun d => ih (i + 1) d

/-- The loop over the bytes reads what its turns read. -/
theorem reading_bitsLoop {run : Int → Nat → α → PacketM α} {nextByte : Packet → Packet}
    {addBits : Nat → Packet → Packet} (hrun : ∀ shift bits a, Reading (run shift bits a))
    (hnext : Reading (Fallible.modify nextByte))
    (hadd : ∀ bits, Reading (Fallible.modify (addBits bits))) (bits offset : Int)
    (turns bitsAvailable : Nat) (bitsLeft : Int) (a : α) :
    Reading (bitsLoop run nextByte addBits bits offset turns bitsAvailable bitsLeft a) := by
  induction turns generalizing bitsAvailable bitsLeft a with
  | zero => exact Reading.pure a
  | succ turns ih =>
      rw [bitsLoop]
      split
      · exact Reading.pure a
      split
      · exact (hrun _ _ _).bind fun _ => hnext.bind fun _ => ih _ _ _
      split
      · exact (hrun _ _ _).bind fun _ => hnext.bind fun _ => ih _ _ _
      · exact (hrun _ _ _).bind fun _ => (hadd _).bind fun _ => ih _ _ _

theorem reading_normalizeRead : Reading (Fallible.modify normalizeRead) :=
  Reading.modify normalizeRead_eq Cursor.le_normalize_byte

/-- The check looks at the bytes and the read cursor. -/
theorem pastBuffer_eq {p q : Packet} (hbytes : q.bytes = p.bytes)
    (hcursor : q.readCursor = p.readCursor) (needed : Int) :
    pastBuffer q needed ↔ pastBuffer p needed := by
  have hbyte : q.bytesRead = p.bytesRead := congrArg Cursor.byte hcursor
  rw [pastBuffer, pastBuffer, hbytes, hbyte]

/-- `readBits` reads from the cursor on. -/
theorem reading_readBits (width offset : Int) : Reading (readBits width offset) := by
  refine reading_normalizeRead.bind fun _ => ?_
  have hnext : Reading (Fallible.modify nextReadByte) :=
    Reading.modify (g := fun c => ⟨c.byte + 1, 0⟩) (fun _ => rfl) fun c => Nat.le_succ _
  have hadd : ∀ bits, Reading (Fallible.modify (addReadBits bits)) := fun bits =>
    Reading.modify (g := fun c => ⟨c.byte, c.bit + bits⟩) (fun _ => rfl) fun c => Nat.le_refl _
  have hloop := reading_bitsLoop (fun shift bits data => reading_readBitRun shift bits 0 data) hnext
    hadd width offset width.toNat
  intro p q hbytes hcursor
  have hbit : q.bitsRead = p.bitsRead := congrArg Cursor.bit hcursor
  dsimp only
  rw [hbit]
  by_cases hint : ¬ IsInt (width - ((8 - p.bitsRead : Nat) : Int)) ∨ ¬ IsInt (width + offset)
  · rw [if_pos hint, if_pos hint]
    exact stays hcursor _
  rw [if_neg hint, if_neg hint]
  by_cases hover : overflowsData width offset
  · rw [if_pos hover, if_pos hover]
    exact stays hcursor _
  rw [if_neg hover, if_neg hover]
  have hsame := pastBuffer_eq hbytes hcursor (width - ((8 - p.bitsRead : Nat) : Int))
  by_cases hpast : pastBuffer p (width - ((8 - p.bitsRead : Nat) : Int))
  · rw [if_pos hpast, if_pos (hsame.mpr hpast)]
    exact stays hcursor _
  · rw [if_neg hpast, if_neg fun h => hpast (hsame.mp h)]
    exact hloop _ _ _ p q hbytes hcursor

end Packet

/-! ## Equal buffers and cursors -/

/-- Every probe reads, or starts again from the front. -/
theorem Probe.reading (q : Probe) : Reading q.perform ∨ q = .resetReadPosition := by
  cases q with
  | scalar k => exact Or.inl ((reads_getScalar k).reading.bind fun _ => Reading.pure _)
  | string => exact Or.inl (reads_getString.reading.bind fun _ => Reading.pure _)
  | vector k capacity => exact Or.inl ((reading_getVector k capacity).bind fun _ => Reading.pure _)
  | array k n memory => exact Or.inl ((reading_getArray k n memory).bind fun _ => Reading.pure _)
  | entityInfo => exact Or.inl (reads_getEntityInfo.reading.bind fun _ => Reading.pure _)
  | packet => exact Or.inl (reads_getPacket.reading.bind fun _ => Reading.pure _)
  | bits width offset => exact Or.inl ((reading_readBits width offset).bind fun _ => Reading.pure _)
  | canDeserialize sizes =>
      exact Or.inl ((reading_canDeserialize sizes).bind fun _ => Reading.pure _)
  | resetReadPosition => exact Or.inr rfl

/-- A probe answers the same, and leaves equal buffers and cursors. -/
theorem Probe.perform_eq (probe : Probe) {p q : Packet} (hbytes : q.bytes = p.bytes)
    (hcursor : q.readCursor = p.readCursor) :
    (probe.perform q).1 = (probe.perform p).1 ∧
      (probe.perform q).2.bytes = (probe.perform p).2.bytes ∧
      (probe.perform q).2.readCursor = (probe.perform p).2.readCursor := by
  rcases probe.reading with hreading | rfl
  · obtain ⟨r, c, hp, hq, _⟩ := hreading p q hbytes hcursor
    rw [hp, hq]
    exact ⟨rfl, hbytes, rfl⟩
  · exact ⟨rfl, hbytes, rfl⟩

/-- Packets with the same bytes and read cursor answer alike. -/
theorem performAll_eq (probes : List Probe) {p q : Packet} (hbytes : q.bytes = p.bytes)
    (hcursor : q.readCursor = p.readCursor) : Probe.performAll probes q =
    Probe.performAll probes p := by
  induction probes generalizing p q with
  | nil => rfl
  | cons probe probes ih =>
      obtain ⟨hanswer, hbytes', hcursor'⟩ := probe.perform_eq hbytes hcursor
      rw [Probe.performAll, Probe.performAll, hanswer, ih hbytes' hcursor']

theorem SameOutcome.refl (r : Except Fault Answer) : SameOutcome r r := by
  cases r with
  | ok a => exact rfl
  | error e => trivial

/-- Nobody can tell them apart. -/
theorem indistinguishable_of_eq {p q : Packet} (hbytes : q.bytes = p.bytes)
    (hcursor : q.readCursor = p.readCursor) : Indistinguishable p q := by
  intro probes
  rw [performAll_eq probes hbytes hcursor]
  exact List.forall₂_same.mpr fun r _ => SameOutcome.refl r

/-! ## Reading to the end -/

/-- One byte is there as long as the cursor is in front of the end. -/
theorem perform_byte (p : Packet) :
    (p.bytesRead < p.bytes.length →
      ∃ a, (Probe.scalar 1).perform p = (.ok a, p.skip 1)) ∧
    (p.bytes.length ≤ p.bytesRead → ∃ e p', (Probe.scalar 1).perform p = (.error e, p')) := by
  constructor
  · intro hlt
    have hread : deserialize 1 false p = (.ok (slice p.bytes p.bytesRead 1), p.skip 1) :=
      deserialize_ok p hlt
    have hscalar : getScalar 1 p = (.ok (BitVec.ofNat 8 (leNat (slice p.bytes p.bytesRead 1))),
        p.skip 1) := by
      rw [getScalar, Fallible.bind_ok hread]
      rfl
    refine ⟨.scalar 1 (BitVec.ofNat 8 (leNat (slice p.bytes p.bytesRead 1))), ?_⟩
    rw [Probe.perform, Fallible.bind_ok hscalar]
    rfl
  · intro hle
    have hread : ∃ e, deserialize 1 false p = (.error e, p) := ⟨_, if_pos (by omega)⟩
    obtain ⟨e, hread⟩ := hread
    refine ⟨e, p, ?_⟩
    rw [Probe.perform, getScalar, Fallible.bind_error (Fallible.bind_error hread _)]

section
variable {p q : Packet}

/-- After a byte of both, the readers still see no difference. -/
theorem Indistinguishable.skip (h : Indistinguishable p q)
    (hp : p.bytesRead < p.bytes.length) (hq : q.bytesRead < q.bytes.length) :
    Indistinguishable (p.skip 1) (q.skip 1) := by
  intro probes
  obtain ⟨a, hpa⟩ := (perform_byte p).1 hp
  obtain ⟨b, hqb⟩ := (perform_byte q).1 hq
  have hall := h (.scalar 1 :: probes)
  rw [Probe.performAll, Probe.performAll, hpa, hqb] at hall
  exact (List.forall₂_cons.mp hall).2

/-- Not even after a reset. -/
theorem Indistinguishable.reset (h : Indistinguishable p q) :
    Indistinguishable p.resetReadPosition q.resetReadPosition := fun probes =>
  (List.forall₂_cons.mp (h (.resetReadPosition :: probes))).2

/-- `canDeserialize<>` says whether the cursor is within the buffer. -/
theorem Indistinguishable.within (h : Indistinguishable p q) :
    p.bytesRead ≤ p.bytes.length ↔ q.bytesRead ≤ q.bytes.length := by
  have hanswer := (List.forall₂_cons.mp (h [.canDeserialize []])).1
  change Answer.canDeserialize _ = Answer.canDeserialize _ at hanswer
  simpa [accumulate] using hanswer

/-- Either both have something left to read, or none has. -/
theorem Indistinguishable.left_iff (h : Indistinguishable p q) :
    p.bytesRead < p.bytes.length ↔ q.bytesRead < q.bytes.length := by
  have hone := (List.forall₂_cons.mp (h [.scalar 1])).1
  constructor
  · intro hlt
    by_contra hnot
    obtain ⟨a, ha⟩ := (perform_byte p).1 hlt
    obtain ⟨e, q', he⟩ := (perform_byte q).2 (Nat.not_lt.mp hnot)
    rw [ha, he] at hone
    exact hone
  · intro hlt
    by_contra hnot
    obtain ⟨a, ha⟩ := (perform_byte q).1 hlt
    obtain ⟨e, p', he⟩ := (perform_byte p).2 (Nat.not_lt.mp hnot)
    rw [ha, he] at hone
    exact hone

end

/-- **Packets that no reader can tell apart have as much left to read.** -/
theorem Indistinguishable.rest_eq {p q : Packet} (h : Indistinguishable p q) :
    p.bytes.length - p.bytesRead = q.bytes.length - q.bytesRead := by
  generalize hn : p.bytes.length - p.bytesRead = n
  induction n generalizing p q with
  | zero =>
      have hleft := h.left_iff
      omega
  | succ n ih =>
      have hp : p.bytesRead < p.bytes.length := by omega
      have hq := h.left_iff.mp hp
      have hp' : (p.skip 1).bytes.length - (p.skip 1).bytesRead = n := by
        change p.bytes.length - (p.bytesRead + 1) = n
        omega
      have hrest := ih (h.skip hp hq) hp'
      change n = q.bytes.length - (q.bytesRead + 1) at hrest
      omega

end EnkiNet
