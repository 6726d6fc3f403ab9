import EnkiNet.PacketCalls

/-!
# What a call that throws leaves

`transcript` is all that a program sees of a packet: what its calls return, and after
each of them the buffer, the getters and `isEmpty`.  Two packets are the `Same` if no
program sees a difference.

`writeBits` and `readBits` normalize their cursor before they look at their arguments,
and a container is written and read behind its length.  So a call that throws can leave a
packet with another cursor; `failing_call_iff` says which calls do not.
-/

namespace EnkiNet

open ByteStore Packet

/-! ## What a program sees -/

/-- `isEmpty`. -/
def Packet.isEmpty (p : Packet) : Bool := p.bytes.length = headerSize

/-- The getters. -/
structure View where
  isEmpty : Bool
  header : PacketHeader
  bytes : List Byte
  bytesWritten : Nat
  bytesRead : Nat
  deriving DecidableEq

def Packet.view (p : Packet) : View where
  isEmpty := p.isEmpty
  header := p.header
  bytes := p.bytes
  bytesWritten := p.bytesWritten
  bytesRead := p.bytesRead

/-- What the calls return, and what the getters say after each of them.  Behind undefined
behaviour there is nothing to see. -/
def transcript : List Call → Packet → List (Except Fault Outcome × View)
  | [], _ => []
  | c :: cs, p =>
      ((c.perform p).1, (c.perform p).2.view) ::
        match (c.perform p).1 with
        | .error (.undefined _) => []
        | _ => transcript cs (c.perform p).2

/-- No program sees a difference. -/
def Same (p q : Packet) : Prop :=
  p.view = q.view ∧ ∀ calls, transcript calls p = transcript calls q

theorem Same.refl (p : Packet) : Same p p := ⟨rfl, fun _ => rfl⟩

/-- **The call leaves nothing behind if it throws.**  A bit cursor that has a whole byte is
normalized first; a container is written and read behind its length. -/
def Call.Atomic (p : Packet) : Call → Prop
  | put _ => False
  | get (.scalar _) => True
  | get _ => p.bytes.length < p.bytesRead + 8
  | writeBits _ _ _ _ _ => p.bitsWritten < 8
  | readBits _ _ _ _ => p.bitsRead < 8
  | _ => True

/-! ## Containers -/

namespace Packet

variable {α : Type}

theorem putSize_ok (n : Nat) (p : Packet) :
    ∃ s, putSize n p = (.ok (), p.withWrite (p.writeCursor.afterBytes 8) s) := by
  obtain ⟨s, hsize, _, _⟩ := serialize_ok p (leBytes 8 n)
  rw [length_leBytes] at hsize
  exact ⟨s, hsize⟩

/-- A container that cannot be written has left its length. -/
theorem sized_error {n : Nat} {data : Option (List Byte)} {p p' : Packet} {e : Fault}
    (h : (do putSize n; serialize data) p = (.error e, p')) :
    p'.bytesWritten = p.bytesWritten + 8 := by
  obtain ⟨s, hsize⟩ := putSize_ok n p
  rw [Fallible.bind_ok hsize] at h
  cases data with
  | none =>
      cases h
      rfl
  | some d =>
      obtain ⟨t, hcontent, _, _⟩ := serialize_ok (p.withWrite (p.writeCursor.afterBytes 8) s) d
      rw [hcontent] at h
      cases h

theorem put_error {x : Item} {p p' : Packet} {e : Fault} (h : x.put p = (.error e, p')) :
    p'.bytesWritten = p.bytesWritten + 8 := by
  cases x with
  | scalar k v =>
      obtain ⟨s, hrun, _, _⟩ := serialize_ok p (scalarBytes v)
      have hput : (Item.scalar k v).put p = serialize (some (scalarBytes v)) p := rfl
      rw [hput, hrun] at h
      cases h
  | string s => exact sized_error h
  | vector k xs => exact sized_error h
  | array k xs null => exact sized_error h
  | packet q => exact sized_error h

/-- A container that cannot be read is left behind its length, if the length is there. -/
theorem prefixed_error {f : Nat → PacketM α} (hf : ∀ n, Reading (f n)) {p p' : Packet} {e : Fault}
    (h : (getSize >>= f) p = (.error e, p')) :
    (p.bytes.length < p.bytesRead + 8 ∧ p' = p) ∨
      (¬ p.bytes.length < p.bytesRead + 8 ∧ p.bytesRead + 8 ≤ p'.bytesRead) := by
  by_cases hshort : p.bytes.length < p.bytesRead + 8
  · obtain ⟨e', hread⟩ : ∃ e', deserialize 8 false p = (.error e', p) := ⟨_, if_pos hshort⟩
    have hsize : getSize p = (.error e', p) := Fallible.bind_error hread _
    rw [Fallible.bind_error hsize] at h
    cases h
    exact Or.inl ⟨hshort, rfl⟩
  · have hread : deserialize 8 false p = _ := deserialize_ok p (Nat.not_lt.mp hshort)
    have hsize : getSize p = (.ok (leNat (slice p.bytes p.bytesRead 8)),
        p.withRead (p.readCursor.afterBytes 8)) := Fallible.bind_ok hread _
    rw [Fallible.bind_ok hsize] at h
    obtain ⟨r, c, hrest, _, hc⟩ := hf (leNat (slice p.bytes p.bytesRead 8))
      (p.withRead (p.readCursor.afterBytes 8)) _ rfl rfl
    rw [h] at hrest
    cases hrest
    exact Or.inr ⟨hshort, hc⟩

/-- Every `operator>>` reads a length first, but for arithmetic types. -/
theorem get_prefixed (t : Target) :
    (∃ k, t = .scalar k) ∨
      (∀ p : Packet, Call.Atomic p (.get t) ↔ p.bytes.length < p.bytesRead + 8) ∧
        ∃ f, t.get = (getSize >>= f) ∧ ∀ n, Reading (f n) := by
  cases t with
  | scalar k => exact Or.inl ⟨k, rfl⟩
  | string =>
      refine Or.inr ⟨fun _ => Iff.rfl, _, Fallible.bind_assoc _ _ _, fun n => ?_⟩
      refine ((reads_deserialize _ _).reading.bind fun bytes => ?_).bind fun _ => Reading.pure _
      split
      · exact Reading.pure _
      · exact Reading.fail _
  | vector k capacity =>
      refine Or.inr ⟨fun _ => Iff.rfl, _, Fallible.bind_assoc _ _ _, fun n => ?_⟩
      exact ((reads_deserialize _ _).reading.bind fun _ => Reading.pure _).bind fun _ =>
        Reading.pure _
  | array k n null memory =>
      refine Or.inr ⟨fun _ => Iff.rfl, _, Fallible.bind_assoc _ _ _, fun stored => ?_⟩
      refine Reading.bind ?_ fun _ => Reading.pure _
      split
      · exact (reads_deserialize _ _).reading.bind fun _ => Reading.pure _
      · exact Reading.fail _
  | packet =>
      have hvector : getPacket = _ := Fallible.bind_assoc getSize _ _
      have hget : Target.packet.get = _ :=
        (congrArg (fun x : PacketM Packet => x >>= fun q => return Outcome.packet q) hvector).trans
          (Fallible.bind_assoc getSize _ _)
      refine Or.inr ⟨fun _ => Iff.rfl, _, hget, fun size => ?_⟩
      refine Reading.bind ?_ fun _ => Reading.pure _
      refine ((reads_deserialize _ _).reading.bind fun _ => Reading.pure _).bind fun b => ?_
      split
      · exact Reading.pure _
      · exact Reading.fail _

/-! ## Bits -/

/-- The lambda `read_bits` does not throw. -/
theorem readBitRun_error (shift : Int) (bits i : Nat) (data : BitVec 32) (p : Packet) :
    Fallible.Ends (fun _ _ => True) (fun e _ => ∃ u, e = .undefined u)
      (readBitRun shift bits i data p) := by
  induction bits generalizing i data with
  | zero => trivial
  | succ bits ih =>
      rw [readBitRun]
      refine Fallible.Ends.bind ?_
      unfold readBit
      split
      · exact ⟨_, rfl⟩
      split
      · exact ⟨_, rfl⟩
      · exact ih (i + 1) _

/-- A `readBits` call that throws has normalized the cursor. -/
theorem readBits_error {p p' : Packet} {n o : Int} {e : Fault} (he : ∀ u, e ≠ .undefined u)
    (h : readBits n o p = (.error e, p')) : p' = p.withRead p.readCursor.normalize := by
  rw [readBits_eq_with, readBitsWith_unfold] at h
  split at h
  · cases h
    rfl
  split at h
  · cases h
    rfl
  split at h
  · cases h
    rfl
  by_cases hn : n ≤ 0
  · rw [bitsLoop_done _ _ _ hn] at h
    cases h
  obtain ⟨k, rfl⟩ : ∃ k : Nat, n = k := ⟨n.toNat, by omega⟩
  have hends := bitsLoop_ends (fun shift bits data => readBitRun shift bits 0 data) nextReadByte
    addReadBits o (Cursor.normalize_bit_lt p.readCursor) (n := k) (by omega) (fun _ _ _ => True)
    (fun e _ => ∃ u, e = .undefined u) (fun _ _ _ _ _ _ _ => readBitRun_error _ _ _ _ _)
    (fun _ _ _ _ _ _ _ _ _ => readBitRun_error _ _ _ _ _) (a := 0)
      (p := p.withRead p.readCursor.normalize)
    trivial
  rw [Int.toNat_natCast] at h
  rw [h] at hends
  obtain ⟨u, rfl⟩ := hends
  exact absurd rfl (he u)

/-- Normalizing moves the byte cursor unless the bit cursor is inside a byte. -/
theorem normalize_of_lt {c : Cursor} (h : c.bit < 8) : c.normalize = c :=
  if_neg (Nat.not_le.mpr h)

theorem lt_normalize_byte {c : Cursor} (h : ¬ c.bit < 8) : c.byte < c.normalize.byte := by
  unfold Cursor.normalize
  rw [if_pos (Nat.not_lt.mp h)]
  dsimp only
  omega

/-- All that a rejected `writeBits` does is to leave a byte that is full. -/
theorem same_normalizedWrite_iff (p : Packet) :
    Same p (p.withWrite p.writeCursor.normalize p.bytes) ↔ p.bitsWritten < 8 := by
  by_cases hbit : p.bitsWritten < 8
  · have hstill : p.writeCursor.normalize = p.writeCursor := normalize_of_lt hbit
    rw [hstill]
    exact iff_of_true (Same.refl p) hbit
  · have hmoved : p.writeCursor.byte < p.writeCursor.normalize.byte := lt_normalize_byte hbit
    refine iff_of_false (fun hsame => ?_) hbit
    exact Nat.ne_of_lt hmoved (congrArg View.bytesWritten hsame.1)

/-- The same for `readBits`. -/
theorem same_normalizedRead_iff (p : Packet) :
    Same p (p.withRead p.readCursor.normalize) ↔ p.bitsRead < 8 := by
  by_cases hbit : p.bitsRead < 8
  · have hstill : p.readCursor.normalize = p.readCursor := normalize_of_lt hbit
    rw [hstill]
    exact iff_of_true (Same.refl p) hbit
  · have hmoved : p.readCursor.byte < p.readCursor.normalize.byte := lt_normalize_byte hbit
    refine iff_of_false (fun hsame => ?_) hbit
    exact Nat.ne_of_lt hmoved (congrArg View.bytesRead hsame.1)

end Packet

/-! ## Every call -/

/-- **A call that throws leaves the packet as it was** precisely if it is atomic. -/
theorem failing_call_iff {p p' : Packet} {c : Call} {e : Fault} (he : ∀ u, e ≠ .undefined u)
    (h : c.perform p = (.error e, p')) : Same p p' ↔ c.Atomic p := by
  have hsame : p' = p → Same p p' := by
    intro heq
    rw [heq]
    exact Same.refl p
  have hwritten : p.bytesWritten ≠ p'.bytesWritten → ¬ Same p p' := fun hne hs =>
    hne (congrArg View.bytesWritten hs.1)
  have hread : p.bytesRead ≠ p'.bytesRead → ¬ Same p p' := fun hne hs =>
    hne (congrArg View.bytesRead hs.1)
  cases c with
  | put x =>
      have hput : x.put p = (.error e, p') := Fallible.bind_pure_error h
      have hmoved := put_error hput
      exact iff_of_false (hwritten (by omega)) id
  | get t =>
      have hget : t.get p = (.error e, p') := h
      rcases get_prefixed t with ⟨k, rfl⟩ | ⟨hatomic, f, hf, hreading⟩
      · refine iff_of_true (hsame ?_) trivial
        have hscalar : deserialize k false p = (.error e, p') :=
          Fallible.bind_pure_error (Fallible.bind_pure_error hget)
        have hends := deserialize_ends k false p
        rw [hscalar] at hends
        exact hends.2.1
      · rw [hf] at hget
        rw [hatomic]
        rcases prefixed_error hreading hget with ⟨hshort, heq⟩ | ⟨hlong, hmoved⟩
        · exact iff_of_true (hsame heq) hshort
        · exact iff_of_false (hread (by omega)) hlong
  | writeBits data width offset _ _ =>
      have hwrite : writeBits data width offset p = (.error e, p') := Fallible.bind_pure_error h
      have hends := writeBits_ends p data width offset
      rw [hwrite] at hends
      have hend : p' = p.withWrite p.writeCursor.normalize p.bytes :=
        hends.resolve_left fun ⟨u, hu⟩ => he u hu
      rw [hend]
      exact same_normalizedWrite_iff p
  | readBits width offset _ _ =>
      have hbits : readBits width offset p = (.error e, p') := Fallible.bind_pure_error h
      rw [readBits_error he hbits]
      exact same_normalizedRead_iff p
  | resetReadPosition => cases h
  | clear => cases h
  | setHeader header => cases h

/-- A fresh packet rejects a field of 33 bits. -/
def tooWide : Call := .writeBits 1 33 0 (by decide) isInt_zero

theorem tooWide_throws : tooWide.perform (ofHeader {}) = (.error (.runtimeError
    "Writing these bits with this offset would cause an overflow of the data passed in"),
    (ofHeader {}).withWrite ⟨9, 0⟩ (ofHeader {}).bytes) := by decide +kernel

theorem failing_call_iff_tooWide :
    Same (ofHeader {}) ((ofHeader {}).withWrite ⟨9, 0⟩ (ofHeader {}).bytes) ↔
      tooWide.Atomic (ofHeader {}) :=
  failing_call_iff (by intro u hu; cases hu) tooWide_throws

/-- The call throws, and the packet counts another byte as written. -/
theorem rejected_call_moves : (ofHeader {}).Arises ∧ ∃ e p',
    tooWide.perform (ofHeader {}) = (.error (.runtimeError e), p') ∧ ¬ Same (ofHeader {}) p' := by
  refine ⟨⟨.header {}, [], rfl⟩, _, _, tooWide_throws, fun hsame => ?_⟩
  have hbytes := congrArg View.bytesWritten hsame.1
  exact absurd hbytes (by decide)

end EnkiNet
