import EnkiNet.PacketCalls

/-!
# Shift amounts

`writeBits` and `readBits` shift by `i + offset + extra_offset` and by the place of the
bit in its byte.  Here the two functions run with lambdas that do nothing but note the
exponents (`writeShifts`, `readShifts`).

The guard looks at the sum of width and offset.  It does not see a negative offset that
a large width makes up for, and it does not see that a call takes the whole rest of a
started byte, however narrow the call is.  `shifts_legal_iff` says which calls are fine.
-/

namespace EnkiNet

open ByteStore Packet

namespace Packet

/-! ## The exponents -/

/-- A lambda that notes the exponents of the shifts for the bits of one piece. -/
def noteShifts (bitCursor : Packet → Nat) (shift : Int) (bits : Nat) (exponents : List Int) :
    PacketM (List Int) := do
  let p ← Fallible.get
  return exponents ++ (List.range bits).flatMap fun (i : Nat) =>
    [(i : Int) + shift, ((i + bitCursor p : Nat) : Int)]

/-- The exponents in a call of `writeBits`. -/
def writeShifts (width offset : Int) (p : Packet) : Except Fault (List Int) :=
  (writeBitsWith (noteShifts bitsWritten) [] width offset p).1

/-- The exponents in a call of `readBits`. -/
def readShifts (width offset : Int) (p : Packet) : Except Fault (List Int) :=
  (readBitsWith (noteShifts bitsRead) [] width offset p).1

/-- The call throws, or all its shifts are shifts of an `int` by 0 to 31. -/
def ShiftsLegal : Except Fault (List Int) → Prop
  | .ok exponents => ∀ k ∈ exponents, 0 ≤ k ∧ k ≤ 31
  | .error (.undefined _) => False
  | .error _ => True

instance (r : Except Fault (List Int)) : Decidable (ShiftsLegal r) :=
  match r with
  | .ok exponents => inferInstanceAs (Decidable (∀ k ∈ exponents, 0 ≤ k ∧ k ≤ 31))
  | .error (.undefined _) => .isFalse id
  | .error (.runtimeError _) | .error .lengthError | .error .outOfRange
  | .error .stackOverflow => .isTrue trivial

/-- The call has no bits, or its field lies between bit 0 and bit 31 of the `int`. -/
def FieldLegal (c : Cursor) (width offset : Int) : Prop :=
  width ≤ 0 ∨ 0 ≤ offset ∧ offset + c.fieldWidth width.toNat ≤ 32

theorem noteShifts_ends {bitCursor : Packet → Nat} {shift : Int} {bits : Nat} {exponents : List Int}
    {p : Packet} {P : Prop} (hfit : bitCursor p + bits ≤ 8) (hpos : 0 < bits)
    (hexponents : (∀ k ∈ exponents, 0 ≤ k ∧ k ≤ 31) ↔ P) :
    Fallible.Ends (fun exponents' p' => p' = p ∧
        ((∀ k ∈ exponents', 0 ≤ k ∧ k ≤ 31) ↔ P ∧ 0 ≤ shift ∧ shift + bits ≤ 32))
      (fun _ _ => False) (noteShifts bitCursor shift bits exponents p) := by
  refine ⟨rfl, ?_⟩
  rw [List.forall_mem_append, hexponents]
  refine and_congr_right fun _ => ?_
  constructor
  · intro h
    have hfirst := h (((0 : Nat) : Int) + shift)
      (List.mem_flatMap.mpr ⟨0, List.mem_range.mpr hpos, List.mem_cons_self⟩)
    have hlast := h (((bits - 1 : Nat) : Int) + shift)
      (List.mem_flatMap.mpr ⟨bits - 1, List.mem_range.mpr (by omega), List.mem_cons_self⟩)
    omega
  · intro h k hk
    obtain ⟨i, hi, hk⟩ := List.mem_flatMap.mp hk
    have hlt := List.mem_range.mp hi
    rcases List.mem_cons.mp hk with heq | hk
    · omega
    · have heq := List.mem_singleton.mp hk
      omega

/-- The exponents of a whole loop. -/
theorem noteShifts_loop {bitCursor : Packet → Nat} {nextByte : Packet → Packet}
    {addBits : Nat → Packet → Packet} (hnext : ∀ p, bitCursor (nextByte p) = 0)
    (hadd : ∀ b p, bitCursor (addBits b p) = bitCursor p + b) {c : Cursor} (hbit : c.bit < 8)
    {p : Packet} (hp : bitCursor p = c.bit) (n o : Int) :
    ShiftsLegal
        (bitsLoop (noteShifts bitCursor) nextByte addBits n o n.toNat (8 - c.bit) n [] p).1 ↔
      FieldLegal c n o := by
  by_cases hn : n ≤ 0
  · rw [bitsLoop_done _ _ _ hn]
    exact iff_of_true (fun _ hk => absurd hk List.not_mem_nil) (Or.inl hn)
  obtain ⟨n, rfl⟩ : ∃ k : Nat, n = k := ⟨n.toNat, by omega⟩
  rw [Int.toNat_natCast]
  have hends := bitsLoop_ends (noteShifts bitCursor) nextByte addBits o hbit (n := n) (by omega)
    (fun k exponents q => bitCursor q = (c.bit + k) % 8 ∧
      ((∀ k ∈ exponents, 0 ≤ k ∧ k ≤ 31) ↔ (k = 0 ∨ 0 ≤ o ∧ o + k ≤ 32)))
    (fun _ _ => False) ?_ ?_ (a := []) (p := p)
    ⟨by omega, iff_of_true (fun _ hk => absurd hk List.not_mem_nil) (Or.inl rfl)⟩
  · have hwidth := c.le_fieldWidth n
    rcases hrun : bitsLoop (noteShifts bitCursor) nextByte addBits n o n (8 - c.bit) n [] p with
      ⟨e | exponents, q⟩
    · rw [hrun] at hends
      exact hends.elim
    · rw [hrun] at hends
      refine hends.2.trans ?_
      rw [FieldLegal, Int.toNat_natCast]
      omega
  · intro k bits exponents q hq hend _
    obtain ⟨hcur, hlegal⟩ := hq
    refine (noteShifts_ends (by omega) (by omega) hlegal).mono ?_
    intro exponents' q' hq'
    obtain ⟨rfl, hlegal'⟩ := hq'
    refine ⟨by rw [hnext]; omega, hlegal'.trans ?_⟩
    omega
  · intro k bits exponents q hq hstart hpos hlt _
    obtain ⟨hcur, hlegal⟩ := hq
    refine (noteShifts_ends (by omega) hpos hlegal).mono ?_
    intro exponents' q' hq'
    obtain ⟨rfl, hlegal'⟩ := hq'
    refine ⟨by rw [hadd]; omega, hlegal'.trans ?_⟩
    omega

/-! ## Legal calls -/

/-- The sum of width and offset is an `int`, and it makes the guard throw or the call is
legal; the number of bits the call needs is an `int`. -/
def WriteLegal (p : Packet) (width offset : Int) : Prop :=
  IsInt (width + offset) ∧
    (overflowsData width offset ∨
      IsInt (width - ((8 - p.writeCursor.normalize.bit : Nat) : Int)) ∧
        FieldLegal p.writeCursor.normalize width offset)

/-- The same for `readBits`, which has a second guard and computes the number of bits in front
of both. -/
def ReadLegal (p : Packet) (width offset : Int) : Prop :=
  IsInt (width - ((8 - p.readCursor.normalize.bit : Nat) : Int)) ∧ IsInt (width + offset) ∧
    (overflowsData width offset ∨
      pastBuffer (p.withRead p.readCursor.normalize)
        (width - ((8 - p.readCursor.normalize.bit : Nat) : Int)) ∨
      FieldLegal p.readCursor.normalize width offset)

instance (c : Cursor) (width offset : Int) : Decidable (FieldLegal c width offset) :=
  inferInstanceAs (Decidable (_ ∨ _))

theorem writeShifts_legal_iff (p : Packet) (width offset : Int) :
    ShiftsLegal (writeShifts width offset p) ↔ WriteLegal p width offset := by
  have hbit := Cursor.normalize_bit_lt p.writeCursor
  unfold writeShifts WriteLegal
  rw [writeBitsWith_unfold]
  split
  · next hsum => exact iff_of_false id fun h => hsum h.1
  next hsum =>
  split
  · next hover => exact iff_of_true trivial ⟨not_not.mp hsum, Or.inl hover⟩
  next hover =>
  split
  · next hneed => exact iff_of_false id fun h => (h.2.resolve_left hover).1 |> hneed
  next hneed =>
  have hwrite : FieldLegal p.writeCursor.normalize width offset ↔
      IsInt (width + offset) ∧ (overflowsData width offset ∨
        IsInt (width - ((8 - p.writeCursor.normalize.bit : Nat) : Int)) ∧
          FieldLegal p.writeCursor.normalize width offset) :=
    ⟨fun h => ⟨not_not.mp hsum, Or.inr ⟨not_not.mp hneed, h⟩⟩,
      fun h => (h.2.resolve_left hover).2⟩
  rw [← hwrite]
  rcases hreserve : reserveBits (width - ((8 - p.writeCursor.normalize.bit : Nat) : Int))
    (p.withWrite p.writeCursor.normalize p.bytes) with ⟨e | _, q⟩
  · -- only a call without bits can ask for a size that is impossible
    rw [Fallible.bind_error hreserve]
    have hends := reserveBits_ends (width - ((8 - p.writeCursor.normalize.bit : Nat) : Int))
      (p.withWrite p.writeCursor.normalize p.bytes)
    rw [hreserve] at hends
    obtain ⟨rfl, _⟩ := hends
    refine iff_of_true trivial (Or.inl ?_)
    by_contra hpos
    have hsize := bytesNeeded_nonneg
      (n := width - ((8 - p.writeCursor.normalize.bit : Nat) : Int)) (by omega)
    obtain ⟨s, hok, _⟩ := reserveBits_of_size
      (n := width - ((8 - p.writeCursor.normalize.bit : Nat) : Int))
      (p := p.withWrite p.writeCursor.normalize p.bytes) (by omega)
    rw [hreserve] at hok
    cases hok
  · rw [Fallible.bind_ok hreserve]
    have hends := reserveBits_ends (width - ((8 - p.writeCursor.normalize.bit : Nat) : Int))
      (p.withWrite p.writeCursor.normalize p.bytes)
    rw [hreserve] at hends
    obtain ⟨s, rfl, _⟩ := hends
    exact noteShifts_loop (fun _ => rfl) (fun _ _ => rfl) hbit rfl width offset

theorem readShifts_legal_iff (p : Packet) (width offset : Int) :
    ShiftsLegal (readShifts width offset p) ↔ ReadLegal p width offset := by
  have hbit := Cursor.normalize_bit_lt p.readCursor
  unfold readShifts ReadLegal
  rw [readBitsWith_unfold]
  split
  · next hint =>
    exact iff_of_false id fun h =>
      hint.elim (fun hneed => hneed h.1) fun hsum => hsum h.2.1
  next hint =>
  obtain ⟨hneed, hsum⟩ := not_or.mp hint
  split
  · next hover => exact iff_of_true trivial ⟨not_not.mp hneed, not_not.mp hsum, Or.inl hover⟩
  next hover =>
  split
  · next hpast =>
    exact iff_of_true trivial ⟨not_not.mp hneed, not_not.mp hsum, Or.inr (Or.inl hpast)⟩
  next hpast =>
  have hread : FieldLegal p.readCursor.normalize width offset ↔
      IsInt (width - ((8 - p.readCursor.normalize.bit : Nat) : Int)) ∧ IsInt (width + offset) ∧
        (overflowsData width offset ∨
          pastBuffer (p.withRead p.readCursor.normalize)
            (width - ((8 - p.readCursor.normalize.bit : Nat) : Int)) ∨
          FieldLegal p.readCursor.normalize width offset) :=
    ⟨fun h => ⟨not_not.mp hneed, not_not.mp hsum, Or.inr (Or.inr h)⟩,
      fun h => (h.2.2.resolve_left hover).resolve_left hpast⟩
  rw [← hread]
  exact noteShifts_loop (fun _ => rfl) (fun _ _ => rfl) hbit rfl width offset

/-- **Shift amounts.**  A call of `writeBits` or `readBits` on any packet throws or shifts by 0
to 31 only, without a signed overflow, precisely if it is legal. -/
theorem shifts_legal_iff (p : Packet) (width offset : Int) :
    (ShiftsLegal (writeShifts width offset p) ↔ WriteLegal p width offset) ∧
      (ShiftsLegal (readShifts width offset p) ↔ ReadLegal p width offset) :=
  ⟨writeShifts_legal_iff p width offset, readShifts_legal_iff p width offset⟩

/-- A packet that ends inside a byte. -/
def oneBitWritten : List Call := [.writeBits 1 1 0 (by decide) isInt_zero]

/-- One bit from bit 31 on: the call takes the seven bits that are left of the byte, and
shifts by 31 to 37. -/
theorem shift_too_far :
    ∃ p, p.Arises ∧ ¬ ShiftsLegal (writeShifts 1 31 p) := by
  have hend : ∃ p, Runs.run Call.step (ofHeader {}) oneBitWritten = some p ∧
      ¬ ShiftsLegal (writeShifts 1 31 p) := Runs.exists_of_any (by decide +kernel)
  obtain ⟨p, hrun, hp⟩ := hend
  exact ⟨p, ⟨.header {}, oneBitWritten, hrun⟩, hp⟩

end Packet

end EnkiNet
