import EnkiNet.PacketCalls

/-!
# Reads and the end of the buffer

`deserialize` compares the end of what it copies with the size of the buffer.
`readBits` has already normalized its cursor, which then counts the byte it stands in,
and takes that byte off once more than it should: a field whose last byte is the one
right behind the buffer passes the guard.  `operator>>(Packet&)` checks the bytes of the
nested packet and not that there are enough of them for a header.

`reads_in_bounds_iff` says that these are the only two ways out of the buffer, for all
sequences of reads.
-/

namespace EnkiNet

open ByteStore Packet

/-! ## Calls that read -/

inductive ReadCall
  | bits (width : Nat) (width_le : width ≤ 32)
  | get (t : Target)

namespace ReadCall

def call : ReadCall → Call
  | bits width width_le => .readBits width 0 ⟨by omega, by omega⟩ isInt_zero
  | get t => .get t

def step (p : Packet) (c : ReadCall) : Option Packet := c.call.step p

/-- The call throws, or all the bytes it reads are bytes of the buffer. -/
def InBounds (p : Packet) (c : ReadCall) : Prop :=
  (c.call.perform p).1 ≠ .error (.undefined .outOfBounds)

/-- The last byte of a bit field is not the one behind the buffer.  A nested packet that
is there with all its bytes has a header. -/
def Covered (p : Packet) : ReadCall → Prop
  | bits width _ =>
      width = 0 ∨ p.readCursor.normalize.byte + (p.readCursor.normalize.bit + width - 1) / 8 ≠
        p.bytes.length + 1
  | get .packet =>
      p.bytesRead + 8 ≤ p.bytes.length →
        leNat (slice p.bytes p.bytesRead 8) = 0 ∨
          headerSize ≤ leNat (slice p.bytes p.bytesRead 8) ∨
          p.bytes.length < p.bytesRead + 8 + leNat (slice p.bytes p.bytesRead 8)
  | get _ => True

instance (p : Packet) (c : ReadCall) : Decidable (c.InBounds p) :=
  inferInstanceAs (Decidable (_ ≠ _))

end ReadCall

/-! ## Bit fields -/

namespace Packet

/-- One piece of a field, in a byte of the buffer or behind it. -/
theorem readBitRun_inside {shift bits : Nat} (data : BitVec 32) {p : Packet}
    (hbyte : p.bitsRead + bits ≤ 8) (hpos : 0 < bits) (hshift : shift + bits ≤ 32) :
    Fallible.Ends (fun _ p' => p' = p ∧ p.bytesRead - 1 < p.bytes.length)
      (fun e _ => e = .undefined .outOfBounds) (readBitRun shift bits 0 data p) := by
  by_cases hin : p.bytesRead - 1 < p.bytes.length
  · obtain ⟨d, hrun, _⟩ := readBitRun_ok shift bits 0 data p (by omega) hin (by omega)
    rw [hrun]
    exact ⟨rfl, hin⟩
  · obtain ⟨bits, rfl⟩ : ∃ k, bits = k + 1 := ⟨bits - 1, by omega⟩
    have hone : readBit data 0 (((0 : Nat) : Int) + (shift : Int)) p =
        (.error (.undefined .outOfBounds), p) := by
      unfold readBit
      rw [if_neg (by omega), if_pos (by omega)]
    rw [readBitRun, Fallible.bind_error hone]
    exact rfl

/-- **A field that ends right behind the buffer** is read all the same. -/
theorem readBits_outside {p : Packet} {n : Nat} (hn : 1 ≤ n) (hle : n ≤ 32)
    (hbyte : 1 ≤ p.bytesRead)
    (hend : p.readCursor.normalize.byte + (p.readCursor.normalize.bit + n - 1) / 8 =
      p.bytes.length + 1) :
    ∃ p', readBits n 0 p = (.error (.undefined .outOfBounds), p') := by
  have hloop := readBits_eq_loop p (o := 0) hn (by omega) hle hbyte (Nat.le_of_eq hend)
  set c := p.readCursor.normalize with hc
  have hbit : c.bit < 8 := Cursor.normalize_bit_lt _
  have hwidth : c.fieldWidth n = n ∨ (c.fieldWidth n = 8 - c.bit ∧ n < 8 - c.bit) := by
    unfold Cursor.fieldWidth
    split <;> omega
  -- every byte that the first `k` bits are in belongs to the buffer
  have hends := bitsLoop_ends (fun shift bits data => readBitRun shift bits 0 data) nextReadByte
    addReadBits 0 hbit hn
    (fun k _ q => q = p.withRead (c.move k) ∧
      (0 < k → c.byte + (c.bit + k - 1) / 8 ≤ p.bytes.length))
    (fun e _ => e = .undefined .outOfBounds) ?_ ?_ (a := 0) (p := p.withRead c)
    ⟨by rw [Cursor.move_zero hbit], fun h => absurd h (Nat.lt_irrefl 0)⟩
  · rw [← hloop] at hends
    rcases hrun : readBits n 0 p with ⟨e | d, p'⟩
    · rw [hrun] at hends
      exact ⟨p', congrArg (fun e => (Except.error e, p')) hends⟩
    · rw [hrun] at hends
      have hlast := hends.2 (by omega)
      omega
  · intro k bits d q hq hpiece hfits
    obtain ⟨rfl, _⟩ := hq
    have hroom : (p.withRead (c.move k)).bitsRead + bits ≤ 8 := by
      simp only [withRead_bitsRead, Cursor.move]
      omega
    rw [Int.zero_add]
    refine (readBitRun_inside d hroom (by omega) (by omega)).mono ?_
    intro _ q hq
    obtain ⟨rfl, hin⟩ := hq
    simp only [withRead_bytesRead, withRead_bytes, Cursor.move] at hin
    exact ⟨by rw [Cursor.move_full hpiece]; rfl, fun _ => by omega⟩
  · intro k bits d q hq hstart hpos hlt hlast
    obtain ⟨rfl, _⟩ := hq
    have hroom : (p.withRead (c.move k)).bitsRead + bits ≤ 8 := by
      simp only [withRead_bitsRead, Cursor.move]
      omega
    rw [Int.zero_add]
    refine (readBitRun_inside d hroom hpos (by omega)).mono ?_
    intro _ q hq
    obtain ⟨rfl, hin⟩ := hq
    simp only [withRead_bytesRead, withRead_bytes, Cursor.move] at hin
    exact ⟨by rw [Cursor.move_tail hstart hlt]; rfl, fun _ => by omega⟩

/-- A field whose last byte is farther out is rejected. -/
theorem readBits_past {p : Packet} {n : Nat} (hn : 1 ≤ n) (hle : n ≤ 32) (hbyte : 1 ≤ p.bytesRead)
    (hend : p.bytes.length + 1 <
      p.readCursor.normalize.byte + (p.readCursor.normalize.bit + n - 1) / 8) :
    readBits n 0 p = (.error (.runtimeError
      "Tried to read past the packet buffer, not enough bytes written"),
      p.withRead p.readCursor.normalize) := by
  have hbit := Cursor.normalize_bit_lt p.readCursor
  have hcbyte : 1 ≤ p.readCursor.normalize.byte :=
    Nat.le_trans hbyte (Cursor.le_normalize_byte p.readCursor)
  have hneed : IsInt ((n : Int) - ((8 - p.readCursor.normalize.bit : Nat) : Int)) :=
    ⟨by omega, by omega⟩
  have hsum : IsInt ((n : Int) + 0) := ⟨by omega, by omega⟩
  have hguard : ¬ overflowsData (n : Int) 0 := by unfold overflowsData; omega
  have hpast : pastBuffer (p.withRead p.readCursor.normalize)
      ((n : Int) - ((8 - p.readCursor.normalize.bit : Nat) : Int)) :=
    (pastBuffer_iff (p := p.withRead p.readCursor.normalize) hn hle hbit hcbyte).mpr hend
  rw [readBits_eq_with, readBitsWith_unfold, if_neg
    (not_or.mpr ⟨not_not_intro hneed, not_not_intro hsum⟩), if_neg hguard, if_pos hpast]

/-- A call without bits looks at no byte. -/
theorem readBits_zero (p : Packet) :
    (readBits 0 0 p = (.ok 0, p.withRead p.readCursor.normalize)) ∨
      readBits 0 0 p = (.error (.runtimeError
        "Tried to read past the packet buffer, not enough bytes written"),
        p.withRead p.readCursor.normalize) := by
  have hbit := Cursor.normalize_bit_lt p.readCursor
  have hneed : IsInt ((0 : Int) - ((8 - p.readCursor.normalize.bit : Nat) : Int)) :=
    ⟨by omega, by omega⟩
  have hsum : IsInt ((0 : Int) + 0) := ⟨by omega, by omega⟩
  have hguard : ¬ overflowsData (0 : Int) 0 := by unfold overflowsData; omega
  rw [readBits_eq_with, readBitsWith_unfold, if_neg
    (not_or.mpr ⟨not_not_intro hneed, not_not_intro hsum⟩), if_neg hguard]
  split
  · exact Or.inr rfl
  · exact Or.inl rfl

end Packet

/-! ## One call -/

namespace ReadCall

theorem inBounds_bits {p : Packet} (hp : Upright p) {width : Nat} (width_le : width ≤ 32) :
    InBounds p (bits width width_le) ↔ Covered p (bits width width_le) := by
  have hbyte : 1 ≤ p.bytesRead := Nat.le_trans (by decide) hp.read_byte
  have hcbyte : 1 ≤ p.readCursor.normalize.byte :=
    Nat.le_trans hbyte (Cursor.le_normalize_byte p.readCursor)
  have hperform : (bits width width_le).call.perform = (do
      let v ← readBits width 0
      return Outcome.bits v) := rfl
  unfold InBounds Covered
  rw [hperform]
  rcases Nat.eq_zero_or_pos width with rfl | hpos
  · refine iff_of_true ?_ (Or.inl rfl)
    rw [Nat.cast_zero]
    rcases readBits_zero p with hrun | hrun
    · rw [Fallible.bind_ok hrun]
      simp
    · rw [Fallible.bind_error hrun]
      simp
  rcases Nat.lt_trichotomy (p.readCursor.normalize.byte +
    (p.readCursor.normalize.bit + width - 1) / 8) (p.bytes.length + 1) with hin | hend | hpast
  · refine iff_of_true ?_ (Or.inr (Nat.ne_of_lt hin))
    have hbit := Cursor.normalize_bit_lt p.readCursor
    have hwidth : p.readCursor.normalize.fieldWidth width = width ∨
        (p.readCursor.normalize.fieldWidth width = 8 - p.readCursor.normalize.bit ∧
          width < 8 - p.readCursor.normalize.bit) := by
      unfold Cursor.fieldWidth
      split <;> omega
    have hpos' : 8 * (p.readCursor.normalize.byte - 1) + p.readCursor.normalize.bit =
        p.readCursor.pos := Cursor.pos_normalize hbyte
    obtain ⟨d, hrun, _⟩ := readBits_ok p (n := width) (o := 0) hpos (by omega) (by omega) hbyte
      (by omega)
    have hrun' : readBits width 0 p = (.ok d, _) := hrun
    rw [Fallible.bind_ok hrun']
    simp
  · obtain ⟨p', hrun⟩ := readBits_outside hpos width_le hbyte hend
    rw [Fallible.bind_error hrun]
    exact iff_of_false (fun h => h rfl) (fun h => h.elim (by omega) (fun h => h hend))
  · rw [Fallible.bind_error (readBits_past hpos width_le hbyte hpast)]
    exact iff_of_true (by simp) (Or.inr (Nat.ne_of_gt hpast))

/-- A nested packet is built from the bytes that were read for it. -/
theorem inBounds_packet (p : Packet) : InBounds p (get .packet) ↔ Covered p (get .packet) := by
  have hperform : (get .packet).call.perform = (do
      let q ← getPacket
      return Outcome.packet q) := rfl
  have hout : InBounds p (get .packet) ↔ (getPacket p).1 ≠ .error (.undefined .outOfBounds) := by
    unfold InBounds
    rw [hperform]
    rcases hrun : getPacket p with ⟨e | q, p'⟩
    · rw [Fallible.bind_error hrun]
      exact not_congr ⟨fun h => congrArg Except.error (Except.error.inj h),
        fun h => congrArg Except.error (Except.error.inj h)⟩
    · rw [Fallible.bind_ok hrun]
      exact iff_of_true (by simp) (by simp)
  rw [hout]
  by_cases hlong : p.bytesRead + 8 ≤ p.bytes.length
  · have hsize : getSize p = (.ok (leNat (slice p.bytes p.bytesRead 8)),
        p.withRead (p.readCursor.afterBytes 8)) := by
      rw [getSize, Fallible.bind_ok (deserialize_ok p hlong)]
      rfl
    unfold Covered
    set size := leNat (slice p.bytes p.bytesRead 8) with hdef
    set q := p.withRead (p.readCursor.afterBytes 8) with hq
    have hbyte : q.bytesRead = p.bytesRead + 8 := rfl
    have hbytes : q.bytes = p.bytes := rfl
    have hends := deserialize_ends (1 * size) (size = 0 ∧ 0 = 0) q
    rw [Nat.one_mul, hbytes, hbyte] at hends
    rcases hread : deserialize size (size = 0 ∧ 0 = 0) q with ⟨e | bytes, q'⟩
    · rw [hread] at hends
      obtain ⟨hwhy, _, hdefined⟩ := hends
      have hvector : getVector 1 0 p = (.error e, q') := by
        rw [getVector, Fallible.bind_ok hsize, Nat.one_mul, Fallible.bind_error hread]
      rw [getPacket, Fallible.bind_error hvector]
      refine iff_of_true (fun h => hdefined _ (Except.error.inj h)) fun _ => ?_
      rcases hwhy with hpast | hnull
      · exact Or.inr (Or.inr (by omega))
      · exact Or.inl (by simpa using hnull)
    · rw [hread] at hends
      obtain ⟨_, hin, hnull, _⟩ := hends
      have hvector : getVector 1 0 p = (.ok (scalarsOf 1 size bytes), q') := by
        rw [getVector, Fallible.bind_ok hsize, Nat.one_mul, Fallible.bind_ok hread]
        rfl
      have hne : size ≠ 0 := by simpa using hnull
      rw [getPacket, Fallible.bind_ok hvector]
      by_cases hhead : headerSize ≤ size
      · rw [ofData_eq (by rw [length_scalarsOf]; exact hhead)]
        exact iff_of_true (by simp) fun _ => Or.inr (Or.inl hhead)
      · have hshort : ofData (scalarsOf 1 size bytes) = .error (.undefined .outOfBounds) :=
          if_pos (by rw [length_scalarsOf]; exact Nat.not_le.mp hhead)
        rw [hshort]
        refine iff_of_false (fun h => h rfl) fun h => ?_
        rcases h hlong with hzero | hlarge | hpast
        · exact hne hzero
        · exact hhead hlarge
        · omega
  · obtain ⟨e, hread⟩ : ∃ e, deserialize 8 false p = (.error (.runtimeError e), p) :=
      ⟨_, if_pos (by omega)⟩
    have hvector : getVector 1 0 p = (.error (.runtimeError e), p) := by
      rw [getVector, Fallible.bind_error]
      rw [getSize, Fallible.bind_error hread]
    rw [getPacket, Fallible.bind_error hvector]
    exact iff_of_true (by simp) fun h => absurd h hlong

/-- **One read** stays in the buffer precisely if it is covered. -/
theorem inBounds_iff {p : Packet} (hp : Upright p) (c : ReadCall) : c.InBounds p ↔ c.Covered p := by
  have hdefined : ∀ {x : PacketM Outcome}, Catchable x →
      (x p).1 ≠ .error (.undefined .outOfBounds) := by
    intro x hx
    have hnot : ¬ Fault.IsException (.undefined .outOfBounds) := fun h => h
    exact hx.avoids hnot p
  cases c with
  | bits width width_le => exact inBounds_bits hp width_le
  | get t =>
      cases t with
      | scalar k =>
          exact iff_of_true
            (hdefined ((catchable_getScalar k).bind fun _ => Fallible.Faults.pure _)) trivial
      | string =>
          exact iff_of_true
            (hdefined (catchable_getString.bind fun _ => Fallible.Faults.pure _)) trivial
      | vector k capacity =>
          exact iff_of_true
            (hdefined ((catchable_getVector k capacity).bind fun _ => Fallible.Faults.pure _))
              trivial
      | array k n null memory =>
          exact iff_of_true
            (hdefined ((catchable_getArrayInto k n null memory).bind fun _ =>
              Fallible.Faults.pure _))
            trivial
      | packet => exact inBounds_packet p

end ReadCall

/-! ## Sequences of reads -/

/-- **Reads and the end of the buffer.**  Every read of a sequence throws or stays inside the
buffer precisely if every read is covered by the packet that it finds. -/
theorem reads_in_bounds_iff {p : Packet} (hp : p.Arises) (reads : List ReadCall) :
    Runs.Meets ReadCall.step ReadCall.InBounds p reads ↔
      Runs.Meets ReadCall.step ReadCall.Covered p reads :=
  Runs.meets_congr (fun _ _ _ hp hstep => upright_of_step hp hstep)
    (fun _ c hp => ReadCall.inBounds_iff hp c) hp.upright reads

/-- A header and a byte. -/
def nineBytes : Origin := .data [0, 0, 0, 0, 0, 0, 0, 0, 5] (by decide)

/-- The byte is read as a number, and there is nothing left for a bit field of nine bits. -/
theorem reads_in_bounds_nineBytes :
    Runs.Meets ReadCall.step ReadCall.InBounds nineBytes.packet
        [.get (.scalar 1), .bits 17 (by decide)] ↔
      Runs.Meets ReadCall.step ReadCall.Covered nineBytes.packet
        [.get (.scalar 1), .bits 17 (by decide)] :=
  reads_in_bounds_iff ⟨nineBytes, [], rfl⟩ _

/-- Eight bits are read from a packet that has only its header. -/
theorem read_behind_buffer :
    (ofHeader {}).Arises ∧
      ¬ Runs.Meets ReadCall.step ReadCall.InBounds (ofHeader {}) [.bits 8 (by decide)] := by
  refine ⟨⟨.header {}, [], rfl⟩, fun h => ?_⟩
  have hread : (Call.perform (ReadCall.call (.bits 8 (by decide))) (ofHeader {})).1 =
      .error (.undefined .outOfBounds) := by decide +kernel
  exact h.1 hread

end EnkiNet
