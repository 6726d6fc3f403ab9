import EnkiNet.PacketCalls

/-!
# Asking before reading

`canDeserialize<Args...>` compares what is left of the buffer with the sizes that the types have
in memory, added up in an `int`.  Of an arithmetic type that is what is read.  A container
occupies a length and as many bytes as the length says, whatever the size of the object that
they are read into.
-/

namespace EnkiNet

open ByteStore Packet

/-! ## The check -/

/-- The sizes that are up to the library. -/
structure Layout where
  string : Nat
  vector : Nat
  emptyArray : Nat
  packet : Nat

namespace Target

/-- `sizeof`. -/
def size (layout : Layout) : Target → Nat
  | scalar k => k
  | string => layout.string
  | vector _ _ => layout.vector
  | array k n _ _ => if n = 0 then layout.emptyArray else k * n
  | packet => layout.packet

/-- Every object has a size, and it is a `size_t`. -/
def Valid : Target → Prop
  | vector k _ => 1 ≤ k
  | array _ n _ _ => n + 1 < 2 ^ 64
  | _ => True

def Arithmetic : Target → Prop
  | scalar _ => True
  | _ => False

/-- `canDeserialize<Args...>`. -/
def canDeserialize (layout : Layout) (targets : List Target) : PacketM Bool :=
  Packet.canDeserialize (targets.map (Target.size layout))

end Target

/-- The operation throws an exception. -/
def Throws {α : Type} (x : PacketM α) (p : Packet) : Prop :=
  ∃ e p', x p = (.error e, p') ∧ ∀ u, e ≠ .undefined u

/-- **Where the check says yes, reading does not throw.** -/
def CanDeserializeSound (layout : Layout) (targets : List Target) : Prop :=
  ∀ p : Packet, p.Arises → (Target.canDeserialize layout targets p).1 = .ok true →
    ¬ Throws (readAll Target.get targets) p

section
variable {α β : Type} {x : PacketM α} {f : α → PacketM β} {p p' : Packet} {a : α}

theorem Throws.bind_first (h : Throws x p) : Throws (x >>= f) p := by
  obtain ⟨e, p', hrun, he⟩ := h
  exact ⟨e, p', Fallible.bind_error hrun _, he⟩

theorem Throws.bind_next (hx : x p = (.ok a, p')) (h : Throws (f a) p') : Throws (x >>= f) p := by
  obtain ⟨e, q, hrun, he⟩ := h
  exact ⟨e, q, (Fallible.bind_ok hx _).trans hrun, he⟩

end

namespace Target

/-- Below 2 GiB the check is that of the sum of the sizes. -/
theorem canDeserialize_eq {layout : Layout} {targets : List Target} {p : Packet}
    (h : (targets.map (size layout)).sum < 2 ^ 31) :
    canDeserialize layout targets p =
      (.ok (decide (p.bytesRead + (targets.map (size layout)).sum ≤ p.bytes.length)), p) := by
  have hsum : accumulate (targets.map (size layout)) = (targets.map (size layout)).sum := by
    rw [accumulate_eq]
    exact Int.bmod_eq_of_le_mul_two (by omega) (by omega)
  rw [canDeserialize, Packet.canDeserialize, hsum]
  congr 3
  refine propext ⟨fun hroom => ?_, fun hroom => ?_⟩
  · omega
  · omega

/-! ## Numbers -/

theorem get_scalar (k : Nat) {p : Packet} (h : p.bytesRead + k ≤ p.bytes.length) :
    ∃ o, (scalar k).get p = (.ok o, p.withRead (p.readCursor.afterBytes k)) := by
  have hread := deserialize_ok p h
  exact ⟨_, Fallible.bind_ok (Fallible.bind_ok hread _) _⟩

theorem throws_scalar (k : Nat) {p : Packet} (h : p.bytes.length < p.bytesRead + k) :
    Throws (scalar k).get p := by
  have hread : Throws (deserialize k false) p := ⟨_, p, if_pos h, by simp⟩
  exact hread.bind_first.bind_first

/-- Numbers are read where there are enough bytes for all of them. -/
theorem readAll_room (layout : Layout) {targets : List Target} (h : ∀ t ∈ targets, t.Arithmetic)
    {p : Packet} (hroom : p.bytesRead + (targets.map (size layout)).sum ≤ p.bytes.length) :
    ∃ os p', readAll get targets p = (.ok os, p') := by
  induction targets generalizing p with
  | nil => exact ⟨[], p, rfl⟩
  | cons t ts ih =>
      have hfirst : t.Arithmetic := h t List.mem_cons_self
      cases t with
      | scalar k =>
          rw [List.map_cons, List.sum_cons, size] at hroom
          obtain ⟨o, hget⟩ := get_scalar k (p := p) (by omega)
          have hmore : p.bytesRead + k + (ts.map (size layout)).sum ≤ p.bytes.length := by omega
          obtain ⟨os, p', hrest⟩ := ih (fun u hu => h u (List.mem_cons_of_mem _ hu))
            (p := p.withRead (p.readCursor.afterBytes k)) hmore
          refine ⟨o :: os, p', ?_⟩
          rw [readAll, Fallible.bind_ok hget, Fallible.bind_ok hrest]
          rfl
      | _ => exact hfirst.elim

/-- Where there are not enough, they are not. -/
theorem readAll_short (layout : Layout) {targets : List Target} (h : ∀ t ∈ targets, t.Arithmetic)
    {p : Packet} (hin : p.bytesRead ≤ p.bytes.length)
    (hshort : p.bytes.length < p.bytesRead + (targets.map (size layout)).sum) :
    Throws (readAll get targets) p := by
  induction targets generalizing p with
  | nil => exact absurd hshort (Nat.not_lt.mpr hin)
  | cons t ts ih =>
      have hfirst : t.Arithmetic := h t List.mem_cons_self
      cases t with
      | scalar k =>
          rw [List.map_cons, List.sum_cons, size] at hshort
          by_cases hthere : p.bytesRead + k ≤ p.bytes.length
          · obtain ⟨o, hget⟩ := get_scalar k hthere
            have hmore : p.bytes.length < p.bytesRead + k + (ts.map (size layout)).sum := by omega
            have hrest := ih (fun u hu => h u (List.mem_cons_of_mem _ hu))
              (p := p.withRead (p.readCursor.afterBytes k)) hthere hmore
            exact Throws.bind_next hget hrest.bind_first
          · exact (throws_scalar k (Nat.not_le.mp hthere)).bind_first
      | _ => exact hfirst.elim

/-! ## Containers -/

/-- A buffer of ones. -/
def ones (n : Nat) : List Byte := List.replicate n 0xFF

/-- The length that a container of ones has. -/
def onesLength : Nat := 2 ^ 64 - 1

theorem getSize_ones {n : Nat} {p : Packet} (hbytes : p.bytes = ones n)
    (hroom : p.bytesRead + 8 ≤ n) :
    getSize p = (.ok onesLength, p.withRead (p.readCursor.afterBytes 8)) := by
  have hlen : p.bytes.length = n := by rw [hbytes, ones, List.length_replicate]
  have hread : deserialize 8 false p = _ := deserialize_ok p (by omega)
  have hslice : slice p.bytes p.bytesRead 8 = List.replicate 8 0xFF := by
    rw [slice, hbytes, ones, List.drop_replicate, List.take_replicate]
    congr 1
    omega
  have hsize : getSize p = (.ok (leNat (slice p.bytes p.bytesRead 8)), _) :=
    Fallible.bind_ok hread _
  rw [hsize, hslice]
  rfl

/-- No container can be read out of ones: it would be longer than every buffer. -/
theorem throws_ones {n : Nat} (hn : n < onesLength) {t : Target} (ht : t.Valid)
    (hcontainer : ¬ t.Arithmetic) {p : Packet} (hbytes : p.bytes = ones n) : Throws t.get p := by
  have hlen : p.bytes.length = n := by rw [hbytes, ones, List.length_replicate]
  have hbehind : ∀ {α : Type} (f : Nat → PacketM α),
      (∀ q : Packet, q.bytes.length = n → Throws (f onesLength) q) → Throws (getSize >>= f) p := by
    intro α f hf
    by_cases hroom : p.bytesRead + 8 ≤ n
    · exact Throws.bind_next (getSize_ones hbytes hroom) (hf _ hlen)
    · have hshort : Throws (deserialize 8 false) p := ⟨_, p, if_pos (by omega), by simp⟩
      exact hshort.bind_first.bind_first
  have hcontent : ∀ (k : Nat) (null : Bool), 1 ≤ k → ∀ q : Packet, q.bytes.length = n →
      Throws (deserialize (k * onesLength) null) q := by
    intro k null hk q hq
    have hmul : onesLength ≤ k * onesLength := Nat.le_mul_of_pos_left _ hk
    exact ⟨_, q, if_pos (by omega), by simp⟩
  cases t with
  | scalar k => exact absurd trivial hcontainer
  | string =>
      refine (hbehind _ fun q hq => ?_).bind_first
      have hone := hcontent 1 false (Nat.le_refl 1) q hq
      rw [Nat.one_mul] at hone
      exact hone.bind_first
  | vector k capacity =>
      refine (hbehind _ fun q hq => ?_).bind_first
      exact (hcontent k _ ht q hq).bind_first
  | array k m null memory =>
      refine (hbehind _ fun q _ => ?_).bind_first
      have hlong : ¬ onesLength ≤ m := by
        have hm : m + 1 < 2 ^ 64 := ht
        unfold onesLength
        omega
      rw [if_neg hlong]
      exact ⟨_, q, rfl, by simp⟩
  | packet =>
      have hvector : Throws (getVector 1) p :=
        hbehind _ fun q hq => (hcontent 1 _ (Nat.le_refl 1) q hq).bind_first
      exact hvector.bind_first.bind_first

/-- Nor can a list of types that has one. -/
theorem readAll_ones {n : Nat} (hn : n < onesLength) {targets : List Target}
    (hvalid : ∀ t ∈ targets, t.Valid) (hcontainer : ∃ t ∈ targets, ¬ t.Arithmetic) {p : Packet}
    (hbytes : p.bytes = ones n) : Throws (readAll get targets) p := by
  induction targets generalizing p with
  | nil =>
      obtain ⟨t, ht, _⟩ := hcontainer
      cases ht
  | cons t ts ih =>
      by_cases hfirst : t.Arithmetic
      · have hrest : ∃ u ∈ ts, ¬ u.Arithmetic := by
          obtain ⟨u, hu, hcontainer⟩ := hcontainer
          rcases List.mem_cons.mp hu with rfl | hu
          · exact absurd hfirst hcontainer
          · exact ⟨u, hu, hcontainer⟩
        cases t with
        | scalar k =>
            by_cases hroom : p.bytesRead + k ≤ p.bytes.length
            · obtain ⟨o, hget⟩ := get_scalar k hroom
              have hthrows := ih (fun u hu => hvalid u (List.mem_cons_of_mem _ hu)) hrest
                (p := p.withRead (p.readCursor.afterBytes k)) hbytes
              exact Throws.bind_next hget hthrows.bind_first
            · exact (throws_scalar k (Nat.not_le.mp hroom)).bind_first
        | _ => exact hfirst.elim
      · exact (throws_ones hn (hvalid t List.mem_cons_self) hfirst hbytes).bind_first

/-! ## Reading on -/

/-- A packet of ones of which `m` bytes have been read. -/
def onesBehind (n m : Nat) : Packet := (received (ones n)).withRead ⟨headerSize + m, 8⟩

/-- A program can read that far. -/
theorem arises_onesBehind {n m : Nat} (h : headerSize + m ≤ n) : (onesBehind n m).Arises := by
  have hlen : (ones n).length = n := List.length_replicate
  refine ⟨.data (ones n) (by rw [hlen]; omega), List.replicate m (.get (.scalar 1)), ?_⟩
  induction m with
  | zero => rfl
  | succ m ih =>
      obtain ⟨o, hget⟩ : ∃ o, (scalar 1).get (onesBehind n m) = (.ok o, onesBehind n (m + 1)) := by
        refine get_scalar 1 ?_
        change headerSize + m + 1 ≤ (ones n).length
        omega
      have hstep : Call.step (onesBehind n m) (.get (.scalar 1)) = some (onesBehind n (m + 1)) := by
        simp only [Call.step, Call.perform, hget]
      rw [List.replicate_succ', Runs.run_append_some (ih (by omega)), Runs.run_cons hstep]
      rfl

theorem canDeserialize_onesBehind {layout : Layout} {targets : List Target} {n m : Nat}
    (hlow : 0 ≤ (headerSize + m : Nat) + accumulate (targets.map (size layout)))
    (hhigh : (headerSize + m : Nat) + accumulate (targets.map (size layout)) ≤ n) :
    (canDeserialize layout targets (onesBehind n m)).1 = .ok true := by
  have hlen : (onesBehind n m).bytes.length = n := List.length_replicate
  have hbyte : (onesBehind n m).bytesRead = headerSize + m := rfl
  rw [canDeserialize, Packet.canDeserialize, hlen, hbyte]
  exact congrArg Except.ok (decide_eq_true ⟨hlow, hhigh⟩)

end Target

/-- **`canDeserialize` is sound** precisely for lists of arithmetic types of less than 2 GiB. -/
theorem canDeserialize_sound_iff (layout : Layout) {targets : List Target}
    (hvalid : ∀ t ∈ targets, t.Valid) :
    CanDeserializeSound layout targets ↔
      (∀ t ∈ targets, t.Arithmetic) ∧ (targets.map (Target.size layout)).sum < 2 ^ 31 := by
  have hsum := accumulate_eq (targets.map (Target.size layout))
  have hlow : -2 ^ 31 ≤ accumulate (targets.map (Target.size layout)) := by
    rw [hsum]
    exact Int.le_bmod (by decide)
  have hhigh : accumulate (targets.map (Target.size layout)) < 2 ^ 31 := by
    rw [hsum]
    exact Int.bmod_lt (by decide)
  constructor
  · intro hsound
    have harithmetic : ∀ t ∈ targets, t.Arithmetic := by
      by_contra hcontainer
      refine hsound (Target.onesBehind (headerSize + 2 ^ 32) (2 ^ 31))
        (Target.arises_onesBehind (by omega))
        (Target.canDeserialize_onesBehind (by omega) (by omega)) ?_
      exact Target.readAll_ones (by decide) hvalid (by simpa using hcontainer) rfl
    refine ⟨harithmetic, ?_⟩
    by_contra hlarge
    -- the sum does not fit an `int`, so the check asks for less
    obtain ⟨asked, hasked⟩ : ∃ asked : Nat,
        asked = (accumulate (targets.map (Target.size layout))).toNat := ⟨_, rfl⟩
    refine hsound (Target.onesBehind (headerSize + 2 ^ 31 + asked) (2 ^ 31))
      (Target.arises_onesBehind (by omega))
      (Target.canDeserialize_onesBehind (by omega) (by omega)) ?_
    have hlen : (Target.onesBehind (headerSize + 2 ^ 31 + asked) (2 ^ 31)).bytes.length =
      headerSize + 2 ^ 31 + asked := List.length_replicate
    have hbyte : (Target.onesBehind (headerSize + 2 ^ 31 + asked) (2 ^ 31)).bytesRead =
      headerSize + 2 ^ 31 := rfl
    exact Target.readAll_short layout harithmetic (by omega) (by omega)
  · intro h p _ hcan hthrows
    obtain ⟨harithmetic, hsmall⟩ := h
    rw [Target.canDeserialize_eq hsmall] at hcan
    have hroom : p.bytesRead + (targets.map (Target.size layout)).sum ≤ p.bytes.length :=
      of_decide_eq_true (Except.ok.inj hcan)
    obtain ⟨os, p', hread⟩ := Target.readAll_room layout harithmetic hroom
    obtain ⟨e, q, hfail, _⟩ := hthrows
    rw [hread] at hfail
    cases hfail

/-- Two numbers can be asked for. -/
theorem canDeserialize_sound_iff_twoNumbers :
    CanDeserializeSound ⟨32, 24, 1, 88⟩ [.scalar 4, .scalar 4] ↔
      (∀ t ∈ [Target.scalar 4, .scalar 4], t.Arithmetic) ∧
        ([Target.scalar 4, .scalar 4].map (Target.size ⟨32, 24, 1, 88⟩)).sum < 2 ^ 31 :=
  canDeserialize_sound_iff ⟨32, 24, 1, 88⟩ (by simp [Target.Valid])

/-- There is room for a string object in forty bytes, but not for the string that they begin. -/
theorem string_not_sound : ¬ CanDeserializeSound ⟨32, 24, 1, 88⟩ [.string] := by
  intro hsound
  refine hsound (Target.onesBehind 40 0) (Target.arises_onesBehind (by decide))
    (by decide +kernel) ?_
  exact Target.readAll_ones (n := 40) (by decide) (by simp [Target.Valid])
    ⟨.string, List.mem_cons_self, fun h => h⟩ rfl

end EnkiNet
