import EnkiNet.PacketScript

/-!
# Values in whole bytes, with a `size_t` of any width

`operator<<` writes lengths as the `size_t` of the build, so the codec has a parameter:
the number of bytes of that type.  The operations on packets elsewhere are those of
a build with eight.

What `operator<<` writes is a list of bytes (`Puts`), and `operator>>` returns a value
from precisely the packets that have its bytes at the read cursor (`Yields`).  Both
relations are closed under sequencing, so they are proved for `serialize` and
`deserialize` and inherited by every type.
-/

namespace EnkiNet

open ByteStore

namespace Packet

/-! ## Writing bytes -/

/-- The bytes in front of the write cursor. -/
def written (w : Packet) : List Byte := w.bytes.take w.bytesWritten

/-- The operation writes the bytes `d` and nothing else. -/
def Puts (x : PacketM Unit) (d : List Byte) : Prop :=
  ∀ w, w.bytesWritten ≤ w.bytes.length → ∃ w', x w = (.ok (), w') ∧
    w'.bytesWritten ≤ w'.bytes.length ∧ w'.written = w.written ++ d ∧
    w'.readCursor = w.readCursor ∧ w'.header = w.header

theorem Puts.pure : Puts (pure ()) [] := by
  intro w hw
  refine ⟨w, rfl, hw, ?_, rfl, rfl⟩
  rw [List.append_nil]

/-- Two pieces of code put down what the one and then the other does. -/
theorem Puts.bind {x y : PacketM Unit} {d e : List Byte} (hx : Puts x d) (hy : Puts y e) :
    Puts (do x; y) (d ++ e) := by
  intro w hw
  obtain ⟨w₁, hrun, hw₁, hwritten, hread, hheader⟩ := hx w hw
  obtain ⟨w₂, hrun', hw₂, hwritten', hread', hheader'⟩ := hy w₁ hw₁
  refine ⟨w₂, ?_, hw₂, ?_, hread'.trans hread, hheader'.trans hheader⟩
  · rw [Fallible.bind_ok hrun]
    exact hrun'
  · rw [hwritten', hwritten, List.append_assoc]

/-- `serialize` puts down its argument. -/
theorem puts_serialize (d : List Byte) : Puts (serialize (some d)) d := by
  intro w hw
  refine ⟨_, rfl, ?_, ?_, rfl, rfl⟩
  · dsimp only
    split
    · rw [length_overwrite] <;> rw [length_resize] <;> omega
    · rw [length_overwrite] <;> omega
  · have hkeep : ∀ buffer : List Byte, w.bytesWritten ≤ buffer.length →
        buffer.take w.bytesWritten = w.written →
        (overwrite buffer w.bytesWritten d).take (w.bytesWritten + d.length) = w.written ++ d := by
      intro buffer hlen htake
      have hfront : (w.written ++ d).length = w.bytesWritten + d.length := by
        rw [List.length_append, ← htake, List.length_take_of_le hlen]
      rw [overwrite, htake, ← hfront, List.take_left]
    unfold written at hkeep ⊢
    dsimp only
    split
    · apply hkeep
      · rw [length_resize]
        omega
      · rw [resize, List.take_append_of_le_length]
        · rw [List.take_take]
          congr 1
          omega
        · rw [List.length_take]
          omega
    · exact hkeep _ hw rfl

/-! ## Reading bytes -/

/-- The read cursor is between two bytes of the buffer. -/
structure Between (r : Packet) : Prop where
  bit_eq : r.bitsRead = 8
  le : r.bytesRead ≤ r.bytes.length

/-- The packet with the read cursor `n` bytes further on. -/
def skip (n : Nat) (r : Packet) : Packet := r.withRead ⟨r.bytesRead + n, 8⟩

/-- The bytes `d` are next for a reader of the packet. -/
def Ahead (r : Packet) (d : List Byte) : Prop := d <+: r.bytes.drop r.bytesRead

/-- Skipping twice is skipping the sum. -/
theorem skip_skip (m n : Nat) (r : Packet) : (r.skip m).skip n = r.skip (m + n) := by
  change r.withRead ⟨r.bytesRead + m + n, 8⟩ = r.withRead ⟨r.bytesRead + (m + n), 8⟩
  rw [Nat.add_assoc]

theorem skip_zero {r : Packet} (hr : r.Between) : r.skip 0 = r := by
  cases r
  cases hr.bit_eq
  rfl

/-- Behind what was ahead the cursor is still between two values. -/
theorem Between.skip {r : Packet} {d : List Byte} (hr : r.Between) (h : r.Ahead d) :
    (r.skip d.length).Between where
  bit_eq := rfl
  le := by
    have hlen := h.length_le
    have hle := hr.le
    rw [List.length_drop] at hlen
    change r.bytesRead + d.length ≤ r.bytes.length
    omega

/-- A first part is ahead, and the rest behind it. -/
theorem ahead_append {r : Packet} {d e : List Byte} :
    r.Ahead (d ++ e) ↔ r.Ahead d ∧ (r.skip d.length).Ahead e := by
  have hdrop : (r.skip d.length).bytes.drop (r.skip d.length).bytesRead =
      (r.bytes.drop r.bytesRead).drop d.length := List.drop_drop.symm
  unfold Ahead
  rw [hdrop]
  constructor
  · rintro ⟨t, ht⟩
    rw [← ht, List.append_assoc, List.drop_left]
    exact ⟨List.prefix_append _ _, List.prefix_append _ _⟩
  · rintro ⟨⟨t, ht⟩, u, hu⟩
    rw [← ht, List.drop_left] at hu
    exact ⟨u, by rw [← ht, ← hu, List.append_assoc]⟩

variable {α β : Type}

/-- Between two bytes, the operation returns `a` precisely where the bytes `d` are next,
and it moves the read cursor behind them. -/
def Yields (x : PacketM α) (a : α) (d : List Byte) : Prop :=
  ∀ r, r.Between → ∀ r', x r = (.ok a, r') ↔ r.Ahead d ∧ r' = r.skip d.length

/-- Nothing is read of nothing. -/
theorem Yields.pure (a : α) : Yields (pure a) a [] := by
  intro r hr r'
  rw [List.length_nil, skip_zero hr]
  constructor
  · intro h
    cases h
    exact ⟨List.nil_prefix, rfl⟩
  · rintro ⟨_, rfl⟩
    rfl

/-- The rest returns its value for one result of the first part only. -/
theorem Yields.bind {x : PacketM α} {f : α → PacketM β} {a : α} {b : β} {d e : List Byte}
    (hx : Yields x a d) (hf : Yields (f a) b e)
    (honly : ∀ r s t a', x r = (.ok a', s) → f a' s = (.ok b, t) → a' = a) :
    Yields (x >>= f) b (d ++ e) := by
  intro r hr r'
  rw [ahead_append, List.length_append, ← skip_skip]
  constructor
  · intro h
    obtain ⟨a', s, hfirst, hrest⟩ := Fallible.bind_eq_ok h
    cases honly r s r' a' hfirst hrest
    obtain ⟨hahead, rfl⟩ := (hx r hr s).mp hfirst
    obtain ⟨hmore, hend⟩ := (hf _ (hr.skip hahead) r').mp hrest
    exact ⟨⟨hahead, hmore⟩, hend⟩
  · rintro ⟨⟨hahead, hmore⟩, hend⟩
    have hfirst := (hx r hr (r.skip d.length)).mpr ⟨hahead, rfl⟩
    rw [Fallible.bind_ok hfirst]
    exact (hf _ (hr.skip hahead) r').mpr ⟨hmore, hend⟩

/-- A value that is made from what was read. -/
theorem Yields.map {x : PacketM α} {g : α → β} {a : α} {b : β} {d : List Byte} (hx : Yields x a d)
    (hb : g a = b) (hg : ∀ r s a', x r = (.ok a', s) → g a' = b → a' = a) :
    Yields (do let y ← x; return g y) b d := by
  have hpure : Yields (Pure.pure (g a) : PacketM β) b [] := hb ▸ Yields.pure (g a)
  have h := hx.bind (f := fun y => Pure.pure (g y)) hpure ?_
  · rwa [List.append_nil] at h
  · intro r s t a' hfirst hrest
    exact hg r s a' hfirst (Except.ok.inj (congrArg Prod.fst hrest))

/-- `deserialize` yields the bytes that are ahead. -/
theorem yields_deserialize (d : List Byte) : Yields (deserialize d.length false) d d := by
  intro r hr r'
  have hle := hr.le
  by_cases hin : r.bytesRead + d.length ≤ r.bytes.length
  · have hread : deserialize d.length false r =
        (.ok (slice r.bytes r.bytesRead d.length), r.skip d.length) := deserialize_ok r hin
    rw [hread, Ahead, List.prefix_iff_eq_take]
    constructor
    · intro h
      exact ⟨(Except.ok.inj (congrArg Prod.fst h)).symm, (congrArg Prod.snd h).symm⟩
    · rintro ⟨hslice, rfl⟩
      rw [slice, ← hslice]
  · have hread : ∃ e, deserialize d.length false r = (.error e, r) :=
      ⟨_, if_pos (by omega)⟩
    obtain ⟨e, hread⟩ := hread
    rw [hread]
    constructor
    · intro h
      cases h
    · rintro ⟨hahead, _⟩
      have hlen := hahead.length_le
      rw [List.length_drop] at hlen
      omega

/-! ### Sequences -/

section
variable {τ : Type}

/-- A loop puts down what its turns do. -/
theorem Puts.forEach {as : List α} {put : α → PacketM Unit} {bytes : α → List Byte}
    (h : ∀ a ∈ as, Puts (put a) (bytes a)) :
    Puts (Fallible.forEach as put) (as.flatMap bytes) := by
  induction as with
  | nil => exact Puts.pure
  | cons a as ih =>
      exact (h a List.mem_cons_self).bind (ih fun b hb => h b (List.mem_cons_of_mem a hb))

/-- Read one value of each type, in their order. -/
def readAll (get : τ → PacketM α) : List τ → PacketM (List α)
  | [] => pure []
  | t :: ts => do
      let a ← get t
      let as ← readAll get ts
      return a :: as

/-- The first value, and the others. -/
theorem readAll_cons_ok {get : τ → PacketM α} {t : τ} {ts : List τ} {as : List α} {r r' : Packet}
    (h : readAll get (t :: ts) r = (.ok as, r')) :
    ∃ a bs s, as = a :: bs ∧ get t r = (.ok a, s) ∧ readAll get ts s = (.ok bs, r') := by
  obtain ⟨a, s, hfirst, h⟩ := Fallible.bind_eq_ok h
  obtain ⟨bs, u, hrest, h⟩ := Fallible.bind_eq_ok h
  cases h
  exact ⟨a, bs, s, rfl, hfirst, hrest⟩

/-- A list of values is read if each of them is. -/
theorem yields_readAll {get : τ → PacketM α} {type : α → τ} {bytes : α → List Byte} {as : List α}
    (h : ∀ a ∈ as, Yields (get (type a)) a (bytes a)) :
    Yields (readAll get (as.map type)) as (as.flatMap bytes) := by
  induction as with
  | nil => exact Yields.pure []
  | cons a as ih =>
      have hrest := ih fun b hb => h b (List.mem_cons_of_mem a hb)
      refine (h a List.mem_cons_self).bind ?_ ?_
      · refine hrest.map rfl ?_
        intro r s bs _ heq
        cases heq
        rfl
      · intro r s t b _ hlast
        obtain ⟨_, _, _, hlast⟩ := Fallible.bind_eq_ok hlast
        cases hlast
        rfl

/-- What a sequence of reads has returned, its reads have returned. -/
theorem get_of_readAll {get : τ → PacketM α} {type : α → τ} {as : List α} {r r' : Packet}
    (h : readAll get (as.map type) r = (.ok as, r')) :
    ∀ a ∈ as, ∃ s s', get (type a) s = (.ok a, s') := by
  induction as generalizing r with
  | nil => simp
  | cons a as ih =>
      obtain ⟨b, bs, s, heq, hfirst, hrest⟩ := readAll_cons_ok h
      cases heq
      intro c hc
      rcases List.mem_cons.mp hc with rfl | hc
      · exact ⟨r, s, hfirst⟩
      · exact ih hrest c hc

end

/-! ## The codec of a build -/

section
variable (w : Nat)

/-- `operator<<` for a `size_t` of `w` bytes. -/
def putSizeOf (n : Nat) : PacketM Unit := serialize (some (leBytes w n))

def getSizeOf : PacketM Nat := do
  let bytes ← deserialize w false
  return leNat bytes

def putStringOf (s : StdString) : PacketM Unit := do
  putSizeOf w s.elems.length
  serialize (some s.elems)

def getStringOf : PacketM StdString := do
  let length ← getSizeOf w
  let bytes ← deserialize length false
  if h : bytes.length < 2 ^ 64 then return ⟨bytes, h⟩
  else Fallible.fail .lengthError

def putVectorOf {k : Nat} (xs : List (BitVec (8 * k))) : PacketM Unit := do
  putSizeOf w xs.length
  serialize (vectorData xs)

def getVectorOf (k : Nat) : PacketM (List (BitVec (8 * k))) := do
  let size ← getSizeOf w
  let bytes ← deserialize (k * size) (size = 0)
  return scalarsOf k size bytes

def putEntityInfoOf (e : EntityInfo) : PacketM Unit := do
  putScalar (k := 4) e.ID.toBitVec
  putScalar (k := 4) e.ownerID.toBitVec
  putStringOf w e.type
  putStringOf w e.name
  putScalar (k := 4) e.parentID.toBitVec

def getEntityInfoOf : PacketM EntityInfo := do
  let ID ← getScalar 4
  let ownerID ← getScalar 4
  let type ← getStringOf w
  let name ← getStringOf w
  let parentID ← getScalar 4
  return {
    type := type
    name := name
    ID := .ofBitVec ID
    ownerID := .ofBitVec ownerID
    parentID := .ofBitVec parentID }

end

/-- Strings with the prefix of the 64-bit build. -/
theorem putString_eq : putString = putStringOf 8 := rfl

theorem getString_eq : getString = getStringOf 8 := rfl

/-- Vectors with it. -/
theorem putVector_eq {k : Nat} : putVector (k := k) = putVectorOf 8 := rfl

theorem getVector_eq (k : Nat) : getVector k = getVectorOf 8 k := by
  simp [getVector, getVectorOf, getSize, getSizeOf]

/-- Entity infos with it. -/
theorem putEntityInfo_eq : putEntityInfo = putEntityInfoOf 8 := rfl

theorem getEntityInfo_eq : getEntityInfo = getEntityInfoOf 8 := rfl

/-! ### Their bytes -/

def sizedBytes (w : Nat) (length : Nat) (content : List Byte) : List Byte :=
  leBytes w length ++ content

/-- The prefix has the width of the build. -/
theorem length_sizedBytes (w n : Nat) (content : List Byte) :
    (sizedBytes w n content).length = w + content.length := by
  simp [sizedBytes]

/-- A size and a content. -/
theorem puts_sized {w n : Nat} {content : List Byte} :
    Puts (do putSizeOf w n; serialize (some content)) (sizedBytes w n content) :=
  (puts_serialize _).bind (puts_serialize content)

/-- A size is read if it fits the prefix. -/
theorem yields_size {w n : Nat} (hn : n < 256 ^ w) : Yields (getSizeOf w) n (leBytes w n) := by
  have h := yields_deserialize (leBytes w n)
  rw [length_leBytes] at h
  refine h.map (leNat_leBytes_of_lt hn) ?_
  intro r s bytes hread hval
  have hlen := length_of_deserialize hread
  rw [← hval, ← hlen, leBytes_leNat]

/-- A number is read from its own bytes. -/
theorem yields_scalar {k : Nat} (v : BitVec (8 * k)) : Yields (getScalar k) v (scalarBytes v) := by
  have hlen : (scalarBytes v).length = k := length_leBytes k v.toNat
  have hpow : (256 : Nat) ^ k = 2 ^ (8 * k) := (pow_mul 2 8 k).symm
  have h := yields_deserialize (scalarBytes v)
  rw [hlen] at h
  refine h.map ?_ ?_
  · have hback : leNat (scalarBytes v) = v.toNat := leNat_leBytes_of_lt (by rw [hpow]; exact v.isLt)
    rw [hback, BitVec.ofNat_toNat, BitVec.setWidth_eq]
  · intro r s bytes hread hval
    have hbytes := length_of_deserialize hread
    have hlt : leNat bytes < 2 ^ (8 * k) := by
      rw [← hpow, ← hbytes]
      exact leNat_lt bytes
    have hnat : v.toNat = leNat bytes := by
      rw [← hval, BitVec.toNat_ofNat, Nat.mod_eq_of_lt hlt]
    rw [scalarBytes, hnat, ← hbytes, leBytes_leNat]

/-- A string is read if its length fits the prefix. -/
theorem yields_string {w : Nat} {s : StdString} (hs : s.elems.length < 256 ^ w) :
    Yields (getStringOf w) s (sizedBytes w s.elems.length s.elems) := by
  refine (yields_size hs).bind ?_ ?_
  · have hend : Yields (if h : s.elems.length < 2 ^ 64 then
        (return ⟨s.elems, h⟩ : PacketM StdString) else Fallible.fail .lengthError) s [] := by
      rw [dif_pos s.length_lt]
      exact Yields.pure s
    have h := (yields_deserialize s.elems).bind (f := fun bytes =>
      if h : bytes.length < 2 ^ 64 then (return ⟨bytes, h⟩ : PacketM StdString)
      else Fallible.fail .lengthError) hend ?_
    · rwa [List.append_nil] at h
    · intro r t u bytes _ hrest
      split at hrest
      · cases hrest
        rfl
      · cases hrest
  · intro r t u length _ hrest
    obtain ⟨bytes, t', hread, hrest⟩ := Fallible.bind_eq_ok hrest
    split at hrest
    · cases hrest
      exact (length_of_deserialize hread).symm
    · cases hrest

/-- The elements of a vector, cut out of its bytes and put together again. -/
theorem flatMap_scalarsOf {k : Nat} (n : Nat) {bytes : List Byte} (hlen : bytes.length = k * n) :
    (scalarsOf k n bytes).flatMap scalarBytes = bytes := by
  induction n generalizing bytes with
  | zero =>
      cases bytes with
      | nil => rfl
      | cons b bs => simp at hlen
  | succ n ih =>
      have hk : k ≤ bytes.length := by rw [hlen]; exact Nat.le_mul_of_pos_right k (Nat.succ_pos n)
      have hfirst : slice bytes (k * 0) k = bytes.take k := by simp [slice]
      have hscalar : scalarBytes (BitVec.ofNat (8 * k) (leNat (bytes.take k))) = bytes.take k := by
        have htake : (bytes.take k).length = k := List.length_take_of_le hk
        have hlt : leNat (bytes.take k) < 2 ^ (8 * k) := by
          have h := leNat_lt (bytes.take k)
          rwa [htake, show (256 : Nat) = 2 ^ 8 from rfl, ← pow_mul] at h
        rw [scalarBytes, BitVec.toNat_ofNat, Nat.mod_eq_of_lt hlt]
        have hback := leBytes_leNat (bytes.take k)
        rwa [htake] at hback
      have hrest : scalarsOf k n (bytes.drop k) =
          (List.range n).map fun i => BitVec.ofNat (8 * k)
            (leNat (slice bytes (k * (i + 1)) k)) := by
        apply List.map_congr_left
        intro i _
        rw [slice, slice, List.drop_drop, show k + k * i = k * (i + 1) by ring]
      have hdrop : (bytes.drop k).length = k * n := by
        rw [List.length_drop, hlen, Nat.mul_succ, Nat.add_sub_cancel]
      rw [scalarsOf, List.range_succ_eq_map, List.map_cons, List.map_map, List.flatMap_cons, hfirst,
        hscalar]
      conv_rhs => rw [← List.take_append_drop k bytes]
      congr 1
      refine Eq.trans ?_ (ih hdrop)
      rw [hrest]
      rfl

/-- As many elements as were asked for. -/
theorem length_scalarsOf (k n : Nat) (bytes : List Byte) : (scalarsOf k n bytes).length = n := by
  simp [scalarsOf]

/-- The elements are read in one piece, and there is at least one. -/
theorem scalarsOf_ok {k : Nat} {xs : List (BitVec (8 * k))} {n : Nat} {s t : Packet}
    (h : (do let bytes ← deserialize (k * n) (decide (n = 0)); return scalarsOf k n bytes) s =
      (.ok xs, t)) : n = xs.length ∧ xs ≠ [] := by
  obtain ⟨bytes, u, hread, hrest⟩ := Fallible.bind_eq_ok h
  cases hrest
  have hlen := length_scalarsOf k n bytes
  refine ⟨hlen.symm, ?_⟩
  intro hnil
  rw [hnil] at hlen
  have hn : n = 0 := hlen.symm
  subst hn
  unfold deserialize at hread
  split at hread
  · cases hread
  · rw [if_pos (by simp)] at hread
    cases hread

/-- A vector that is not empty is read if its length fits the prefix. -/
theorem yields_vector {w k : Nat} {xs : List (BitVec (8 * k))} (hne : xs ≠ [])
    (hfits : xs.length < 256 ^ w) :
    Yields (getVectorOf w k) xs (sizedBytes w xs.length (xs.flatMap scalarBytes)) := by
  refine (yields_size hfits).bind ?_ ?_
  · have h := yields_deserialize (xs.flatMap scalarBytes)
    have hnull : decide (xs.length = 0) = false := by simpa using hne
    rw [length_flatMap_scalarBytes, ← hnull] at h
    refine h.map (scalarsOf_flatMap xs) ?_
    intro r s bytes hread hval
    rw [← hval, flatMap_scalarsOf _ (length_of_deserialize hread)]
  · intro r s t n _ hrest
    exact (scalarsOf_ok hrest).1

/-- A vector that is not empty can be written. -/
theorem puts_vector {w k : Nat} {xs : List (BitVec (8 * k))} (hne : xs ≠ []) :
    Puts (putVectorOf w xs) (sizedBytes w xs.length (xs.flatMap scalarBytes)) := by
  rw [putVectorOf, vectorData, if_neg hne]
  exact puts_sized

/-- An empty vector cannot be written. -/
theorem ne_nil_of_putVectorOf {w k : Nat} {xs : List (BitVec (8 * k))} {p p' : Packet}
    (h : putVectorOf w xs p = (.ok (), p')) : xs ≠ [] := by
  rintro rfl
  obtain ⟨_, _, _, hrest⟩ := Fallible.bind_eq_ok h
  cases hrest

def infoBytes (w : Nat) (e : EntityInfo) : List Byte :=
  scalarBytes (k := 4) e.ID.toBitVec ++ (scalarBytes (k := 4) e.ownerID.toBitVec ++
    (sizedBytes w e.type.elems.length e.type.elems ++
      (sizedBytes w e.name.elems.length e.name.elems ++
        scalarBytes (k := 4) e.parentID.toBitVec)))

theorem puts_entityInfo (w : Nat) (e : EntityInfo) : Puts (putEntityInfoOf w e) (infoBytes w e) :=
  (puts_serialize _).bind ((puts_serialize _).bind (puts_sized.bind (puts_sized.bind
    (puts_serialize _))))

/-- What is left to read of an info determines what has been read. -/
theorem yields_entityInfo {w : Nat} {e : EntityInfo} (htype : e.type.elems.length < 256 ^ w)
    (hname : e.name.elems.length < 256 ^ w) : Yields (getEntityInfoOf w) e (infoBytes w e) := by
  have hparent : Yields (do
      let parentID ← getScalar 4
      return ({ type := e.type, name := e.name, ID := .ofBitVec e.ID.toBitVec,
                ownerID := .ofBitVec e.ownerID.toBitVec, parentID := .ofBitVec parentID } :
        EntityInfo)) e (scalarBytes (k := 4) e.parentID.toBitVec) := by
    refine (yields_scalar (k := 4) e.parentID.toBitVec).map rfl ?_
    intro r s a _ heq
    exact congrArg (fun info => Int32.toBitVec info.parentID) heq
  refine (yields_scalar (k := 4) e.ID.toBitVec).bind ?_ ?_
  · refine (yields_scalar (k := 4) e.ownerID.toBitVec).bind ?_ ?_
    · refine (yields_string htype).bind ?_ ?_
      · refine (yields_string hname).bind hparent ?_
        intro r s t a _ h
        obtain ⟨_, _, _, h⟩ := Fallible.bind_eq_ok h
        exact congrArg EntityInfo.name (Except.ok.inj (congrArg Prod.fst h))
      · intro r s t a _ h
        obtain ⟨_, _, _, h⟩ := Fallible.bind_eq_ok h
        obtain ⟨_, _, _, h⟩ := Fallible.bind_eq_ok h
        exact congrArg EntityInfo.type (Except.ok.inj (congrArg Prod.fst h))
    · intro r s t a _ h
      obtain ⟨_, _, _, h⟩ := Fallible.bind_eq_ok h
      obtain ⟨_, _, _, h⟩ := Fallible.bind_eq_ok h
      obtain ⟨_, _, _, h⟩ := Fallible.bind_eq_ok h
      exact congrArg (fun info => UInt32.toBitVec info.ownerID)
        (Except.ok.inj (congrArg Prod.fst h))
  · intro r s t a _ h
    obtain ⟨_, _, _, h⟩ := Fallible.bind_eq_ok h
    obtain ⟨_, _, _, h⟩ := Fallible.bind_eq_ok h
    obtain ⟨_, _, _, h⟩ := Fallible.bind_eq_ok h
    obtain ⟨_, _, _, h⟩ := Fallible.bind_eq_ok h
    exact congrArg (fun info => Int32.toBitVec info.ID) (Except.ok.inj (congrArg Prod.fst h))

end Packet

/-! ## Fields -/

/-- A value of a serializable type.  A packet is known by its buffer. -/
inductive Field
  | scalar (k : Nat) (v : BitVec (8 * k))
  | string (s : StdString)
  | vector (k : Nat) (xs : Sized (BitVec (8 * k)))
  | entityInfo (e : EntityInfo)
  | packet (buffer : Sized Byte)
  deriving DecidableEq, Repr

inductive FieldType
  | scalar (k : Nat)
  | string
  | vector (k : Nat)
  | entityInfo
  | packet
  deriving DecidableEq, Repr

open Packet

/-- A container that exists. -/
def sized {α : Type} (xs : List α) : PacketM (Sized α) :=
  if h : xs.length < 2 ^ 64 then return ⟨xs, h⟩
  else Fallible.fail .lengthError

namespace Field

def type : Field → FieldType
  | .scalar k _ => .scalar k
  | .string _ => .string
  | .vector k _ => .vector k
  | .entityInfo _ => .entityInfo
  | .packet _ => .packet

/-- `operator<<` in a build whose `size_t` has `w` bytes. -/
def put (w : Nat) : Field → PacketM Unit
  | .scalar _ v => putScalar v
  | .string s => putStringOf w s
  | .vector _ xs => putVectorOf w xs.elems
  | .entityInfo e => putEntityInfoOf w e
  | .packet buffer => putVectorOf w (k := 1) buffer.elems

end Field

/-- `read<T>`: `operator>>` in a build whose `size_t` has `w` bytes. -/
def FieldType.get (w : Nat) : FieldType → PacketM Field
  | .scalar k => do
      let v ← getScalar k
      return .scalar k v
  | .string => do
      let s ← getStringOf w
      return .string s
  | .vector k => do
      let xs ← getVectorOf w k
      let xs ← sized xs
      return .vector k xs
  | .entityInfo => do
      let e ← getEntityInfoOf w
      return .entityInfo e
  | .packet => do
      let b ← getVectorOf w 1
      match ofData b with
      | .ok q => do
          let buffer ← sized q.bytes
          return .packet buffer
      | .error e => Fallible.fail e

namespace Field

/-- What `operator<<` adds to the packet. -/
def bytes (w : Nat) : Field → List Byte
  | .scalar _ v => scalarBytes v
  | .string s => sizedBytes w s.elems.length s.elems
  | .vector _ xs => sizedBytes w xs.elems.length (xs.elems.flatMap scalarBytes)
  | .entityInfo e => infoBytes w e
  | .packet buffer => sizedBytes w buffer.elems.length (buffer.elems.flatMap (scalarBytes (k := 1)))

/-- The lengths in the value are lengths in a build whose `size_t` has `w` bytes. -/
def Fits (w : Nat) : Field → Prop
  | .scalar _ _ => True
  | .string s => s.elems.length < 256 ^ w
  | .vector _ xs => xs.elems.length < 256 ^ w
  | .entityInfo e => e.type.elems.length < 256 ^ w ∧ e.name.elems.length < 256 ^ w
  | .packet buffer => buffer.elems.length < 256 ^ w

/-- The value can be written and read: a vector has an element, and a packet a header. -/
def Travels : Field → Prop
  | .vector _ xs => xs.elems ≠ []
  | .packet buffer => headerSize ≤ buffer.elems.length
  | _ => True

instance (f : Field) : Decidable f.Travels := by
  cases f <;> unfold Travels <;> infer_instance

/-- The number of lengths that `operator<<` writes. -/
def prefixes : Field → Nat
  | .scalar _ _ => 0
  | .entityInfo _ => 2
  | _ => 1

/-- Everything behind its lengths. -/
def contentLength : Field → Nat
  | .scalar k _ => k
  | .string s => s.elems.length
  | .vector k xs => k * xs.elems.length
  | .entityInfo e => e.type.elems.length + e.name.elems.length + 12
  | .packet buffer => buffer.elems.length

/-- Each prefix takes the width of the build, and the contents take the same everywhere. -/
theorem length_bytes (w : Nat) (f : Field) :
    (f.bytes w).length = w * f.prefixes + f.contentLength := by
  cases f with
  | scalar k v => simp [bytes, prefixes, contentLength, scalarBytes]
  | string s => simp [bytes, prefixes, contentLength, length_sizedBytes]
  | vector k xs =>
      simp only [bytes, prefixes, contentLength, length_sizedBytes, length_flatMap_scalarBytes,
        Nat.mul_one]
  | entityInfo e =>
      simp [bytes, prefixes, contentLength, infoBytes, length_sizedBytes, scalarBytes]
      ring
  | packet buffer =>
      simp only [bytes, prefixes, contentLength, length_sizedBytes, length_flatMap_scalarBytes]
      ring

/-- **What a field is on the wire.** -/
theorem puts (w : Nat) {f : Field} (hf : f.Travels) : Puts (f.put w) (f.bytes w) := by
  cases f with
  | scalar k v => exact puts_serialize _
  | string s => exact puts_sized
  | vector k xs => exact puts_vector hf
  | entityInfo e => exact puts_entityInfo w e
  | packet buffer =>
      apply puts_vector
      intro hnil
      simp [Travels, hnil, headerSize] at hf

end Field

/-- The length of what was read fits a `std::size_t`. -/
theorem yields_sized {α : Type} (xs : Sized α) : Yields (sized xs.elems) xs [] := by
  rw [sized, dif_pos xs.length_lt]
  exact Yields.pure xs

theorem sized_ok {α : Type} {xs : List α} {ys : Sized α} {s t : Packet}
    (h : sized xs s = (.ok ys, t)) : xs = ys.elems := by
  unfold sized at h
  split at h
  · cases h
    rfl
  · cases h

namespace Field

/-- **Reading back a field.** -/
theorem yields {w : Nat} {f : Field} (hf : f.Travels) (hfits : f.Fits w) :
    Yields (f.type.get w) f (f.bytes w) := by
  cases f with
  | scalar k v =>
      refine (yields_scalar v).map rfl ?_
      intro r s a _ heq
      cases heq
      rfl
  | string s =>
      refine (yields_string hfits).map rfl ?_
      intro r t a _ heq
      cases heq
      rfl
  | entityInfo e =>
      refine (yields_entityInfo hfits.1 hfits.2).map rfl ?_
      intro r t a _ heq
      cases heq
      rfl
  | vector k xs =>
      have hend : Yields (do let ys ← sized xs.elems; return Field.vector k ys)
          (.vector k xs) [] := by
        refine (yields_sized xs).map rfl ?_
        intro r s a _ heq
        cases heq
        rfl
      have h := (yields_vector (w := w) hf hfits).bind (f := fun ys => do
        let ys ← sized ys
        return Field.vector k ys) hend ?_
      · rwa [List.append_nil] at h
      · intro r s t a _ hrest
        obtain ⟨ys, u, hsized, hrest⟩ := Fallible.bind_eq_ok hrest
        cases hrest
        exact sized_ok hsized
  | packet buffer =>
      have hne : buffer.elems ≠ [] := by
        intro hnil
        simp [Travels, hnil, headerSize] at hf
      have hend : Yields (match ofData buffer.elems with
          | .ok q => do
              let buffer ← sized q.bytes
              return Field.packet buffer
          | .error e => Fallible.fail e) (.packet buffer) [] := by
        rw [ofData_eq hf]
        refine (yields_sized buffer).map rfl ?_
        intro r s a _ heq
        cases heq
        rfl
      have h := (yields_vector (w := w) (k := 1) hne hfits).bind (f := fun b =>
        match ofData b with
          | .ok q => do
              let buffer ← sized q.bytes
              return Field.packet buffer
          | .error e => Fallible.fail e) hend ?_
      · rwa [List.append_nil] at h
      · intro r s t b _ hrest
        by_cases hhead : headerSize ≤ b.length
        · rw [ofData_eq hhead] at hrest
          obtain ⟨ys, u, hsized, hrest⟩ := Fallible.bind_eq_ok hrest
          cases hrest
          exact sized_ok hsized
        · rw [ofData, if_pos (Nat.not_le.mp hhead)] at hrest
          cases hrest

/-- Only a value that travels is ever returned. -/
theorem travels_of_get {w : Nat} {f : Field} {r r' : Packet} (h : f.type.get w r = (.ok f, r')) :
    f.Travels := by
  cases f with
  | vector k xs =>
      obtain ⟨ys, s, hread, hrest⟩ := Fallible.bind_eq_ok h
      obtain ⟨zs, u, hsized, hrest⟩ := Fallible.bind_eq_ok hrest
      cases hrest
      obtain ⟨n, v, _, hread⟩ := Fallible.bind_eq_ok hread
      rw [Travels, ← sized_ok hsized]
      exact (scalarsOf_ok hread).2
  | packet buffer =>
      obtain ⟨b, s, hread, hrest⟩ := Fallible.bind_eq_ok h
      by_cases hhead : headerSize ≤ b.length
      · rw [ofData_eq hhead] at hrest
        obtain ⟨zs, u, hsized, hrest⟩ := Fallible.bind_eq_ok hrest
        cases hrest
        have hb : b = buffer.elems := sized_ok hsized
        rw [Travels, ← hb]
        exact hhead
      · rw [ofData, if_pos (Nat.not_le.mp hhead)] at hrest
        cases hrest
  | _ => trivial

end Field

end EnkiNet
