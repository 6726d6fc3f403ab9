import EnkiNet.Fields

/-!
# The arguments of a remote procedure call

`RPCManager::call` writes the arguments with `fillPacket`, the last one first, and the
wrapper of the function reads them with `f(p.read<Parameters>()...)`.  In which order
the arguments of a call are evaluated is up to the compiler, so the order is a
parameter here.

A `std::array` is read with as many bytes as it has elements (`getArray`); what else the
new object holds is whatever was in its memory, and the statements are about every
such memory.

`arguments_in_order_iff` says for both orders which arguments arrive.
-/

namespace EnkiNet

open ByteStore Packet

/-! ## Arguments -/

/-- A value of a type that a function can take: a serializable value, or a `std::array` of
elements of `sizeof` `k`. -/
inductive Argument
  | field (f : Field)
  | array (k : Nat) (pos : 0 < k) (xs : Sized (BitVec (8 * k))) (nonempty : xs.elems ≠ [])
  deriving DecidableEq

inductive ParameterType
  | field (t : FieldType)
  | array (k n : Nat)
  deriving DecidableEq, Repr

/-- The bytes of an object that has just been defined. -/
abbrev Memory : Type := Nat → Byte

/-- `operator>>(std::array<T, n>&)` into an array that has just been defined. -/
def getArray (k n : Nat) (memory : Memory) : PacketM (List (BitVec (8 * k))) := do
  let stored ← getSize
  if stored ≤ n then do
    let bytes ← deserialize stored false
    return scalarsOf k n (bytes ++ (List.range (k * n - stored)).map fun i => memory (stored + i))
  else
    Fallible.fail (.runtimeError "Failed to read std::array from packet, sizes don't match")

namespace Argument

def type : Argument → ParameterType
  | .field f => .field f.type
  | .array k _ xs _ => .array k xs.elems.length

/-- `operator<<`. -/
def put : Argument → PacketM Unit
  | .field f => f.put 8
  | .array _ _ xs _ => putArray xs.elems

end Argument

/-- `p.read<T>()`. -/
def ParameterType.get (memory : Memory) : ParameterType → PacketM Argument
  | .field t => do
      let f ← t.get 8
      return .field f
  | .array k n => do
      let xs ← getArray k n memory
      if h : 0 < k ∧ xs.length < 2 ^ 64 ∧ xs ≠ [] then return .array k h.1 ⟨xs, h.2.1⟩ h.2.2
      else Fallible.fail .lengthError

/-- `RPCManager::fillPacket`. -/
def fillPacket : List Argument → PacketM Unit
  | [] => pure ()
  | x :: args => do
      fillPacket args
      x.put

/-- In which order `f(p.read<Parameters>()...)` reads its arguments. -/
inductive EvaluationOrder
  | rightToLeft
  | leftToRight
  deriving DecidableEq, Repr

def readArguments (memory : Memory) : EvaluationOrder → List ParameterType → PacketM (List Argument)
  | .leftToRight, ts => readAll (ParameterType.get memory) ts
  | .rightToLeft, ts => do
      let arguments ← readAll (ParameterType.get memory) ts.reverse
      return arguments.reverse

/-! ## Calls -/

/-- The functions that a manager knows, by the types of their parameters. -/
structure RpcTable where
  globalRpcs : StdString → Option (List ParameterType)
  entityRpcs : StdString → StdString → Option (List ParameterType)

/-- How a function is called: by its name, or on an entity. -/
inductive Callee
  | global (name : StdString)
  | entity (info : EntityInfo) (name : StdString)

namespace Callee

/-- The function that a call of it names. -/
def signature (table : RpcTable) : Callee → Option (List ParameterType)
  | .global name => table.globalRpcs name
  | .entity info name => table.entityRpcs info.type name

def header : Callee → PacketHeader
  | .global _ => {}
  | .entity _ _ => { type := .entityRpc }

/-- What `RPCManager::call` writes in front of the arguments. -/
def putName : Callee → PacketM Unit
  | .global name => putString name
  | .entity info name => do
      putEntityInfo info
      putString name

/-- What `RPCManager::receive` reads in front of the arguments, and the function it
finds. -/
def getSignature (table : RpcTable) : Callee → PacketM (Option (List ParameterType))
  | .global _ => do
      let name ← getString
      return table.globalRpcs name
  | .entity _ _ => do
      let info ← getEntityInfo
      let name ← getString
      return table.entityRpcs info.type name

end Callee

/-- The packet that `RPCManager::call` makes. -/
def callPacket (callee : Callee) (arguments : List Argument) : Except Fault Packet :=
  match (do callee.putName; fillPacket arguments) (ofHeader callee.header) with
  | (.ok (), p) => .ok p
  | (.error e, _) => .error e

/-- `RPCManager::receive`: the arguments with which the function is called, if it is. -/
def receive (table : RpcTable) (order : EvaluationOrder) (memory : Memory) (callee : Callee)
    (p : Packet) : Except Fault (Option (List Argument)) :=
  if p.bytes.length ≤ p.bytesRead then .ok none
  else
    match callee.getSignature table p with
    | (.ok (some types), p) =>
        match readArguments memory order types p with
        | (.ok arguments, _) => .ok (some arguments)
        | (.error (.undefined u), _) => .error (.undefined u)
        | (.error _, _) => .ok none
    | (.ok none, _) => .ok none
    | (.error (.undefined u), _) => .error (.undefined u)
    | (.error _, _) => .ok none

/-- Wherever the function is registered, a call with these arguments makes a packet that
calls the function with them, in the process that has made it and in one that gets it
over the wire. -/
def ArriveInOrder (order : EvaluationOrder) (callee : Callee) (arguments : List Argument) : Prop :=
  ∀ table, callee.signature table = some (arguments.map Argument.type) →
    ∃ p, callPacket callee arguments = .ok p ∧ ∀ memory,
      receive table order memory callee p = .ok (some arguments) ∧
        ∃ data r, p.wire = .ok data ∧ ofData data = .ok r ∧
          receive table order memory callee r = .ok (some arguments)

namespace Argument

/-- What `operator<<` adds to the packet. -/
def bytes : Argument → List Byte
  | .field f => f.bytes 8
  | .array _ _ xs _ => sizedBytes 8 xs.elems.length (xs.elems.flatMap scalarBytes)

/-- The value can be written and read; of a `std::array`, only bytes are. -/
def Travels : Argument → Prop
  | .field f => f.Travels
  | .array k _ _ _ => k = 1

instance (a : Argument) : Decidable a.Travels := by
  cases a <;> unfold Travels <;> infer_instance

theorem puts {a : Argument} (ha : a.Travels) : Puts a.put a.bytes := by
  cases a with
  | field f => exact Field.puts 8 ha
  | array k pos xs nonempty => exact puts_sized (w := 8)

end Argument

/-- Every length is a `size_t` of this build. -/
theorem Field.fits (f : Field) : f.Fits 8 := by
  have hpow : (256 : Nat) ^ 8 = 2 ^ 64 := by norm_num
  cases f with
  | scalar k v => trivial
  | string s => exact Nat.lt_of_lt_of_eq s.length_lt hpow.symm
  | vector k xs => exact Nat.lt_of_lt_of_eq xs.length_lt hpow.symm
  | entityInfo e =>
      exact ⟨Nat.lt_of_lt_of_eq e.type.length_lt hpow.symm,
        Nat.lt_of_lt_of_eq e.name.length_lt hpow.symm⟩
  | packet buffer => exact Nat.lt_of_lt_of_eq buffer.length_lt hpow.symm

/-! ## Reading an array -/

/-- The bytes that an array read leaves as they were. -/
def leftOver (memory : Memory) (start count : Nat) : List Byte :=
  (List.range count).map fun i => memory (start + i)

theorem getArray_ok {k n : Nat} {memory : Memory} {xs : List (BitVec (8 * k))} {r r' : Packet}
    (h : getArray k n memory r = (.ok xs, r')) :
    ∃ stored bytes s, getSize r = (.ok stored, s) ∧ stored ≤ n ∧
      deserialize stored false s = (.ok bytes, r') ∧
      xs = scalarsOf k n (bytes ++ leftOver memory stored (k * n - stored)) := by
  obtain ⟨stored, s, hstored, h⟩ := Fallible.bind_eq_ok h
  split at h
  · next hle =>
    obtain ⟨bytes, t, hread, h⟩ := Fallible.bind_eq_ok h
    cases h
    exact ⟨stored, bytes, s, hstored, hle, hread, rfl⟩
  · cases h

theorem scalarsOf_inj {k n : Nat} {bs cs : List Byte} (hbs : bs.length = k * n)
    (hcs : cs.length = k * n) (h : scalarsOf k n bs = scalarsOf k n cs) : bs = cs := by
  rw [← flatMap_scalarsOf n hbs, h, flatMap_scalarsOf n hcs]

/-- An array that is read right whatever was in memory has been read to its end. -/
theorem getArray_whole {k n : Nat} (hk : 0 < k) {xs : List (BitVec (8 * k))} {r : Packet}
    (h : ∀ memory, ∃ r', getArray k n memory r = (.ok xs, r')) :
    ∃ bytes s s', getSize r = (.ok (k * n), s) ∧ k * n ≤ n ∧
      deserialize (k * n) false s = (.ok bytes, s') ∧ xs = scalarsOf k n bytes := by
  obtain ⟨r₀, hzero⟩ := h fun _ => 0
  obtain ⟨r₁, hone⟩ := h fun _ => 1
  obtain ⟨stored, bytes, s, hstored, hle, hread, hxs⟩ := getArray_ok hzero
  obtain ⟨stored', bytes', s', hstored', _, hread', hxs'⟩ := getArray_ok hone
  rw [hstored] at hstored'
  cases hstored'
  rw [hread] at hread'
  cases hread'
  have hbytes := length_of_deserialize hread
  have hroom : stored ≤ k * n := Nat.le_trans hle (Nat.le_mul_of_pos_left n hk)
  have hlen : ∀ memory, (bytes ++ leftOver memory stored (k * n - stored)).length = k * n := by
    intro memory
    rw [List.length_append, hbytes, leftOver, List.length_map, List.length_range]
    omega
  have hsame := scalarsOf_inj (hlen _) (hlen _) (hxs.symm.trans hxs')
  have hnone : k * n - stored = 0 := by
    have hrest := List.append_cancel_left hsame
    by_contra hne
    obtain ⟨count, hcount⟩ := Nat.exists_eq_succ_of_ne_zero hne
    rw [hcount] at hrest
    have hhead := congrArg List.head? hrest
    simp [leftOver, List.replicate_succ] at hhead
  have hfull : stored = k * n := by omega
  subst hfull
  refine ⟨bytes, s, r₀, hstored, hle, hread, ?_⟩
  rw [hxs, hnone]
  simp [leftOver]

/-! ## Reading arguments -/

/-- Whatever is in memory, the operation returns `a` where the bytes `d` are next, and it
does so nowhere else. -/
structure YieldsAnyway {α : Type} (x : Memory → PacketM α) (a : α) (d : List Byte) : Prop where
  gets : ∀ r, r.Between → r.Ahead d → ∀ memory, x memory r = (.ok a, r.skip d.length)
  needs : ∀ r, r.Between → (∀ memory, ∃ r', x memory r = (.ok a, r')) → r.Ahead d

namespace Argument

theorem yields {a : Argument} (ha : a.Travels) :
    YieldsAnyway (fun memory => a.type.get memory) a a.bytes := by
  cases a with
  | field f =>
      have h : Yields (ParameterType.get (fun _ => 0) (.field f.type)) (.field f) (f.bytes 8) := by
        refine (Field.yields ha f.fits).map rfl ?_
        intro r s g _ heq
        cases heq
        rfl
      refine ⟨fun r hr hahead memory => (h r hr _).mpr ⟨hahead, rfl⟩, ?_⟩
      intro r hr hall
      obtain ⟨r', hread⟩ := hall fun _ => 0
      exact ((h r hr r').mp hread).1
  | array k pos xs nonempty =>
      cases ha
      have hlength : (xs.elems.flatMap scalarBytes).length = xs.elems.length := by
        rw [length_flatMap_scalarBytes, Nat.one_mul]
      have hsize : Yields getSize xs.elems.length (leBytes 8 xs.elems.length) :=
        yields_size (w := 8) (Field.fits (.vector 1 xs))
      refine ⟨?_, ?_⟩
      · intro r hr hahead memory
        obtain ⟨hfirst, hrest⟩ := ahead_append.mp hahead
        have hstored := (hsize r hr _).mpr ⟨hfirst, rfl⟩
        have hread := (yields_deserialize _ _ (hr.skip hfirst) _).mpr ⟨hrest, rfl⟩
        rw [hlength] at hread
        have harray : getArray 1 xs.elems.length memory r =
            (.ok xs.elems, r.skip (Argument.bytes (.array 1 pos xs nonempty)).length) := by
          rw [getArray, Fallible.bind_ok hstored, if_pos (Nat.le_refl _), Fallible.bind_ok hread,
            Nat.one_mul, Nat.sub_self, List.range_zero, List.map_nil, List.append_nil,
            scalarsOf_flatMap, skip_skip]
          simp [bytes, sizedBytes, hlength, Fallible.pure_apply]
        change ParameterType.get memory (.array 1 xs.elems.length) r = _
        rw [ParameterType.get, Fallible.bind_ok harray,
          dif_pos ⟨Nat.zero_lt_one, xs.length_lt, nonempty⟩]
        rfl
      · intro r hr hall
        have hall' : ∀ memory, ∃ r', getArray 1 xs.elems.length memory r = (.ok xs.elems, r') := by
          intro memory
          obtain ⟨r', hread⟩ := hall memory
          obtain ⟨ys, s, harray, hrest⟩ := Fallible.bind_eq_ok hread
          split at hrest
          · cases hrest
            exact ⟨_, harray⟩
          · cases hrest
        obtain ⟨bytes, s, s', hstored, _, hread, hxs⟩ := getArray_whole Nat.zero_lt_one hall'
        rw [Nat.one_mul] at hstored hread
        obtain ⟨hfirst, rfl⟩ := (hsize r hr s).mp hstored
        have hbytes := length_of_deserialize hread
        have hcontent : xs.elems.flatMap scalarBytes = bytes := by
          rw [hxs]
          exact flatMap_scalarsOf _ (hbytes.trans (Nat.one_mul _).symm)
        rw [← hbytes] at hread
        have hrest := ((yields_deserialize bytes _ (hr.skip hfirst) s').mp hread).1
        refine ahead_append.mpr ⟨hfirst, ?_⟩
        rw [hcontent]
        exact hrest

/-- Only an argument that travels is returned whatever is in memory. -/
theorem travels_of_get {a : Argument} {r : Packet}
    (hr : ∀ memory, ∃ r', a.type.get memory r = (.ok a, r')) : a.Travels := by
  cases a with
  | field f =>
      obtain ⟨r', hread⟩ := hr fun _ => 0
      obtain ⟨g, s, hget, hrest⟩ := Fallible.bind_eq_ok hread
      cases hrest
      exact Field.travels_of_get hget
  | array k pos xs nonempty =>
      have hall : ∀ memory, ∃ r', getArray k xs.elems.length memory r = (.ok xs.elems, r') := by
        intro memory
        obtain ⟨r', hread⟩ := hr memory
        obtain ⟨ys, s, harray, hrest⟩ := Fallible.bind_eq_ok hread
        split at hrest
        · cases hrest
          exact ⟨_, harray⟩
        · cases hrest
      obtain ⟨bytes, s, s', _, hle, _, _⟩ := getArray_whole pos hall
      have hpos : 0 < xs.elems.length := List.length_pos_of_ne_nil nonempty
      have hone : k ≤ 1 := Nat.le_of_mul_le_mul_right (by rwa [Nat.one_mul]) hpos
      exact Nat.le_antisymm hone pos

end Argument

variable {arguments : List Argument}

theorem yields_arguments (h : ∀ a ∈ arguments, a.Travels) :
    YieldsAnyway (fun memory => readAll (ParameterType.get memory) (arguments.map Argument.type))
      arguments (arguments.flatMap Argument.bytes) := by
  induction arguments with
  | nil =>
      refine ⟨?_, fun r _ _ => List.nil_prefix⟩
      intro r hr _ memory
      exact (Yields.pure [] r hr _).mpr ⟨List.nil_prefix, rfl⟩
  | cons a as ih =>
      have hfirst := Argument.yields (h a List.mem_cons_self)
      have hrest := ih fun b hb => h b (List.mem_cons_of_mem a hb)
      refine ⟨?_, ?_⟩
      · intro r hr hahead memory
        obtain ⟨hone, hmore⟩ := ahead_append.mp hahead
        rw [List.map_cons, readAll, Fallible.bind_ok (hfirst.gets r hr hone memory),
          Fallible.bind_ok (hrest.gets _ (hr.skip hone) hmore memory), skip_skip,
          List.flatMap_cons, List.length_append]
        rfl
      · intro r hr hall
        have hone : r.Ahead a.bytes := by
          apply hfirst.needs r hr
          intro memory
          obtain ⟨r', hread⟩ := hall memory
          obtain ⟨b, bs, s, heq, hget, _⟩ := readAll_cons_ok hread
          cases heq
          exact ⟨s, hget⟩
        refine ahead_append.mpr ⟨hone, hrest.needs _ (hr.skip hone) ?_⟩
        intro memory
        obtain ⟨r', hread⟩ := hall memory
        obtain ⟨b, bs, s, heq, hget, hlast⟩ := readAll_cons_ok hread
        cases heq
        have hskip : r.skip a.bytes.length = s :=
          congrArg Prod.snd ((hfirst.gets r hr hone memory).symm.trans hget)
        exact ⟨r', hskip ▸ hlast⟩

theorem travel_of_readAll {r : Packet} (hr : r.Between)
    (h : ∀ memory, ∃ r', readAll (ParameterType.get memory) (arguments.map Argument.type) r =
      (.ok arguments, r')) : ∀ a ∈ arguments, a.Travels := by
  induction arguments generalizing r with
  | nil => simp
  | cons a as ih =>
      have hget : ∀ memory, ∃ s, a.type.get memory r = (.ok a, s) ∧
          ∃ r', readAll (ParameterType.get memory) (as.map Argument.type) s = (.ok as, r') := by
        intro memory
        obtain ⟨r', hread⟩ := h memory
        obtain ⟨b, bs, s, heq, hget, hrest⟩ := readAll_cons_ok hread
        cases heq
        exact ⟨s, hget, r', hrest⟩
      have hfirst : ∀ memory, ∃ s, a.type.get memory r = (.ok a, s) := by
        intro memory
        obtain ⟨s, hs, _⟩ := hget memory
        exact ⟨s, hs⟩
      have ha := Argument.travels_of_get hfirst
      have hyields := Argument.yields ha
      have hone := hyields.needs r hr hfirst
      intro b hb
      rcases List.mem_cons.mp hb with rfl | hb
      · exact ha
      · refine ih (hr.skip hone) ?_ b hb
        intro memory
        obtain ⟨s, hs, hrest⟩ := hget memory
        have hskip : r.skip a.bytes.length = s :=
          congrArg Prod.snd ((hyields.gets r hr hone memory).symm.trans hs)
        exact hskip ▸ hrest

/-! ### In either order -/

/-- The order in which the arguments are read. -/
def EvaluationOrder.arrange {α : Type} (arguments : List α) : EvaluationOrder → List α
  | .leftToRight => arguments
  | .rightToLeft => arguments.reverse

theorem mem_arrange {α : Type} {xs : List α} (order : EvaluationOrder) (a : α) :
    a ∈ order.arrange xs ↔ a ∈ xs := by
  cases order <;> simp [EvaluationOrder.arrange]

/-- The arguments are read in the order of the evaluation. -/
theorem readArguments_iff (memory : Memory) (order : EvaluationOrder) (r : Packet) :
    (∃ r', readArguments memory order (arguments.map Argument.type) r = (.ok arguments, r')) ↔
      ∃ r', readAll (ParameterType.get memory) ((order.arrange arguments).map Argument.type) r =
        (.ok (order.arrange arguments), r') := by
  cases order with
  | leftToRight => exact Iff.rfl
  | rightToLeft =>
      rw [EvaluationOrder.arrange, List.map_reverse]
      constructor
      · rintro ⟨r', h⟩
        obtain ⟨as, s, hread, h⟩ := Fallible.bind_eq_ok h
        cases h
        rw [List.reverse_reverse]
        exact ⟨_, hread⟩
      · rintro ⟨r', h⟩
        refine ⟨r', ?_⟩
        rw [readArguments, Fallible.bind_ok h, List.reverse_reverse]
        rfl

/-! ## The packet of a call -/

/-- A value that has been written once is written the same everywhere. -/
theorem Argument.puts_of_put {a : Argument} {p p' : Packet} (h : a.put p = (.ok (), p')) :
    Puts a.put a.bytes := by
  cases a with
  | array k pos xs nonempty => exact puts_sized (w := 8)
  | field f =>
      cases f with
      | vector k xs => exact puts_vector (ne_nil_of_putVectorOf h)
      | packet buffer => exact puts_vector (ne_nil_of_putVectorOf h)
      | scalar k v => exact Field.puts 8 (f := .scalar k v) trivial
      | string s => exact Field.puts 8 (f := .string s) trivial
      | entityInfo e => exact Field.puts 8 (f := .entityInfo e) trivial

/-- What `fillPacket` writes. -/
theorem puts_fillPacket (h : ∀ a ∈ arguments, Puts a.put a.bytes) :
    Puts (fillPacket arguments) (arguments.reverse.flatMap Argument.bytes) := by
  induction arguments with
  | nil => exact Puts.pure
  | cons a as ih =>
      rw [List.reverse_cons, List.flatMap_append, List.flatMap_singleton]
      exact (ih fun b hb => h b (List.mem_cons_of_mem a hb)).bind (h a List.mem_cons_self)

theorem puts_of_fillPacket {p p' : Packet} (h : fillPacket arguments p = (.ok (), p')) :
    ∀ a ∈ arguments, Puts a.put a.bytes := by
  induction arguments generalizing p' with
  | nil => simp
  | cons a as ih =>
      obtain ⟨_, q, hrest, hlast⟩ := Fallible.bind_eq_ok h
      intro b hb
      rcases List.mem_cons.mp hb with rfl | hb
      · exact Argument.puts_of_put hlast
      · exact ih hrest b hb

namespace Callee

def bytes : Callee → List Byte
  | .global name => (Field.string name).bytes 8
  | .entity info name => (Field.entityInfo info).bytes 8 ++ (Field.string name).bytes 8

theorem puts_name (callee : Callee) : Puts callee.putName callee.bytes := by
  cases callee with
  | global name => exact puts_sized (w := 8)
  | entity info name => exact (puts_entityInfo 8 info).bind (puts_sized (w := 8))

theorem bytes_ne_nil (callee : Callee) : callee.bytes ≠ [] := by
  intro h
  have hlen := congrArg List.length h
  cases callee with
  | global name => simp [bytes, Field.length_bytes, Field.prefixes] at hlen
  | entity info name => simp [bytes, Field.length_bytes, Field.prefixes] at hlen

/-- The receiver finds the function that was called. -/
theorem getSignature_eq (table : RpcTable) (callee : Callee) {r : Packet} (hr : r.Between)
    (h : r.Ahead callee.bytes) :
    callee.getSignature table r = (.ok (callee.signature table), r.skip callee.bytes.length) := by
  cases callee with
  | global name =>
      have hname := (yields_string (w := 8) (Field.fits (.string name)) r hr _).mpr ⟨h, rfl⟩
      change getString r = _ at hname
      rw [getSignature, Fallible.bind_ok hname]
      rfl
  | entity info name =>
      obtain ⟨hfirst, hrest⟩ := ahead_append.mp h
      have hfits := Field.fits (.entityInfo info)
      have hinfo : getEntityInfo r = (.ok info, r.skip (infoBytes 8 info).length) :=
        (yields_entityInfo (w := 8) hfits.1 hfits.2 r hr _).mpr ⟨hfirst, rfl⟩
      have hname : getString (r.skip (infoBytes 8 info).length) = (.ok name,
          (r.skip (infoBytes 8 info).length).skip ((Field.string name).bytes 8).length) :=
        (yields_string (w := 8) (Field.fits (.string name)) _ (hr.skip hfirst) _).mpr ⟨hrest, rfl⟩
      rw [getSignature, Fallible.bind_ok hinfo, Fallible.bind_ok hname, bytes, List.length_append,
        ← skip_skip]
      rfl

end Callee

/-- When the receiver calls the function with the right arguments. -/
theorem receive_iff {table : RpcTable} {order : EvaluationOrder} {memory : Memory}
    {callee : Callee} (hsignature : callee.signature table = some (arguments.map Argument.type))
    {r : Packet} (hr : r.Between) (h : r.Ahead callee.bytes) :
    receive table order memory callee r = .ok (some arguments) ↔
      ∃ r', readAll (ParameterType.get memory) ((order.arrange arguments).map Argument.type)
        (r.skip callee.bytes.length) = (.ok (order.arrange arguments), r') := by
  have hlong : ¬ r.bytes.length ≤ r.bytesRead := by
    have hlen := h.length_le
    have hpos := List.length_pos_of_ne_nil callee.bytes_ne_nil
    rw [List.length_drop] at hlen
    omega
  rw [← readArguments_iff, receive, if_neg hlong, callee.getSignature_eq table hr h, hsignature]
  dsimp only
  rcases readArguments memory order (arguments.map Argument.type) (r.skip callee.bytes.length) with
    ⟨(_ | _ | _ | _ | _) | found, r'⟩ <;> simp

/-- The reader of a call gets the arguments precisely if what it reads is what was
written. -/
theorem receive_forall_iff {table : RpcTable} {order : EvaluationOrder} {callee : Callee}
    (hsignature : callee.signature table = some (arguments.map Argument.type)) {r : Packet}
    (hr : r.Between) (h : r.Ahead callee.bytes) :
    (∀ memory, receive table order memory callee r = .ok (some arguments)) ↔
      (∀ a ∈ arguments, a.Travels) ∧
        (r.skip callee.bytes.length).Ahead ((order.arrange arguments).flatMap Argument.bytes) := by
  have hskip := hr.skip h
  simp only [receive_iff hsignature hr h]
  constructor
  · intro hall
    have htravel := travel_of_readAll hskip hall
    exact ⟨fun a ha => htravel a ((mem_arrange order a).mpr ha),
      (yields_arguments htravel).needs _ hskip hall⟩
  · rintro ⟨htravel, hahead⟩ memory
    have htravels : ∀ a ∈ order.arrange arguments, a.Travels := fun a ha =>
      htravel a ((mem_arrange order a).mp ha)
    have hyields := yields_arguments htravels
    exact ⟨_, hyields.gets _ hskip hahead memory⟩

/-- What a call writes. -/
theorem callPacket_eq (callee : Callee) (h : ∀ a ∈ arguments, Puts a.put a.bytes) :
    ∃ p, callPacket callee arguments = .ok p ∧ p.bytesWritten ≤ p.bytes.length ∧
      p.written = callee.header.toBytes ++
        (callee.bytes ++ arguments.reverse.flatMap Argument.bytes) ∧
      p.readCursor = ⟨headerSize, 8⟩ := by
  have hputs := callee.puts_name.bind (puts_fillPacket h)
  obtain ⟨p, hrun, howned, hwritten, hread, _⟩ :=
    hputs (ofHeader callee.header) (by simp [ofHeader])
  have hfresh : (ofHeader callee.header).written = callee.header.toBytes := by
    apply List.take_of_length_le
    simp [ofHeader]
  refine ⟨p, ?_, howned, by rw [hwritten, hfresh], hread⟩
  rw [callPacket, hrun]

theorem puts_of_callPacket {callee : Callee} {p : Packet}
    (h : callPacket callee arguments = .ok p) : ∀ a ∈ arguments, Puts a.put a.bytes := by
  unfold callPacket at h
  split at h
  · next q hrun =>
    obtain ⟨_, s, _, hfill⟩ := Fallible.bind_eq_ok hrun
    exact puts_of_fillPacket hfill
  · cases h

/-- Whoever reads from behind the header has what was written in front of it. -/
theorem ahead_of_written {h : PacketHeader} {d : List Byte} {r : Packet}
    (hbytes : h.toBytes ++ d <+: r.bytes) (hread : r.readCursor = ⟨headerSize, 8⟩) :
    r.Between ∧ r.Ahead d := by
  obtain ⟨t, ht⟩ := hbytes
  have hbyte : r.bytesRead = headerSize := congrArg Cursor.byte hread
  refine ⟨⟨congrArg Cursor.bit hread, ?_⟩, t, ?_⟩
  · rw [hbyte, ← ht]
    simp
  · rw [hbyte, ← ht, List.append_assoc]
    exact (List.drop_left' (by simp)).symm

/-- Two byte strings of one length, at one place. -/
theorem ahead_eq {r : Packet} {d e : List Byte} (hd : r.Ahead d) (he : r.Ahead e)
    (hlen : d.length = e.length) : d = e :=
  (List.prefix_of_prefix_length_le hd he (Nat.le_of_eq hlen)).eq_of_length hlen

theorem flatMap_arrange_iff (order : EvaluationOrder) :
    (order.arrange arguments).flatMap Argument.bytes = arguments.reverse.flatMap Argument.bytes ↔
      order = .rightToLeft ∨
        arguments.flatMap Argument.bytes = arguments.reverse.flatMap Argument.bytes := by
  cases order <;> simp [EvaluationOrder.arrange]

/-- **RPC arguments arrive in order** precisely if every argument can travel and either
the arguments are evaluated from right to left, or the bytes of the arguments are the
same in both orders. -/
theorem arguments_in_order_iff (order : EvaluationOrder) (callee : Callee)
    (arguments : List Argument) :
    ArriveInOrder order callee arguments ↔
      (∀ a ∈ arguments, a.Travels) ∧
        (order = .rightToLeft ∨
          arguments.flatMap Argument.bytes = arguments.reverse.flatMap Argument.bytes) := by
  rw [← flatMap_arrange_iff]
  constructor
  · intro h
    obtain ⟨p, hcall, hreceive⟩ := h
      ⟨fun _ => some (arguments.map Argument.type), fun _ _ => some (arguments.map Argument.type)⟩
      (by cases callee <;> rfl)
    obtain ⟨q, hcall', _, hwritten, hread⟩ := callPacket_eq callee (puts_of_callPacket hcall)
    rw [hcall] at hcall'
    cases hcall'
    have hbytes : p.written <+: p.bytes := List.take_prefix _ _
    rw [hwritten] at hbytes
    obtain ⟨hp, hahead⟩ := ahead_of_written hbytes hread
    obtain ⟨hname, hargs⟩ := ahead_append.mp hahead
    obtain ⟨htravel, hfound⟩ := (receive_forall_iff (by cases callee <;> rfl) hp hname).mp
      fun memory => (hreceive memory).1
    refine ⟨htravel, ahead_eq hfound hargs ?_⟩
    have hperm : (order.arrange arguments).Perm arguments.reverse := by
      cases order with
      | leftToRight => exact (List.reverse_perm arguments).symm
      | rightToLeft => exact List.Perm.refl _
    exact (hperm.flatMap_right Argument.bytes).length_eq
  · rintro ⟨htravel, hsame⟩ table hsignature
    obtain ⟨p, hcall, howned, hwritten, hread⟩ :=
      callPacket_eq callee fun a ha => Argument.puts (htravel a ha)
    have harrives : ∀ r, p.written <+: r.bytes → r.readCursor = ⟨headerSize, 8⟩ →
        ∀ memory, receive table order memory callee r = .ok (some arguments) := by
      intro r hbytes hcursor
      rw [hwritten] at hbytes
      obtain ⟨hr, hahead⟩ := ahead_of_written hbytes hcursor
      obtain ⟨hname, hargs⟩ := ahead_append.mp hahead
      rw [receive_forall_iff hsignature hr hname, hsame]
      exact ⟨htravel, hargs⟩
    have hlong : headerSize ≤ p.written.length := by
      rw [hwritten]
      simp
    refine ⟨p, hcall, fun memory => ⟨harrives p (List.take_prefix _ _) hread memory, ?_⟩⟩
    exact ⟨p.written, received p.written, if_pos howned, ofData_eq hlong,
      harrives _ List.prefix_rfl rfl memory⟩

/-- A function with the name "t" and two numbers. -/
def twoNumbers : RpcTable where
  globalRpcs name :=
    if name.elems = [0x74] then some [.field (.scalar 4), .field (.scalar 4)] else none
  entityRpcs _ _ := none

/-- The function is called with 1 and 2, and a compiler that evaluates from left to right
calls it with 2 and 1. -/
theorem swapped_arguments :
    ¬ ArriveInOrder .leftToRight (.global ⟨[0x74], by decide⟩)
      [.field (.scalar 4 1), .field (.scalar 4 2)] := by
  intro h
  obtain ⟨p, hcall, hreceive⟩ := h twoNumbers rfl
  have hswapped : (callPacket (.global ⟨[0x74], by decide⟩)
      [.field (.scalar 4 1), .field (.scalar 4 2)]).toOption.bind (fun q =>
        (receive twoNumbers .leftToRight (fun _ => 0) (.global ⟨[0x74], by decide⟩) q).toOption) =
      some (some [.field (.scalar 4 2), .field (.scalar 4 1)]) := by decide +kernel
  rw [hcall] at hswapped
  change (receive twoNumbers .leftToRight (fun _ => 0) (.global ⟨[0x74], by decide⟩) p).toOption =
    _ at hswapped
  rw [(hreceive fun _ => 0).1] at hswapped
  exact absurd hswapped (by decide)

end EnkiNet
