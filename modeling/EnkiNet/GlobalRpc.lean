import EnkiNet.RpcArguments
import EnkiNet.PacketCalls

/-!
# Receiving a global RPC

`RPCManager::receive` gets whatever bytes arrived.  It reads a name, looks for the function
that was registered first under it, and hands the packet to the wrapper of the function, which
reads the arguments and calls it.  All of this is in one `try` block.

`global_rpc_exact` says which bytes call a function: those that begin with the encoding of a
call of it.
-/

namespace EnkiNet

open ByteStore Packet

/-! ## Registered functions -/

/-- A number, a string or a vector of numbers. -/
def ParameterType.Plain : ParameterType → Prop
  | .field (.scalar _) => True
  | .field .string => True
  | .field (.vector _) => True
  | _ => False

/-- A function, and what `RPCUtil::wrap` knows of it. -/
structure GlobalRPC where
  function : Nat
  parameters : List ParameterType
  plain : ∀ t ∈ parameters, t.Plain

/-- The function is called with these arguments. -/
structure Invocation where
  rpc : GlobalRPC
  arguments : List Argument

/-- `global_rpcs`. -/
structure RPCManager where
  globalRpcs : StdString → Option GlobalRPC

namespace RPCManager

/-- `add`: the name keeps the function that it has. -/
def add (m : RPCManager) (name : StdString) (rpc : GlobalRPC) : RPCManager :=
  match m.globalRpcs name with
  | some _ => m
  | none => ⟨Function.update m.globalRpcs name (some rpc)⟩

/-- A new manager, after these registrations. -/
def registered (registrations : List (StdString × GlobalRPC)) : RPCManager :=
  registrations.foldl (fun m r => m.add r.1 r.2) ⟨fun _ => none⟩

end RPCManager

/-! ## Receiving -/

abbrev Called : Type := Attempt Invocation

/-- The wrapper of a function.  What the function does is up to the game: `game` is the
exception that it throws, if it does. -/
def GlobalRPC.wrap (rpc : GlobalRPC) (order : EvaluationOrder) (memory : Memory)
    (game : Invocation → Option String) (p : Packet) : Called :=
  match readArguments memory order rpc.parameters p with
  | (.error e, _) => (.error e, [])
  | (.ok arguments, _) =>
      match game ⟨rpc, arguments⟩ with
      | none => (.ok (), [⟨rpc, arguments⟩])
      | some what => (.error (.runtimeError what), [⟨rpc, arguments⟩])

namespace RPCManager

/-- What `receive` tries. -/
def tryReceive (m : RPCManager) (order : EvaluationOrder) (memory : Memory)
    (game : Invocation → Option String) (p : Packet) : Called :=
  if p.bytes.length ≤ p.bytesRead then (.ok (), [])
  else
    match getString p with
    | (.error e, _) => (.error e, [])
    | (.ok name, p) =>
        match m.globalRpcs name with
        | none => (.ok (), [])
        | some rpc => rpc.wrap order memory game p

def receive (m : RPCManager) (order : EvaluationOrder) (memory : Memory)
    (game : Invocation → Option String) (p : Packet) : Called :=
  (m.tryReceive order memory game p).catchException

end RPCManager

/-! ## What is received -/

/-- The bytes behind the header begin with a call of the name with these arguments, in the order
in which the build evaluates them. -/
def Encodes (order : EvaluationOrder) (name : StdString) (arguments : List Argument)
    (data : List Byte) : Prop :=
  (Callee.global name).bytes ++ (order.arrange arguments).flatMap Argument.bytes <+:
    data.drop headerSize

/-- The arguments are values of the parameters; a vector has an element. -/
structure Matches (arguments : List Argument) (parameters : List ParameterType) : Prop where
  types : arguments.map Argument.type = parameters
  values : ∀ a ∈ arguments, a.Travels

namespace RPCManager

/-- The registrations under a name that is known are without effect. -/
theorem globalRpcs_foldl (registrations : List (StdString × GlobalRPC)) (m : RPCManager)
    (name : StdString) :
    (registrations.foldl (fun m r => m.add r.1 r.2) m).globalRpcs name =
      (m.globalRpcs name).or ((registrations.find? fun r => r.1 = name).map Prod.snd) := by
  induction registrations generalizing m with
  | nil => simp
  | cons r rs ih =>
      rw [List.foldl_cons, ih, add]
      by_cases hname : r.1 = name
      · subst hname
        cases hknown : m.globalRpcs r.1 with
        | none => simp
        | some rpc => simp [hknown]
      · have hother : ¬ name = r.1 := fun h => hname h.symm
        rw [List.find?_cons_of_neg (by simpa using hname)]
        cases m.globalRpcs r.1 with
        | none => simp [Function.update_of_ne hother]
        | some rpc => rfl

/-- A name has the function that was registered under it first. -/
theorem globalRpcs_registered (registrations : List (StdString × GlobalRPC)) (name : StdString) :
    (registered registrations).globalRpcs name =
      (registrations.find? fun r => r.1 = name).map Prod.snd :=
  globalRpcs_foldl registrations ⟨fun _ => none⟩ name

end RPCManager

/-! ## Reading the arguments -/

section
variable {arguments : List Argument} {memory : Memory}

/-- What is read as a type has the type. -/
theorem FieldType.type_of_get {t : FieldType} (ht : (ParameterType.field t).Plain) {f : Field}
    {r r' : Packet} (h : t.get 8 r = (.ok f, r')) : f.type = t := by
  cases t with
  | scalar k =>
      obtain ⟨v, s, _, hrest⟩ := Fallible.bind_eq_ok h
      cases hrest
      rfl
  | string =>
      obtain ⟨v, s, _, hrest⟩ := Fallible.bind_eq_ok h
      cases hrest
      rfl
  | vector k =>
      obtain ⟨v, s, _, hrest⟩ := Fallible.bind_eq_ok h
      obtain ⟨ys, u, _, hrest⟩ := Fallible.bind_eq_ok hrest
      cases hrest
      rfl
  | entityInfo => exact ht.elim
  | packet => exact ht.elim

theorem ParameterType.type_of_get {t : ParameterType} (ht : t.Plain) {a : Argument}
    {r r' : Packet} (h : t.get memory r = (.ok a, r')) : a.type = t := by
  cases t with
  | field t =>
      obtain ⟨f, s, hget, hrest⟩ := Fallible.bind_eq_ok h
      cases hrest
      exact congrArg ParameterType.field (FieldType.type_of_get ht hget)
  | array k n => exact ht.elim

theorem types_of_readAll {types : List ParameterType} (hplain : ∀ t ∈ types, t.Plain)
    {r r' : Packet} (h : readAll (ParameterType.get memory) types r = (.ok arguments, r')) :
    arguments.map Argument.type = types := by
  induction types generalizing arguments r with
  | nil =>
      cases h
      rfl
  | cons t ts ih =>
      obtain ⟨a, as, s, rfl, hfirst, hrest⟩ := readAll_cons_ok h
      rw [List.map_cons, ParameterType.type_of_get (hplain t List.mem_cons_self) hfirst,
        ih (fun u hu => hplain u (List.mem_cons_of_mem t hu)) hrest]

/-- The arguments that are read have the types of the parameters, in either order. -/
theorem types_of_readArguments {order : EvaluationOrder} {types : List ParameterType}
    (hplain : ∀ t ∈ types, t.Plain) {r r' : Packet}
    (h : readArguments memory order types r = (.ok arguments, r')) :
    arguments.map Argument.type = types := by
  cases order with
  | leftToRight => exact types_of_readAll hplain h
  | rightToLeft =>
      obtain ⟨as, s, hread, hrest⟩ := Fallible.bind_eq_ok h
      cases hrest
      have htypes := types_of_readAll (fun t ht => hplain t (List.mem_reverse.mp ht)) hread
      rw [List.map_reverse, htypes, List.reverse_reverse]

/-- A plain argument is read back from its bytes. -/
theorem Argument.yields_plain {a : Argument} (hplain : a.type.Plain) (ha : a.Travels) :
    Yields (a.type.get memory) a a.bytes := by
  cases a with
  | field f =>
      refine (Field.yields ha f.fits).map rfl ?_
      intro r s g _ heq
      cases heq
      rfl
  | array k pos xs nonempty => exact hplain.elim

/-- Whatever is read could have been written. -/
theorem Argument.travels_of_get_plain {a : Argument} (hplain : a.type.Plain) {r r' : Packet}
    (h : a.type.get memory r = (.ok a, r')) : a.Travels := by
  cases a with
  | field f =>
      obtain ⟨g, s, hget, hrest⟩ := Fallible.bind_eq_ok h
      cases hrest
      exact Field.travels_of_get hget
  | array k pos xs nonempty => exact hplain.elim

/-- Plain arguments are read where their bytes are, and nowhere else. -/
theorem readAll_plain_iff (hplain : ∀ a ∈ arguments, a.type.Plain) {r : Packet} (hr : r.Between) :
    (∃ r', readAll (ParameterType.get memory) (arguments.map Argument.type) r =
        (.ok arguments, r')) ↔
      (∀ a ∈ arguments, a.Travels) ∧ r.Ahead (arguments.flatMap Argument.bytes) := by
  have hyields : (∀ a ∈ arguments, a.Travels) →
      Yields (readAll (ParameterType.get memory) (arguments.map Argument.type)) arguments
        (arguments.flatMap Argument.bytes) := fun htravel =>
    yields_readAll fun a ha => Argument.yields_plain (hplain a ha) (htravel a ha)
  constructor
  · intro h
    obtain ⟨r', hread⟩ := h
    have htravel : ∀ a ∈ arguments, a.Travels := by
      intro a ha
      obtain ⟨s, s', hget⟩ := get_of_readAll hread a ha
      exact Argument.travels_of_get_plain (hplain a ha) hget
    exact ⟨htravel, ((hyields htravel r hr r').mp hread).1⟩
  · intro h
    obtain ⟨htravel, hahead⟩ := h
    exact ⟨_, (hyields htravel r hr _).mpr ⟨hahead, rfl⟩⟩

/-- The wrapper gets precisely the arguments that the packet has next. -/
theorem GlobalRPC.readArguments_iff (rpc : GlobalRPC) (order : EvaluationOrder) {r : Packet}
    (hr : r.Between) :
    (∃ r', readArguments memory order rpc.parameters r = (.ok arguments, r')) ↔
      Matches arguments rpc.parameters ∧
        r.Ahead ((order.arrange arguments).flatMap Argument.bytes) := by
  have hread : arguments.map Argument.type = rpc.parameters →
      ((∃ r', readArguments memory order rpc.parameters r = (.ok arguments, r')) ↔
        (∀ a ∈ arguments, a.Travels) ∧
          r.Ahead ((order.arrange arguments).flatMap Argument.bytes)) := by
    intro htypes
    have hplain : ∀ a ∈ order.arrange arguments, a.type.Plain := by
      intro a ha
      refine rpc.plain _ ?_
      rw [← htypes]
      exact List.mem_map_of_mem ((mem_arrange order a).mp ha)
    rw [← htypes, EnkiNet.readArguments_iff, readAll_plain_iff hplain hr]
    simp only [mem_arrange]
  constructor
  · intro hrun
    obtain ⟨r', hfirst⟩ := id hrun
    have htypes := types_of_readArguments rpc.plain hfirst
    obtain ⟨htravel, hahead⟩ := (hread htypes).mp hrun
    exact ⟨⟨htypes, htravel⟩, hahead⟩
  · intro h
    obtain ⟨hmatches, hahead⟩ := h
    exact (hread hmatches.types).mpr ⟨hmatches.values, hahead⟩

end

/-! ## Only exceptions -/

section
variable {memory : Memory} {types : List ParameterType}

/-- A plain parameter is read with exceptions only. -/
theorem catchable_get {t : FieldType} (ht : (ParameterType.field t).Plain) :
    Catchable (t.get 8) := by
  cases t with
  | scalar k => exact (catchable_getScalar k).bind fun _ => Fallible.Faults.pure _
  | string => exact catchable_getString.bind fun _ => Fallible.Faults.pure _
  | vector k =>
      have hread : Catchable (getVectorOf 8 k) :=
        ((catchable_deserialize 8 false).bind fun _ => Fallible.Faults.pure _).bind fun _ =>
          (catchable_deserialize _ _).bind fun _ => Fallible.Faults.pure _
      refine hread.bind fun ys => Fallible.Faults.bind ?_ fun _ => Fallible.Faults.pure _
      unfold sized
      split
      · exact Fallible.Faults.pure _
      · exact Fallible.Faults.fail trivial
  | entityInfo => exact ht.elim
  | packet => exact ht.elim

/-- A list of plain parameters. -/
theorem catchable_readAll (hplain : ∀ t ∈ types, t.Plain) :
    Catchable (readAll (ParameterType.get memory) types) := by
  induction types with
  | nil => exact Fallible.Faults.pure _
  | cons t ts ih =>
      have hrest := ih fun u hu => hplain u (List.mem_cons_of_mem t hu)
      have ht : t.Plain := hplain t List.mem_cons_self
      cases t with
      | field t =>
          exact Fallible.Faults.bind ((catchable_get ht).bind fun _ => Fallible.Faults.pure _)
            fun _ => hrest.bind fun _ => Fallible.Faults.pure _
      | array k n => exact ht.elim

/-- Reading the arguments of a call from whole bytes only throws exceptions, in either order. -/
theorem catchable_readArguments {order : EvaluationOrder} (hplain : ∀ t ∈ types, t.Plain) :
    Catchable (readArguments memory order types) := by
  cases order with
  | leftToRight => exact catchable_readAll hplain
  | rightToLeft =>
      exact (catchable_readAll fun t ht => hplain t (List.mem_reverse.mp ht)).bind fun _ =>
        Fallible.Faults.pure _

end

/-! ## Dispatch -/

/-- The code makes the call that there is to make, if there is one, and ends with an exception
if it does not return. -/
structure Called.Exact (outcome : Called) (calls : Invocation → Prop) : Prop where
  once : outcome.2.length ≤ 1
  catchable : ∀ e, outcome.1 = .error e → e.IsException
  iff : ∀ i, i ∈ outcome.2 ↔ calls i

/-- An outcome without calls is exact where there is none to make. -/
theorem Called.exact_none {result : Except Fault Unit} {calls : Invocation → Prop}
    (hresult : ∀ e, result = .error e → e.IsException) (h : ∀ i, ¬ calls i) :
    Exact (result, []) calls :=
  ⟨Nat.zero_le _, hresult, fun i => iff_of_false List.not_mem_nil (h i)⟩

/-- An exact outcome is caught and its call stands. -/
theorem Called.Exact.caught {outcome : Called} {calls : Invocation → Prop}
    (h : outcome.Exact calls) : outcome.catchException = (.ok (), outcome.2) := by
  obtain ⟨e | _, invoked⟩ := outcome
  · rw [Attempt.catchException, if_pos (h.catchable e rfl)]
  · rfl

/-- The wrapper calls the function with the arguments that it reads. -/
theorem GlobalRPC.wrap_exact (rpc : GlobalRPC) (order : EvaluationOrder) (memory : Memory)
    (game : Invocation → Option String) (p : Packet) :
    (rpc.wrap order memory game p).Exact fun i => i.rpc = rpc ∧
      ∃ r', readArguments memory order rpc.parameters p = (.ok i.arguments, r') := by
  unfold wrap
  rcases hread : readArguments memory order rpc.parameters p with ⟨e | arguments, r'⟩
  · refine Called.exact_none (fun e' he' => ?_) fun i => ?_
    · cases he'
      exact catchable_readArguments rpc.plain p _ _ hread
    · intro h
      obtain ⟨_, s, hok⟩ := h
      cases hok
  · have hcalls : ∀ i, i ∈ [(⟨rpc, arguments⟩ : Invocation)] ↔ i.rpc = rpc ∧
        ∃ s, ((.ok arguments, r') : Except Fault (List Argument) × Packet) =
          (.ok i.arguments, s) := by
      intro i
      rw [List.mem_singleton]
      constructor
      · intro h
        subst h
        exact ⟨rfl, r', rfl⟩
      · intro h
        obtain ⟨hrpc, s, harguments⟩ := h
        cases i
        cases hrpc
        cases harguments
        rfl
    dsimp only
    split
    · exact ⟨Nat.le_refl 1, by simp, hcalls⟩
    · refine ⟨Nat.le_refl 1, fun e he => ?_, hcalls⟩
      cases he
      trivial

namespace RPCManager

/-- `receive` makes the call that the packet has next. -/
theorem tryReceive_exact (m : RPCManager) (order : EvaluationOrder) (memory : Memory)
    (game : Invocation → Option String) {r : Packet} (hr : r.Between) :
    (m.tryReceive order memory game r).Exact fun i => ∃ name, m.globalRpcs name = some i.rpc ∧
      Matches i.arguments i.rpc.parameters ∧
        r.Ahead ((Callee.global name).bytes ++
          (order.arrange i.arguments).flatMap Argument.bytes) := by
  have hname : ∀ name s, getString r = (.ok name, s) ↔
      r.Ahead (Callee.global name).bytes ∧ s = r.skip (Callee.global name).bytes.length :=
    fun name s => yields_string (w := 8) (Field.fits (.string name)) r hr s
  unfold tryReceive
  split
  · next hempty =>
    refine Called.exact_none (by simp) fun i hi => ?_
    obtain ⟨name, _, _, hahead⟩ := hi
    have hlen := hahead.length_le
    have hpos := List.length_pos_of_ne_nil (Callee.global name).bytes_ne_nil
    rw [List.length_append, List.length_drop] at hlen
    omega
  rcases hread : getString r with ⟨e | name, s⟩
  · refine Called.exact_none (fun e' he' => ?_) fun i hi => ?_
    · cases he'
      exact catchable_getString r _ _ hread
    · obtain ⟨name, _, _, hahead⟩ := hi
      have hok := (hname name _).mpr ⟨(ahead_append.mp hahead).1, rfl⟩
      rw [hread] at hok
      cases hok
  · obtain ⟨hahead, rfl⟩ := (hname name s).mp hread
    -- the name that was read is the only one that is there
    have honly : ∀ other, r.Ahead (Callee.global other).bytes → other = name := by
      intro other hother
      have hsame := (hname other _).mpr ⟨hother, rfl⟩
      rw [hread] at hsame
      cases hsame
      rfl
    dsimp only
    cases hknown : m.globalRpcs name with
    | none =>
        refine Called.exact_none (by simp) fun i hi => ?_
        obtain ⟨other, hother, _, hcall⟩ := hi
        rw [honly other (ahead_append.mp hcall).1, hknown] at hother
        cases hother
    | some rpc =>
        have hwrap := rpc.wrap_exact order memory game (r.skip (Callee.global name).bytes.length)
        refine ⟨hwrap.once, hwrap.catchable, fun i => (hwrap.iff i).trans ?_⟩
        constructor
        · intro h
          obtain ⟨hrpc, hargs⟩ := h
          rw [← hrpc] at hknown hargs
          obtain ⟨hmatches, hrest⟩ := (i.rpc.readArguments_iff order (hr.skip hahead)).mp hargs
          exact ⟨name, hknown, hmatches, ahead_append.mpr ⟨hahead, hrest⟩⟩
        · intro h
          obtain ⟨other, hother, hmatches, hcall⟩ := h
          obtain ⟨hfirst, hrest⟩ := ahead_append.mp hcall
          cases honly other hfirst
          rw [hknown] at hother
          cases hother
          exact ⟨rfl, (i.rpc.readArguments_iff order (hr.skip hahead)).mpr ⟨hmatches, hrest⟩⟩

/-- What is called here is what arrives of a call on its way through a packet. -/
theorem receive_arguments (m : RPCManager) (order : EvaluationOrder) (memory : Memory)
    (game : Invocation → Option String) (name : StdString) (p : Packet) :
    EnkiNet.receive ⟨fun n => (m.globalRpcs n).map GlobalRPC.parameters, fun _ _ => none⟩ order
        memory (.global name) p =
      .ok ((m.receive order memory game p).2.head?.map Invocation.arguments) := by
  have hcaught : (m.receive order memory game p).2 = (m.tryReceive order memory game p).2 :=
    Attempt.catchException_calls _
  rw [hcaught, tryReceive, EnkiNet.receive]
  by_cases hempty : p.bytes.length ≤ p.bytesRead
  · rw [if_pos hempty, if_pos hempty]
    rfl
  rw [if_neg hempty, if_neg hempty, Callee.getSignature]
  rcases hread : getString p with ⟨e | found, s⟩
  · have he := catchable_getString p _ _ hread
    rw [Fallible.bind_error hread]
    cases e with
    | undefined u => exact he.elim
    | _ => rfl
  · rw [Fallible.bind_ok hread]
    dsimp only [Pure.pure]
    cases m.globalRpcs found with
    | none => rfl
    | some rpc =>
        dsimp only [Option.map_some]
        rw [GlobalRPC.wrap]
        rcases hargs : readArguments memory order rpc.parameters s with ⟨e | arguments, t⟩
        · have he := catchable_readArguments rpc.plain s _ _ hargs
          cases e with
          | undefined u => exact he.elim
          | _ => rfl
        · dsimp only
          cases game ⟨rpc, arguments⟩ <;> rfl

/-- The function of a name is that of its first registration. -/
theorem globalRpcs_eq_iff (registrations : List (StdString × GlobalRPC)) (name : StdString)
    (rpc : GlobalRPC) :
    (registered registrations).globalRpcs name = some rpc ↔
      registrations.find? (fun r => r.1 = name) = some (name, rpc) := by
  rw [globalRpcs_registered, Option.map_eq_some_iff]
  constructor
  · intro h
    obtain ⟨r, hfound, hrpc⟩ := h
    have hname : r.1 = name := by simpa using List.find?_some hfound
    rw [hfound, ← hname, ← hrpc]
  · intro hfound
    exact ⟨_, hfound, rfl⟩

end RPCManager

/-- **Global RPC dispatch accepts exactly the well-formed packets.**  No exception escapes, no
more than one function is called, and the calls are those that the bytes encode. -/
theorem global_rpc_exact (registrations : List (StdString × GlobalRPC)) (order : EvaluationOrder)
    (memory : Memory) (game : Invocation → Option String) (data : List Byte)
    (long : headerSize ≤ data.length) :
    ∃ p invoked, ofData data = .ok p ∧
      (RPCManager.registered registrations).receive order memory game p = (.ok (), invoked) ∧
      invoked.length ≤ 1 ∧
      ∀ i : Invocation, i ∈ invoked ↔ ∃ name,
        registrations.find? (fun r => r.1 = name) = some (name, i.rpc) ∧
          Matches i.arguments i.rpc.parameters ∧ Encodes order name i.arguments data := by
  have hr : (received data).Between := ⟨rfl, long⟩
  have hexact := (RPCManager.registered registrations).tryReceive_exact order memory game hr
  refine ⟨received data, _, ofData_eq long, hexact.caught, hexact.once, fun i => ?_⟩
  rw [hexact.iff]
  simp only [RPCManager.globalRpcs_eq_iff]
  rfl

/-- A function of two numbers, registered as "t", and another that is registered too late. -/
def twoRegistrations : List (StdString × GlobalRPC) :=
  [(⟨[0x74], by decide⟩,
    ⟨0, [.field (.scalar 1), .field (.scalar 1)], by simp [ParameterType.Plain]⟩),
    (⟨[0x74], by decide⟩, ⟨1, [], by simp⟩)]

/-- The header, the name "t", and the bytes 1, 2 and 3. -/
def threeByteCall : List Byte :=
  List.replicate 8 0 ++ (leBytes 8 1 ++ [0x74]) ++ [1, 2, 3]

theorem global_rpc_exact_threeByteCall :
    ∃ p invoked, ofData threeByteCall = .ok p ∧
      (RPCManager.registered twoRegistrations).receive .rightToLeft (fun _ => 0)
        (fun _ => some "thrown by the function") p = (.ok (), invoked) ∧
      invoked.length ≤ 1 ∧
      (∀ i : Invocation, i ∈ invoked ↔ ∃ name,
        twoRegistrations.find? (fun r => r.1 = name) = some (name, i.rpc) ∧
          Matches i.arguments i.rpc.parameters ∧
            Encodes .rightToLeft name i.arguments threeByteCall) ∧
      invoked.map (fun i => (i.rpc.function, i.arguments)) =
        [(0, [.field (.scalar 1 2), .field (.scalar 1 1)])] := by
  obtain ⟨p, invoked, hp, hrun, honce, hiff⟩ := global_rpc_exact twoRegistrations .rightToLeft
    (fun _ => 0) (fun _ => some "thrown by the function") threeByteCall (by decide)
  refine ⟨p, invoked, hp, hrun, honce, hiff, ?_⟩
  have hcalls : (ofData threeByteCall).toOption.map (fun q =>
      ((RPCManager.registered twoRegistrations).receive .rightToLeft (fun _ => 0)
        (fun _ => some "thrown by the function") q).2.map
          fun i => (i.rpc.function, i.arguments)) =
      some [(0, [.field (.scalar 1 2), .field (.scalar 1 1)])] := by decide +kernel
  rw [hp] at hcalls
  change some (((RPCManager.registered twoRegistrations).receive _ _ _ p).2.map _) = _ at hcalls
  rw [hrun] at hcalls
  exact Option.some.inj hcalls

end EnkiNet
