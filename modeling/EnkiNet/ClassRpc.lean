import EnkiNet.Completion
import EnkiNet.GlobalRpc
import EnkiNet.Layout

/-!
# Class RPCs

A function of a class that is no entity is called by one of two overloads of `RPCManager::call`,
and both packets are decoded by one `receive`, which reads an info and a name.  The overload
without a network manager writes an empty info in front of the name; the one with a network
manager writes the name only.

`class_call_iff` says of both when the function is called: the second overload needs a packet in
which the name and the arguments happen to begin like an info with the name behind it.
-/

namespace EnkiNet

open ByteStore Packet

/-- What is known of a member function that has been registered. -/
structure ClassRPC where
  function : Nat
  parameters : List ParameterType

/-- `RPCWrapper<T>::class_rpcs`. -/
abbrev ClassRpcs : Type := StdString → Option ClassRPC

/-- A member function is called on an instance. -/
structure ClassCall (T : Type) where
  target : T
  name : StdString
  rpc : ClassRPC
  arguments : List Argument

abbrev ClassCalled (T : Type) : Type := Attempt (ClassCall T)

variable {T : Type}

/-- `RPCUtil::wrap`.  What the function does is up to the game: `game` is the exception that it
throws, if it does. -/
def ClassRPC.wrap (rpc : ClassRPC) (order : EvaluationOrder) (memory : Memory)
    (game : ClassCall T → Option String) (name : StdString) (p : Packet) (target : T) :
    ClassCalled T :=
  match readArguments memory order rpc.parameters p with
  | (.error e, _) => (.error e, [])
  | (.ok arguments, _) =>
      match game ⟨target, name, rpc, arguments⟩ with
      | none => (.ok (), [⟨target, name, rpc, arguments⟩])
      | some what => (.error (.runtimeError what), [⟨target, name, rpc, arguments⟩])

namespace ClassRpcs

/-- What `RPCManager::receive(Packet, T*)` tries, for a class that is no entity. -/
def tryReceive (rpcs : ClassRpcs) (order : EvaluationOrder) (memory : Memory)
    (game : ClassCall T → Option String) (p : Packet) (target : T) : ClassCalled T :=
  if p.bytes.length ≤ p.bytesRead then (.ok (), [])
  else
    match getEntityInfo p with
    | (.error e, _) => (.error e, [])
    | (.ok _, p) =>
        match getString p with
        | (.error e, _) => (.error e, [])
        | (.ok name, p) =>
            match rpcs name with
            | none => (.ok (), [])
            | some rpc => rpc.wrap order memory game name p target

def receive (rpcs : ClassRpcs) (order : EvaluationOrder) (memory : Memory)
    (game : ClassCall T → Option String) (p : Packet) (target : T) : ClassCalled T :=
  (rpcs.tryReceive order memory game p target).catchException

end ClassRpcs

/-- The overloads of `RPCManager::call` that take an instance. -/
inductive Overload
  | withoutManager
  | withManager
  deriving DecidableEq, Repr

namespace Overload

def header : Overload → PacketHeader
  | withoutManager => { type := .entityRpc }
  | withManager => { type := .classRpc }

/-- What is written in front of the arguments. -/
def putName (name : StdString) : Overload → PacketM Unit
  | withoutManager => do
      putEntityInfo {}
      putString name
  | withManager => putString name

def packet (o : Overload) (name : StdString) (arguments : List Argument) : Except Fault Packet :=
  match (do o.putName name; fillPacket arguments) (ofHeader o.header) with
  | (.ok (), p) => .ok p
  | (.error e, _) => .error e

end Overload

namespace ClassRpcs

section
variable (rpcs : ClassRpcs) (order : EvaluationOrder) (memory : Memory)
  (game : ClassCall T → Option String) (name : StdString) (target : T) (arguments : List Argument)

def callWithoutManager : ClassCalled T :=
  match rpcs name with
  | none => (.ok (), [])
  | some _ =>
      match Overload.withoutManager.packet name arguments with
      | .error e => (.error e, [])
      | .ok p => rpcs.receive order memory game p target

/-- `net_man` is the network manager of the process `s`. -/
def callWithManager (stack : Nat) (hook : EntityID → List WriteOp) (s : Process) :
    ClassCalled T × Process :=
  if s.role = .server then ((.ok (), []), s)
  else
    match rpcs name with
    | none => ((.ok (), []), s)
    | some _ =>
        match Overload.withManager.packet name arguments with
        | .error e => ((.error e, []), s)
        | .ok p =>
            match Process.sendPacket stack hook p s with
            | (.error e, s) => ((.error e, []), s)
            | (.ok p, s) => (rpcs.receive order memory game p target, s)

/-- What happens in the process that calls. -/
def call (stack : Nat) (hook : EntityID → List WriteOp) (s : Process) : Overload → ClassCalled T
  | .withoutManager => rpcs.callWithoutManager order memory game name target arguments
  | .withManager => (rpcs.callWithManager order memory game name target arguments stack hook s).1

end

end ClassRpcs

/-- **What a call should do**: the packet is decoded into the same name, and the function is called
once, on this instance. -/
def ClassCalled.Once (outcome : ClassCalled T) (name : StdString) (rpc : ClassRPC) (target : T) :
    Prop :=
  ∃ received, outcome.2 = [⟨target, name, rpc, received⟩]

/-! ## Which packets call the function -/

/-- The parameters can be read from these bytes. -/
def Readable (memory : Memory) (order : EvaluationOrder) (parameters : List ParameterType)
    (d : List Byte) : Prop :=
  ∃ arguments r', readArguments memory order parameters (received ((ofHeader {}).bytes ++ d)) =
    (.ok arguments, r')

def nameBytes (name : StdString) : List Byte := (Field.string name).bytes 8

namespace Overload

/-- The writes in front of the arguments. -/
def chunks (name : StdString) : Overload → List (List Byte)
  | withoutManager => (Field.entityInfo {}).chunks ++ (Field.string name).chunks
  | withManager => (Field.string name).chunks

/-- What the buffer has behind the name: the arguments, the last one first, and zeros. -/
def tail (o : Overload) (name : StdString) (arguments : List Argument) : List Byte :=
  arguments.reverse.flatMap Argument.bytes ++ List.replicate
    (room headerSize 0 (o.chunks name ++ arguments.reverse.flatMap Argument.chunks)) 0

/-- The receiver can find the name and the parameters.  Without an info in front, the name and
what is behind it must begin like one that has the name behind it. -/
def Decodable (memory : Memory) (order : EvaluationOrder) (parameters : List ParameterType)
    (name : StdString) (arguments : List Argument) : Overload → Prop
  | withoutManager => Readable memory order parameters (withoutManager.tail name arguments)
  | withManager => ∃ info rest, nameBytes name ++ withManager.tail name arguments =
      infoBytes 8 info ++ (nameBytes name ++ rest) ∧ Readable memory order parameters rest

end Overload

section
variable {rpcs : ClassRpcs} {order : EvaluationOrder} {memory : Memory}
  {game : ClassCall T → Option String} {name : StdString} {rpc : ClassRPC} {target : T}

theorem ClassCalled.once_catchException (outcome : ClassCalled T) :
    ClassCalled.Once outcome.catchException name rpc target ↔ outcome.Once name rpc target := by
  rw [Once, Once, outcome.catchException_calls]

theorem ClassCalled.not_once_nil (result : Except Fault Unit) :
    ¬ ClassCalled.Once ((result, []) : ClassCalled T) name rpc target := by
  intro h
  obtain ⟨_, h⟩ := h
  cases h

theorem ClassRPC.wrap_once {p : Packet} :
    (rpc.wrap order memory game name p target).Once name rpc target ↔
      ∃ arguments r', readArguments memory order rpc.parameters p = (.ok arguments, r') := by
  rw [wrap]
  rcases hread : readArguments memory order rpc.parameters p with ⟨e | arguments, r'⟩
  · refine iff_of_false (ClassCalled.not_once_nil _) fun h => ?_
    obtain ⟨_, _, h⟩ := h
    cases h
  · refine iff_of_true ⟨arguments, ?_⟩ ⟨arguments, r', rfl⟩
    dsimp only
    cases game ⟨target, name, rpc, arguments⟩ with
    | none => rfl
    | some what => rfl

/-- Another function, or one under another name, is not the one that was called. -/
theorem ClassRPC.eq_of_wrap_once {name' : StdString} {rpc' : ClassRPC} {p : Packet}
    (h : (rpc'.wrap order memory game name' p target).Once name rpc target) :
    name' = name ∧ rpc' = rpc := by
  obtain ⟨received, h⟩ := h
  rw [wrap] at h
  rcases hread : readArguments memory order rpc'.parameters p with ⟨e | arguments, r'⟩
  · rw [hread] at h
    cases h
  · rw [hread] at h
    dsimp only at h
    cases hgame : game ⟨target, name', rpc', arguments⟩ with
    | none =>
        rw [hgame] at h
        cases h
        exact ⟨rfl, rfl⟩
    | some what =>
        rw [hgame] at h
        cases h
        exact ⟨rfl, rfl⟩

theorem readable_iff {p : Packet} {d : List Byte} (hp : p.Between)
    (hd : p.bytes.drop p.bytesRead = d) (parameters : List ParameterType) :
    Readable memory order parameters d ↔
      ∃ arguments r', readArguments memory order parameters p = (.ok arguments, r') := by
  have hfresh : (received ((ofHeader {}).bytes ++ d)).Between := by
    refine ⟨rfl, ?_⟩
    change headerSize ≤ ((ofHeader {}).bytes ++ d).length
    simp [ofHeader]
  have hsame : (received ((ofHeader {}).bytes ++ d)).bytes.drop headerSize =
      p.bytes.drop p.bytesRead := by
    rw [hd]
    exact List.drop_left' (by simp [ofHeader])
  obtain ⟨r, n, hq, hp, _, _⟩ := local_readArguments memory order parameters _ _ hfresh hp hsame
  rw [Readable, hq, hp]
  constructor
  · intro h
    obtain ⟨arguments, _, h⟩ := h
    cases h
    exact ⟨arguments, _, rfl⟩
  · intro h
    obtain ⟨arguments, _, h⟩ := h
    cases h
    exact ⟨arguments, _, rfl⟩

theorem getEntityInfo_iff {r r' : Packet} (hr : r.Between) (info : EntityInfo) :
    getEntityInfo r = (.ok info, r') ↔
      r.Ahead (infoBytes 8 info) ∧ r' = r.skip (infoBytes 8 info).length :=
  yields_entityInfo (w := 8) (Field.fits (.entityInfo info)).1 (Field.fits (.entityInfo info)).2 r
    hr r'

theorem getString_iff {r r' : Packet} (hr : r.Between) (name : StdString) :
    getString r = (.ok name, r') ↔
      r.Ahead (nameBytes name) ∧ r' = r.skip (nameBytes name).length :=
  yields_string (w := 8) (Field.fits (.string name)) r hr r'

/-- The function is called once by the packets that have an info, the name and the parameters. -/
theorem ClassRpcs.receive_once (hrpc : rpcs name = some rpc) {r : Packet} (hr : r.Between) :
    (rpcs.receive order memory game r target).Once name rpc target ↔
      ∃ info rest, r.bytes.drop r.bytesRead = infoBytes 8 info ++ (nameBytes name ++ rest) ∧
        Readable memory order rpc.parameters rest := by
  rw [receive, ClassCalled.once_catchException, tryReceive]
  constructor
  · intro h
    split at h
    · exact absurd h (ClassCalled.not_once_nil _)
    rcases hinfo : getEntityInfo r with ⟨e | info, q⟩
    · rw [hinfo] at h
      exact absurd h (ClassCalled.not_once_nil _)
    rcases hname : getString q with ⟨e | name', q'⟩
    · rw [hinfo] at h
      simp only [hname] at h
      exact absurd h (ClassCalled.not_once_nil _)
    rw [hinfo] at h
    simp only [hname] at h
    cases hfound : rpcs name' with
    | none =>
        rw [hfound] at h
        exact absurd h (ClassCalled.not_once_nil _)
    | some rpc' =>
        rw [hfound] at h
        obtain ⟨rfl, rfl⟩ := ClassRPC.eq_of_wrap_once h
        obtain ⟨hfirst, rfl⟩ := (getEntityInfo_iff hr info).mp hinfo
        obtain ⟨hsecond, rfl⟩ := (getString_iff (hr.skip hfirst) name').mp hname
        obtain ⟨rest, hrest⟩ := ahead_append.mpr ⟨hfirst, hsecond⟩
        refine ⟨info, rest, ?_, ?_⟩
        · rw [← hrest, List.append_assoc]
        · refine (readable_iff ((hr.skip hfirst).skip hsecond) ?_ _).mpr (ClassRPC.wrap_once.mp h)
          rw [skip_skip, ← List.length_append]
          change r.bytes.drop (r.bytesRead + _) = rest
          rw [← List.drop_drop, ← hrest, List.drop_left]
  · intro h
    obtain ⟨info, rest, hbytes, hreadable⟩ := h
    have hahead : r.Ahead (infoBytes 8 info ++ nameBytes name) :=
      ⟨rest, by rw [hbytes, List.append_assoc]⟩
    obtain ⟨hfirst, hsecond⟩ := ahead_append.mp hahead
    have hinfo := (getEntityInfo_iff hr info).mpr ⟨hfirst, rfl⟩
    have hname := (getString_iff (hr.skip hfirst) name).mpr ⟨hsecond, rfl⟩
    have hmore : ¬ r.bytes.length ≤ r.bytesRead := by
      have hlen := hahead.length_le
      rw [List.length_append, List.length_drop] at hlen
      have hpos : 0 < (infoBytes 8 info).length := by simp [infoBytes, scalarBytes]
      omega
    rw [if_neg hmore, hinfo]
    simp only [hname, hrpc]
    refine ClassRPC.wrap_once.mpr ((readable_iff ((hr.skip hfirst).skip hsecond) ?_ _).mp hreadable)
    rw [skip_skip, ← List.length_append]
    change r.bytes.drop (r.bytesRead + _) = rest
    rw [← List.drop_drop, hbytes, ← List.append_assoc, List.drop_left]

/-! ## Which packets are made -/

theorem Overload.lays_putName (name : StdString) (o : Overload) :
    Lays (o.putName name) (o.chunks name) := by
  cases o with
  | withoutManager =>
      have hinfo : Lays (putEntityInfo {}) (Field.entityInfo {}).chunks :=
        Field.lays (f := .entityInfo {}) trivial
      exact hinfo.bind lays_sized
  | withManager => exact lays_sized

/-- The packet that is made, if the arguments can be written. -/
theorem Overload.packet_ok {arguments : List Argument} (o : Overload) (name : StdString)
    (h : ∀ a ∈ arguments, a.Writable) :
    ∃ p, o.packet name arguments = .ok p ∧ p.header = o.header ∧
      p.readCursor = ⟨headerSize, 8⟩ ∧ p.bytesWritten ≤ p.bytes.length ∧
      p.bytes = o.header.toBytes ++ ((o.chunks name).flatten ++ o.tail name arguments) := by
  obtain ⟨p, hrun, hfilled, hread, hheader⟩ :=
    ((o.lays_putName name).bind (lays_fillPacket h)) _ _ _
    (Filled.ofHeader o.header)
  refine ⟨p, ?_, hheader, hread, hfilled.le, ?_⟩
  · rw [packet, hrun]
  · have hflat : (arguments.reverse.flatMap Argument.chunks).flatten =
        arguments.reverse.flatMap Argument.bytes := by
      rw [List.flatMap_def, List.flatten_flatten, List.map_map, List.flatMap_def]
      exact congrArg List.flatten (List.map_congr_left fun a _ => a.flatten_chunks)
    rw [hfilled.bytes_eq, PacketHeader.length_toBytes, tail, List.flatten_append, hflat]
    simp only [List.append_assoc]

theorem Overload.writable_of_packet {arguments : List Argument} {o : Overload} {name : StdString}
    {p : Packet} (h : o.packet name arguments = .ok p) : ∀ a ∈ arguments, a.Writable := by
  unfold packet at h
  split at h
  · next q hrun =>
    obtain ⟨_, s, _, hfill⟩ := Fallible.bind_eq_ok hrun
    exact writable_of_fillPacket hfill
  · cases h

/-- Two infos at one place are one. -/
theorem infoBytes_append_inj {e e' : EntityInfo} {d d' : List Byte}
    (h : infoBytes 8 e ++ d = infoBytes 8 e' ++ d') : e = e' ∧ d = d' := by
  obtain ⟨hr, hahead⟩ := ahead_of_written (h := {}) (r := received ((ofHeader {}).bytes ++
    (infoBytes 8 e ++ d))) List.prefix_rfl rfl
  have hfirst : (received ((ofHeader {}).bytes ++ (infoBytes 8 e ++ d))).Ahead (infoBytes 8 e) :=
    (List.prefix_append _ d).trans hahead
  have hfirst' : (received ((ofHeader {}).bytes ++ (infoBytes 8 e ++ d))).Ahead
      (infoBytes 8 e') := by
    rw [h] at hahead ⊢
    exact (List.prefix_append _ d').trans hahead
  have hread := (getEntityInfo_iff hr e).mpr ⟨hfirst, rfl⟩
  rw [(getEntityInfo_iff hr e').mpr ⟨hfirst', rfl⟩] at hread
  cases hread
  exact ⟨rfl, List.append_cancel_left h⟩

namespace Process

/-- Handing over the packet of a class RPC leaves what it says as it is. -/
theorem sendPacket_classRpc {s : Process} (stack : Nat) (hook : EntityID → List WriteOp)
    {p : Packet} (htype : p.header.type = .classRpc) (howned : p.bytesWritten ≤ p.bytes.length) :
    ∃ q s', sendPacket stack hook p s = (.ok q, s') ∧ q.readCursor = p.readCursor ∧
      q.bytes.length = p.bytes.length ∧ q.bytes.drop headerSize = p.bytes.drop headerSize := by
  have hstamped : (stamped s.now p).bytes.length = p.bytes.length ∧
      (stamped s.now p).bytes.drop headerSize = p.bytes.drop headerSize :=
    ⟨length_setHeader _ p, drop_setHeader _ p⟩
  rw [sendPacket, Fallible.bind_get]
  by_cases hhost : s.role = .host
  · rw [if_pos hhost, bind_stamp]
    have hhandled : serverHandler stack hook { stamped s.now p with
        info := { senderID := s.id, timeReceived := s.now } } s = (.ok (), s) := by
      have htype' : (stamped s.now p).header.type = .classRpc := htype
      simp only [serverHandler, htype']
      rfl
    refine ⟨{ stamped s.now p with info := { senderID := s.id, timeReceived := s.now } }, s,
      ?_, rfl,
      hstamped⟩
    exact Fallible.bind_ok hhandled _
  · have hwire : (stamped s.now p).wire = .ok (stamped s.now p).written := by
      refine if_pos ?_
      rw [hstamped.1]
      exact howned
    rw [if_neg hhost, sendToServer, Fallible.bind_get, bind_stamp, bind_wireBytes hwire]
    exact ⟨_, _, rfl, rfl, hstamped⟩

end Process

namespace ClassRpcs

variable {arguments : List Argument}

/-- The packet of a call calls the function once if there are an info, the name and the parameters
behind the header. -/
theorem receive_packet (hrpc : rpcs name = some rpc) {o : Overload} {p q : Packet}
    (hbytes : p.bytes = o.header.toBytes ++ ((o.chunks name).flatten ++ o.tail name arguments))
    (hcursor : q.readCursor = ⟨headerSize, 8⟩) (hlength : q.bytes.length = p.bytes.length)
    (hdrop : q.bytes.drop headerSize = p.bytes.drop headerSize) :
    (rpcs.receive order memory game q target).Once name rpc target ↔
      o.Decodable memory order rpc.parameters name arguments := by
  have hread : q.bytesRead = headerSize := congrArg Cursor.byte hcursor
  have hq : q.Between := by
    refine ⟨congrArg Cursor.bit hcursor, ?_⟩
    rw [hread, hlength, hbytes, List.length_append, PacketHeader.length_toBytes]
    exact Nat.le_add_right _ _
  have hpayload : q.bytes.drop q.bytesRead = (o.chunks name).flatten ++ o.tail name arguments := by
    rw [hread, hdrop, hbytes]
    exact List.drop_left' (PacketHeader.length_toBytes _)
  rw [receive_once hrpc hq, hpayload]
  have hname : (Field.string name).chunks.flatten = nameBytes name :=
    (Field.string name).flatten_chunks
  cases o with
  | withManager =>
      rw [Overload.chunks, hname]
      exact Iff.rfl
  | withoutManager =>
      have hinfo : (Field.entityInfo {}).chunks.flatten = infoBytes 8 {} :=
        (Field.entityInfo {}).flatten_chunks
      rw [Overload.chunks, List.flatten_append, hname, hinfo, List.append_assoc]
      constructor
      · intro h
        obtain ⟨info, rest, hsame, hreadable⟩ := h
        rw [Overload.Decodable, List.append_cancel_left (infoBytes_append_inj hsame).2]
        exact hreadable
      · intro hreadable
        exact ⟨{}, _, rfl, hreadable⟩

/-- Nothing is called if an argument cannot be written. -/
theorem packet_error {o : Overload} (hnot : ¬ ∀ a ∈ arguments, a.Writable) :
    ∃ e, o.packet name arguments = .error e := by
  cases hpacket : o.packet name arguments with
  | error e => exact ⟨e, rfl⟩
  | ok p => exact absurd (Overload.writable_of_packet hpacket) hnot

/-- **When a class RPC runs in the process that calls it.** -/
theorem class_call_iff (hrpc : rpcs name = some rpc) (order : EvaluationOrder) (memory : Memory)
    (game : ClassCall T → Option String) (target : T) (arguments : List Argument) (stack : Nat)
    (hook : EntityID → List WriteOp) {s : Process} {o : Overload}
    (hclient : o = .withManager → s.role ≠ .server) :
    (rpcs.call order memory game name target arguments stack hook s o).Once name rpc target ↔
      (∀ a ∈ arguments, a.Writable) ∧
        o.Decodable memory order rpc.parameters name arguments := by
  by_cases hall : ∀ a ∈ arguments, a.Writable
  · obtain ⟨p, hpacket, hheader, hcursor, howned, hbytes⟩ := o.packet_ok name hall
    rw [and_iff_right hall]
    cases o with
    | withoutManager =>
        rw [call, callWithoutManager, hrpc]
        simp only [hpacket]
        exact receive_packet hrpc hbytes hcursor rfl rfl
    | withManager =>
        have htype : p.header.type = .classRpc := congrArg PacketHeader.type hheader
        obtain ⟨q, s', hsend, hcursor', hlength, hdrop⟩ :=
          Process.sendPacket_classRpc stack hook htype howned
        rw [call, callWithManager, if_neg (hclient rfl), hrpc]
        simp only [hpacket]
        rw [hsend]
        exact receive_packet hrpc hbytes (hcursor'.trans hcursor) hlength hdrop
  · obtain ⟨e, herror⟩ : ∃ e, o.packet name arguments = .error e := packet_error hall
    refine iff_of_false ?_ fun h => hall h.1
    cases o with
    | withoutManager =>
        rw [call, callWithoutManager, hrpc]
        simp only [herror]
        exact ClassCalled.not_once_nil _
    | withManager =>
        rw [call, callWithManager, if_neg (hclient rfl), hrpc]
        simp only [herror]
        exact ClassCalled.not_once_nil _

end ClassRpcs

end

/-! ## A function without parameters -/

/-- A function without parameters, under the name "t". -/
def Sample.ring : ClassRpcs := fun name => if name.elems = [0x74] then some ⟨0, []⟩ else none

/-- The client of a listen server. -/
def Sample.listenServer : Process := { role := .host, id := 1 }

namespace ClassRpcs

theorem class_call_iff_ring :
    (Sample.ring.call .rightToLeft (fun _ => 0) (fun _ => none) ⟨[0x74], by decide⟩ () [] 5
      (fun _ => []) Sample.listenServer .withoutManager).Once ⟨[0x74], by decide⟩ ⟨0, []⟩ () := by
  have hring : Sample.ring ⟨[0x74], by decide⟩ = some ⟨0, []⟩ := rfl
  have hclient : Overload.withoutManager = .withManager → Sample.listenServer.role ≠ .server := by
    decide
  refine (class_call_iff hring .rightToLeft (fun _ => 0) (fun _ => none) () [] 5 (fun _ => [])
    hclient).mpr ?_
  exact ⟨List.forall_mem_nil _, [], _, rfl⟩

/-- A call with a network manager does not always run. -/
theorem not_always_once : ¬ ∀ (rpcs : ClassRpcs) (name : StdString) (rpc : ClassRPC),
    rpcs name = some rpc → ∀ (order : EvaluationOrder) (memory : Memory)
    (game : ClassCall Unit → Option String) (target : Unit) (arguments : List Argument)
    (stack : Nat) (hook : EntityID → List WriteOp) (s : Process), s.role ≠ .server →
    ∀ o : Overload,
      (rpcs.call order memory game name target arguments stack hook s o).Once name rpc target := by
  intro hall
  obtain ⟨received, hcalls⟩ := hall Sample.ring ⟨[0x74], by decide⟩ ⟨0, []⟩ rfl .rightToLeft
    (fun _ => 0) (fun _ => none) () [] 5 (fun _ => []) Sample.listenServer (by decide) .withManager
  have hnone : (Sample.ring.call .rightToLeft (fun _ => 0) (fun _ => none) ⟨[0x74], by decide⟩ ()
    [] 5
      (fun _ => []) Sample.listenServer .withManager).2.length = 0 := by decide +kernel
  rw [hcalls] at hnone
  cases hnone

end ClassRpcs

end EnkiNet
