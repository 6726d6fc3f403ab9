import EnkiNet.PacketScript

/-!
# Scenegraph and RPC tables

The data of a scenegraph: the entities in the order of their ids, what game code
has registered (builders, child types, entity RPCs), and the counters from which
the server numbers networked entities and every process its local ones.
-/

namespace EnkiNet

/-! ## Entity RPCs -/

inductive RPCType
  | master
  | remote
  | remoteAndLocal
  | masterAndRemote
  | onlyLocal
  | all
  deriving DecidableEq, Repr

/-- `RPCManager::RPCInfo`: whether the caller executes the function and whether it
sends the packet. -/
def RPCInfo (type : RPCType) (owner : Bool) : Bool × Bool :=
  match type with
  | .master => if owner then (true, false) else (false, true)
  | .remote => if owner then (false, true) else (false, false)
  | .remoteAndLocal => if owner then (true, true) else (false, false)
  | .masterAndRemote => (false, true)
  | .onlyLocal => (true, false)
  | .all => (true, true)

/-- A registered function, by what its wrapper reads from the packet: the types of
its parameters, in the order in which the call evaluates them. -/
structure EntityRPC where
  rpctype : RPCType
  parameters : List ReadOp

/-! ## Entities -/

structure Entity where
  info : EntityInfo
  remove : Bool := false
  networkTickRate : UInt32 := 0
  deriving DecidableEq, Repr

/-- What a builder registered with `registerEntity` gives the entities it makes:
the tick rate their constructor sets, and whether their class overrides
`deserializeOnConnection`, which otherwise calls `deserializeOnTick`. -/
structure EntityClass where
  networkTickRate : UInt32 := 0
  overridesOnConnection : Bool := false
  deriving DecidableEq, Repr

structure ChildEntityCreationInfo where
  type : StdString
  name : StdString
  spawnInfo : Packet
  sound : spawnInfo.Sound
  deriving DecidableEq, Repr

/-- The tables that game code fills before the session. -/
structure Registry where
  builders : StdString → Option EntityClass := fun _ => none
  childTypes : StdString → List ChildEntityCreationInfo := fun _ => []
  entityRpcs : StdString → StdString → Option EntityRPC := fun _ _ => none

namespace EntityInfo

/-- The check that `createEntity` and `createNetworkedEntity` make first. -/
def Named (info : EntityInfo) : Prop := info.name.elems ≠ [] ∧ info.type.elems ≠ []

instance (info : EntityInfo) : Decidable info.Named := inferInstanceAs (Decidable (_ ∧ _))

end EntityInfo

structure Scenegraph where
  registry : Registry := {}
  entities : Std.TreeMap EntityID Entity := {}
  ID : EntityID := 1
  localID : EntityID := -1
  networkReady : Bool := true
  totalNetworkTicks : UInt32 := 0

namespace Scenegraph

variable (g : Scenegraph)

def entityExists (id : EntityID) : Bool := g.entities.contains id

/-- The info stored under an id. -/
def held (id : EntityID) : Option EntityInfo := (g.entities[id]?).map Entity.info

/-- `entities[id] = entity`. -/
def setEntity (id : EntityID) (entity : Entity) : Scenegraph :=
  { g with entities := g.entities.insert id entity }

/-- `entities[id]->remove = true` for an entity that exists. -/
def flag (id : EntityID) : Scenegraph :=
  { g with entities := g.entities.modify id fun ent => { ent with remove := true } }

/-- `erase_if` at the end of `Scenegraph::update`. -/
def eraseFlagged : Scenegraph :=
  { g with entities := g.entities.filter fun _ ent => !ent.remove }

/-- The info of an entity that has not been marked for removal. -/
def live (id : EntityID) : Option EntityInfo :=
  (g.entities[id]?).bind fun ent => if ent.remove then none else some ent.info

section
variable (id id' : EntityID) (entity : Entity)

/-- Storing an entity registers no type. -/
@[simp] theorem setEntity_registry : (g.setEntity id entity).registry = g.registry := rfl
@[simp] theorem flag_registry : (g.flag id).registry = g.registry := rfl
@[simp] theorem eraseFlagged_registry : g.eraseFlagged.registry = g.registry := rfl

/-- The map after `entities[id] = entity`. -/
theorem getElem?_setEntity :
    (g.setEntity id entity).entities[id']? = if id = id' then some entity else
      g.entities[id']? := by
  simp [setEntity, Std.TreeMap.getElem?_insert]

/-- The map after an entity is marked for removal. -/
theorem getElem?_flag :
    (g.flag id).entities[id']? =
      if id = id' then (g.entities[id]?).map fun ent => { ent with remove := true }
      else g.entities[id']? := by
  simp [flag, Std.TreeMap.getElem?_modify]

/-- The map after the marked entities are erased. -/
theorem getElem?_eraseFlagged :
    g.eraseFlagged.entities[id']? = (g.entities[id']?).filter fun ent => !ent.remove := by
  simp [eraseFlagged]

/-- What the map holds under an id after storing. -/
theorem held_setEntity :
    (g.setEntity id entity).held id' = if id = id' then some entity.info else g.held id' := by
  rw [held, getElem?_setEntity]
  split <;> rfl

/-- A marked entity is still in the map. -/
theorem held_flag : (g.flag id).held id' = g.held id' := by
  rw [held, getElem?_flag, held]
  split
  · next h =>
    subst h
    cases g.entities[id]? <;> rfl
  · rfl

/-- A marked entity no longer counts as there. -/
theorem live_flag : (g.flag id).live id' = if id = id' then none else g.live id' := by
  rw [live, getElem?_flag]
  split
  · cases g.entities[id]? <;> rfl
  · rfl

/-- Erasing what is marked changes nothing for what is not. -/
theorem live_eraseFlagged : g.eraseFlagged.live id' = g.live id' := by
  rw [live, getElem?_eraseFlagged, live]
  rcases g.entities[id']? with _ | ent
  · rfl
  · cases h : ent.remove <;> simp [Option.filter, h]

/-- Without a mark on it, what is stored is live. -/
theorem live_eq_held (h : ∀ ent, g.entities[id]? = some ent → ent.remove = false) :
    g.live id = g.held id := by
  rw [live, held]
  rcases hent : g.entities[id]? with _ | ent
  · rfl
  · simp [h ent hent]

end

end Scenegraph

end EnkiNet
