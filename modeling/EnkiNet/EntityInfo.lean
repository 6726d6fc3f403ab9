import EnkiNet.Packet

/-!
# Entity info

The five fields by which peers name an entity, and their order on the wire.
-/

namespace EnkiNet

/-- `std::int32_t`: positive for networked entities, negative for local ones. -/
abbrev EntityID := Int32

namespace Sized

variable {α : Type}

def empty : Sized α := ⟨[], by simp⟩

instance : Inhabited (Sized α) := ⟨empty⟩

end Sized

structure EntityInfo where
  type : StdString := .empty
  name : StdString := .empty
  ID : EntityID := 0
  ownerID : ClientID := 0
  parentID : EntityID := 0
  deriving DecidableEq, Repr

namespace Packet

/-- `operator<<(Packet&, EntityInfo&)`. -/
def putEntityInfo (e : EntityInfo) : PacketM Unit := do
  putScalar (k := 4) e.ID.toBitVec
  putScalar (k := 4) e.ownerID.toBitVec
  putString e.type
  putString e.name
  putScalar (k := 4) e.parentID.toBitVec

/-- `operator>>(Packet&, EntityInfo&)`. -/
def getEntityInfo : PacketM EntityInfo := do
  let ID ← getScalar 4
  let ownerID ← getScalar 4
  let type ← getString
  let name ← getString
  let parentID ← getScalar 4
  return {
    type := type
    name := name
    ID := .ofBitVec ID
    ownerID := .ofBitVec ownerID
    parentID := .ofBitVec parentID }

end Packet

end EnkiNet
