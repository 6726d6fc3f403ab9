import EnkiNet.Session
import EnkiNet.Walks

/-!
# Registration

Game code registers a builder for each type of entity, and for a type the entities that are made
along with it.  `registerEntityChildren` stores the list first and validates it then: at a
child without a builder it clears the list, over which the loop still runs, and the
message that follows takes the type of the child from the element that has just gone.  So it
does what it should exactly if every child has a builder (`registerEntityChildren_iff`).
-/

namespace EnkiNet

/-- `builders` and `entities_child_types`; what a map has no entry for is `none`. -/
structure Tables where
  builders : StdString → Option EntityClass := fun _ => none
  childTypes : StdString → Option (List ChildEntityCreationInfo) := fun _ => none

/-- A call of `registerEntity` or `registerEntityChildren`. -/
inductive RegisterOp
  | entity (type : StdString) (cls : EntityClass)
  | children (type : StdString) (children : List ChildEntityCreationInfo)

namespace Tables

variable (t : Tables)

/-- `builders.count(type)`. -/
def Registered (type : StdString) : Prop := (t.builders type).isSome

instance (type : StdString) : Decidable (t.Registered type) :=
    inferInstanceAs (Decidable (_ = true))

def registerEntity (type : StdString) (cls : EntityClass) : Tables :=
  { t with builders := fun other => if other = type then some cls else t.builders other }

/-- The body of the validating loop.  The message about a child without a builder names its type,
through the iterator. -/
def validate (i : Nat) (children : Walked ChildEntityCreationInfo) :
    Option (Walked ChildEntityCreationInfo) :=
  (children.read i).bind fun child =>
    if t.Registered child.type then some children
    else (children.clear.read i).map fun _ => children.clear

/-- `registerEntityChildren`; no result where an element is used that is no longer in the list. -/
def registerEntityChildren (type : StdString) (children : List ChildEntityCreationInfo) :
    Option Tables :=
  (Walked.walk id t.validate children.length 0 (Walked.start children children.length)).map
    fun stored =>
      { t with
        childTypes := fun other =>
          if other = type then if stored.elems.isEmpty then none else some stored.elems
          else t.childTypes other }

def register : RegisterOp → Option Tables
  | .entity type cls => some (t.registerEntity type cls)
  | .children type children => t.registerEntityChildren type children

/-- What the scenegraph works with; `operator[]` makes an empty list of a missing entry. -/
def registry (rpcs : StdString → StdString → Option EntityRPC) : Registry where
  builders := t.builders
  childTypes := fun type => (t.childTypes type).getD []
  entityRpcs := rpcs

/-- **What registering children should do.**  The list is stored, as `operator[]` reads it, if
every child has a builder, and there is no entry if one has none. -/
structure AllOrNothing (type : StdString) (children : List ChildEntityCreationInfo)
    (t' : Tables) : Prop where
  builders : t'.builders = t.builders
  stored : (∀ child ∈ children, t.Registered child.type) →
    (t'.childTypes type).getD [] = children
  nothing : ¬ (∀ child ∈ children, t.Registered child.type) → t'.childTypes type = none
  others : ∀ other, other ≠ type → t'.childTypes other = t.childTypes other

variable {t} {type : StdString} {children : List ChildEntityCreationInfo}

/-! ## The loop -/

theorem validate_eq {v : Walked ChildEntityCreationInfo} {n i : Nat} (h : v.Whole n) (hi : i < n)
    (hlt : i < v.elems.length) :
    t.validate i v = if t.Registered v.elems[i].type then some v else none := by
  have hcleared : v.clear.read i = none := if_neg (Nat.not_lt_zero i)
  rw [validate, Walked.read_of_whole h hi, List.getElem?_eq_getElem hlt, Option.bind_some, hcleared,
    Option.map_none]

/-- A list of registered children is walked over as it is. -/
theorem walk_registered (hall : ∀ child ∈ children, t.Registered child.type) :
    Walked.walk id t.validate children.length 0 (Walked.start children children.length) =
      some (Walked.start children children.length) := by
  have hintact : ∀ (i : Nat) (v : Walked ChildEntityCreationInfo),
      v = Walked.start children children.length → children.length ≤ (id v).intact := by
    intro i v hv
    rw [hv]
    exact Nat.le_refl _
  have hbody : ∀ (i : Nat) (v : Walked ChildEntityCreationInfo), i < children.length →
      v = Walked.start children children.length →
      ∃ v', t.validate i v = some v' ∧ v' = Walked.start children children.length := by
    intro i v hi hv
    refine ⟨_, ?_, rfl⟩
    rw [hv, validate_eq (Walked.whole_start children children.length) hi hi]
    exact if_pos (hall _ (List.getElem_mem hi))
  obtain ⟨v, hwalk, rfl⟩ := Walked.walk_invariant
    (fun _ v => v = Walked.start children children.length) hintact hbody (Nat.zero_add _) rfl
  exact hwalk

/-- The first child without a builder is the end. -/
theorem walk_unregistered {left i : Nat} (hi : i + left = children.length)
    (hsome : ∃ child ∈ children.drop i, ¬ t.Registered child.type) :
    Walked.walk id t.validate left i (Walked.start children children.length) = none := by
  have hwhole := Walked.whole_start children children.length
  induction left generalizing i with
  | zero =>
      obtain ⟨child, hchild, _⟩ := hsome
      rw [List.drop_eq_nil_of_le (by omega)] at hchild
      cases hchild
  | succ left ih =>
      have hlt : i < children.length := by omega
      rw [Walked.walk, validate_eq hwhole hlt hlt]
      by_cases hregistered : t.Registered children[i].type
      · have hgood : i + left + 1 ≤ (Walked.start children children.length).intact := by
          have hintact : (Walked.start children children.length).intact = children.length := rfl
          omega
        have hrest : ∃ child ∈ children.drop (i + 1), ¬ t.Registered child.type := by
          obtain ⟨child, hchild, hnot⟩ := hsome
          rw [List.drop_eq_getElem_cons hlt] at hchild
          rcases List.mem_cons.mp hchild with rfl | hin
          · exact absurd hregistered hnot
          · exact ⟨child, hin, hnot⟩
        exact (congrArg (Option.bind · _) (if_pos hregistered)).trans
          ((if_pos hgood).trans (ih (by omega) hrest))
      · exact congrArg (Option.bind · _) (if_neg hregistered)

theorem registerEntityChildren_eq (hall : ∀ child ∈ children, t.Registered child.type) :
    t.registerEntityChildren type children = some { t with
      childTypes := fun other =>
        if other = type then if children.isEmpty then none else some children
        else t.childTypes other } := by
  rw [registerEntityChildren, walk_registered hall]
  rfl

theorem registerEntityChildren_eq_none
    (hsome : ¬ ∀ child ∈ children, t.Registered child.type) :
    t.registerEntityChildren type children = none := by
  have hchild : ∃ child ∈ children.drop 0, ¬ t.Registered child.type := by
    by_contra hnone
    refine hsome fun child hin => ?_
    by_contra hnot
    exact hnone ⟨child, hin, hnot⟩
  rw [registerEntityChildren, walk_unregistered (Nat.zero_add _) hchild]
  rfl

/-- **When registering children does what it should.** -/
theorem registerEntityChildren_iff (t : Tables) (type : StdString)
    (children : List ChildEntityCreationInfo) :
    (∃ t', t.registerEntityChildren type children = some t' ∧ t.AllOrNothing type children t') ↔
      ∀ child ∈ children, t.Registered child.type := by
  constructor
  · intro h
    obtain ⟨t', ht', _⟩ := h
    by_contra hsome
    rw [registerEntityChildren_eq_none hsome] at ht'
    cases ht'
  · intro hall
    refine ⟨_, registerEntityChildren_eq hall, rfl, fun _ => ?_, fun hsome => absurd hall hsome, ?_⟩
    · refine (congrArg (Option.getD · []) (if_pos rfl)).trans ?_
      cases children with
      | nil => rfl
      | cons child rest => rfl
    · intro other hother
      exact if_neg hother

end Tables

/-- A child of a type that no builder has been registered for. -/
def Sample.unregistered : ChildEntityCreationInfo :=
  { type := Sample.letter 67, name := Sample.letter 66, spawnInfo := Packet.ofHeader {},
    sound := Sample.sound_blank }

namespace Tables

/-- Registering children is not always all or nothing. -/
theorem not_always_allOrNothing : ¬ ∀ (t : Tables) (type : StdString)
    (children : List ChildEntityCreationInfo),
    ∃ t', t.registerEntityChildren type children = some t' ∧ t.AllOrNothing type children t' := by
  intro hall
  have hnone : ¬ ∀ child ∈ [Sample.unregistered], ({} : Tables).Registered child.type := by
    intro hregistered
    exact absurd (hregistered _ List.mem_cons_self) (by decide)
  obtain ⟨t', ht', _⟩ := hall {} (Sample.letter 65) [Sample.unregistered]
  rw [registerEntityChildren_eq_none hnone] at ht'
  cases ht'

end Tables

end EnkiNet
