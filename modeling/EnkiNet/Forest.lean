import Mathlib

/-!
# Forests

Ordered forests, as a node followed by the forest below it and the forest beside it, and
the two orders in which a recursion meets the nodes: on the way down (`preorder`) and on
the way up (`postorder`).

A table that lists the children of every entry unfolds to a forest (`Unfolds`).  It
does so in one way only, and it does when no chain of children goes on forever.
-/

inductive Forest (α : Type)
  | nil
  | cons (a : α) (below beside : Forest α)
  deriving DecidableEq, Repr

namespace Forest

variable {α β : Type}

def size : Forest α → Nat
  | nil => 0
  | cons _ below beside => below.size + 1 + beside.size

/-- The number of nodes on a longest way down. -/
def height : Forest α → Nat
  | nil => 0
  | cons _ below beside => max (below.height + 1) beside.height

def roots : Forest α → List α
  | nil => []
  | cons a _ beside => a :: beside.roots

def preorder : Forest α → List α
  | nil => []
  | cons a below beside => a :: (below.preorder ++ beside.preorder)

def postorder : Forest α → List α
  | nil => []
  | cons a below beside => below.postorder ++ a :: beside.postorder

/-- Every node is related to the roots of the forest below it. -/
def Linked (R : α → α → Prop) : Forest α → Prop
  | nil => True
  | cons a below beside => (∀ b ∈ below.roots, R a b) ∧ below.Linked R ∧ beside.Linked R

@[simp] theorem length_preorder (t : Forest α) : t.preorder.length = t.size := by
  induction t with
  | nil => rfl
  | cons a below beside ihbelow ihbeside =>
      simp only [preorder, List.length_cons, List.length_append, ihbelow, ihbeside, size]
      omega

/-- What holds in a forest holds at its first root, below it and beside it. -/
theorem forall_mem_preorder_cons {P : α → Prop} {a : α} {below beside : Forest α} :
    (∀ b ∈ (cons a below beside).preorder, P b) ↔
      P a ∧ (∀ b ∈ below.preorder, P b) ∧ ∀ b ∈ beside.preorder, P b := by
  rw [preorder, List.forall_mem_cons, List.forall_mem_append]

/-- Both orders visit the same nodes. -/
theorem postorder_perm_preorder (t : Forest α) : t.postorder.Perm t.preorder := by
  induction t with
  | nil => exact List.Perm.refl _
  | cons a below beside ihbelow ihbeside =>
      exact List.perm_middle.trans ((ihbelow.append ihbeside).cons a)

@[simp] theorem length_postorder (t : Forest α) : t.postorder.length = t.size := by
  rw [t.postorder_perm_preorder.length_eq, length_preorder]

/-! ## Unfolding a table -/

/-- The forest of these entries, their children, and so on. -/
inductive Unfolds (children : α → List α) : List α → Forest α → Prop
  | nil : Unfolds children [] nil
  | cons {a : α} {as : List α} {below beside : Forest α}
    (hbelow : Unfolds children (children a) below)
      (hbeside : Unfolds children as beside) : Unfolds children (a :: as) (cons a below beside)

variable {children : α → List α}

/-- A forest unfolds from its roots. -/
theorem Unfolds.roots_eq {as : List α} {t : Forest α} (h : Unfolds children as t) :
    t.roots = as := by
  induction h with
  | nil => rfl
  | cons _ _ _ ihbeside => rw [roots, ihbeside]

/-- A list of entries that unfold one by one unfolds. -/
theorem exists_unfolds_of_each {as : List α} (h : ∀ a ∈ as, ∃ t, Unfolds children (children a) t) :
    ∃ t, Unfolds children as t := by
  induction as with
  | nil => exact ⟨nil, .nil⟩
  | cons a as ih =>
      obtain ⟨below, hbelow⟩ := h a List.mem_cons_self
      obtain ⟨beside, hbeside⟩ := ih fun b hb => h b (List.mem_cons_of_mem a hb)
      exact ⟨cons a below beside, .cons hbelow hbeside⟩

/-- **A table without infinite chains unfolds.** -/
theorem exists_unfolds (hwf : WellFounded fun b a => b ∈ children a) (as : List α) :
    ∃ t, Unfolds children as t := by
  have hone : ∀ a, ∃ t, Unfolds children (children a) t := by
    intro a
    induction a using hwf.induction with
    | _ a ih => exact exists_unfolds_of_each ih
  exact exists_unfolds_of_each fun a _ => hone a

/-- What holds of the entries and passes to children holds of every node. -/
theorem Unfolds.forall_mem {P : α → Prop} {as : List α} {t : Forest α}
    (h : Unfolds children as t) (has : ∀ a ∈ as, P a) (hstep : ∀ a, P a → ∀ b ∈ children a, P b) :
    ∀ a ∈ t.preorder, P a := by
  induction h with
  | nil => exact fun a ha => absurd ha List.not_mem_nil
  | @cons a as below beside _ _ ihbelow ihbeside =>
      obtain ⟨ha, hrest⟩ := List.forall_mem_cons.mp has
      exact forall_mem_preorder_cons.mpr ⟨ha, ihbelow (hstep a ha), ihbeside hrest⟩

/-! ## Cycles -/

section
variable {R : α → α → Prop}

/-- An accessible element is not below itself. -/
theorem not_rel_of_acc {a : α} (h : Acc R a) : ¬ R a a := by
  induction h with
  | intro a _ ih => exact fun haa => ih a haa haa

/-- **Where only finitely many nodes have children, nothing but a cycle goes down forever.** -/
theorem acc_iff_of_finite (hfinite : {a | ∃ b, R b a}.Finite) (a : α) :
    Acc R a ↔ ∀ b, Relation.ReflTransGen R b a → ¬ Relation.TransGen R b b := by
  constructor
  · intro h b hb
    have hacc : Acc R b := by
      rcases Relation.reflTransGen_iff_eq_or_transGen.mp hb with rfl | hb
      · exact h
      · exact h.inv_of_transGen hb
    exact not_rel_of_acc hacc.transGen
  · intro hacyclic
    -- the nodes below `a` that have children are finitely many and do not meet again
    let inner : Set α := {b | Relation.ReflTransGen R b a ∧ ∃ c, R c b}
    have : Finite inner := (hfinite.subset fun b hb => hb.2).to_subtype
    let below : inner → inner → Prop := fun b c => Relation.TransGen R b.1 c.1
    have htrans : IsTrans inner below := ⟨fun _ _ _ hbc hcd => hbc.trans hcd⟩
    have hirrefl : Std.Irrefl below := ⟨fun b => hacyclic b.1 b.2.1⟩
    have hwf : WellFounded below := Finite.wellFounded_of_trans_of_irrefl below
    have hleaf : ∀ b, Relation.ReflTransGen R b a → (∀ b' : inner, b'.1 = b → Acc R b) →
        Acc R b := by
      intro b hb hinner
      by_cases hchild : ∃ c, R c b
      · exact hinner ⟨b, hb, hchild⟩ rfl
      · exact ⟨b, fun c hc => absurd ⟨c, hc⟩ hchild⟩
    have hall : ∀ b : inner, Acc R b.1 := by
      intro b
      induction b using hwf.induction with
      | _ b ih =>
          refine ⟨b.1, fun c hc => ?_⟩
          refine hleaf c (b.2.1.head hc) fun c' hc' => ?_
          have hbelow : below c' b := by
            refine Relation.TransGen.single ?_
            rw [hc']
            exact hc
          have hacc := ih c' hbelow
          rwa [hc'] at hacc
    refine hleaf a Relation.ReflTransGen.refl fun a' ha' => ?_
    have hacc := hall a'
    rwa [ha'] at hacc

end

end Forest
