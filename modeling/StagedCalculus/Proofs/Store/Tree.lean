import Mathlib.Data.Set.Function
import StagedCalculus.Proofs.Store.Canonical
import StagedCalculus.Proofs.Store.Unfolding

/-!
# Unfolded terms

A handle stands for a tree: the shape of its term, with the trees of its subterms. Nominal types
are told apart by their number alone, whatever they are called.

In a canonical store the tree determines the handle (`Store.Canonical.tree_inj`), so comparing
handles compares trees.
-/

namespace StagedCalculus

/-- A term that is unfolded to its leaves. -/
inductive Tree where
  | node (shape : Shape Tree)

namespace Shape

variable {α β : Type}

/-- The shape without the name of the nominal type that it is. -/
def anonymous : Shape α → Shape α
  | .namedType _ id => .namedType "" id
  | shape => shape

theorem anonymous_map (f : α → β) (shape : Shape α) :
    (shape.map f).anonymous = shape.anonymous.map f := by cases shape <;> rfl

theorem children_anonymous (shape : Shape α) : shape.anonymous.children = shape.children := by
  cases shape <;> rfl

/-- Shapes that agree but for names agree, or are nominal types of one number. -/
theorem anonymous_cases {shape shape' : Shape α} (h : shape.anonymous = shape'.anonymous) :
    shape = shape' ∨
      ∃ name name' id, shape = .namedType name id ∧ shape' = .namedType name' id := by
  cases shape <;> cases shape' <;> simp_all [anonymous]

theorem map_id (shape : Shape α) : shape.map id = shape := by
  have hslot : (Slot.map id : Slot α → Slot α) = id := by
    funext slot
    rfl
  cases shape <;> simp [map, hslot]

/-- Replacing subterms by a function that tells them apart loses nothing. -/
theorem map_inj [Nonempty α] {f : α → β} {shape shape' : Shape α}
    (hf : Set.InjOn f {child | child ∈ shape.children ∨ child ∈ shape'.children})
    (h : shape.map f = shape'.map f) : shape = shape' := by
  let g := Function.invFunOn f {child | child ∈ shape.children ∨ child ∈ shape'.children}
  have hleft : ∀ layer : Shape α, (∀ child ∈ layer.children,
      child ∈ shape.children ∨ child ∈ shape'.children) → (layer.map f).map g = layer := by
    intro layer hlayer
    rw [map_map]
    refine (map_congr fun child hchild => ?_).trans (map_id layer)
    exact hf.leftInvOn_invFunOn (hlayer child hchild)
  rw [← hleft shape fun _ => Or.inl, h, hleft shape' fun _ => Or.inr]

end Shape

namespace Store

/-- The unfolded term of a handle. -/
def tree (s : Store) (t : TermId) : Tree :=
  s.fold (.node .typeOfTypes) (fun shape => .node (shape.map (·.2)).anonymous) t

variable {s : Store}

theorem Linked.tree_eq (hs : s.Linked) (t : TermId) :
    s.tree t = .node ((s.shape t).anonymous.map s.tree) := by
  unfold tree
  rw [fold_eq hs, Shape.map_map, Shape.anonymous_map]

/-- Terms that unfold to one tree are one term. -/
theorem Canonical.tree_inj (hs : s.Canonical) (hlinked : s.Linked) :
    Set.InjOn s.tree {t | s.Allocated t} := by
  suffices hbound : ∀ n t u, s.Allocated t → s.Allocated u → t.index < n → u.index < n →
      s.tree t = s.tree u → t = u by
    intro t ht u hu h
    exact hbound (t.index + u.index + 1) t u ht hu (by omega) (by omega) h
  intro n
  induction n with
  | zero => exact fun t u _ _ hlt => absurd hlt (Nat.not_lt_zero _)
  | succ n ih =>
    intro t u ht hu htn hun h
    rw [hlinked.tree_eq, hlinked.tree_eq, Tree.node.injEq] at h
    -- The subterms have smaller handles, so their trees tell them apart.
    have hparts : ∀ child, child ∈ (s.shape t).anonymous.children ∨
        child ∈ (s.shape u).anonymous.children → s.Allocated child ∧ child.index < n := by
      simp only [Shape.children_anonymous]
      rintro child (hchild | hchild)
      · have hlt := hlinked.children t ht child hchild
        exact ⟨hlinked.allocated_children ht hchild, by omega⟩
      · have hlt := hlinked.children u hu child hchild
        exact ⟨hlinked.allocated_children hu hchild, by omega⟩
    have hshapes : (s.shape t).anonymous = (s.shape u).anonymous := by
      have : Nonempty TermId := ⟨t⟩
      refine Shape.map_inj (fun x hx y hy hxy => ?_) h
      exact ih x y (hparts x hx).1 (hparts y hy).1 (hparts x hx).2 (hparts y hy).2 hxy
    refine hs.distinct t u ht hu ?_
    rcases Shape.anonymous_cases hshapes with hsame | ⟨name, name', id, hname, hname'⟩
    · exact hsame
    · rw [hname, hname', hs.named t u name name' id hname hname']

end Store

end StagedCalculus
