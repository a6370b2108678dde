import StagedCalculus.Proofs.Staging.Session

/-!
# Free occurrences

A store keeps the free variables of each term, computed from those of its subterms when the term
enters. What they should be is said of the unfolded term alone: a variable occurs free in a tree if
a path leads to it that crosses no binder of it (`Tree.FreeAt`), and it is used inside a type if one
of these paths enters a type.

Both agree in every store that a session reaches (`Session.freeVariables_exact`).
-/

namespace StagedCalculus

namespace Tree

variable {v : VarId} {shape : Shape Tree}

/-- The path, given by the subterms that it enters one after the other, leads to a variable and
crosses no binder of it. -/
def FreeAt (v : VarId) : List (Part Tree) → Tree → Prop
  | [], .node shape => shape = .variable v
  | part :: path, .node shape =>
    part ∈ shape.parts ∧ v ∉ part.bound ∧ FreeAt v path part.term

/-- The variable has a free occurrence. -/
def Free (v : VarId) (tree : Tree) : Prop := ∃ path, FreeAt v path tree

/-- The variable has a free occurrence inside a type. -/
def FreeInType (v : VarId) (tree : Tree) : Prop :=
  ∃ path, FreeAt v path tree ∧ ∃ part ∈ path, part.isType = true

theorem free_node :
    (node shape).Free v ↔
      shape = .variable v ∨ ∃ part ∈ shape.parts, v ∉ part.bound ∧ part.term.Free v := by
  constructor
  · rintro ⟨path, hpath⟩
    cases path with
    | nil => exact Or.inl hpath
    | cons part path =>
      obtain ⟨hpart, hbound, hrest⟩ := hpath
      exact Or.inr ⟨part, hpart, hbound, path, hrest⟩
  · rintro (hshape | ⟨part, hpart, hbound, path, hpath⟩)
    · exact ⟨[], hshape⟩
    · exact ⟨part :: path, hpart, hbound, hpath⟩

/-- An occurrence is inside a type from the first type on that its path enters. -/
theorem freeInType_node :
    (node shape).FreeInType v ↔ ∃ part ∈ shape.parts, v ∉ part.bound ∧
      (part.isType = true ∧ part.term.Free v ∨ part.term.FreeInType v) := by
  constructor
  · rintro ⟨path, hpath, entered, hentered, htype⟩
    cases path with
    | nil => cases hentered
    | cons part path =>
      obtain ⟨hpart, hbound, hrest⟩ := hpath
      refine ⟨part, hpart, hbound, ?_⟩
      rcases List.mem_cons.1 hentered with rfl | hentered
      · exact Or.inl ⟨htype, path, hrest⟩
      · exact Or.inr ⟨path, hrest, entered, hentered, htype⟩
  · rintro ⟨part, hpart, hbound, ⟨htype, path, hpath⟩ | ⟨path, hpath, entered, hentered, htype⟩⟩
    · exact ⟨part :: path, ⟨hpart, hbound, hpath⟩, part, List.mem_cons_self, htype⟩
    · exact ⟨part :: path, ⟨hpart, hbound, hpath⟩, entered, List.mem_cons_of_mem part hentered, htype⟩

theorem FreeInType.free {tree : Tree} (h : tree.FreeInType v) : tree.Free v :=
  h.imp fun _ hpath => hpath.1

end Tree

namespace Shape

theorem parts_anonymous {α : Type} (shape : Shape α) : shape.anonymous.parts = shape.parts := by
  cases shape <;> rfl

theorem anonymous_eq_variable {α : Type} {shape : Shape α} {v : VarId} :
    shape.anonymous = .variable v ↔ shape = .variable v := by
  cases shape <;> simp [anonymous]

theorem map_eq_variable {α β : Type} {f : α → β} {shape : Shape α} {v : VarId} :
    shape.map f = .variable v ↔ shape = .variable v := by
  cases shape <;> simp [map]

end Shape

namespace Store

variable {s : Store} {t : TermId}

/-! ## One layer of a term -/

/-- A term uses a variable as strongly as its parts do. -/
theorem Linked.le_rank_freeVariables (hs : s.Linked) (ht : s.Allocated t) {v : VarId} {n : Nat}
    (hn : 0 < n) (hn2 : n ≤ 2) :
    n ≤ (s.freeVariables t).rank v ↔ (n = 1 ∧ s.shape t = .variable v) ∨
      ∃ part ∈ (s.shape t).parts, v ∉ part.bound ∧
        (if part.isType then 1 else n) ≤ (s.freeVariables part.term).rank v := by
  rw [hs.free t ht, Shape.le_rank_freeVariables hn hn2, Shape.map_eq_variable, Shape.parts_map]
  simp only [List.mem_map, exists_exists_and_eq_and]
  rfl

/-- The first layer of the unfolded term. -/
theorem exists_mem_parts_tree (t : TermId) {p : Part Tree → Prop} :
    (∃ part ∈ ((s.shape t).anonymous.map s.tree).parts, p part) ↔
      ∃ part ∈ (s.shape t).parts, p (part.map s.tree) := by
  rw [Shape.parts_map, Shape.parts_anonymous]
  simp only [List.mem_map, exists_exists_and_eq_and]

/-! ## Whole terms -/

/-- The stored free variables of a term are those that occur free in it, and they are used inside a
type exactly if a free occurrence is. -/
theorem Linked.rank_iff_free (hs : s.Linked) (v : VarId) (t : TermId) (ht : s.Allocated t) :
    (1 ≤ (s.freeVariables t).rank v ↔ (s.tree t).Free v) ∧
      (2 ≤ (s.freeVariables t).rank v ↔ (s.tree t).FreeInType v) := by
  -- Both go together: a free occurrence in a type is one inside a type, however the type uses it.
  induction t using hs.induct with
  | h t ih =>
    have hparts : ∀ part ∈ (s.shape t).parts,
        (1 ≤ (s.freeVariables part.term).rank v ↔ (s.tree part.term).Free v) ∧
          (2 ≤ (s.freeVariables part.term).rank v ↔ (s.tree part.term).FreeInType v) := by
      intro part hpart
      have hchild := Shape.term_mem_children hpart
      exact ih part.term hchild (hs.allocated_children ht hchild)
    rw [hs.tree_eq t, Tree.free_node, Tree.freeInType_node, Shape.map_eq_variable,
      Shape.anonymous_eq_variable, exists_mem_parts_tree, exists_mem_parts_tree]
    constructor
    · rw [hs.le_rank_freeVariables ht Nat.one_pos (by decide)]
      refine or_congr (by simp) (exists_congr fun part => and_congr_right fun hpart => ?_)
      rw [ite_self, (hparts part hpart).1]
      rfl
    · rw [hs.le_rank_freeVariables ht Nat.two_pos (Nat.le_refl 2), or_iff_right (by simp)]
      refine exists_congr fun part => and_congr_right fun hpart => and_congr_right fun _ => ?_
      obtain ⟨hfree, htype⟩ := hparts part hpart
      by_cases hisType : part.isType = true
      · rw [if_pos hisType, hfree]
        exact ⟨fun h => Or.inl ⟨hisType, h⟩, fun h => h.elim (·.2) Tree.FreeInType.free⟩
      · rw [if_neg hisType, htype]
        exact (or_iff_right fun h => hisType h.1).symm

/-! ## In every session -/

/-- Whatever a session did before: the free variables that the store keeps of a term are exactly
those that occur free in the unfolded term, and one is used inside a type exactly if it has a free
occurrence inside a type. -/
theorem Session.freeVariables_exact {config : Config} (hs : Session (initial config) s)
    (ht : s.Allocated t) (v : VarId) :
    ((s.freeVariables t).contains v = true ↔ (s.tree t).Free v) ∧
      ((s.freeVariables t).get? v = some .intoType ↔ (s.tree t).FreeInType v) ∧
      ((s.freeVariables t).get? v = some .intoValue ↔
        (s.tree t).Free v ∧ ¬ (s.tree t).FreeInType v) := by
  have hlinked : s.Linked := (hs.retains (intact_initial config)).1.toLinked
  obtain ⟨hfree, htype⟩ := hlinked.rank_iff_free v t ht
  rw [← hfree, ← htype, VarMap.contains_eq, FreeVariables.rank]
  rcases (s.freeVariables t).get? v with _ | (_ | _) <;> decide

end Store

namespace Sample

open Build

/-- The block `let a = b{}; let b = c; b(a)`, with its three variables. -/
def reboundBlock : Build (TermId × VarId × VarId × VarId) := do
  let a ← freshVariable false (some "a")
  let b ← freshVariable false (some "b")
  let c ← freshVariable false (some "c")
  let aTerm ← variableTerm a
  let bTerm ← variableTerm b
  let cTerm ← variableTerm c
  let unit ← unitValue bTerm
  let body ← apply bTerm [aTerm]
  return (← letIn [(a, unit), (b, cTerm)] body, a, b, c)

seal Store.intern Store.initial in
/-- The block in a new store. -/
def rebound : Store.Setup (TermId × VarId × VarId × VarId) := reboundBlock.setup <| by
  repeat' apply Store.Built.add
  · exact fun _ : True => .freshVariable _ _ (.freshVariable _ _ (.freshVariable _ _ (.initial {})))
  · decide +kernel

end Sample

namespace Store

open Sample

/-- The second binding of the block removes `b` from what the body uses, and the value of the first
one adds it again, as a type. -/
theorem freeVariables_exact_rebound :
    ∃ config s t a b c, Session (initial config) s ∧ s.Allocated t ∧
      s.display t = "\x7blet a = b\x7b\x7d; let b = c; b(a)\x7d" ∧
      [a, b, c].map s.variableName = ["a", "b", "c"] ∧ ¬ (s.tree t).Free a ∧
      (s.tree t).FreeInType b ∧ (s.tree t).Free c ∧ ¬ (s.tree t).FreeInType c := by
  have hsession := rebound.built.session
  have hchecks : ∃ t a b c, rebound.store.Allocated t ∧
      rebound.store.display t = "\x7blet a = b\x7b\x7d; let b = c; b(a)\x7d" ∧
      [a, b, c].map rebound.store.variableName = ["a", "b", "c"] ∧
      (rebound.store.freeVariables t).contains a = false ∧
      (rebound.store.freeVariables t).get? b = some .intoType ∧
      (rebound.store.freeVariables t).get? c = some .intoValue :=
    ⟨rebound.value.1, rebound.value.2.1, rebound.value.2.2.1, rebound.value.2.2.2,
      by decide +kernel⟩
  generalize rebound.store = s at hsession hchecks
  obtain ⟨config, hs⟩ := hsession
  obtain ⟨t, a, b, c, ht, htext, hnames, ha, hb, hc⟩ := hchecks
  refine ⟨config, s, t, a, b, c, hs, ht, htext, hnames, fun hfree => ?_, ?_, ?_⟩
  · rw [(hs.freeVariables_exact ht a).1.2 hfree] at ha
    cases ha
  · exact (hs.freeVariables_exact ht b).2.1.1 hb
  · exact (hs.freeVariables_exact ht c).2.2.1 hc

end Store

end StagedCalculus
