import StagedCalculus.Proofs.Store.Hidden
import StagedCalculus.Proofs.Store.Tree
import StagedCalculus.Proofs.Term.Free

/-!
# Substitution

This module replaces the free variables of a term by trees. What a binder binds is not replaced
below it; nothing is renamed, so a tree that is put under a binder may be captured.

* `Store.Linked.subst_eq`: the equation that substitution satisfies at each node;
* `Store.subst_of_free`: a term none of whose free variables is replaced stays as it is.
-/

namespace StagedCalculus

/-- Trees for some of the variables. -/
abbrev Substitution := VarId → Option Tree

namespace Substitution

/-- The substitution below a binder of the variables. -/
def under (σ : Substitution) (vars : List VarId) : Substitution := fun v =>
  if v ∈ vars then none else σ v

theorem under_eq_none {σ : Substitution} {vars : List VarId} {v : VarId}
    (h : v ∉ vars → σ v = none) : σ.under vars v = none := by
  unfold under
  split
  · rfl
  · rename_i hv
    exact h hv

/-- Replaces variables in the values of bindings, each of which scopes over the ones after it. -/
def replaceLets (σ : Substitution) :
    List (VarId × (Substitution → Tree)) → List (VarId × Tree)
  | [] => []
  | (v, t) :: rest => (v, t σ) :: replaceLets (σ.under [v]) rest

/-- Replaces variables in a node, given how they are replaced in its subterms. -/
def replace (σ : Substitution) : Shape (Substitution → Tree) → Tree
  | .variable v => (σ v).getD (.node (.variable v))
  | .abstraction lets params body =>
    let inner := σ.under (lets.map (·.1) ++ params.map (·.1))
    .node (.abstraction (σ.replaceLets lets) (params.map fun e => (e.1, e.2 inner)) (body inner))
  | .forAll vars body => .node (.forAll vars (body (σ.under vars)))
  | shape => .node (shape.anonymous.map fun child => child σ)

end Substitution

namespace Store

open Substitution

/-- The unfolded term with its free variables replaced. -/
def subst (s : Store) (σ : Substitution) (t : TermId) : Tree :=
  s.fold (fun _ => .node .typeOfTypes) (fun shape σ => σ.replace (shape.map (·.2))) t σ

variable {s : Store} {σ : Substitution} {t : TermId}

theorem Linked.subst_eq (hs : s.Linked) (σ : Substitution) (t : TermId) :
    s.subst σ t = σ.replace ((s.shape t).map fun child σ => s.subst σ child) := by
  unfold subst
  rw [fold_eq hs, Shape.map_map]

/-- A node that is no variable and binds none. -/
theorem Linked.subst_node (hs : s.Linked) {shape : Shape TermId} (hshape : s.shape t = shape)
    (hvar : shape.leaf = []) (hscopes : shape.scopes = false) :
    s.subst σ t = .node (shape.anonymous.map (s.subst σ)) := by
  rw [hs.subst_eq, hshape]
  cases shape with
  | «variable» v => cases hvar
  | abstraction lets params body => cases hscopes
  | forAll vars body => cases hscopes
  | _ => simp [replace, Shape.map, Shape.anonymous, Slot.map, Function.comp_def]

/-! ## Terms that stay as they are -/

/-- The free variables of a term of the store, by those of its subterms. -/
theorem Linked.mem_free (hs : s.Linked) (ht : s.Allocated t) {v : VarId} :
    v ∈ (s.freeVariables t).vars ↔ v ∈ ((s.shape t).map s.freeVariables).freeVariables.vars := by
  rw [hs.free t ht]

theorem Linked.mem_free_of_child (hs : s.Linked) {child : TermId} {v : VarId}
    (hscopes : (s.shape t).scopes = false) (hchild : child ∈ (s.shape t).children)
    (hv : v ∈ (s.freeVariables child).vars) : v ∈ (s.freeVariables t).vars := by
  have ht : s.Allocated t := allocated_of_shape fun h => by simp [h, Shape.children] at hchild
  refine (hs.mem_free ht).2 (Shape.mem_vars_freeVariables ?_ ?_ hv)
  · rwa [Shape.scopes_map]
  · rw [Shape.children_map]
    exact List.mem_map_of_mem hchild

/-- Nothing is replaced in values that have no replaced variable free. -/
theorem replaceLets_of_free {lets : List (VarId × TermId)} {inside : FreeVariables}
    (hvalues : ∀ b ∈ lets, ∀ σ : Substitution,
      (∀ v ∈ (s.freeVariables b.2).vars, σ v = none) → s.subst σ b.2 = s.tree b.2)
    (hfree : ∀ v ∈ (FreeVariables.underLets (lets.map fun b => (b.1, s.freeVariables b.2))
      inside).vars, σ v = none) :
    σ.replaceLets (lets.map fun b => (b.1, fun σ => s.subst σ b.2)) =
      lets.map fun b => (b.1, s.tree b.2) := by
  induction lets generalizing σ with
  | nil => rfl
  | cons b rest ih =>
    simp only [List.map_cons, FreeVariables.mem_vars_underLets_cons] at hfree
    have hhead : s.subst σ b.2 = s.tree b.2 :=
      hvalues b (by simp) σ fun v hv => hfree v (Or.inr hv)
    have hrest := ih (σ := σ.under [b.1]) (fun b' hb' => hvalues b' (List.mem_cons_of_mem _ hb'))
      fun v hv => under_eq_none fun hne => hfree v (Or.inl ⟨by simpa using hne, hv⟩)
    simp only [List.map_cons, replaceLets, hhead, hrest]

/-- A term none of whose free variables is replaced stays as it is. -/
theorem subst_of_free (hs : s.Linked) (t : TermId) :
    ∀ σ : Substitution, (∀ v ∈ (s.freeVariables t).vars, σ v = none) → s.subst σ t = s.tree t := by
  induction t using hs.induct with
  | h t ih =>
    intro σ hfree
    have hkeep : ∀ child ∈ (s.shape t).children, ∀ σ : Substitution,
        (∀ v ∈ (s.freeVariables child).vars, σ v = none) → s.subst σ child = s.tree child := ih
    have hnode : ∀ shape, s.shape t = shape → shape.leaf = [] → shape.scopes = false →
        s.subst σ t = .node (shape.anonymous.map s.tree) := by
      rintro shape rfl hvar hscopes
      rw [hs.subst_node rfl hvar hscopes]
      refine congrArg Tree.node (Shape.map_congr fun child hchild => ?_)
      rw [Shape.children_anonymous] at hchild
      exact hkeep child hchild σ fun v hv =>
        hfree v (hs.mem_free_of_child hscopes hchild hv)
    rw [hs.tree_eq]
    by_cases ht : s.Allocated t
    · cases hshape : s.shape t with
      | «variable» v =>
        have hv : v ∈ (s.freeVariables t).vars := by
          simp [hs.mem_free ht, hshape, Shape.map, Shape.freeVariables]
        rw [hs.subst_eq, hshape]
        simp [replace, Shape.map, Shape.anonymous, hfree v hv]
      | abstraction lets params body =>
        rw [hshape] at hkeep
        simp only [hs.mem_free ht, hshape, Shape.map, Shape.freeVariables] at hfree
        simp only [Shape.children, List.mem_append, List.mem_map, List.mem_singleton] at hkeep
        -- Below the binders only variables that are free around them are replaced.
        have hinner : ∀ v, (v ∈ (s.freeVariables body).vars ∨
            ∃ p ∈ params, v ∈ (s.freeVariables p.2).vars) →
            σ.under (lets.map (·.1) ++ params.map (·.1)) v = none := by
          intro v hv
          refine under_eq_none fun hbound => hfree v (FreeVariables.mem_vars_underLets ?_ ?_)
          · simp only [List.mem_append, not_or] at hbound
            rw [FreeVariables.mem_vars_eraseAll, FreeVariables.mem_vars_foldl_unionAsType]
            exact ⟨by simpa using hbound.2, by simpa using hv⟩
          · simp only [List.mem_append, not_or] at hbound
            simpa using hbound.1
        rw [hs.subst_eq, hshape]
        have hlets := replaceLets_of_free (σ := σ)
          (fun b hb => hkeep b.2 (Or.inl (Or.inl ⟨b, hb, rfl⟩))) hfree
        have hbody := hkeep body (Or.inr rfl) _ fun v hv => hinner v (Or.inl hv)
        have hparams : ∀ p ∈ params, s.subst (σ.under (lets.map (·.1) ++ params.map (·.1))) p.2 =
            s.tree p.2 := fun p hp => hkeep p.2 (Or.inl (Or.inr ⟨p, hp, rfl⟩)) _ fun v hv =>
          hinner v (Or.inr ⟨p, hp, hv⟩)
        simp only [replace, Shape.map, Shape.anonymous, List.map_map, Function.comp_def, hlets,
          hbody]
        congr 2
        exact List.map_congr_left fun p hp => by rw [hparams p hp]
      | forAll vars body =>
        rw [hshape] at hkeep
        simp only [hs.mem_free ht, hshape, Shape.map, Shape.freeVariables] at hfree
        have hbody := hkeep body (by simp [Shape.children]) (σ.under vars) fun v hv =>
          under_eq_none fun hbound => hfree v (by simpa using ⟨hbound, hv⟩)
        rw [hs.subst_eq, hshape]
        simp [replace, Shape.map, Shape.anonymous, hbody]
      | _ => exact hnode _ hshape rfl rfl
    · rw [shape_of_not_allocated ht]
      exact hnode _ (shape_of_not_allocated ht) rfl rfl

end Store

end StagedCalculus
