import StagedCalculus.Proofs.Term.Occurrence

/-!
# Which variables are free

This module tells which variables the operations on sets of free variables contain. Together these
facts say which variables are free in a node: those that are free in some part of it, and not bound
where that part stands.
-/

namespace StagedCalculus

namespace FreeVariables

variable {fv other : FreeVariables} {v w : VarId}

/-- A variable is in the set if it is used at all. -/
theorem mem_vars_iff : v ∈ fv.vars ↔ 1 ≤ fv.rank v := by
  rw [VarMap.mem_vars, rank]
  rcases fv.get? v with _ | (_ | _) <;> decide

/-- A set is empty if no variable is used at all. -/
theorem isEmpty_iff_rank : fv.isEmpty = true ↔ ∀ v, fv.rank v = 0 := by
  have hvars : fv.isEmpty = true ↔ ∀ v, v ∉ fv.vars := by
    rw [VarMap.isEmpty, List.isEmpty_iff, ← List.map_eq_nil_iff, List.eq_nil_iff_forall_not_mem]
    rfl
  rw [hvars]
  refine forall_congr' fun v => ?_
  rw [mem_vars_iff]
  omega

@[simp]
theorem not_mem_vars_empty (v : VarId) : v ∉ VarMap.vars (∅ : FreeVariables) := List.not_mem_nil

@[simp]
theorem mem_vars_erase : w ∈ VarMap.vars (fv.erase v) ↔ w ≠ v ∧ w ∈ fv.vars := by
  rw [mem_vars_iff, mem_vars_iff, le_rank_erase Nat.one_pos]

@[simp]
theorem mem_vars_use (usage : Usage) : w ∈ (fv.use v usage).vars ↔ w = v ∨ w ∈ fv.vars := by
  rw [VarMap.mem_vars, VarMap.mem_vars, use, VarMap.get?_insertWith]
  by_cases hw : w = v <;> simp [hw]

@[simp]
theorem mem_vars_union : v ∈ (fv.union other).vars ↔ v ∈ fv.vars ∨ v ∈ other.vars := by
  simp only [mem_vars_iff, le_rank_union]

@[simp]
theorem mem_vars_eraseAll {vars : List VarId} :
    v ∈ (fv.eraseAll vars).vars ↔ v ∉ vars ∧ v ∈ fv.vars := by
  simp only [mem_vars_iff, le_rank_eraseAll Nat.one_pos]

@[simp]
theorem mem_vars_foldl_unionAsType {γ : Type} {parts : List γ} (f : γ → FreeVariables) :
    v ∈ (parts.foldl (fun acc part => acc.unionAsType (f part)) fv).vars ↔
      v ∈ fv.vars ∨ ∃ part ∈ parts, v ∈ (f part).vars := by
  simp only [mem_vars_iff, le_rank_foldl_unionAsType f (Nat.le_succ 1)]

@[simp]
theorem underLets_nil (fv : FreeVariables) : underLets [] fv = fv := rfl

/-- The first binding scopes over the others. -/
@[simp]
theorem mem_vars_underLets_cons {b : VarId × FreeVariables} {lets : List (VarId × FreeVariables)} :
    v ∈ (underLets (b :: lets) fv).vars ↔
      v ≠ b.1 ∧ v ∈ (underLets lets fv).vars ∨ v ∈ b.2.vars := by
  change v ∈ (union ((underLets lets fv).erase b.1) b.2).vars ↔ _
  rw [mem_vars_union, mem_vars_erase]

/-- What is free under some bindings and bound by none of them is free around them. -/
theorem mem_vars_underLets {lets : List (VarId × FreeVariables)} (hv : v ∈ fv.vars)
    (hlets : v ∉ lets.map (·.1)) : v ∈ (underLets lets fv).vars := by
  rw [mem_vars_iff] at hv ⊢
  exact (Shape.le_rank_underLets Nat.one_pos).2 (Or.inl ⟨hlets, hv⟩)

end FreeVariables

namespace Shape

open FreeVariables

/-- Whether the node binds variables in its parts. -/
def scopes {α : Type} : Shape α → Bool
  | .abstraction _ _ _ | .forAll _ _ => true
  | _ => false

theorem scopes_map {α β : Type} (f : α → β) (shape : Shape α) :
    (shape.map f).scopes = shape.scopes := by cases shape <;> rfl

theorem parts_of_scopes_eq_false {α : Type} {shape : Shape α} (h : shape.scopes = false) :
    shape.parts = shape.typeParts.map (fun ty => ⟨[], true, ty⟩) ++
      shape.valueParts.map fun value => ⟨[], false, value⟩ := by
  cases shape with
  | abstraction lets params body => cases h
  | forAll vars body => cases h
  | _ => rfl

/-- In a node that binds nothing, whatever is free in a subterm is free in the node. -/
theorem mem_vars_freeVariables {shape : Shape FreeVariables} (hshape : shape.scopes = false)
    {child : FreeVariables} (hchild : child ∈ shape.children) {v : VarId} (hv : v ∈ child.vars) :
    v ∈ shape.freeVariables.vars := by
  rw [mem_vars_iff] at hv ⊢
  rw [le_rank_freeVariables Nat.one_pos (by decide), parts_of_scopes_eq_false hshape]
  rcases mem_children.1 hchild with htype | hvalue
  · exact Or.inr ⟨_, List.mem_append_left _ (List.mem_map_of_mem htype), List.not_mem_nil, hv⟩
  · exact Or.inr ⟨_, List.mem_append_right _ (List.mem_map_of_mem hvalue), List.not_mem_nil, hv⟩

/-- What is free in a subterm is free in the node or bound by it. -/
theorem free_or_bound {shape : Shape FreeVariables} {child : FreeVariables} {v : VarId}
    (hchild : child ∈ shape.children) (hv : v ∈ child.vars) :
    v ∈ shape.freeVariables.vars ∨ v ∈ shape.binders := by
  by_contra hneither
  obtain ⟨hfree, hbinder⟩ := not_or.1 hneither
  obtain ⟨part, hpart, rfl, hbound⟩ := exists_part hchild
  refine hfree ?_
  rw [mem_vars_iff] at hv ⊢
  rw [le_rank_freeVariables Nat.one_pos (by decide)]
  exact Or.inr ⟨part, hpart, fun hmem => hbinder (hbound v hmem), by split <;> simp [hv]⟩

end Shape

end StagedCalculus
