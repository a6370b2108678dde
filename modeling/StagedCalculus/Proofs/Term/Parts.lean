import StagedCalculus.Term.FreeVariables

/-!
# Parts of a term

A subterm stands in a type position or in a value position of its node. This module separates the
two, and the variables that a node mentions itself from those it binds. How strongly a variable is
used is a number (`FreeVariables.rank`), so that uses can be compared.
-/

namespace StagedCalculus

namespace Shape

variable {α β : Type}

/-! ## Variables of a node -/

/-- The variable that the node is, if it is one. -/
def leaf : Shape α → List VarId
  | .variable v => [v]
  | _ => []

/-- The variables that the node introduces. -/
def binders : Shape α → List VarId
  | .abstraction lets params _ => lets.map (·.1) ++ params.map (·.1)
  | .forAll vars _ => vars
  | .functionType params _ => params.filterMap (·.binds)
  | _ => []

/-- The variables that the node itself mentions. -/
def ownVars (shape : Shape α) : List VarId := shape.leaf ++ shape.binders

theorem mem_ownVars_functionType {params : List (Slot α)} {result : α} {v : VarId} :
    v ∈ (functionType params result).ownVars ↔ ∃ slot ∈ params, slot.binds = some v := by
  simp [ownVars, leaf, binders]

/-! ## Type and value positions -/

/-- The subterms that are types wherever the node stands. -/
def typeParts : Shape α → List α
  | .abstraction _ params _ => params.map (·.2)
  | .cast _ target => [target]
  | .unitValue ty | .productValue ty _ | .deferred ty _ => [ty]
  | .functionType params result => params.map (·.ty) ++ [result]
  | .productType members => members.map (·.2)
  | _ => []

/-- The other subterms. -/
def valueParts : Shape α → List α
  | .abstraction lets _ body => lets.map (·.2) ++ [body]
  | .forAll _ body => [body]
  | .application callee args => callee :: args
  | .projection domain _ => [domain]
  | .cast subject _ => [subject]
  | .productValue _ fields => fields.map (·.2)
  | _ => []

theorem mem_children {shape : Shape α} {child : α} :
    child ∈ shape.children ↔ child ∈ shape.typeParts ∨ child ∈ shape.valueParts := by
  cases shape <;> simp [children, typeParts, valueParts] <;> grind

theorem map_congr {f g : α → β} {shape : Shape α}
    (h : ∀ child ∈ shape.children, f child = g child) : shape.map f = shape.map g := by
  cases shape <;> simp [Shape.map, Shape.children, Slot.map] at h ⊢ <;> grind

theorem leaf_map (f : α → β) (shape : Shape α) : (shape.map f).leaf = shape.leaf := by
  cases shape <;> rfl

theorem binders_map (f : α → β) (shape : Shape α) : (shape.map f).binders = shape.binders := by
  cases shape <;> simp [map, binders, Slot.map, Function.comp_def, List.filterMap_map]

theorem ownVars_map (f : α → β) (shape : Shape α) :
    (shape.map f).ownVars = shape.ownVars := by
  rw [ownVars, ownVars, leaf_map, binders_map]

theorem children_map (f : α → β) (shape : Shape α) :
    (shape.map f).children = shape.children.map f := by
  cases shape <;> simp [map, children, Slot.map, Function.comp_def]

theorem typeParts_map (f : α → β) (shape : Shape α) :
    (shape.map f).typeParts = shape.typeParts.map f := by
  cases shape <;> simp [map, typeParts, Slot.map]

theorem valueParts_map (f : α → β) (shape : Shape α) :
    (shape.map f).valueParts = shape.valueParts.map f := by
  cases shape <;> simp [map, valueParts]

end Shape

/-! ## Uses of a variable -/

namespace FreeVariables

variable {fv other : FreeVariables} {v w : VarId} {n : Nat}

/-- How strongly a variable is used: not at all, as a value, or inside a type. -/
def rank (fv : FreeVariables) (v : VarId) : Nat :=
  match fv.get? v with
  | none => 0
  | some .intoValue => 1
  | some .intoType => 2

@[simp]
theorem rank_empty (v : VarId) : rank ∅ v = 0 := rfl

theorem rank_of_get? {usage : Usage} (h : fv.get? v = some usage) :
    fv.rank v = if usage = .intoType then 2 else 1 := by
  cases usage <;> simp [rank, h]

theorem rank_use_of_ne (h : v ≠ w) (usage : Usage) : (fv.use w usage).rank v = fv.rank v := by
  rw [rank, rank, use, VarMap.get?_insertWith, if_neg h]

theorem rank_use_self (fv : FreeVariables) (v : VarId) (usage : Usage) :
    (fv.use v usage).rank v = max (fv.rank v) (if usage = .intoType then 2 else 1) := by
  rw [rank, rank, use, VarMap.get?_insertWith, if_pos rfl]
  rcases fv.get? v with _ | (_ | _) <;> cases usage <;> simp [Usage.merge]

end FreeVariables

end StagedCalculus
