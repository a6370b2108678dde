import StagedCalculus.Proofs.Store.Unfolding

/-!
# Calls hidden in values

`Store.isValue` looks at the outside of a term and at the fields of products. Evaluation looks
further: into the annotation of a unit or product value, the positions of a function type, the
members of a product type, and the bindings of a function. This module defines

* `Store.holdsCall`: whether evaluating a term comes to a call;
* `Store.smuggles`: whether a cast or projection has operands that all pass as values although one
  of them holds a call;
* `Store.smugglers`: the casts and projections of a store that do.
-/

namespace StagedCalculus

namespace Shape

variable {α β : Type}

def isCall : Shape α → Bool
  | .application _ _ => true
  | _ => false

/-- The subterms that are evaluated with a term. The body and the parameter types of a function, and
what stands under a quantifier, are compiled instead. -/
def evaluated : Shape α → List α
  | .abstraction lets [] body => lets.map (·.2) ++ [body]
  | .abstraction lets _ _ => lets.map (·.2)
  | .projection domain _ => [domain]
  | .cast subject target => [subject, target]
  | .unitValue ty => [ty]
  | .productValue ty fields => ty :: fields.map (·.2)
  | .functionType params result => params.map (·.ty) ++ [result]
  | .productType members => members.map (·.2)
  | _ => []

theorem isCall_map (f : α → β) (shape : Shape α) : (shape.map f).isCall = shape.isCall := by
  cases shape <;> rfl

theorem evaluated_map (f : α → β) (shape : Shape α) :
    (shape.map f).evaluated = shape.evaluated.map f := by
  cases shape
  case abstraction lets params body =>
    cases params <;> simp [Shape.map, evaluated]
  all_goals simp [Shape.map, Slot.map, evaluated]

end Shape

namespace Store

variable {s : Store} {t : TermId} {mode : Mode}

/-- Whether evaluating a term comes to a call. -/
def holdsCall (s : Store) (t : TermId) : Bool :=
  s.fold false (fun shape => shape.isCall || shape.evaluated.any (·.2)) t

theorem holdsCall_eq (hs : s.Linked) (t : TermId) :
    s.holdsCall t = ((s.shape t).isCall || (s.shape t).evaluated.any s.holdsCall) := by
  unfold holdsCall
  rw [fold_eq hs, Shape.isCall_map, Shape.evaluated_map, List.any_map]
  rfl

/-- A cast or projection whose operands all pass as values although one of them holds a call. -/
def smuggles (s : Store) (t : TermId) : Bool :=
  (s.shape t).isOperation && (s.shape t).children.all s.isValue && s.holdsCall t

/-- The casts and projections of the store that smuggle a call. -/
def smugglers (s : Store) : List TermId :=
  ((List.range s.entries.size).map TermId.mk).filter s.smuggles

theorem smuggles_eq_false (h : s.smugglers = []) (t : TermId) : s.smuggles t = false := by
  by_cases ht : s.Allocated t
  · have hmem : t ∈ (List.range s.entries.size).map TermId.mk :=
      List.mem_map.2 ⟨t.index, List.mem_range.2 ht, rfl⟩
    have hnot := List.filter_eq_nil_iff.1 h t hmem
    simpa using hnot
  · simp [smuggles, shape_of_not_allocated ht, Shape.isOperation]

/-- An operation on values of a store without smugglers holds no call. -/
theorem holdsCall_operation (h : s.smugglers = [])
    (hop : (s.shape t).isOperation = true)
    (hvalues : ∀ child ∈ (s.shape t).children, s.isValue child) :
    s.holdsCall t = false := by
  have hnot := smuggles_eq_false h t
  have hall : (s.shape t).children.all s.isValue = true := List.all_eq_true.2 hvalues
  simpa [smuggles, hop, hall] using hnot

/-- Reducing a term in this mode makes no call of its own: either calls stay residual, or there is
no call to come to. -/
def Calm (s : Store) (mode : Mode) (t : TermId) : Prop :=
  mode = .compile ∨ s.holdsCall t = false

theorem Calm.evaluated (h : s.Calm mode t) (hs : s.Linked) {child : TermId}
    (hchild : child ∈ (s.shape t).evaluated) : s.Calm mode child := by
  rcases h with hmode | hcall
  · exact Or.inl hmode
  · rw [holdsCall_eq hs, Bool.or_eq_false_iff, List.any_eq_false] at hcall
    exact Or.inr (by simpa using hcall.2 child hchild)

theorem Calm.compile_of_isCall (h : s.Calm mode t) (hs : s.Linked)
    (hcall : (s.shape t).isCall = true) : mode = .compile := by
  rcases h with hmode | hnone
  · exact hmode
  · rw [holdsCall_eq hs, hcall] at hnone
    simp at hnone

/-- Nothing in the store makes a call while it only seems to compute a type or a residual term: its
natives are discreet, and no operation smuggles. -/
structure Honest (s : Store) : Prop where
  natives : ∀ id registered, s.native? id = some registered → registered.native.Discreet
  smugglers : s.smugglers = []

end Store

end StagedCalculus
