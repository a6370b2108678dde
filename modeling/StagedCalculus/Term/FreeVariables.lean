import StagedCalculus.Term.Shape
import StagedCalculus.Term.VarMap

/-!
# Free variables

This module computes the free variables of a term from those of its subterms, each tagged with
its `Usage`. Binding constructs scope as follows:

- a `let` variable over the later bindings, every parameter type and the body;
- a parameter over every parameter type and the body;
- a quantified variable over the body.
-/

namespace StagedCalculus

/-- The open variables of a term, each with its strongest use. -/
abbrev FreeVariables := VarMap Usage

namespace FreeVariables

/-- Adds one use of a variable. -/
def use (fv : FreeVariables) (v : VarId) (usage : Usage) : FreeVariables :=
  fv.insertWith Usage.merge v usage

def union (fv other : FreeVariables) : FreeVariables :=
  other.toList.foldl (fun acc e => acc.use e.1 e.2) fv

/-- Union in which every incoming use is a use inside a type. -/
def unionAsType (fv other : FreeVariables) : FreeVariables :=
  other.toList.foldl (fun acc e => acc.use e.1 .intoType) fv

def eraseAll (fv : FreeVariables) (vars : List VarId) : FreeVariables :=
  vars.foldl VarMap.erase fv

/-- Closes a set under sequential bindings: the last binding is removed first, and its own value
sees only the bindings before it. -/
def underLets (lets : List (VarId × FreeVariables)) (fv : FreeVariables) : FreeVariables :=
  lets.foldr (fun e acc => union (acc.erase e.1) e.2) fv

end FreeVariables

namespace Shape

open FreeVariables

/-- The free variables of a node, given those of its subterms. -/
def freeVariables : Shape FreeVariables → FreeVariables
  | .variable v => use ∅ v .intoValue
  | .abstraction lets params body =>
    let inside := params.foldl (fun acc e => unionAsType acc e.2) (union ∅ body)
    underLets lets (eraseAll inside (params.map (·.1)))
  | .forAll vars body => eraseAll (union ∅ body) vars
  | .application callee args => args.foldl union (union ∅ callee)
  | .projection domain _ => union ∅ domain
  | .cast subject target => unionAsType (union ∅ subject) target
  | .unitValue ty => unionAsType ∅ ty
  | .deferred ty _ => unionAsType ∅ ty
  | .productValue ty fields => fields.foldl (fun acc e => union acc e.2) (unionAsType ∅ ty)
  | .functionType params result =>
    unionAsType (params.foldl (fun acc slot => unionAsType acc slot.ty) ∅) result
  | .productType members => members.foldl (fun acc e => unionAsType acc e.2) ∅
  | _ => ∅

end Shape

end StagedCalculus
