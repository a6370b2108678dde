import StagedCalculus.Term.Basic

/-!
# Term shapes

A term is one of a closed set of shapes. `Shape α` is one layer of a term whose direct subterms
are values of `α`, so the same type serves three purposes:

- `Shape TermId` is what a store keeps, the subterms being canonical handles;
- `Shape β` with `β` a result is what a bottom-up computation sees at one node;
- the fixed point of `Shape` is the fully unfolded term.
-/

namespace StagedCalculus

/-- A parameter position of a function type. The variable in `binds` is the quantified variable
that this position supplies to later positions or to the result. -/
structure Slot (α : Type) where
  ty : α
  comptime : Bool
  binds : Option VarId
  deriving DecidableEq

/-- One layer of a term. -/
inductive Shape (α : Type) where
  | variable (var : VarId)
  /-- Bindings are read in order, each seeing the earlier ones. Without parameters this is a
  pending block and not a function. -/
  | abstraction (lets : List (VarId × α)) (params : List (VarId × α)) (body : α)
  | forAll (vars : List VarId) (body : α)
  | application (callee : α) (args : List α)
  | projection (domain : α) (field : String)
  | cast (subject target : α)
  | stringLiteral (value : String)
  | numericLiteral (value : Rat)
  | unitValue (ty : α)
  | productValue (ty : α) (fields : List (String × α))
  /-- Placeholder for a value of type `ty` that is not known yet. -/
  | deferred (ty : α) (availability : Availability)
  | native (id : NativeId)
  /-- The type of types, which is its own type. -/
  | typeOfTypes
  | unitType
  | bottomType
  | topType
  | functionType (params : List (Slot α)) (result : α)
  | productType (members : List (String × α))
  | stringLiteralType (value : String)
  | numericLiteralType (value : Rat)
  /-- Nominal type, equal only to itself. -/
  | namedType (name : String) (id : Nat)
  deriving DecidableEq

namespace Slot

variable {α β : Type}

def map (f : α → β) (slot : Slot α) : Slot β :=
  ⟨f slot.ty, slot.comptime, slot.binds⟩

end Slot

namespace Shape

variable {α β : Type}

/-! ## Subterms -/

/-- Replaces every direct subterm. -/
def map (f : α → β) : Shape α → Shape β
  | .variable v => .variable v
  | .abstraction lets params body =>
    .abstraction (lets.map fun e => (e.1, f e.2)) (params.map fun e => (e.1, f e.2)) (f body)
  | .forAll vars body => .forAll vars (f body)
  | .application callee args => .application (f callee) (args.map f)
  | .projection domain field => .projection (f domain) field
  | .cast subject target => .cast (f subject) (f target)
  | .stringLiteral s => .stringLiteral s
  | .numericLiteral q => .numericLiteral q
  | .unitValue ty => .unitValue (f ty)
  | .productValue ty fields => .productValue (f ty) (fields.map fun e => (e.1, f e.2))
  | .deferred ty availability => .deferred (f ty) availability
  | .native id => .native id
  | .typeOfTypes => .typeOfTypes
  | .unitType => .unitType
  | .bottomType => .bottomType
  | .topType => .topType
  | .functionType params result => .functionType (params.map (Slot.map f)) (f result)
  | .productType members => .productType (members.map fun e => (e.1, f e.2))
  | .stringLiteralType s => .stringLiteralType s
  | .numericLiteralType q => .numericLiteralType q
  | .namedType name id => .namedType name id

/-- The direct subterms, from left to right. -/
def children : Shape α → List α
  | .abstraction lets params body => lets.map (·.2) ++ params.map (·.2) ++ [body]
  | .forAll _ body => [body]
  | .application callee args => callee :: args
  | .projection domain _ => [domain]
  | .cast subject target => [subject, target]
  | .unitValue ty => [ty]
  | .productValue ty fields => ty :: fields.map (·.2)
  | .deferred ty _ => [ty]
  | .functionType params result => params.map (·.ty) ++ [result]
  | .productType members => members.map (·.2)
  | _ => []

/-! ## Classification -/

/-- The name of the shape itself. -/
def kindName : Shape α → String
  | .variable _ => "Variable"
  | .abstraction _ _ _ => "Abstraction"
  | .forAll _ _ => "ForAll"
  | .application _ _ => "Application"
  | .projection _ _ => "Projection"
  | .cast _ _ => "Cast"
  | .stringLiteral _ => "StringLiteral"
  | .numericLiteral _ => "NumericLiteral"
  | .unitValue _ => "UnitValue"
  | .productValue _ _ => "ProductValue"
  | .deferred _ _ => "Deferred"
  | .native _ => "Native"
  | .typeOfTypes => "TypeOfTypes"
  | .unitType => "UnitType"
  | .bottomType => "BottomType"
  | .topType => "TopType"
  | .functionType _ _ => "FunctionType"
  | .productType _ => "ProductType"
  | .stringLiteralType _ => "StringLiteralType"
  | .numericLiteralType _ => "NumericLiteralType"
  | .namedType _ _ => "NamedType"

/-- Shapes whose type is the type of types. -/
def isTypeFormer : Shape α → Bool
  | .typeOfTypes | .unitType | .bottomType | .topType | .functionType _ _ | .productType _
  | .stringLiteralType _ | .numericLiteralType _ | .namedType _ _ => true
  | _ => false

def isDeferred : Shape α → Bool
  | .deferred _ _ => true
  | _ => false

/-- Whether work is left at this node, given whether it is left in each subterm: a call, a
projection, a cast or a block at the top, or inside a field of a product. -/
def pending : Shape Bool → Bool
  | .application _ _ | .projection _ _ | .cast _ _ => true
  | .abstraction _ params _ => params.isEmpty
  | .productValue _ fields => fields.any (·.2)
  | _ => false

/-! ## Fingerprints -/

/-- The numbers that a fingerprint is made of: the kind of shape, then its contents. A text is
represented by its length alone. -/
def digest : Shape TermId → List Nat
  | .variable v => [0, v.index]
  | .abstraction lets params body =>
    1 :: body.index :: lets.length :: (lets ++ params).flatMap fun e => [e.1.index, e.2.index]
  | .forAll vars body => 2 :: body.index :: vars.map (·.index)
  | .application callee args => 3 :: callee.index :: args.map (·.index)
  | .projection domain field => [4, domain.index, field.utf8ByteSize]
  | .cast subject target => [5, subject.index, target.index]
  | .stringLiteral s => [6, s.utf8ByteSize]
  | .numericLiteral q => [7, q.num.natAbs, q.den]
  | .unitValue ty => [8, ty.index]
  | .productValue ty fields => 9 :: ty.index :: fields.map (·.2.index)
  | .deferred ty _ => [10, ty.index]
  | .native id => [11, id.index]
  | .typeOfTypes => [12]
  | .unitType => [13]
  | .bottomType => [14]
  | .topType => [15]
  | .functionType params result => 16 :: result.index :: params.map (·.ty.index)
  | .productType members => 17 :: members.map (·.2.index)
  | .stringLiteralType s => [18, s.utf8ByteSize]
  | .numericLiteralType q => [19, q.num.natAbs, q.den]
  | .namedType _ id => [20, id]

/-- A number below `2 ^ 31 - 1` that narrows the search for an equal shape. -/
def fingerprint (shape : Shape TermId) : Nat :=
  shape.digest.foldl (fun acc n => (acc * 65599 + n) % 2147483647) 0

end Shape

end StagedCalculus
