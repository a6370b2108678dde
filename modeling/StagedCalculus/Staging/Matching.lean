import StagedCalculus.Staging.Context
import StagedCalculus.Store.Display

/-!
# Matching an expected type against the type of an argument

Both sides are reduced already, apart from references to the quantified variables that are being
determined. There is no subtyping: apart from quantified variables, the two sides agree in shape,
names and literals. A quantified variable is bound the first time it is met and is determined from
then on, so later occurrences have to agree with its binding.
-/

namespace StagedCalculus

/-- The state of matching: the quantified variables that are not determined yet, and the context
whose innermost frame receives their bindings. -/
structure Matching where
  undetermined : List VarId
  context : Context
  deriving DecidableEq

namespace Matching

/-- Removes a variable from those that are not determined yet. -/
def determine (m : Matching) (v : VarId) : Matching :=
  { m with undetermined := m.undetermined.filter (· ≠ v) }

end Matching

/-- A step of matching. A failure keeps the bindings made before it. -/
abbrev Match := ExceptT Error (StateM Matching)

namespace Store

/-- The failure of two terms that do not agree. -/
def mismatch (s : Store) (expected arg : TermId) : Error :=
  .unificationFailure (s.display expected) (s.display arg)

/-- The failure of two fields or members of different names. -/
def nameMismatch (expected arg : String) : Error :=
  .unificationFailure s!"field `{expected}`" s!"field `{arg}`"

/-- Binds a quantified variable to the type it stands for. -/
def determine (s : Store) (v : VarId) (arg : TermId) : Match Unit := do
  let m ← get
  match m.context.bind? v arg with
  | some context => set { m.determine v with context }
  | none => throw (.alreadyBound (s.variableName v))

/-- Matches the named components of two products in order. -/
def matchNamed (matchTerms : TermId → TermId → Match Unit) :
    List (String × TermId) → List (String × TermId) → Match Unit
  | (name, expected) :: rest, (argName, arg) :: argRest => do
    if name ≠ argName then throw (nameMismatch name argName)
    matchTerms expected arg
    matchNamed matchTerms rest argRest
  | _, _ => return

/-- Matches the positions of two function types in order. A function that needs an argument at
compile time cannot stand in for one that is called with runtime values. -/
def matchSlots (matchTerms : TermId → TermId → Match Unit) (refusal : Error) :
    List (Slot TermId) → List (Slot TermId) → Match Unit
  | expected :: rest, arg :: argRest => do
    if arg.comptime && !expected.comptime then throw refusal
    matchTerms expected.ty arg.ty
    matchSlots matchTerms refusal rest argRest
  | _, _ => return

/-- Requires two sequences to have the same length. -/
def matchLengths (expected arg : Nat) : Match Unit :=
  if expected = arg then return else throw (.arityMismatch expected arg)

/-- Matches two different terms by the shape of the expected one. -/
def matchShapes (s : Store) (matchTerms : TermId → TermId → Match Unit) (expected arg : TermId) :
    Match Unit := do
  match s.shape expected, s.shape arg with
  | .variable v, _ =>
    let m ← get
    if v ∈ m.undetermined then s.determine v arg
    else
      match m.context.get? v with
      | some value =>
        if value ≠ expected && !(s.shape value).isDeferred then matchTerms value arg
        else throw (s.mismatch expected arg)
      | none => throw (s.mismatch expected arg)
  | .productValue ty fields, .productValue argTy argFields =>
    matchTerms ty argTy
    matchLengths fields.length argFields.length
    matchNamed matchTerms fields argFields
  | .productType members, .productType argMembers =>
    matchLengths members.length argMembers.length
    matchNamed matchTerms members argMembers
  | .functionType params result, .functionType argParams argResult =>
    matchLengths params.length argParams.length
    matchSlots matchTerms (s.mismatch expected arg) params argParams
    matchTerms result argResult
  | _, _ => throw (s.mismatch expected arg)

/-- Matches an expected term against an argument, with the given number of levels left for nested
calls. Equal terms match whatever they are. -/
def unify (s : Store) : Nat → TermId → TermId → Match Unit
  | 0, _, _ => throw (.depthExceeded s.config.maxDepth)
  | levels + 1, expected, arg =>
    if expected = arg then return
    else s.matchShapes (s.unify levels) expected arg

end Store

end StagedCalculus
