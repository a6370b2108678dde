import StagedCalculus.Staging.Engine

/-!
# Resolving a callee against its arguments

The type of a callee is a function type, optionally under one quantifier. Resolution matches the
arguments against its positions from left to right, which determines quantified variables. Fewer
arguments than positions leave the remaining positions open; more are a failure.
-/

namespace StagedCalculus

/-- What applying a callee to some arguments resolves to. -/
structure Resolution where
  /-- The types of the supplied positions, after resolution. -/
  supplied : List TermId
  /-- The quantified variables that no argument determined. -/
  undetermined : List VarId
  /-- The quantified variables that some argument determined, with their values. -/
  determined : List (VarId × TermId)
  /-- The positions still to be supplied. -/
  remaining : List (Slot TermId)
  /-- The type of the result. -/
  result : TermId
  deriving DecidableEq

namespace Resolution

def isSaturated (r : Resolution) : Bool := r.remaining.isEmpty

/-- The value of a quantified variable, or the placeholder for some type. -/
def valueOf (r : Resolution) (v : VarId) : TermId :=
  ((r.determined.find? fun e => e.1 = v).map (·.2)).getD Store.comptimeType

end Resolution

namespace Engine

open Attempt

/-- Whether a compiled argument is a value, or a variable whose placeholder is filled before run
time. -/
def knownAtCompileTime (ctx : Context) (value : TermId) : Attempt Bool := do
  if ← isValue value then return true
  match ← shape value with
  | .variable v =>
    match ctx.get? v with
    | some bound =>
      match ← shape bound with
      | .deferred _ .comptime => return true
      | _ => return false
    | none => return false
  | _ => return false

/-- Requires the argument of a comptime position to be known. If the position supplies a variable
that is not determined yet, the argument determines it. -/
def supplyComptime (e : Engine) (ctx : Context) (m : Matching) (index : Nat) (arg : TermId)
    (slot : Slot TermId) : Attempt Matching := do
  let value ← e.compile ctx arg
  if !(← knownAtCompileTime ctx value) then throw (.comptimeArgumentUnavailable index)
  match slot.binds with
  | some v =>
    -- A dependent position is decided by the value passed, not by types.
    if v ∈ m.undetermined then
      let context ← Attempt.bind m.context v value
      return { m.determine v with context }
    else return m
  | none => return m

/-- Matches one argument against its position and gives the resolved type of the position. -/
def supply (e : Engine) (ctx : Context) (m : Matching) (index : Nat) (arg : TermId)
    (slot : Slot TermId) : Attempt (Matching × TermId) := do
  let m ← if slot.comptime then e.supplyComptime ctx m index arg slot else pure m
  let argType ← e.infer ctx arg
  let expected ← e.compile m.context slot.ty
  let m ← e.unify m expected argType
  return (m, ← e.compile m.context slot.ty)

/-- Matches arguments against their positions from left to right. -/
def supplyAll (e : Engine) (ctx : Context) (m : Matching) (index : Nat) :
    List (TermId × Slot TermId) → Attempt (Matching × List TermId)
  | [] => return (m, [])
  | (arg, slot) :: rest => do
    let (m, ty) ← e.supply ctx m index arg slot
    let (m, types) ← e.supplyAll ctx m (index + 1) rest
    return (m, ty :: types)

/-- Compiles the types of positions. -/
def compileSlots (e : Engine) (ctx : Context) : List (Slot TermId) → Attempt (List (Slot TermId))
  | [] => return []
  | slot :: rest => do
    let ty ← e.compile ctx slot.ty
    return { slot with ty } :: (← e.compileSlots ctx rest)

/-- The quantified variables, positions and result of a function type that stands under at most
one quantifier. -/
def functionParts (ty : TermId) : Attempt (List VarId × List (Slot TermId) × TermId) := do
  let (vars, function) ←
    match ← shape ty with
    | .forAll vars body => pure (vars, body)
    | _ => pure ([], ty)
  match ← shape function with
  | .functionType params result => return (vars, params, result)
  | _ => throw (.notAFunction (← display function))

/-- Resolves a callee against its arguments. -/
def resolve (e : Engine) (ctx : Context) (callee : TermId) (args : List TermId) :
    Attempt Resolution := do
  let (vars, params, result) ← functionParts (← e.infer ctx callee)
  if params.length < args.length then
    throw (.arityMismatch params.length args.length)
  -- The placeholders stand in a frame of their own, so that matching can bind over them.
  let quantified ← bindQuantified ctx.child vars
  let (m, supplied) ← e.supplyAll ctx ⟨vars, quantified.child⟩ 0 (args.zip params)
  let remaining ← e.compileSlots m.context (params.drop args.length)
  let result ← e.compile m.context result
  let determined := (vars.filter (· ∉ m.undetermined)).filterMap fun v =>
    (m.context.get? v).map fun value => (v, value)
  return { supplied, undetermined := m.undetermined, determined, remaining, result }

end Engine

end StagedCalculus
