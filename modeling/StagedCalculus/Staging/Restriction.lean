import StagedCalculus.Staging.Attempt
import StagedCalculus.Term.VarMap

/-!
# Restricting a context to what a term observes

The type of a term depends on its context only through its free variables and, transitively, the
free variables of the terms these are bound to. This module collects what is observed:

- a comptime variable, or one that is used inside a type, is observed by its bound term;
- a runtime variable that is used as a value only, and is bound to a value, is observed by the type
  of that value, so that runtime values of one type are not told apart.
-/

namespace StagedCalculus

/-- Observations collected so far. -/
abbrev Observations := VarMap Observation

namespace Attempt

/-- Whether a variable is observed only through the type of its value. -/
def observedByType (v : VarId) (usage : Usage) (value : TermId) : Attempt Bool := do
  let s ← get
  return usage = .intoValue && !s.isComptime v && s.isValue value

/-- Collects observations until no variable is pending, the one that was found last being observed
first. The number bounds the variables still to be observed. -/
def observe (typeOf : TermId → Attempt TermId) (ctx : Context) :
    Nat → Observations → List (VarId × Usage) → Attempt Observations
  | 0, found, _ => return found
  | bound + 1, found, pending => do
    match pending.dropWhile fun e => found.contains e.1 with
    | [] => return found
    | (v, usage) :: pending =>
      match ctx.get? v with
      | none => observe typeOf ctx bound (found.insert v .unbound) pending
      | some value =>
        if ← observedByType v usage value then
          let ty ← typeOf value
          observe typeOf ctx bound (found.insert v (.typed ty)) pending
        else
          -- The greatest variable inside the bound term is observed next.
          let inside := (← freeVariables value).toList.reverse
          observe typeOf ctx bound (found.insert v (.bound value)) (inside ++ pending)

/-- What a term observes of a context, by increasing variable index. -/
def restrict (typeOf : TermId → Attempt TermId) (ctx : Context) (t : TermId) :
    Attempt Restriction := do
  let s ← get
  let found ← observe typeOf ctx (s.vars.size + 1) ∅ (s.freeVariables t).toList.reverse
  return found.toList

/-- The remembered answer for a term under a restriction, or the answer of the computation, which
is remembered unless it failed for lack of depth. -/
def remembered (t : TermId) (restriction : Restriction) (compute : Attempt TermId) :
    Attempt TermId :=
  ExceptT.mk do
    match (← get).types.get? t restriction with
    | some answer => return answer
    | none =>
      let answer ← compute.run
      match answer with
      -- A depth failure depends on where the query was made, not on the term.
      | .error (.depthExceeded _) => return answer
      | _ =>
        modify fun s => { s with types := s.types.insert t restriction answer }
        return answer

end Attempt

end StagedCalculus
