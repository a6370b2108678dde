import StagedCalculus.Staging.Attempt
import StagedCalculus.Staging.Matching

/-!
# One level of nested calls

Inference and reduction call each other, each call one level deeper than the one it comes from, and
the number of levels is limited. An `Engine` is what a computation at some level may call: the two
judgments one level further down, and the number of levels left for matching. The rules of the two
judgments are written for an arbitrary engine, and `Staging.Judgment` stacks the levels.
-/

namespace StagedCalculus

/-- The judgments that a computation may call. -/
structure Engine where
  /-- The number of levels left. -/
  levels : Nat
  infer : Context → TermId → Attempt TermId
  reduce : Mode → Context → TermId → Attempt TermId

namespace Engine

open Attempt

/-- Compilation one level further down. -/
def compile (e : Engine) (ctx : Context) (t : TermId) : Attempt TermId := e.reduce .compile ctx t

/-! ## Matching -/

/-- Matches an expected type against the type of an argument. -/
def unify (e : Engine) (m : Matching) (expected arg : TermId) : Attempt Matching := do
  match ((← get).unify e.levels expected arg).run m with
  | (.ok (), m) => return m
  | (.error err, _) => throw err

/-! ## Running scripts -/

/-- Answers a question of a native function in the context of its call. -/
def answer (e : Engine) (ctx : Context) : (query : Query) → Attempt query.Answer
  | .shape t => Attempt.shape t
  | .intern shape => Build.intern shape
  | .freshVariable comptime name => Build.freshVariable comptime name
  | .infer t => e.infer ctx t
  | .reduce mode t => e.reduce mode ctx t
  | .isValue t => Attempt.isValue t
  | .builtin name => Build.builtin name
  | .signature id => return (← get).nativeSignature id
  | .display t => Attempt.display t
  | .write text => Attempt.write text

/-- Runs a script in the context of a call. -/
def run {α : Type} (e : Engine) (ctx : Context) : Script α → Attempt α
  | .done value => return value
  | .fail err => throw err
  | .ask query next => do e.run ctx (next (← e.answer ctx query))

/-! ## Parameters -/

/-- Binds each parameter in turn to a placeholder of its type, and gives the compiled types. A
type sees the parameters before it. -/
def bindParams (e : Engine) (ctx : Context) :
    List (VarId × TermId) → Attempt (Context × List (VarId × TermId))
  | [] => return (ctx, [])
  | (v, ty) :: rest => do
    let ty ← e.compile ctx ty
    -- The availability of the placeholder is that of the variable.
    let placeholder ← Build.deferred ty (.ofComptime (← isComptime v))
    let (ctx, params) ← e.bindParams (← Attempt.bind ctx v placeholder) rest
    return (ctx, (v, ty) :: params)

end Engine

end StagedCalculus
