import StagedCalculus.Staging.Reduce

/-!
# The two judgments

This module stacks the rules of inference and reduction up to the depth limit of a store, and gives
the operations of the calculus: the type of a term, its value, its residual term, and the
resolution of a callee.
-/

namespace StagedCalculus

namespace Engine

/-- The engine with the given number of levels left: without any, every call fails. -/
def ofLevels : Nat → Engine
  | 0 => ⟨0, fun _ _ => Attempt.throwDepth, fun _ _ _ => Attempt.throwDepth⟩
  | n + 1 =>
    ⟨n + 1, fun ctx t => (ofLevels n).inferStep ctx t,
      fun mode ctx t => (ofLevels n).reduceStep mode ctx t⟩

theorem infer_ofLevels (n : Nat) (ctx : Context) (t : TermId) :
    (ofLevels (n + 1)).infer ctx t = (ofLevels n).inferStep ctx t := rfl

theorem reduce_ofLevels (n : Nat) (mode : Mode) (ctx : Context) (t : TermId) :
    (ofLevels (n + 1)).reduce mode ctx t = (ofLevels n).reduceStep mode ctx t := rfl

theorem levels_ofLevels (n : Nat) : (ofLevels n).levels = n := by
  cases n with
  | zero => rfl
  | succ n => rfl

end Engine

namespace Attempt

/-- The engine at the depth limit of the store. -/
def engine : Attempt Engine := return .ofLevels (← get).config.maxDepth

/-- The type of a term. -/
def infer (ctx : Context) (t : TermId) : Attempt TermId := do (← engine).infer ctx t

def reduce (mode : Mode) (ctx : Context) (t : TermId) : Attempt TermId := do
  (← engine).reduce mode ctx t

/-- The value of a term; every value it needs has to be available. -/
def evaluate (ctx : Context) (t : TermId) : Attempt TermId := reduce .evaluate ctx t

/-- The term reduced as far as the context allows. -/
def compile (ctx : Context) (t : TermId) : Attempt TermId := reduce .compile ctx t

/-- What applying a callee to some arguments resolves to. -/
def resolve (ctx : Context) (callee : TermId) (args : List TermId) : Attempt Resolution := do
  (← engine).resolve ctx callee args

/-- What a term observes of a context. -/
def observed (ctx : Context) (t : TermId) : Attempt Restriction := restrict (infer ctx) ctx t

/-- Matches an expected type against the type of an argument. The state is given also when matching
fails. -/
def unify (m : Matching) (expected arg : TermId) : Attempt (Except Error Unit × Matching) := do
  let s ← get
  return (s.unify s.config.maxDepth expected arg).run m

end Attempt

end StagedCalculus
