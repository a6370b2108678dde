import Std.Data.TreeMap
import StagedCalculus.Error
import StagedCalculus.Term.Basic

/-!
# Remembered types

An answer of type inference is remembered under the term and everything that the answer may depend
on in the context, the `Restriction`. Failures are remembered like types.
-/

namespace StagedCalculus

/-- What an answer may depend on for one variable. -/
inductive Observation where
  | unbound
  /-- The bound term itself. -/
  | bound (term : TermId)
  /-- The type of the bound value only. -/
  | typed (ty : TermId)
  deriving DecidableEq

/-- Observations of the variables that an answer may depend on. -/
abbrev Restriction := List (VarId × Observation)

/-- The outcome of inference: a type or a failure. -/
abbrev TypeAnswer := Except Error TermId

/-- Remembered answers, by the index of the term. -/
structure TypeCache where
  buckets : Std.TreeMap Nat (List (Restriction × TypeAnswer))

namespace TypeCache

def empty : TypeCache := ⟨∅⟩

def bucket (cache : TypeCache) (term : TermId) : List (Restriction × TypeAnswer) :=
  (cache.buckets[term.index]?).getD []

def get? (cache : TypeCache) (term : TermId) (restriction : Restriction) : Option TypeAnswer :=
  ((cache.bucket term).find? fun e => e.1 = restriction).map (·.2)

/-- Remembers an answer, in place of an earlier one under the same key. -/
def insert (cache : TypeCache) (term : TermId) (restriction : Restriction) (answer : TypeAnswer) :
    TypeCache :=
  let others := (cache.bucket term).filter fun e => e.1 ≠ restriction
  ⟨cache.buckets.insert term.index ((restriction, answer) :: others)⟩

/-- The number of remembered answers. -/
def size (cache : TypeCache) : Nat :=
  cache.buckets.foldl (fun total _ entries => total + entries.length) 0

end TypeCache

end StagedCalculus
