import StagedCalculus.Staging.Attempt

/-!
# Sample terms

This module builds small generic functions, a product, and a call of an imported native.
-/

namespace StagedCalculus.Sample

open Build

/-- `forall T. fn(x: T) => x`. -/
def identity : Build TermId := do
  let ty ← freshVariable true (some "T")
  let x ← freshVariable false (some "x")
  let function ← abstraction [] [(x, ← variableTerm ty)] (← variableTerm x)
  forAll [ty] function

/-- `forall A, B. fn(x: A, y: B) => {fst = x, snd = y}`. -/
def pair : Build TermId := do
  let a ← freshVariable true (some "A")
  let b ← freshVariable true (some "B")
  let x ← freshVariable false (some "x")
  let y ← freshVariable false (some "y")
  let aTerm ← variableTerm a
  let bTerm ← variableTerm b
  let ty ← productType [("fst", aTerm), ("snd", bTerm)]
  let body ← product ty [("fst", ← variableTerm x), ("snd", ← variableTerm y)]
  forAll [a, b] (← abstraction [] [(x, aTerm), (y, bTerm)] body)

/-- The product of two numbers, typed by their literal types. -/
def point (x y : Rat) : Build TermId := do
  let ty ← productType [("x", ← numericType x), ("y", ← numericType y)]
  product ty [("x", ← numeric x), ("y", ← numeric y)]

/-- `cimport("#include <stdio>").printf(text)`. -/
def printfCall (text : String) : Attempt TermId := do
  match ← Build.builtin "cimport" with
  | none => throw (.native "cimport" "not registered")
  | some cimport =>
    let module ← apply cimport [← string "#include <stdio>"]
    apply (← project module "printf") [← string text]

end StagedCalculus.Sample
