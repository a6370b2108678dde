import StagedCalculus.Store.Build

/-!
# Sample natives

This module defines natives that differ in purity, in arity and in whether they refine the type of
their calls.
-/

namespace StagedCalculus.Sample

open Script

/-- Gives its string argument with ASCII letters in upper case. -/
def shoutCall : List TermId → Script TermId
  | argument :: _ => do
    match ← shape argument with
    | .stringLiteral text => intern (.stringLiteral (String.ofList (text.toList.map Char.toUpper)))
    | _ => Native.failure "shout" "expected a string"
  | [] => Native.missingArgument "shout"

def shout : Native := ⟨"shout", true, none, shoutCall⟩

/-- The same function under the name of a built-in one. -/
def loud : Native := ⟨"printf", true, none, shoutCall⟩

/-- The type of the first argument. -/
def firstType (name : String) : List TermId → Script (Option TermId)
  | argument :: _ => return some (← infer argument)
  | [] => Native.missingArgument name

/-- Writes a mark and gives its argument. -/
def tickCall : List TermId → Script TermId
  | argument :: _ => do
    let _ ← write "tick;"
    return argument
  | [] => Native.missingArgument "tick"

def tick : Native := ⟨"tick", false, some (firstType "tick"), tickCall⟩

/-- Gives the first of its two arguments. -/
def firstCall : List TermId → Script TermId
  | argument :: _ => return argument
  | [] => Native.missingArgument "first"

def first : Native := ⟨"first", true, some (firstType "first"), firstCall⟩

/-- Registers a sample native by its name, with the signature that belongs to it. -/
def register? : String → Option (Build TermId)
  | "shout" => some (Build.register shout [("S", false)])
  | "tick" => some (Build.register tick [("S", false)])
  | "loud" => some (Build.register loud [("S", false)])
  | "first" => some (Build.register first [("A", false), ("B", true)])
  | _ => none

end StagedCalculus.Sample
