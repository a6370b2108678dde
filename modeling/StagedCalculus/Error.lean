/-!
# Errors

This module lists the ways in which inference, reduction, unification and native calls fail, and
the one message of each. Payloads hold rendered text, so a message needs no store.
-/

namespace StagedCalculus

/-- Cause of a failure. -/
inductive Error where
  | unboundVariable (name : String)
  | arityMismatch (expected found : Nat)
  | unificationFailure (expected found : String)
  | uncastableTypes (source target : String)
  | notYetImplemented (what : String)
  | notAFunction (found : String)
  | notAProduct (found : String)
  | missingField (field : String) (suggestions : List String)
  | comptimeArgumentUnavailable (index : Nat)
  | valueNotAvailable (name : String)
  | alreadyBound (name : String)
  | depthExceeded (limit : Nat)
  | native (name message : String)
  deriving DecidableEq

namespace Error

/-- The tail of a message that offers names close to a missing one. -/
def suggestionText : List String → String
  | [] => ""
  | [only] => s!" (did you mean `{only}`?)"
  | many =>
    let listed := String.intercalate ", " (many.map fun name => s!"`{name}`")
    s!" (did you mean one of {listed}?)"

/-- The message of an error. -/
def message : Error → String
  | .unboundVariable name => s!"unbound variable: {name}"
  | .arityMismatch expected found => s!"arity mismatch: expected at most {expected}, found {found}"
  | .unificationFailure expected found => s!"cannot unify: expected {expected}, found {found}"
  | .uncastableTypes source target => s!"cast from {source} to {target} is not implemented"
  | .notYetImplemented what => s!"not yet implemented: {what}"
  | .notAFunction found => s!"expected a function, found {found}"
  | .notAProduct found => s!"expected a product, found {found}"
  | .missingField field suggestions => s!"no field `{field}`{suggestionText suggestions}"
  | .comptimeArgumentUnavailable index =>
    s!"comptime argument {index} is not known at compile time"
  | .valueNotAvailable name => s!"value of `{name}` is not available yet"
  | .alreadyBound name => s!"variable `{name}` is already bound in this frame"
  | .depthExceeded limit => s!"recursion limit of {limit} exceeded"
  | .native name message => s!"{name}: {message}"

end Error

end StagedCalculus
