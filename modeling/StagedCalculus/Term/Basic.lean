/-!
# Identifiers, availability and usage

This module fixes the small vocabulary shared by every stage of the calculus:

- handles of terms, variables and native functions, which are positions in the tables of a store;
- `Availability`, the time at which a placeholder receives its value;
- `Usage`, the way in which a term mentions a free variable;
- `Mode`, the two ways of reducing a term.
-/

namespace StagedCalculus

/-! ## Handles -/

/-- Handle of a canonical term. -/
structure TermId where
  index : Nat
  deriving DecidableEq

/-- Identity of a variable. Two allocations never share one, whatever their names. -/
structure VarId where
  index : Nat
  deriving DecidableEq

/-- Handle of a registered native function. -/
structure NativeId where
  index : Nat
  deriving DecidableEq

/-! ## Stages -/

/-- When a value that is still missing becomes known. -/
inductive Availability where
  | comptime
  | runtime
  deriving DecidableEq

namespace Availability

def ofComptime : Bool → Availability
  | true => .comptime
  | false => .runtime

/-- The word that marks the availability in the text of a term. -/
def word : Availability → String
  | .comptime => "comptime"
  | .runtime => "runtime"

end Availability

/-- How a term uses a free variable: inside a type, or as a value only. -/
inductive Usage where
  | intoType
  | intoValue
  deriving DecidableEq

namespace Usage

/-- One use inside a type outweighs any number of uses as a value. -/
def merge : Usage → Usage → Usage
  | .intoValue, .intoValue => .intoValue
  | _, _ => .intoType

end Usage

/-- The two ways of reducing a term: evaluation needs every value, compilation leaves a
residual term wherever a value is still missing. -/
inductive Mode where
  | evaluate
  | compile
  deriving DecidableEq

end StagedCalculus
