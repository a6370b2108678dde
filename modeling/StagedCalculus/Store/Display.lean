import StagedCalculus.Numeral
import StagedCalculus.Store.Basic
import StagedCalculus.Text.Quoted

/-!
# The text of a term

This module unfolds canonical terms from the leaves up and writes a term on one line.
-/

namespace StagedCalculus

namespace Store

variable {α : Type}

/-! ## Folding over the unfolded term -/

/-- Computes a result for a term from its shape, in which each subterm stands beside its own
result. The depth bounds the unfolding; below it every result is `missing`. -/
def foldTo (s : Store) (missing : α) (step : Shape (TermId × α) → α) : Nat → TermId → α
  | 0, _ => missing
  | depth + 1, t => step ((s.shape t).map fun child => (child, s.foldTo missing step depth child))

/-- Computes a result for a term from its shape and the results of its subterms. Subterms have
smaller handles, so the handle of a term bounds its depth. -/
def fold (s : Store) (missing : α) (step : Shape (TermId × α) → α) (t : TermId) : α :=
  s.foldTo missing step (t.index + 1) t

end Store

/-! ## One line of text -/

namespace Shape

/-- Text between commas. -/
def commaSeparated (parts : List String) : String := String.intercalate ", " parts

/-- The mark before parameters whose argument must be known at compile time. -/
def comptimeMark (comptime : Bool) : String := if comptime then "comptime " else ""

def lineOfVars (s : Store) (vars : List VarId) : String :=
  commaSeparated (vars.map s.variableName)

def lineOfParams (s : Store) (params : List (VarId × String)) : String :=
  commaSeparated (params.map fun e =>
    comptimeMark (s.isComptime e.1) ++ s.variableName e.1 ++ ": " ++ e.2)

def lineOfSlot (s : Store) (slot : Slot String) : String :=
  match slot.binds with
  | some v => comptimeMark slot.comptime ++ s.variableName v ++ ": " ++ slot.ty
  | none => comptimeMark slot.comptime ++ slot.ty

def lineOfLet (s : Store) (binding : VarId × String) : String :=
  "let " ++ s.variableName binding.1 ++ " = " ++ binding.2

/-- Text between braces. -/
def braced (text : String) : String := "\x7b" ++ text ++ "\x7d"

/-- The text of a node, given that of its subterms. -/
def line (s : Store) : Shape String → String
  | .variable v => s.variableName v
  | .abstraction lets [] body =>
    braced (String.intercalate "; " (lets.map (lineOfLet s) ++ [body]))
  | .abstraction [] params body => "fn(" ++ lineOfParams s params ++ ") => " ++ body
  | .abstraction lets params body =>
    "fn[" ++ String.intercalate "; " (lets.map (lineOfLet s)) ++ "](" ++ lineOfParams s params ++
      ") => " ++ body
  | .forAll vars body => "forall " ++ lineOfVars s vars ++ ". " ++ body
  | .application callee args => callee ++ "(" ++ commaSeparated args ++ ")"
  | .projection domain field => domain ++ "." ++ field
  | .cast subject target => "(" ++ subject ++ " as " ++ target ++ ")"
  | .stringLiteral value => quoted value
  | .numericLiteral value => Numeral.write value
  | .unitValue ty => ty ++ braced ""
  | .productValue _ fields => braced (commaSeparated (fields.map fun e => e.1 ++ " = " ++ e.2))
  | .deferred ty availability => "<" ++ availability.word ++ " " ++ ty ++ ">"
  | .native id => "native " ++ s.nativeName id
  | .typeOfTypes => "Type"
  | .unitType => "Unit"
  | .bottomType => "Bottom"
  | .topType => "Top"
  | .functionType params result =>
    "fn(" ++ commaSeparated (params.map (lineOfSlot s)) ++ ") -> " ++ result
  | .productType members => braced (commaSeparated (members.map fun e => e.1 ++ ": " ++ e.2))
  | .stringLiteralType value => "literal " ++ quoted value
  | .numericLiteralType value => "literal " ++ Numeral.write value
  | .namedType name _ => name

end Shape

namespace Store

/-- The text of a term, on one line. -/
def display (s : Store) (t : TermId) : String :=
  s.fold "" (fun shape => (shape.map (·.2)).line s) t

end Store

end StagedCalculus
