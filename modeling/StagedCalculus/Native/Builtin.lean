import StagedCalculus.Native.Header
import StagedCalculus.Store.Build

/-!
# Built-in natives

This module defines the natives that every store starts with:

- `cast(comptime Target, Subject)` casts a value;
- `project(Product, comptime Field)` projects a field given as a string;
- `cimport(comptime Header)` gives the product of natives that a header exposes;
- `printf(Format)` writes a string and gives the number of its bytes. It is the only one with an
  effect.

Each is registered under a generic signature, and refines the type of its calls once enough of the
arguments is known.
-/

namespace StagedCalculus

namespace Native

open Script

/-- The text of a string literal; the failure shows any other term. -/
def expectString (name : String) (t : TermId) : Script String := do
  match ← shape t with
  | .stringLiteral text => return text
  | _ => failure name s!"expected a string literal, found {← display t}"

/-! ## Casts -/

/-- The type of a cast call: the target, even while it is still a placeholder. -/
def castType : List TermId → Script (Option TermId)
  | target :: _ => return some (← compile target)
  | [] => missingArgument "cast"

def castCall : List TermId → Script TermId
  | target :: subject :: _ => do evaluate (← intern (.cast subject target))
  | _ => missingArgument "cast"

def cast : Native := ⟨"cast", true, some castType, castCall⟩

/-! ## Projections -/

/-- The type of the projected member, once the name of the field is known. -/
def projectType : List TermId → Script (Option TermId)
  | subject :: field :: _ => do
    let field ← compile field
    if !(← isValue field) then return none
    let name ← expectString "project" field
    return some (← infer (← intern (.projection subject name)))
  | _ => missingArgument "project"

def projectCall : List TermId → Script TermId
  | subject :: field :: _ => do
    let name ← expectString "project" field
    evaluate (← intern (.projection subject name))
  | _ => missingArgument "project"

def project : Native := ⟨"project", true, some projectType, projectCall⟩

/-! ## Headers -/

/-- The natives that a header exposes. -/
def exports? : String → Option (List String)
  | "stdio" => some ["printf"]
  | _ => none

/-- The leaf and the signature of an exported native. -/
def exported (name : String) : Script (TermId × TermId) := do
  match ← builtin name with
  | none => failure "cimport" s!"`{name}` is not registered"
  | some leaf =>
    match ← shape leaf with
    | .native id => return (leaf, ← signature id)
    | _ => failure "cimport" "registry returned a non-native"

/-- The members and the fields of the product of exported natives. -/
def exportedAll : List String → Script (List (String × TermId) × List (String × TermId))
  | [] => return ([], [])
  | name :: rest => do
    let (leaf, ty) ← exported name
    let (members, fields) ← exportedAll rest
    return ((name, ty) :: members, (name, leaf) :: fields)

/-- The product of natives that a header exposes, the header being given as an include line. -/
def importHeader (header : TermId) : Script TermId := do
  let text ← expectString "cimport" header
  match Header.name? text with
  | none => failure "cimport" s!"malformed include `{text}`"
  | some name =>
    match exports? name with
    | none => failure "cimport" s!"unknown header `{name}`"
    | some names =>
      let (members, fields) ← exportedAll names
      intern (.productValue (← intern (.productType members)) fields)

/-- The type of the imported product, once the header is known. -/
def cimportType : List TermId → Script (Option TermId)
  | header :: _ => do
    let header ← compile header
    if !(← isValue header) then return none
    return some (← infer (← importHeader header))
  | [] => missingArgument "cimport"

def cimportCall : List TermId → Script TermId
  | header :: _ => importHeader header
  | [] => missingArgument "cimport"

def cimport : Native := ⟨"cimport", true, some cimportType, cimportCall⟩

/-! ## Printing -/

/-- The literal type of the byte count, once the text is known. -/
def printfType : List TermId → Script (Option TermId)
  | format :: _ => do
    match ← shape (← compile format) with
    | .stringLiteral text => return some (← intern (.numericLiteralType text.utf8ByteSize))
    | _ => return none
  | [] => missingArgument "printf"

def printfCall : List TermId → Script TermId
  | format :: _ => do
    let written ← write (← expectString "printf" format)
    intern (.numericLiteral written)
  | [] => missingArgument "printf"

def printf : Native := ⟨"printf", false, some printfType, printfCall⟩

end Native

/-! ## The initial store -/

namespace Build

/-- The terms that every store starts with, in the order of their handles. -/
def commonTerms : Build Unit := do
  let ty ← intern .typeOfTypes
  let _ ← intern .unitType
  let _ ← intern .bottomType
  let _ ← intern .topType
  let _ ← deferred ty .comptime

/-- The natives that every store starts with, in the order of registration. -/
def builtinNatives : Build Unit := do
  let _ ← register Native.cast [("Target", true), ("Subject", false)]
  let _ ← register Native.project [("Product", false), ("Field", true)]
  let _ ← register Native.cimport [("Header", true)]
  let _ ← register Native.printf [("Format", false)]

end Build

namespace Store

/-- The store at the start of a compilation. -/
def initial (config : Config) : Store :=
  (do Build.commonTerms; Build.builtinNatives : Build Unit).run (.empty config) |>.2

end Store

end StagedCalculus
