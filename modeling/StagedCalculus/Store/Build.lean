import StagedCalculus.Store.Basic

/-!
# Builders

This module gives each way of constructing a term a name, as an action of `Build`, and sets up the
terms that every store starts with.
-/

namespace StagedCalculus.Build

/-! ## Terms -/

def intern (shape : Shape TermId) : Build TermId :=
  modifyGet fun s => s.intern shape

def freshVariable (comptime : Bool) (name : Option String) : Build VarId :=
  modifyGet fun s => s.freshVariable comptime name

def variableTerm (v : VarId) : Build TermId := intern (.variable v)

def variableTerms : List VarId → Build (List TermId)
  | [] => return []
  | v :: vars => do
    let t ← variableTerm v
    return t :: (← variableTerms vars)

def freshNamedType (name : String) : Build TermId :=
  modifyGet fun s => s.freshNamedType name

def string (value : String) : Build TermId := intern (.stringLiteral value)

def numeric (value : Rat) : Build TermId := intern (.numericLiteral value)

def stringType (value : String) : Build TermId := intern (.stringLiteralType value)

def numericType (value : Rat) : Build TermId := intern (.numericLiteralType value)

def unitValue (ty : TermId) : Build TermId := intern (.unitValue ty)

def product (ty : TermId) (fields : List (String × TermId)) : Build TermId :=
  intern (.productValue ty fields)

/-- A product whose fields are named by their position, from 0. -/
def tuple (ty : TermId) (values : List TermId) : Build TermId :=
  product ty (values.zipIdx.map fun e => (toString e.2, e.1))

def productType (members : List (String × TermId)) : Build TermId :=
  intern (.productType members)

def functionType (params : List (Slot TermId)) (result : TermId) : Build TermId :=
  intern (.functionType params result)

def abstraction (lets params : List (VarId × TermId)) (body : TermId) : Build TermId :=
  intern (.abstraction lets params body)

/-- A block: bindings in order, then a body. -/
def letIn (lets : List (VarId × TermId)) (body : TermId) : Build TermId :=
  abstraction lets [] body

def forAll (vars : List VarId) (body : TermId) : Build TermId := intern (.forAll vars body)

def apply (callee : TermId) (args : List TermId) : Build TermId :=
  intern (.application callee args)

def project (domain : TermId) (field : String) : Build TermId :=
  intern (.projection domain field)

def cast (subject target : TermId) : Build TermId := intern (.cast subject target)

def deferred (ty : TermId) (availability : Availability) : Build TermId :=
  intern (.deferred ty availability)

/-- The leaf of the latest native registered under a name. -/
def builtin (name : String) : Build (Option TermId) :=
  modifyGet fun s => s.builtin name

/-! ## Native functions -/

/-- The type variable and the slot of each parameter of a generic signature. -/
def genericSlots : List (String × Bool) → Build (List VarId × List (Slot TermId))
  | [] => return ([], [])
  | (name, comptime) :: params => do
    let v ← freshVariable true (some name)
    let ty ← variableTerm v
    let (vars, slots) ← genericSlots params
    return (v :: vars, ⟨ty, comptime, none⟩ :: slots)

/-- The type of a function whose parameters are each typed by a quantified variable of their own.
A parameter is given by its name and whether its argument must be known at compile time. -/
def genericSignature (params : List (String × Bool)) : Build TermId := do
  let (vars, slots) ← genericSlots params
  let function ← functionType slots Store.topType
  forAll vars function

/-- Registers a native under a generic signature. -/
def register (native : Native) (params : List (String × Bool)) : Build TermId := do
  let signature ← genericSignature params
  modifyGet fun s => s.register native signature

end StagedCalculus.Build
