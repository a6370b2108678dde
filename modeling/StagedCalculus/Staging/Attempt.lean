import StagedCalculus.Staging.Context
import StagedCalculus.Store.Build
import StagedCalculus.Store.Display

/-!
# Computations over a store

`Attempt` is the type of computations that read and extend a store and may fail. A failure keeps
everything the computation did to the store before it failed.
-/

namespace StagedCalculus

/-- A computation over a store that may fail. -/
abbrev Attempt := ExceptT Error Build

namespace Attempt

/-! ## Reading the store -/

def shape (t : TermId) : Attempt (Shape TermId) := return (← get).shape t

def freeVariables (t : TermId) : Attempt FreeVariables := return (← get).freeVariables t

def isValue (t : TermId) : Attempt Bool := return (← get).isValue t

def isComptime (v : VarId) : Attempt Bool := return (← get).isComptime v

def variableName (v : VarId) : Attempt String := return (← get).variableName v

def display (t : TermId) : Attempt String := return (← get).display t

def native? (id : NativeId) : Attempt (Option RegisteredNative) := return (← get).native? id

/-! ## Effects -/

/-- Hands a text to the output and counts its bytes. -/
def write (text : String) : Attempt Nat := ExceptT.mk (modifyGet fun s => s.write text)

/-! ## Failures -/

def throwUnbound {α : Type} (v : VarId) : Attempt α := do
  throw (.unboundVariable (← variableName v))

def throwUnavailable {α : Type} (v : VarId) : Attempt α := do
  throw (.valueNotAvailable (← variableName v))

/-- The failure of a nested call when no level is left. -/
def throwDepth {α : Type} : Attempt α := do
  throw (.depthExceeded (← get).config.maxDepth)

/-! ## Contexts -/

/-- Binds a variable in the innermost frame. -/
def bind (ctx : Context) (v : VarId) (t : TermId) : Attempt Context := do
  match ctx.bind? v t with
  | some ctx => return ctx
  | none => throw (.alreadyBound (← variableName v))

/-- Binds variables one after the other. -/
def bindAll (ctx : Context) : List (VarId × TermId) → Attempt Context
  | [] => return ctx
  | (v, t) :: rest => do bindAll (← bind ctx v t) rest

/-- Binds quantified variables to the placeholder for some type. -/
def bindQuantified (ctx : Context) (vars : List VarId) : Attempt Context :=
  bindAll ctx (vars.map fun v => (v, Store.comptimeType))

/-- Quantifies a term over those of the variables that are free in it. -/
def quantify (vars : List VarId) (body : TermId) : Attempt TermId := do
  let free ← freeVariables body
  Build.forAll (vars.filter free.contains) body

end Attempt

end StagedCalculus
