import Std.Data.TreeMap
import StagedCalculus.Config
import StagedCalculus.Native.Script
import StagedCalculus.Output
import StagedCalculus.Store.TypeCache
import StagedCalculus.Term.FreeVariables

/-!
# The term store

A store owns every term of a compilation. It only ever grows:

- terms are canonical: a shape that is there already keeps its handle, so two handles are equal
  exactly if the terms they stand for are;
- a term enters after its subterms, so each handle is greater than those it refers to, and what
  is derived from a term (its free variables, whether work is left in it) is computed on entry;
- variables, nominal types and natives are numbered in the order of allocation.
-/

namespace StagedCalculus

/-- A canonical term with the facts derived from it. -/
structure Entry where
  shape : Shape TermId
  free : FreeVariables
  pending : Bool

/-- What is known of a variable besides its identity. -/
structure Variable where
  name : String
  comptime : Bool
  deriving DecidableEq

/-- A native function with the type it was registered under. -/
structure RegisteredNative where
  native : Native
  signature : TermId

/-- Owner of the terms, variables and natives of one compilation. -/
structure Store where
  entries : Array Entry
  /-- The handles of all terms, by the fingerprint of their shape. -/
  index : Std.TreeMap Nat (List TermId)
  vars : Array Variable
  /-- The number of nominal types allocated so far. -/
  namedTypes : Nat
  natives : Array RegisteredNative
  types : TypeCache
  config : Config
  output : Output

/-- Construction of terms and variables, which never fails. -/
abbrev Build := StateM Store

namespace Store

/-- A store without terms. -/
def empty (config : Config) : Store where
  entries := #[]
  index := ∅
  vars := #[]
  namedTypes := 0
  natives := #[]
  types := .empty
  config := config
  output := {}

/-! ## Terms -/

/-- The entry of a term. Handles that no term has are read as the type of types. -/
def entry (s : Store) (t : TermId) : Entry :=
  s.entries.getD t.index ⟨.typeOfTypes, ∅, false⟩

def shape (s : Store) (t : TermId) : Shape TermId := (s.entry t).shape

/-- The free variables of a term. -/
def freeVariables (s : Store) (t : TermId) : FreeVariables := (s.entry t).free

/-- Whether a call, projection, cast or block is left to perform in a term. -/
def pending (s : Store) (t : TermId) : Bool := (s.entry t).pending

/-- A closed term that is no placeholder. -/
def isConcrete (s : Store) (t : TermId) : Bool :=
  !(s.shape t).isDeferred && (s.freeVariables t).isEmpty

/-- A concrete term with no work left in it, which can be copied without repeating effects. -/
def isValue (s : Store) (t : TermId) : Bool :=
  s.isConcrete t && !s.pending t

/-- The canonical term of a shape, if there is one. -/
def find? (s : Store) (shape : Shape TermId) : Option TermId :=
  ((s.index[shape.fingerprint]?).getD []).find? fun t => s.shape t = shape

/-- Adds a term that is not there yet. -/
def add (s : Store) (shape : Shape TermId) : TermId × Store :=
  let t : TermId := ⟨s.entries.size⟩
  -- The subterms are in the store, so their facts can be read off.
  let entry : Entry :=
    ⟨shape, (shape.map s.freeVariables).freeVariables, (shape.map s.pending).pending⟩
  let key := shape.fingerprint
  let bucket := (s.index[key]?).getD []
  (t, { s with entries := s.entries.push entry, index := s.index.insert key (t :: bucket) })

/-- The canonical term of a shape. A quantifier over no variable is its body. -/
def intern (s : Store) : Shape TermId → TermId × Store
  | .forAll [] body => (body, s)
  | shape =>
    match s.find? shape with
    | some t => (t, s)
    | none => s.add shape

/-! ## Terms of every store -/

/-- The type of types, the first term of every store. -/
def typeOfTypes : TermId := ⟨0⟩

def unitType : TermId := ⟨1⟩

def bottomType : TermId := ⟨2⟩

def topType : TermId := ⟨3⟩

/-- Placeholder for some type that is known at compile time, which stands for quantified
variables. -/
def comptimeType : TermId := ⟨4⟩

/-! ## Variables -/

/-- What is known of a variable. Variables that were never allocated are read as nameless. -/
def variableInfo (s : Store) (v : VarId) : Variable :=
  s.vars.getD v.index ⟨"", false⟩

def variableName (s : Store) (v : VarId) : String := (s.variableInfo v).name

def isComptime (s : Store) (v : VarId) : Bool := (s.variableInfo v).comptime

/-- Allocates a variable. Without a name it is called by its number. -/
def freshVariable (s : Store) (comptime : Bool) (name : Option String) : VarId × Store :=
  let v : VarId := ⟨s.vars.size⟩
  (v, { s with vars := s.vars.push ⟨name.getD s!"GV#{v.index}", comptime⟩ })

/-- Allocates a nominal type, distinct from every other one. -/
def freshNamedType (s : Store) (name : String) : TermId × Store :=
  { s with namedTypes := s.namedTypes + 1 }.intern (.namedType name s.namedTypes)

/-! ## Natives -/

/-- Registers a native function and gives the leaf that stands for it. From now on its name
refers to it. -/
def register (s : Store) (native : Native) (signature : TermId) : TermId × Store :=
  let id : NativeId := ⟨s.natives.size⟩
  { s with natives := s.natives.push ⟨native, signature⟩ }.intern (.native id)

def native? (s : Store) (id : NativeId) : Option RegisteredNative := s.natives[id.index]?

/-- The name of a native, empty if it was never registered. -/
def nativeName (s : Store) (id : NativeId) : String :=
  match s.native? id with
  | some registered => registered.native.name
  | none => ""

/-- The declared type of a native. -/
def nativeSignature (s : Store) (id : NativeId) : TermId :=
  match s.native? id with
  | some registered => registered.signature
  | none => topType

/-- The latest native registered under a name. -/
def findNative? (s : Store) (name : String) : Option NativeId :=
  ((List.range s.natives.size).reverse.map NativeId.mk).find? fun id => s.nativeName id = name

/-- The leaf of the latest native registered under a name. -/
def builtin (s : Store) (name : String) : Option TermId × Store :=
  match s.findNative? name with
  | some id =>
    let (t, s) := s.intern (.native id)
    (some t, s)
  | none => (none, s)

/-! ## Output -/

def redirect (s : Store) (sink : Sink) : Store :=
  { s with output := s.output.redirect sink }

/-- Hands a text to the output and counts its bytes. -/
def write (s : Store) (text : String) : Except Error Nat × Store :=
  match s.output.write text with
  | (.ok (), output) => (.ok text.utf8ByteSize, { s with output })
  | (.error e, output) => (.error e, { s with output })

end Store

end StagedCalculus
