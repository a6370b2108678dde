import StagedCalculus.Error
import StagedCalculus.Term.Shape

/-!
# Scripts of native functions

A native function is a `Script`: a finite tree of questions to the calculus, whose answers choose
the next question. A script never sees a store or a context; whoever runs it answers every
question in the context of the call. Two facts hold by construction:

- a failure to answer ends the script, which has no way to recover from it;
- the only effect on the world is the question `write`.
-/

namespace StagedCalculus

/-- What a native function can ask of the calculus. -/
inductive Query where
  /-- The outermost layer of a term. -/
  | shape (term : TermId)
  /-- The canonical term of a shape. -/
  | intern (shape : Shape TermId)
  | freshVariable (comptime : Bool) (name : Option String)
  /-- The type of a term in the context of the call. -/
  | infer (term : TermId)
  /-- The reduct of a term in the context of the call. -/
  | reduce (mode : Mode) (term : TermId)
  | isValue (term : TermId)
  /-- The leaf of the native that a name refers to. -/
  | builtin (name : String)
  | signature (native : NativeId)
  /-- The text of a term. -/
  | display (term : TermId)
  /-- Hands a text to the output and counts its bytes. -/
  | write (text : String)

namespace Query

/-- What a question is answered with. -/
@[reducible]
def Answer : Query → Type
  | .shape _ => Shape TermId
  | .intern _ => TermId
  | .freshVariable _ _ => VarId
  | .infer _ => TermId
  | .reduce _ _ => TermId
  | .isValue _ => Bool
  | .builtin _ => Option TermId
  | .signature _ => TermId
  | .display _ => String
  | .write _ => Nat

end Query

/-- A computation of a native function. -/
inductive Script (α : Type) where
  | done (value : α)
  | fail (error : Error)
  | ask (query : Query) (next : query.Answer → Script α)

namespace Script

variable {α β : Type}

/-! ## Composition -/

def bind : Script α → (α → Script β) → Script β
  | .done value, next => next value
  | .fail error, _ => .fail error
  | .ask query rest, next => .ask query fun answer => (rest answer).bind next

instance : Monad Script where
  pure := .done
  bind := .bind

/-! ## Single questions -/

def shape (term : TermId) : Script (Shape TermId) := .ask (.shape term) .done

def intern (shape : Shape TermId) : Script TermId := .ask (.intern shape) .done

def infer (term : TermId) : Script TermId := .ask (.infer term) .done

def evaluate (term : TermId) : Script TermId := .ask (.reduce .evaluate term) .done

def compile (term : TermId) : Script TermId := .ask (.reduce .compile term) .done

def isValue (term : TermId) : Script Bool := .ask (.isValue term) .done

def builtin (name : String) : Script (Option TermId) := .ask (.builtin name) .done

def signature (native : NativeId) : Script TermId := .ask (.signature native) .done

def display (term : TermId) : Script String := .ask (.display term) .done

def write (text : String) : Script Nat := .ask (.write text) .done

end Script

/-! ## Native functions -/

/-- A native function. -/
structure Native where
  name : String
  /-- A pure native may be run during compilation; a call of any other stays residual. -/
  isPure : Bool
  /-- Refines the type of a saturated call from its unreduced arguments; no answer keeps the
  declared result. -/
  resultType : Option (List TermId → Script (Option TermId))
  /-- Performs a saturated call on reduced arguments. -/
  call : List TermId → Script TermId

namespace Native

variable {α : Type}

/-- The failure of a script in the name of its native. -/
def failure (name message : String) : Script α := .fail (.native name message)

/-- The failure of a native that is called with fewer arguments than it uses. -/
def missingArgument (name : String) : Script α := failure name "missing argument"

end Native

end StagedCalculus
