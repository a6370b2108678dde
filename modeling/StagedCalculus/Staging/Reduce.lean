import StagedCalculus.Staging.Infer

/-!
# Reduction

This module gives the rule of each shape for reducing it. Evaluation and compilation share all
rules. They differ only where a value may be missing: evaluation fails on a placeholder, while
compilation leaves a residual term and goes on.
-/

namespace StagedCalculus.Engine

open Attempt

/-! ## Residual bindings -/

/-- Whether a term can stand in for a variable without repeating work: a value or a variable. -/
def inlinable (t : TermId) : Attempt Bool := do
  match ← shape t with
  | .variable _ => return true
  | _ => isValue t

/-- Reduces bindings in order and binds their variables. In compilation a value that cannot be
inlined is kept as a residual binding, and its variable is bound to a placeholder. -/
def bindLets (e : Engine) (mode : Mode) (ctx : Context) :
    List (VarId × TermId) → Attempt (Context × List (VarId × TermId))
  | [] => return (ctx, [])
  | (v, t) :: rest => do
    let value ← e.reduce mode ctx t
    if mode = .evaluate || (← inlinable value) then
      e.bindLets mode (← Attempt.bind ctx v value) rest
    else
      let ty ← e.infer ctx value
      let placeholder ← Build.deferred ty .runtime
      let (ctx, residual) ← e.bindLets mode (← Attempt.bind ctx v placeholder) rest
      return (ctx, (v, value) :: residual)

/-- A block of residual bindings around a value, or the value alone. -/
def wrapResidual (residual : List (VarId × TermId)) (value : TermId) : Attempt TermId :=
  if residual.isEmpty then return value else Build.letIn residual value

/-- Requires that a function captures no variable whose value is still missing. -/
def ensureAvailable (ctx : Context) (function : TermId) : Attempt Unit := do
  let s ← get
  let missing := (s.freeVariables function).vars.find? fun v =>
    (ctx.get? v).any fun value => (s.shape value).isDeferred
  match missing with
  | some v => throwUnavailable v
  | none => return

/-! ## Components -/

/-- Reduces named components in order. -/
def reduceNamed (e : Engine) (mode : Mode) (ctx : Context) :
    List (String × TermId) → Attempt (List (String × TermId))
  | [] => return []
  | (name, t) :: rest => do
    let t ← e.reduce mode ctx t
    return (name, t) :: (← e.reduceNamed mode ctx rest)

/-- Reduces the types of positions in order. -/
def reduceSlots (e : Engine) (mode : Mode) (ctx : Context) :
    List (Slot TermId) → Attempt (List (Slot TermId))
  | [] => return []
  | slot :: rest => do
    let ty ← e.reduce mode ctx slot.ty
    return { slot with ty } :: (← e.reduceSlots mode ctx rest)

/-! ## Calls -/

/-- Opens the quantifiers of a reduced callee, each in a frame of its own. Bodies have smaller
handles, so the handle of the callee bounds their number. -/
def openQuantifiers (r : Resolution) : Nat → Context → TermId → Attempt (Context × TermId)
  | 0, ctx, callee => return (ctx, callee)
  | bound + 1, ctx, callee => do
    match ← shape callee with
    | .forAll vars body =>
      let inner ← bindAll ctx.child (vars.map fun v => (v, r.valueOf v))
      openQuantifiers r bound inner body
    | _ => return (ctx, callee)

/-- Binds parameters to arguments. In compilation an argument that cannot be inlined is kept once,
as a residual binding of a fresh variable, and not copied into every use of the parameter. `outer`
is the context of the call. -/
def bindArgs (e : Engine) (mode : Mode) (outer ctx : Context) :
    List (VarId × TermId) → Attempt (Context × List (VarId × TermId))
  | [] => return (ctx, [])
  | (v, arg) :: rest => do
    if mode = .evaluate || (← inlinable arg) then
      e.bindArgs mode outer (← Attempt.bind ctx v arg) rest
    else
      let comptime ← isComptime v
      let fresh ← Build.freshVariable comptime (some (← variableName v))
      let freshTerm ← Build.variableTerm fresh
      -- The argument is typed where it was written, outside the frame of the parameters.
      let ty ← e.infer outer arg
      let placeholder ← Build.deferred ty (.ofComptime comptime)
      let ctx ← Attempt.bind ctx fresh placeholder
      let ctx ← Attempt.bind ctx v freshTerm
      let (ctx, residual) ← e.bindArgs mode outer ctx rest
      return (ctx, (fresh, arg) :: residual)

/-- Calls a native function. Compilation leaves the call residual unless the native is pure and
every argument is a value. -/
def callNative (e : Engine) (mode : Mode) (ctx : Context) (callee : TermId) (native : Native)
    (args : List TermId) : Attempt TermId := do
  let s ← get
  if mode = .compile && !(native.isPure && args.all s.isValue) then Build.apply callee args
  else e.run ctx (native.call args)

/-- Calls an abstraction: the body is reduced under its bindings and arguments. -/
def callAbstraction (e : Engine) (mode : Mode) (ctx : Context) (lets params : List (VarId × TermId))
    (body : TermId) (args : List TermId) : Attempt TermId := do
  if args.length ≠ params.length then throw (.arityMismatch params.length args.length)
  let (inner, residual) ← e.bindLets mode ctx.child lets
  let (inner, kept) ← e.bindArgs mode ctx inner ((params.map (·.1)).zip args)
  wrapResidual (residual ++ kept) (← e.reduce mode inner body)

/-- What is left of a call whose callee is no function: compilation waits for the callee if it is
not a value yet. -/
def callOther (mode : Mode) (callee : TermId) (args : List TermId) : Attempt TermId := do
  if mode = .compile && !(← isValue callee) then Build.apply callee args
  else throw (.notAFunction (← display callee))

/-- Calls a reduced callee with all of its arguments. -/
def call (e : Engine) (mode : Mode) (ctx : Context) (r : Resolution) (callee : TermId)
    (args : List TermId) : Attempt TermId := do
  let (ctx, callee) ← openQuantifiers r (callee.index + 1) ctx callee
  match ← shape callee with
  | .native id =>
    match ← native? id with
    | some registered => e.callNative mode ctx callee registered.native args
    | none => callOther mode callee args
  | .abstraction _ [] _ => callOther mode callee args
  | .abstraction lets params body => e.callAbstraction mode ctx lets params body args
  | _ => callOther mode callee args

/-! ## Partial application -/

/-- Makes a fresh parameter for each remaining position. A position that supplies a quantified
variable renames that variable to its parameter in the types that follow. -/
def freshParams (e : Engine) (undetermined : List VarId) (ctx : Context) :
    List (Slot TermId) → Attempt (List (VarId × TermId))
  | [] => return []
  | slot :: rest => do
    let ty ← e.compile ctx slot.ty
    let v ← Build.freshVariable slot.comptime none
    let vTerm ← Build.variableTerm v
    let ctx ←
      match slot.binds.filter (· ∈ undetermined) with
      | some supplied =>
        let placeholder ← Build.deferred ty .comptime
        Attempt.bind (← Attempt.bind ctx v placeholder) supplied vTerm
      | none => pure ctx
    return (v, ty) :: (← e.freshParams undetermined ctx rest)

/-- A function over the remaining positions that calls the callee with the supplied arguments
followed by its own parameters. Variables that no argument determined stay quantified. -/
def curry (e : Engine) (mode : Mode) (ctx : Context) (r : Resolution) (callee : TermId)
    (args : List TermId) : Attempt TermId := do
  -- Dependent variables are renamed to the fresh parameters that supply them.
  let dependent := r.remaining.filterMap (·.binds)
  let renamed ← bindQuantified ctx.child (r.undetermined.filter (· ∉ dependent))
  let params ← e.freshParams r.undetermined renamed r.remaining
  let own ← Build.variableTerms (params.map (·.1))
  let body ← Build.apply callee (args ++ own)
  let function ← Build.abstraction [] params body
  e.reduce mode ctx (← quantify r.undetermined function)

/-- Reduces arguments, casting each to the type of its position if its own type is another. -/
def reduceArgs (e : Engine) (mode : Mode) (ctx : Context) :
    List (TermId × TermId) → Attempt (List TermId)
  | [] => return []
  | (arg, ty) :: rest => do
    let value ← e.reduce mode ctx arg
    let valueType ← e.infer ctx value
    let value ←
      if valueType = ty then pure value
      else do e.reduce mode ctx (← Build.cast value ty)
    return value :: (← e.reduceArgs mode ctx rest)

/-! ## The rules -/

/-- The value of a variable. A variable that is bound to another one has the value of that one. -/
def reduceVariable (e : Engine) (mode : Mode) (ctx : Context) (t : TermId) (v : VarId) :
    Attempt TermId := do
  match ctx.get? v with
  | none => throwUnbound v
  | some value =>
    match ← shape value with
    | .deferred _ _ =>
      match mode with
      | .compile => return t
      | .evaluate => throwUnavailable v
    | .variable other => if other ≠ v then e.reduce mode ctx value else return value
    | _ => return value

def reduceProjection (e : Engine) (mode : Mode) (ctx : Context) (domain : TermId)
    (field : String) : Attempt TermId := do
  let domain ← e.reduce mode ctx domain
  match ← shape domain with
  | .productValue _ fields =>
    match fields.find? fun f => f.1 = field with
    | some (_, value) => return value
    | none => throw (.missingField field (fieldSuggestions field (fields.map (·.1))))
  | _ =>
    if mode = .compile && !(← isValue domain) then
      -- The member has to exist even though its value is not known yet.
      let _ ← memberType (← e.infer ctx domain) field
      Build.project domain field
    else throw (.notAProduct (← display domain))

/-- A cast to the type that the subject has already is the subject. No other cast between two
known types is possible. -/
def reduceCast (e : Engine) (mode : Mode) (ctx : Context) (subject target : TermId) :
    Attempt TermId := do
  let subject ← e.reduce mode ctx subject
  let target ← e.reduce mode ctx target
  let subjectType ← e.infer ctx subject
  if subjectType = target then return subject
  let s ← get
  if mode = .compile && !(s.isConcrete subjectType && s.isConcrete target) then
    Build.cast subject target
  else throw (.uncastableTypes (s.display subjectType) (s.display target))

def reduceForAll (e : Engine) (mode : Mode) (ctx : Context) (vars : List VarId) (body : TermId) :
    Attempt TermId := do
  let inner ← bindQuantified ctx.child vars
  let function ← quantify vars (← e.compile inner body)
  if mode = .evaluate then ensureAvailable ctx function
  return function

/-- A block is the value of its body. The body of a function is compiled in both modes, since its
parameters have no values. -/
def reduceAbstraction (e : Engine) (mode : Mode) (ctx : Context)
    (lets params : List (VarId × TermId)) (body : TermId) : Attempt TermId := do
  let (inner, residual) ← e.bindLets mode ctx.child lets
  if params.isEmpty then
    wrapResidual residual (← e.reduce mode inner body)
  else
    let (inner, params) ← e.bindParams inner params
    let body ← e.compile inner body
    let function ← Build.abstraction residual params body
    if mode = .evaluate then ensureAvailable inner function
    return function

def reduceApplication (e : Engine) (mode : Mode) (ctx : Context) (callee : TermId)
    (args : List TermId) : Attempt TermId := do
  let r ← e.resolve ctx callee args
  let values ← e.reduceArgs mode ctx (args.zip r.supplied)
  let callee ← e.reduce mode ctx callee
  if r.isSaturated then e.call mode ctx r callee values
  else e.curry mode ctx r callee values

/-- Reduces a term, by its shape. -/
def reduceStep (e : Engine) (mode : Mode) (ctx : Context) (t : TermId) : Attempt TermId := do
  match ← shape t with
  | .variable v => e.reduceVariable mode ctx t v
  | .deferred _ _ =>
    match mode with
    | .compile => return t
    | .evaluate => throw (.valueNotAvailable (← display t))
  | .stringLiteral _ | .numericLiteral _ | .native _ | .typeOfTypes | .unitType | .bottomType
  | .topType | .stringLiteralType _ | .numericLiteralType _ | .namedType _ _ => return t
  | .unitValue ty => Build.unitValue (← e.reduce mode ctx ty)
  | .productValue ty fields =>
    let ty ← e.reduce mode ctx ty
    Build.product ty (← e.reduceNamed mode ctx fields)
  | .functionType params result =>
    let params ← e.reduceSlots mode ctx params
    Build.functionType params (← e.reduce mode ctx result)
  | .productType members => Build.productType (← e.reduceNamed mode ctx members)
  | .projection domain field => e.reduceProjection mode ctx domain field
  | .cast subject target => e.reduceCast mode ctx subject target
  | .forAll vars body => e.reduceForAll mode ctx vars body
  | .abstraction lets params body => e.reduceAbstraction mode ctx lets params body
  | .application callee args => e.reduceApplication mode ctx callee args

end StagedCalculus.Engine
