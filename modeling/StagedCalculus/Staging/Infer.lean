import StagedCalculus.Staging.Callee
import StagedCalculus.Staging.Restriction
import StagedCalculus.Text.Suggestion

/-!
# Type inference

This module gives the rule of each shape for inferring its type. Answers are remembered under what
the term observes of its context.
-/

namespace StagedCalculus

/-- The type of a member of a product type. -/
def Attempt.memberType (ty : TermId) (field : String) : Attempt TermId := do
  match ← Attempt.shape ty with
  | .productType members =>
    match members.find? fun e => e.1 = field with
    | some (_, memberTy) => return memberTy
    | none => throw (.missingField field (fieldSuggestions field (members.map (·.1))))
  | _ => throw (.notAProduct (← Attempt.display ty))

namespace Engine

open Attempt

/-- Binds each variable in turn to its compiled value. -/
def bindCompiled (e : Engine) (ctx : Context) : List (VarId × TermId) → Attempt Context
  | [] => return ctx
  | (v, t) :: rest => do
    let value ← e.compile ctx t
    e.bindCompiled (← Attempt.bind ctx v value) rest

/-- The positions of a function with the given parameters. -/
def plainSlots : List (VarId × TermId) → Attempt (List (Slot TermId))
  | [] => return []
  | (v, ty) :: rest => do
    let comptime ← isComptime v
    return ⟨ty, comptime, none⟩ :: (← plainSlots rest)

/-- Marks a comptime position that other parts of the type mention. -/
def markDependent (free : FreeVariables) (v : VarId) (slot : Slot TermId) : Slot TermId :=
  if slot.comptime && free.contains v then { slot with binds := some v } else slot

/-- The type of a function. A later position or the result may mention a comptime parameter, which
is then quantified and supplied by its own position. -/
def functionTypeOf (params : List (VarId × TermId)) (result : TermId) : Attempt TermId := do
  let slots ← plainSlots params
  -- Whatever the unmarked type leaves open has to be supplied by a position.
  let free ← freeVariables (← Build.functionType slots result)
  let marked := (params.zip slots).map fun e => markDependent free e.1.1 e.2
  Build.forAll (marked.filterMap (·.binds)) (← Build.functionType marked result)

/-- The native that a callee reduces to, if any. Abstractions never do, so they are not
compiled. -/
def nativeCallee (e : Engine) (ctx : Context) (callee : TermId) : Attempt (Option NativeId) := do
  match ← shape callee with
  | .native id => return some id
  | .abstraction _ _ _ | .forAll _ _ => return none
  | _ =>
    match ← shape (← e.compile ctx callee) with
    | .native id => return some id
    | _ => return none

/-- The type that a native gives to a call of its own, if it refines the declared one. -/
def refinedType (e : Engine) (ctx : Context) (callee : TermId) (args : List TermId) :
    Attempt (Option TermId) := do
  match ← e.nativeCallee ctx callee with
  | none => return none
  | some id =>
    match (← native? id).bind (·.native.resultType) with
    | some hook => e.run ctx (hook args)
    | none => return none

/-- The type of an application: the resolved result, or a function type over the remaining
positions. -/
def inferApplication (e : Engine) (ctx : Context) (callee : TermId) (args : List TermId) :
    Attempt TermId := do
  let r ← e.resolve ctx callee args
  if r.isSaturated then return (← e.refinedType ctx callee args).getD r.result
  quantify r.undetermined (← Build.functionType r.remaining r.result)

/-- The type of a term, by its shape. -/
def inferShape (e : Engine) (ctx : Context) (t : TermId) : Attempt TermId := do
  match ← shape t with
  | .variable v =>
    match ctx.get? v with
    | some value => e.infer ctx value
    | none => throwUnbound v
  | .abstraction lets params body =>
    let inner ← e.bindCompiled ctx.child lets
    let (inner, params) ← e.bindParams inner params
    let bodyType ← e.infer inner body
    if params.isEmpty then return bodyType
    functionTypeOf params bodyType
  | .forAll vars body =>
    let inner ← bindQuantified ctx.child vars
    quantify vars (← e.infer inner body)
  | .application callee args => e.inferApplication ctx callee args
  | .projection domain field => memberType (← e.infer ctx domain) field
  -- Whether the subject can be cast is found out when the cast is reduced.
  | .cast _ target => e.compile ctx target
  | .stringLiteral value => Build.stringType value
  | .numericLiteral value => Build.numericType value
  | .unitValue ty | .productValue ty _ | .deferred ty _ => e.compile ctx ty
  | .native id => return (← get).nativeSignature id
  | .typeOfTypes | .unitType | .bottomType | .topType | .functionType _ _ | .productType _
  | .stringLiteralType _ | .numericLiteralType _ | .namedType _ _ => return Store.typeOfTypes

/-- The type of a term, remembered under what the term observes. -/
def inferStep (e : Engine) (ctx : Context) (t : TermId) : Attempt TermId := do
  let restriction ← restrict (e.infer ctx) ctx t
  remembered t restriction (e.inferShape ctx t)

end Engine

end StagedCalculus
