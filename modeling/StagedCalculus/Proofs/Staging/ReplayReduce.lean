import StagedCalculus.Proofs.Staging.ReplayInfer
import StagedCalculus.Staging.Judgment

/-!
# Replaying reduction

This module follows the rules of reduction over two engines, of which the second one replays the
calls of the first one (`Replay.follows_reduceStep`), and climbs the levels: an engine replays every
engine that has no more levels left than itself (`Replay.engines_ofLevels`).
-/

namespace StagedCalculus

namespace Replay

open Attempt Engine Follows

variable {F : Replay} {e e' : Engine} {s : Store} {mode mode' : Mode}

/-- The second engine reduces in its mode as the first one does in its own. -/
def Reduces (F : Replay) (e e' : Engine) (mode mode' : Mode) : Prop :=
  ∀ ctx t s, F.Follows Any (e.reduce mode ctx t) (e'.reduce mode' ctx t) s

section Rules

variable (hF : F.Lawful) (he : F.Engines e e')

include hF he

/-! ## Residual bindings -/

omit hF he in
theorem follows_inlinable (t : TermId) : F.Follows Any (inlinable t) (inlinable t) s := by
  refine .reads rfl rfl ?_
  split
  · exact .done true
  · exact .withStore (.done _)

theorem follows_bindLets (ctx : Context) (lets : List (VarId × TermId)) :
    F.Follows Any (e.bindLets mode ctx lets) (e'.bindLets mode ctx lets) s := by
  induction lets generalizing s ctx with
  | nil => exact .done _
  | cons b rest ih =>
    refine .next (he.reduce mode ctx b.2 s) fun value s => ?_
    refine .next (follows_inlinable value) fun canInline s => ?_
    split
    · exact .next (.bindContext hF ctx b.1 value) fun ctx s => ih ctx
    · refine .next (he.infer ctx value s) fun ty s => ?_
      refine .next (.intern hF _) fun placeholder s => ?_
      refine .next (.bindContext hF ctx b.1 placeholder) fun ctx s => ?_
      exact .next (ih ctx) fun _ _ => .done _

omit he in
theorem follows_wrapResidual (residual : List (VarId × TermId)) (value : TermId) :
    F.Follows Any (wrapResidual residual value) (wrapResidual residual value) s := by
  unfold wrapResidual
  split
  · exact .done value
  · exact .intern hF _

omit he in
theorem follows_ensureAvailable (ctx : Context) (function : TermId) :
    F.Follows Any (ensureAvailable ctx function) (ensureAvailable ctx function) s := by
  refine .withStore ?_
  have hmissing : (((F.image s).freeVariables function).vars.find? fun v =>
        (ctx.get? v).any fun value => ((F.image s).shape value).isDeferred) =
      (s.freeVariables function).vars.find? fun v =>
        (ctx.get? v).any fun value => (s.shape value).isDeferred := rfl
  dsimp only
  rw [hmissing]
  split
  · exact .reads rfl rfl (.throws hF nofun)
  · exact .done ()

/-! ## Components -/

omit hF he in
theorem follows_reduceNamed (hreduce : F.Reduces e e' mode mode') (ctx : Context)
    (named : List (String × TermId)) :
    F.Follows Any (e.reduceNamed mode ctx named) (e'.reduceNamed mode' ctx named) s := by
  induction named generalizing s with
  | nil => exact .done _
  | cons c rest ih =>
    refine .next (hreduce ctx c.2 s) fun t s => ?_
    exact .next ih fun _ _ => .done _

omit hF he in
theorem follows_reduceSlots (hreduce : F.Reduces e e' mode mode') (ctx : Context)
    (slots : List (Slot TermId)) :
    F.Follows Any (e.reduceSlots mode ctx slots) (e'.reduceSlots mode' ctx slots) s := by
  induction slots generalizing s with
  | nil => exact .done _
  | cons slot rest ih =>
    refine .next (hreduce ctx slot.ty s) fun ty s => ?_
    exact .next ih fun _ _ => .done _

/-! ## Calls -/

omit he in
theorem follows_openQuantifiers (r : Resolution) (bound : Nat) (ctx : Context) (callee : TermId) :
    F.Follows Any (openQuantifiers r bound ctx callee) (openQuantifiers r bound ctx callee) s := by
  induction bound generalizing s ctx callee with
  | zero => exact .done _
  | succ bound ih =>
    refine .reads rfl rfl ?_
    split
    · exact .next (.bindAll hF _ _) fun inner s => ih inner _
    · exact .done _

theorem follows_bindArgs (outer ctx : Context) (args : List (VarId × TermId)) :
    F.Follows Any (e.bindArgs mode outer ctx args) (e'.bindArgs mode outer ctx args) s := by
  induction args generalizing s ctx with
  | nil => exact .done _
  | cons b rest ih =>
    refine .next (follows_inlinable b.2) fun canInline s => ?_
    split
    · exact .next (.bindContext hF ctx b.1 b.2) fun ctx s => ih ctx
    · refine .reads rfl rfl (.reads rfl rfl ?_)
      refine .next (.freshVariable hF _ _) fun fresh s => ?_
      refine .next (.intern hF _) fun freshTerm s => ?_
      refine .next (he.infer outer b.2 s) fun ty s => ?_
      refine .next (.intern hF _) fun placeholder s => ?_
      refine .next (.bindContext hF ctx fresh placeholder) fun ctx s => ?_
      refine .next (.bindContext hF ctx b.1 freshTerm) fun ctx s => ?_
      exact .next (ih ctx) fun _ _ => .done _

theorem follows_callNative {native : Native} (hnative : native.FailsWith F.allowed) (ctx : Context)
    (callee : TermId) (args : List TermId) :
    F.Follows Any (e.callNative mode ctx callee native args)
      (e'.callNative mode ctx callee native args) s := by
  refine .withStore ?_
  change F.Follows Any
    (if mode = .compile && !(native.isPure && args.all s.isValue) then Build.apply callee args
      else e.run ctx (native.call args))
    (if mode = .compile && !(native.isPure && args.all s.isValue) then Build.apply callee args
      else e'.run ctx (native.call args)) s
  split
  · exact .intern hF _
  · exact follows_run hF he (hnative.call args) ctx

theorem follows_callAbstraction (ctx : Context) (lets params : List (VarId × TermId))
    (body : TermId) (args : List TermId) :
    F.Follows Any (e.callAbstraction mode ctx lets params body args)
      (e'.callAbstraction mode ctx lets params body args) s := by
  unfold callAbstraction
  dsimp only
  split
  · exact .fails hF rfl rfl nofun
  refine .next (follows_bindLets hF he ctx.child lets) fun r s => ?_
  refine .next (follows_bindArgs hF he ctx r.1 _) fun kept s => ?_
  exact .next (he.reduce mode kept.1 body s) fun value s => follows_wrapResidual hF _ value

omit he in
theorem follows_callOther (callee : TermId) (args : List TermId) :
    F.Follows Any (callOther mode callee args) (callOther mode callee args) s := by
  refine .reads rfl rfl ?_
  split
  · exact .intern hF _
  · exact .display callee (.throws hF nofun)

theorem follows_call (ctx : Context) (r : Resolution) (callee : TermId) (args : List TermId) :
    F.Follows Any (e.call mode ctx r callee args) (e'.call mode ctx r callee args) s := by
  refine .next (follows_openQuantifiers hF r _ ctx callee) fun opened s => ?_
  obtain ⟨ctx, callee⟩ := opened
  refine .reads rfl rfl ?_
  split
  · refine .withInv fun hs => .reads rfl rfl ?_
    split
    · rename_i id _ registered hnative
      exact follows_callNative hF he (hF.natives hs hnative) ctx callee args
    · exact follows_callOther hF callee args
  · exact follows_callOther hF callee args
  · exact follows_callAbstraction hF he ctx _ _ _ args
  · exact follows_callOther hF callee args

/-! ## Partial application -/

theorem follows_freshParams (undetermined : List VarId) (ctx : Context)
    (slots : List (Slot TermId)) :
    F.Follows Any (e.freshParams undetermined ctx slots) (e'.freshParams undetermined ctx slots)
      s := by
  induction slots generalizing s ctx with
  | nil => exact .done _
  | cons slot rest ih =>
    refine .next (he.compile ctx slot.ty s) fun ty s => ?_
    refine .next (.freshVariable hF _ _) fun v s => ?_
    refine .next (.intern hF _) fun vTerm s => ?_
    have hrest : ∀ (ctx : Context) s,
        F.Follows Any (do return (v, ty) :: (← e.freshParams undetermined ctx rest))
          (do return (v, ty) :: (← e'.freshParams undetermined ctx rest)) s :=
      fun ctx s => .next (ih ctx) fun _ _ => .done _
    cases slot.binds.filter (· ∈ undetermined) with
    | none => exact .next (.done ctx) hrest
    | some supplied =>
      refine .next (.intern hF _) fun placeholder s => ?_
      refine .next (.bindContext hF ctx v placeholder) fun inner s => ?_
      exact .next (.bindContext hF inner supplied vTerm) hrest

theorem follows_curry (hreduce : F.Reduces e e' mode mode') (ctx : Context) (r : Resolution)
    (callee : TermId) (args : List TermId) :
    F.Follows Any (e.curry mode ctx r callee args) (e'.curry mode' ctx r callee args) s := by
  refine .next (.bindQuantified hF ctx.child _) fun renamed s => ?_
  refine .next (follows_freshParams hF he r.undetermined renamed r.remaining) fun params s => ?_
  refine .next (.variableTerms hF _) fun own s => ?_
  refine .next (.intern hF _) fun body s => ?_
  refine .next (.intern hF _) fun function s => ?_
  refine .next (.quantify hF r.undetermined function) fun quantified s => ?_
  exact hreduce ctx quantified s

theorem follows_reduceArgs (ctx : Context) (args : List (TermId × TermId)) :
    F.Follows Any (e.reduceArgs mode ctx args) (e'.reduceArgs mode ctx args) s := by
  induction args generalizing s with
  | nil => exact .done _
  | cons p rest ih =>
    refine .next (he.reduce mode ctx p.1 s) fun value s => ?_
    refine .next (he.infer ctx value s) fun valueType s => ?_
    have hrest : ∀ value s,
        F.Follows Any (do return value :: (← e.reduceArgs mode ctx rest))
          (do return value :: (← e'.reduceArgs mode ctx rest)) s :=
      fun value s => .next ih fun _ _ => .done _
    dsimp only
    split
    · exact .next (.done value) hrest
    · refine .next (.intern hF _) fun cast s => ?_
      exact .next (he.reduce mode ctx cast s) hrest

/-! ## The rules of reduction -/

theorem follows_reduceVariable (ctx : Context) (t : TermId) (v : VarId) :
    F.Follows Any (e.reduceVariable mode ctx t v) (e'.reduceVariable mode ctx t v) s := by
  unfold reduceVariable
  cases ctx.get? v with
  | none => exact .reads rfl rfl (.throws hF nofun)
  | some value =>
    refine .reads rfl rfl ?_
    split
    · cases mode with
      | compile => exact .done t
      | evaluate => exact .reads rfl rfl (.throws hF nofun)
    · split
      · exact he.reduce mode ctx value s
      · exact .done value
    · exact .done value

theorem follows_reduceProjection (ctx : Context) (domain : TermId) (field : String) :
    F.Follows Any (e.reduceProjection mode ctx domain field)
      (e'.reduceProjection mode ctx domain field) s := by
  refine .next (he.reduce mode ctx domain s) fun domain s => .reads rfl rfl ?_
  split
  · split
    · exact .done _
    · exact .throws hF nofun
  · refine .reads rfl rfl ?_
    split
    · refine .next (he.infer ctx domain s) fun ty s => ?_
      exact .next (follows_memberType hF ty field) fun _ _ => .intern hF _
    · exact .display domain (.throws hF nofun)

theorem follows_reduceCast (ctx : Context) (subject target : TermId) :
    F.Follows Any (e.reduceCast mode ctx subject target) (e'.reduceCast mode ctx subject target)
      s := by
  refine .next (he.reduce mode ctx subject s) fun subject s => ?_
  refine .next (he.reduce mode ctx target s) fun target s => ?_
  refine .next (he.infer ctx subject s) fun subjectType s => ?_
  split
  · exact .done subject
  · refine .withStore ?_
    rw [display_image]
    change F.Follows Any
      (if mode = .compile && !(s.isConcrete subjectType && s.isConcrete target) then
          Build.cast subject target
        else throw (.uncastableTypes (s.display subjectType) (s.display target)))
      (if mode = .compile && !(s.isConcrete subjectType && s.isConcrete target) then
          Build.cast subject target
        else throw (.uncastableTypes (s.display subjectType) (s.display target))) s
    split
    · exact .intern hF _
    · exact .throws hF nofun

theorem follows_reduceForAll (ctx : Context) (vars : List VarId) (body : TermId) :
    F.Follows Any (e.reduceForAll mode ctx vars body) (e'.reduceForAll mode ctx vars body) s := by
  refine .next (.bindQuantified hF ctx.child vars) fun inner s => ?_
  refine .next (he.compile inner body s) fun body s => ?_
  refine .next (.quantify hF vars body) fun function s => ?_
  split
  · exact .next (follows_ensureAvailable hF ctx function) fun _ _ => .done function
  · exact .done function

theorem follows_reduceAbstraction (ctx : Context) (lets params : List (VarId × TermId))
    (body : TermId) :
    F.Follows Any (e.reduceAbstraction mode ctx lets params body)
      (e'.reduceAbstraction mode ctx lets params body) s := by
  refine .next (follows_bindLets hF he ctx.child lets) fun r s => ?_
  obtain ⟨inner, residual⟩ := r
  dsimp only
  split
  · exact .next (he.reduce mode inner body s) fun value s => follows_wrapResidual hF residual value
  · refine .next (follows_bindParams hF he inner params) fun q s => ?_
    refine .next (he.compile q.1 body s) fun body s => ?_
    refine .next (.intern hF _) fun function s => ?_
    split
    · exact .next (follows_ensureAvailable hF q.1 function) fun _ _ => .done function
    · exact .done function

theorem follows_reduceApplication (ctx : Context) (callee : TermId) (args : List TermId) :
    F.Follows Any (e.reduceApplication mode ctx callee args)
      (e'.reduceApplication mode ctx callee args) s := by
  refine .next (follows_resolve hF he ctx callee args) fun r s => ?_
  refine .next (follows_reduceArgs hF he ctx _) fun values s => ?_
  refine .next (he.reduce mode ctx callee s) fun callee s => ?_
  split
  · exact follows_call hF he ctx r callee values
  · exact follows_curry hF he (he.reduce mode) ctx r callee values

theorem follows_reduceStep (ctx : Context) (t : TermId) :
    F.Follows Any (e.reduceStep mode ctx t) (e'.reduceStep mode ctx t) s := by
  refine .reads rfl rfl ?_
  cases s.shape t with
  | «variable» v => exact follows_reduceVariable hF he ctx t v
  | deferred ty availability =>
    cases mode with
    | compile => exact .done t
    | evaluate => exact .display t (.throws hF nofun)
  | unitValue ty => exact .next (he.reduce mode ctx ty s) fun _ _ => .intern hF _
  | productValue ty fields =>
    refine .next (he.reduce mode ctx ty s) fun ty s => ?_
    exact .next (follows_reduceNamed (he.reduce mode) ctx fields) fun _ _ => .intern hF _
  | functionType params result =>
    refine .next (follows_reduceSlots (he.reduce mode) ctx params) fun params s => ?_
    exact .next (he.reduce mode ctx result s) fun _ _ => .intern hF _
  | productType members =>
    exact .next (follows_reduceNamed (he.reduce mode) ctx members) fun _ _ => .intern hF _
  | projection domain field => exact follows_reduceProjection hF he ctx domain field
  | cast subject target => exact follows_reduceCast hF he ctx subject target
  | forAll vars body => exact follows_reduceForAll hF he ctx vars body
  | abstraction lets params body => exact follows_reduceAbstraction hF he ctx lets params body
  | application callee args => exact follows_reduceApplication hF he ctx callee args
  | _ => exact .done t

end Rules

/-! ## Levels -/

/-- An engine replays every engine with no more levels left. -/
theorem engines_ofLevels (hF : F.Lawful) {n n' : Nat} (h : n ≤ n') :
    F.Engines (.ofLevels n) (.ofLevels n') := by
  induction n generalizing n' with
  | zero =>
    refine ⟨?_, fun ctx t s => .throwDepth hF, fun mode ctx t s => .throwDepth hF⟩
    rw [levels_ofLevels, levels_ofLevels]
    exact h
  | succ n ih =>
    obtain ⟨n', rfl⟩ : ∃ k, n' = k + 1 := ⟨n' - 1, by omega⟩
    have he : F.Engines (.ofLevels n) (.ofLevels n') := ih (by omega)
    refine ⟨h, fun ctx t s => ?_, fun mode ctx t s => ?_⟩
    · exact follows_inferStep hF he ctx t
    · exact follows_reduceStep hF he ctx t

/-! ## Up to the first failure -/

/-- The replay on the same store of a computation that may give up at any failure. -/
def untilFailure : Replay := ⟨id, fun _ => True, fun _ => True, fun _ => True⟩

theorem lawful_untilFailure : untilFailure.Lawful := by
  constructor
  case natives => exact fun _ _ => Native.failsWith_of_forall (fun _ => trivial) _
  all_goals intros; trivial

/-- However a computation ends, the store only grows. -/
theorem Follows.extends {α : Type} {post : α → Store → Prop} {c c' : Attempt α}
    {r : Except Error α} {s₁ : Store} (h : untilFailure.Follows post c c' s)
    (hrun : c.run s = (r, s₁)) : s.Extends s₁ := by
  have hlater := (h trivial).step.later
  rwa [hrun] at hlater

/-- Every engine replays itself. -/
theorem engines_self (n : Nat) : untilFailure.Engines (.ofLevels n) (.ofLevels n) :=
  engines_ofLevels lawful_untilFailure (Nat.le_refl n)

end Replay

end StagedCalculus
