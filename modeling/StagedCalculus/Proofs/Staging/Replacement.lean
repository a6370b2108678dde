import StagedCalculus.Proofs.Staging.Agreement
import StagedCalculus.Proofs.Staging.RepeatsReduce
import StagedCalculus.Proofs.Staging.SideBySide

/-!
# Residual functions in place of their sources

Compilation of a function gives a residual function, which is meant to take the place of the
function in any later call.

* `Attempt.evaluateCall_residual`: it does in every call, complete or not, if it is its own value
  and has the type of its source, and compilation made no variable;
* `Attempt.Staged.evaluateCall_later`: so it does at any later time, if the call of the source made
  no variable either;
* `Attempt.evaluate_refuses_residual`: else it cannot always. The residual function may have another
  type than its source, and a type below two quantifiers cannot be called at all.

Both callees have one type and come to one term, so the two calls go through the same steps, on
stores that differ in the application (`Attempt.Staged.evaluateCall_tree`).
-/

namespace StagedCalculus

open Attempt Correspondence

/-- Terms that evaluation compiles: a function without bindings, or what is quantified. -/
def Store.IsFunction (s : Store) (t : TermId) : Prop :=
  (∃ vars body, s.shape t = .forAll vars body) ∨
    ∃ params body, s.shape t = .abstraction [] params body ∧ params ≠ []

namespace Store.IsFunction

variable {s s' : Store} {t : TermId}

theorem allocated (h : s.IsFunction t) : s.Allocated t := by
  refine Store.allocated_of_shape ?_
  rcases h with ⟨vars, body, hshape⟩ | ⟨params, body, hshape, -⟩
  · rw [hshape]
    exact nofun
  · rw [hshape]
    exact nofun

theorem mono (h : s.IsFunction t) (hle : s.Extends s') : s'.IsFunction t := by
  unfold Store.IsFunction
  rwa [hle.shape_eq h.allocated]

end Store.IsFunction

namespace Attempt

variable {α β : Type} {c : Attempt α} {f : α → Attempt β} {s : Store}

/-- The computation runs out of levels. -/
def LacksDepth (c : Attempt α) (s : Store) : Prop :=
  ∃ limit, (c.run s).1 = .error (.depthExceeded limit)

theorem LacksDepth.bind (h : LacksDepth c s) : LacksDepth (c >>= f) s := by
  obtain ⟨limit, h⟩ := h
  refine ⟨limit, ?_⟩
  rw [run_bind]
  rcases hrun : c.run s with ⟨e | a, s'⟩
  · rw [hrun] at h
    cases h
    rfl
  · rw [hrun] at h
    cases h

theorem run_bind_of_ok {a : α} {s' : Store} (hrun : c.run s = (.ok a, s')) :
    (c >>= f).run s = (f a).run s' := by
  rw [run_bind, hrun]

/-- Applies a term of the store, and evaluates the application. -/
def evaluateCall (ctx : Context) (callee : TermId) (args : List TermId) : Attempt TermId := do
  evaluate ctx (← Build.apply callee args)

/-- Compiles a function. Gives the residual function, what that evaluates to, and the types of the
function and its residual. -/
def stage (ctx : Context) (function : TermId) : Attempt (TermId × TermId × TermId × TermId) := do
  let residual ← compile ctx function
  let value ← evaluate ctx residual
  return (residual, value, ← infer ctx function, ← infer ctx residual)

end Attempt

/-! ## Fewer levels -/

namespace Replay

open Engine

/-- The replay with more levels, on the same store. -/
def moreLevels : Replay where
  config := id
  excused e := ∃ limit, e = .depthExceeded limit
  allowed _ := True
  inv _ := True

theorem lawful_moreLevels : moreLevels.Lawful where
  intern _ _ := trivial
  freshVariable _ _ _ := trivial
  withOutput _ _ := trivial
  remember _ _ _ _ _ := trivial
  remembered _ _ := trivial
  natives _ _ := Native.failsWith_of_forall (fun _ => trivial) _
  ordinary _ := trivial
  limit _ := trivial
  depth limit := ⟨limit, rfl⟩

theorem lacks_or_eq {c c' : Attempt TermId} {s : Store} (h : moreLevels.Follows Any c c' s) :
    LacksDepth c s ∨ c'.run s = c.run s := by
  by_cases hlacks : LacksDepth c s
  · exact Or.inl hlacks
  · refine Or.inr ((h trivial).same fun e he hexcused => hlacks ?_)
    obtain ⟨limit, rfl⟩ := hexcused
    exact ⟨limit, he⟩

/-- Where a function is evaluated, a greater level compiles it to the same residual. -/
theorem follows_function {n m : Nat} (h : n ≤ m) {s : Store} {t : TermId} (ht : s.IsFunction t)
    (ctx : Context) : untilFailure.Follows Any ((ofLevels n).reduce .evaluate ctx t)
      ((ofLevels m).reduce .compile ctx t) s := by
  cases n with
  | zero => exact .of_error rfl
  | succ n =>
    obtain ⟨m, rfl⟩ : ∃ k, m = k + 1 := Nat.exists_eq_succ_of_ne_zero (by omega)
    have he : untilFailure.Engines (.ofLevels n) (.ofLevels m) :=
      engines_ofLevels lawful_untilFailure (Nat.le_of_succ_le_succ h)
    rw [reduce_ofLevels, reduce_ofLevels]
    refine .reads rfl rfl ?_
    rcases ht with ⟨vars, body, hshape⟩ | ⟨params, body, hshape, hparams⟩
    · rw [hshape]
      exact agrees_reduceForAll he ctx vars body
    · rw [hshape]
      have hfunction : params.isEmpty = false := by simpa using hparams
      refine .next (.done (ctx.child, [])) fun r s => ?_
      rw [hfunction]
      refine .next (follows_bindParams lawful_untilFailure he r.1 params) fun q s => ?_
      refine .next (he.compile q.1 body s) fun body s => ?_
      refine .next (.intern lawful_untilFailure _) fun function s => ?_
      exact .checks (run_ensureAvailable q.1 function s) fun _ => .done function

end Replay

namespace Engine

variable {n : Nat} {s s' later : Store} {ctx : Context} {mode : Mode} {t u : TermId}

/-- A level of inference lacks depth or does what inference does. -/
theorem infer_level (h : n ≤ s.config.maxDepth) : LacksDepth ((ofLevels n).infer ctx t) s ∨
    (Attempt.infer ctx t).run s = ((ofLevels n).infer ctx t).run s :=
  Replay.lacks_or_eq ((Replay.engines_ofLevels Replay.lawful_moreLevels h).infer ctx t s)

theorem reduce_level (h : n ≤ s.config.maxDepth) : LacksDepth ((ofLevels n).reduce mode ctx t) s ∨
    (Attempt.reduce mode ctx t).run s = ((ofLevels n).reduce mode ctx t).run s :=
  Replay.lacks_or_eq ((Replay.engines_ofLevels Replay.lawful_moreLevels h).reduce mode ctx t s)

theorem compile_of_level (h : n ≤ s.config.maxDepth) (hfunction : s.IsFunction t)
    (hrun : ((ofLevels n).reduce .evaluate ctx t).run s = (.ok u, s')) :
    (Attempt.compile ctx t).run s = (.ok u, s') := by
  have hends := Replay.follows_function h hfunction ctx trivial
  rw [hrun] at hends
  exact hends.same nofun

/-! ## The parts of a call -/

/-- What is done for a call before the callee is reduced, once its type is known. -/
def prepare (e : Engine) (mode : Mode) (ctx : Context) (ty : TermId) (args : List TermId) :
    Attempt (Resolution × List TermId) := do
  let r ← e.resolveTyped ctx ty args
  return (r, ← e.reduceArgs mode ctx (args.zip r.supplied))

/-- What is done afterwards. -/
def finish (e : Engine) (mode : Mode) (ctx : Context) (callee : TermId)
    (prepared : Resolution × List TermId) : Attempt TermId :=
  if prepared.1.isSaturated then e.call mode ctx prepared.1 callee prepared.2
  else e.curry mode ctx prepared.1 callee prepared.2

theorem reduceApplication_eq (e : Engine) (mode : Mode) (ctx : Context) (callee : TermId)
    (args : List TermId) : e.reduceApplication mode ctx callee args = (do
      let ty ← e.infer ctx callee
      let prepared ← e.prepare mode ctx ty args
      e.finish mode ctx (← e.reduce mode ctx callee) prepared) := by
  simp only [reduceApplication, resolve_eq, prepare, finish, bind_assoc, pure_bind]

theorem run_reduceStep_application {e : Engine} {callee : TermId} {args : List TermId}
    (h : s.shape t = .application callee args) : (e.reduceStep mode ctx t).run s =
      (e.reduceApplication mode ctx callee args).run s := by
  have hrun : ∀ f : Shape TermId → Attempt TermId,
      (Attempt.shape t >>= f).run s = (f (s.shape t)).run s := fun _ => rfl
  unfold reduceStep
  rw [hrun, h]

section Parts

variable {C : Correspondence} {e e' : Engine} {ctx' : Context} {ty ty' callee callee' : TermId}
  {args args' : List TermId} {prepared prepared' : Resolution × List TermId}

variable (mode)

/-- Preparations of calls that stand for each other. -/
abbrev Prepared (C : Correspondence) : Post (Resolution × List TermId) := fun s s' p p' =>
  (C.like s s').Resolves p.1 p'.1 ∧ List.Forall₂ (C.like s s').term p.2 p'.2

theorem corresponds_prepare (hC : C.Steady) (he : C.Engines e e') (hctx : C.scope s s' ctx ctx')
    (hty : (C.like s s').term ty ty') (hargs : List.Forall₂ (C.like s s').term args args') :
    C.Corresponds (Prepared C) (e.prepare mode ctx ty args) (e'.prepare mode ctx' ty' args')
      s s' := by
  refine .bind (corresponds_resolveTyped hC he hctx hty hargs) fun r r' s₁ s₁' h₁ hr => ?_
  have hzip := rel_zip (h₁.terms hC hargs) hr.supplied
  refine .bind (corresponds_reduceArgs hC he (h₁.scope hC hctx) hzip)
    fun values values' s₂ s₂' h₂ hvalues => ?_
  exact .pure ⟨h₂.resolves hC hr, hvalues⟩

theorem corresponds_finish (hC : C.Steady) (he : C.Engines e e') (hctx : C.scope s s' ctx ctx')
    (hcallee : (C.like s s').term callee callee') (hprepared : Prepared C s s' prepared prepared') :
    C.Corresponds C.Terms (e.finish mode ctx callee prepared)
      (e'.finish mode ctx' callee' prepared') s s' := by
  unfold finish
  rw [hprepared.1.isSaturated_eq]
  split
  · exact corresponds_call hC he hprepared.1 hctx hcallee hprepared.2
  · exact corresponds_curry hC he hprepared.1 hctx hcallee hprepared.2

theorem repeats_prepare (hown : itself.Engines e e) (he : Repeating e)
    (hctx : itself.scope s s ctx ctx) (hty : (itself.like s s).term ty ty)
    (hargs : List.Forall₂ (itself.like s s).term args args) :
    Repeats (e.prepare mode ctx ty args) s := by
  have hC := lawful_itself.toSteady
  refine .bind (corresponds_resolveTyped hC hown hctx hty hargs)
    (repeats_resolveTyped hC hown he hctx hty hargs) fun r s₁ h₁ hr => ?_
  exact .map (repeats_reduceArgs hC hown he (h₁.scope hC hctx)
    (rel_zip (h₁.terms hC hargs) hr.supplied)) _

theorem repeats_finish (hown : itself.Engines e e) (he : Repeating e)
    (hctx : itself.scope s s ctx ctx) (hcallee : (itself.like s s).term callee callee)
    (hprepared : Prepared itself s s prepared prepared) :
    Repeats (e.finish mode ctx callee prepared) s := by
  have hC := lawful_itself.toSteady
  unfold finish
  split
  · exact repeats_call hC hown he hprepared.1 hctx hcallee hprepared.2
  · exact repeats_curry hC hown he hprepared.1 hctx hcallee hprepared.2

end Parts

end Engine

/-! ## The residual of a function -/

namespace Attempt

open Engine

variable {s s' s₁ s₂ s₃ later : Store} {ctx : Context} {function residual ty v : TermId}
  {args : List TermId} {n : Nat}

/-- From this store on, a function compiles to a residual function that is its own value and has the
same type. -/
structure Staged (ctx : Context) (function residual ty : TermId) (s : Store) : Prop where
  intact : s.Intact
  scope : itself.scope s s ctx ctx
  source : s.IsFunction function
  target : s.Allocated residual
  type : s.Allocated ty
  compiles : ∀ later, s.Precedes later →
    ∃ text, (compile ctx function).run later = (.ok residual, later.wrote text)
  evaluates : ∀ later, s.Precedes later →
    ∃ text, (evaluate ctx residual).run later = (.ok residual, later.wrote text)
  sourceType : ∀ later, s.Precedes later → (infer ctx function).run later = (.ok ty, later)
  targetType : ∀ later, s.Precedes later → (infer ctx residual).run later = (.ok ty, later)

/-- What was found out while the function was staged is the same from then on. -/
theorem staged_of_stage (hs : s.Intact) (hctx : itself.scope s s ctx ctx)
    (hfunction : s.IsFunction function)
    (hstage : (stage ctx function).run s = (.ok (residual, residual, ty, ty), s'))
    (hquiet : s'.vars.size = s.vars.size) :
    s.Precedes s' ∧ Staged ctx function residual ty s' := by
  have hC := lawful_itself.toSteady
  have hsource := hfunction.allocated
  obtain ⟨_, s₁, hcompile, hstage⟩ := run_bind_ok hstage
  obtain ⟨_, s₂, hevaluate, hstage⟩ := run_bind_ok hstage
  obtain ⟨_, s₃, htype, hstage⟩ := run_bind_ok hstage
  obtain ⟨_, s₄, htype', hstage⟩ := run_bind_ok hstage
  cases hstage
  obtain ⟨h₁, hresidual⟩ := owned_of_ok (corresponds_reduce lawful_itself hctx ⟨rfl, hsource⟩) hs
    hcompile
  obtain ⟨hle₁, hagain₁⟩ := reduce_repeats hctx hsource hs _ _ hcompile
  have hctx₁ := h₁.scope hC hctx
  obtain ⟨hle₂, hagain₂⟩ := reduce_repeats hctx₁ hresidual.2 hle₁.intact _ _ hevaluate
  have hctx₂ := (hle₂.leads hle₁.intact).scope hC hctx₁
  have hsource₂ := (hle₁.trans hle₂).allocated hsource
  obtain ⟨hle₃, hagain₃⟩ := infer_remembers hle₂.intact hctx₂ hsource₂ htype
  have hctx₃ := (hle₃.leads hle₂.intact).scope hC hctx₂
  have hresidual₃ := (hle₂.trans hle₃).allocated hresidual.2
  obtain ⟨h₄, hty⟩ := owned_of_ok (corresponds_infer lawful_itself hctx₃ ⟨rfl, hresidual₃⟩)
    hle₃.intact htype'
  obtain ⟨hle₄, hagain₄⟩ := infer_remembers hle₃.intact hctx₃ hresidual₃ htype'
  have hsizes : s.vars.size ≤ s₁.vars.size ∧ s₁.vars.size ≤ s₂.vars.size ∧
      s₂.vars.size ≤ s₃.vars.size ∧ s₃.vars.size ≤ s'.vars.size :=
    ⟨hle₁.size_vars, hle₂.size_vars, hle₃.size_vars, hle₄.size_vars⟩
  obtain ⟨text₁, hagain₁⟩ := hagain₁ (by omega)
  obtain ⟨text₂, hagain₂⟩ := hagain₂ (by omega)
  have hle₃₄ := hle₃.trans hle₄
  have hle₂₄ := hle₂.trans hle₃₄
  refine ⟨hle₁.trans hle₂₄, ?_⟩
  exact
    { intact := hle₄.intact
      scope := h₄.scope hC hctx₃
      source := hfunction.mono (hle₁.trans hle₂₄).toExtends
      target := hle₂₄.allocated hresidual.2
      type := hty.2
      compiles := fun later hle => ⟨text₁, hagain₁ later (hle₂₄.trans hle)⟩
      evaluates := fun later hle => ⟨text₂, hagain₂ later (hle₃₄.trans hle)⟩
      sourceType := fun later hle => hagain₃ later (hle₄.trans hle)
      targetType := hagain₄ }

namespace Staged

theorem mono (h : Staged ctx function residual ty s) (hle : s.Precedes later) :
    Staged ctx function residual ty later where
  intact := hle.intact
  scope := (hle.leads h.intact).scope lawful_itself.toSteady h.scope
  source := h.source.mono hle.toExtends
  target := hle.allocated h.target
  type := hle.allocated h.type
  compiles _ hlater := h.compiles _ (hle.trans hlater)
  evaluates _ hlater := h.evaluates _ (hle.trans hlater)
  sourceType _ hlater := h.sourceType _ (hle.trans hlater)
  targetType _ hlater := h.targetType _ (hle.trans hlater)

/-! What a level makes of the function and its residual. -/

theorem infer_source (h : Staged ctx function residual ty s) (hdepth : n ≤ s.config.maxDepth)
    {ty' : TermId} (hrun : ((ofLevels n).infer ctx function).run s = (.ok ty', s')) :
    ty' = ty ∧ s' = s := by
  have hinfer := h.sourceType s (.refl h.intact)
  have hlevel : _ ∨ (infer ctx function).run s = ((ofLevels n).infer ctx function).run s :=
    infer_level hdepth
  rcases hlevel with ⟨limit, hlacks⟩ | hsame
  · rw [hrun] at hlacks
    cases hlacks
  · rw [hsame, hrun] at hinfer
    cases hinfer
    exact ⟨rfl, rfl⟩

theorem evaluate_source (h : Staged ctx function residual ty s) (hdepth : n ≤ s.config.maxDepth)
    {value : TermId}
    (hrun : ((ofLevels n).reduce .evaluate ctx function).run s = (.ok value, s')) :
    value = residual ∧ ∃ text, s' = s.wrote text := by
  obtain ⟨text, hcompile⟩ := h.compiles s (.refl h.intact)
  rw [compile_of_level hdepth h.source hrun] at hcompile
  cases hcompile
  exact ⟨rfl, text, rfl⟩

theorem infer_target (h : Staged ctx function residual ty s) (hdepth : n ≤ s.config.maxDepth) :
    LacksDepth ((ofLevels n).infer ctx residual) s ∨
      ((ofLevels n).infer ctx residual).run s = (.ok ty, s) :=
  (infer_level hdepth).imp id fun hsame =>
    hsame.symm.trans (h.targetType s (.refl h.intact))

theorem evaluate_target (h : Staged ctx function residual ty s) (hdepth : n ≤ s.config.maxDepth) :
    LacksDepth ((ofLevels n).reduce .evaluate ctx residual) s ∨
      ∃ text,
        ((ofLevels n).reduce .evaluate ctx residual).run s = (.ok residual, s.wrote text) := by
  obtain ⟨text, hevaluate⟩ := h.evaluates s (.refl h.intact)
  exact (reduce_level hdepth).imp id fun hsame => ⟨text, hsame.symm.trans hevaluate⟩

/-- A call of the function prepares for the call, and then finishes it with the residual. -/
theorem call_source (h : Staged ctx function residual ty s) (hdepth : n ≤ s.config.maxDepth)
    (hargs : List.Forall₂ (itself.like s s).term args args)
    (hcall : ((ofLevels n).reduceApplication .evaluate ctx function args).run s = (.ok v, s')) :
    ∃ prepared s₁ text, ((ofLevels n).prepare .evaluate ctx ty args).run s = (.ok prepared, s₁) ∧
      s.Precedes s₁ ∧ Prepared itself s₁ s₁ prepared prepared ∧
      ((ofLevels n).finish .evaluate ctx residual prepared).run (s₁.wrote text) = (.ok v, s') := by
  have hown := engines_ofLevels lawful_itself n
  have hty : (itself.like s s).term ty ty := ⟨rfl, h.type⟩
  rw [reduceApplication_eq] at hcall
  obtain ⟨ty', s₀, hinfer, hrest⟩ := run_bind_ok hcall
  obtain ⟨rfl, rfl⟩ := h.infer_source hdepth hinfer
  obtain ⟨prepared, s₁, hprepare, hrest⟩ := run_bind_ok hrest
  obtain ⟨value, s₂, hreduce, hfinish⟩ := run_bind_ok hrest
  obtain ⟨-, hprepared⟩ := owned_of_ok
    (corresponds_prepare .evaluate lawful_itself.toSteady hown h.scope hty hargs) h.intact hprepare
  have hle := (repeats_prepare .evaluate hown (repeating_ofLevels n) h.scope hty hargs h.intact _ _
    hprepare).1
  obtain ⟨rfl, text, rfl⟩ := (h.mono hle).evaluate_source (hle.sameConfig ▸ hdepth) hreduce
  exact ⟨prepared, s₁, text, hprepare, hle, hprepared, hfinish⟩

/-- A call of the residual does the same, or lacks depth. -/
theorem call_target (h : Staged ctx function residual ty s) (hdepth : n ≤ s.config.maxDepth)
    {prepared : Resolution × List TermId}
    (hprepare : ((ofLevels n).prepare .evaluate ctx ty args).run s = (.ok prepared, s₁))
    (hle : s.Precedes s₁) :
    LacksDepth ((ofLevels n).reduceApplication .evaluate ctx residual args) s ∨
      ∃ text, ((ofLevels n).reduceApplication .evaluate ctx residual args).run s =
        ((ofLevels n).finish .evaluate ctx residual prepared).run (s₁.wrote text) := by
  rw [reduceApplication_eq]
  rcases h.infer_target hdepth with hlacks | hinfer
  · exact Or.inl hlacks.bind
  unfold LacksDepth
  rw [run_bind_of_ok hinfer, run_bind_of_ok hprepare]
  rcases (h.mono hle).evaluate_target (hle.sameConfig ▸ hdepth) with hlacks | ⟨text, hreduce⟩
  · exact Or.inl hlacks.bind
  · exact Or.inr ⟨text, by rw [run_bind_of_ok hreduce]⟩

end Staged

/-! ## Calls of either -/

theorem run_evaluateCall (hs : s.config.maxDepth = n + 1) (callee : TermId) (args : List TermId) :
    (evaluateCall ctx callee args).run s =
      ((ofLevels n).reduceApplication .evaluate ctx callee args).run
        (s.intern (.application callee args)).2 := by
  have hrun : (evaluateCall ctx callee args).run s =
      ((ofLevels (s.intern (.application callee args)).2.config.maxDepth).reduce .evaluate ctx
        (s.intern (.application callee args)).1).run (s.intern (.application callee args)).2 := rfl
  rw [hrun, Store.config_intern, hs, reduce_ofLevels]
  exact run_reduceStep_application (Store.shape_intern nofun)

/-- A call that comes to a value has a level to be made at. -/
theorem exists_level {callee : TermId}
    (hcall : (evaluateCall ctx callee args).run s = (.ok v, s')) :
    ∃ n, s.config.maxDepth = n + 1 := by
  refine Nat.exists_eq_succ_of_ne_zero fun hzero => ?_
  have hrun : (evaluateCall ctx callee args).run s =
      ((ofLevels (s.intern (.application callee args)).2.config.maxDepth).reduce .evaluate ctx
        (s.intern (.application callee args)).1).run (s.intern (.application callee args)).2 := rfl
  rw [hrun, Store.config_intern, hzero] at hcall
  cases hcall

theorem covers_application {callee : TermId} (hcallee : s.Allocated callee)
    (hargs : ∀ arg ∈ args, s.Allocated arg) : s.Covers (.application callee args) := by
  refine Store.covers_of_children rfl rfl fun child hchild => ?_
  rcases List.mem_cons.1 hchild with rfl | harg
  · exact hcallee
  · exact hargs child harg

namespace Staged

variable (h : Staged ctx function residual ty s) (hargs : ∀ arg ∈ args, s.Allocated arg)

include h hargs

/-- Where either is applied it is still staged, and there is a level left. -/
theorem applied {callee : TermId} (hcallee : s.Allocated callee) :
    s.Precedes (s.intern (.application callee args)).2 ∧
      Staged ctx function residual ty (s.intern (.application callee args)).2 ∧
      (List.Forall₂ (itself.like (s.intern (.application callee args)).2
        (s.intern (.application callee args)).2).term args args) := by
  have hle := Store.Precedes.intern h.intact (covers_application hcallee hargs)
  exact ⟨hle, h.mono hle, Likeness.terms_diagonal.2 ⟨rfl, fun arg harg =>
    hle.allocated (hargs arg harg)⟩⟩

/-- A call of a staged function and that of its residual come to the same tree. -/
theorem evaluateCall_tree (hstandard : s.Standard) (hkeyed : s.Keyed)
    (hcall : (evaluateCall ctx function args).run s = (.ok v, s')) :
    LacksDepth (evaluateCall ctx residual args) s ∨
      ∃ v' s'', (evaluateCall ctx residual args).run s = (.ok v', s'') ∧
        s'.tree v = s''.tree v' := by
  obtain ⟨n, hdepth⟩ := exists_level hcall
  have hC := Renaming.lawful (ρ := .identity hstandard) hstandard
  have hengines := engines_ofLevels hC n
  -- Each application enters the store.
  obtain ⟨hle, hleft, hargsLeft⟩ := h.applied hargs h.source.allocated
  obtain ⟨hle', hright, hargsRight⟩ := h.applied hargs h.target
  have hbeside := Renaming.alongside_interned (h := hstandard) h.intact hkeyed
    (covers_application h.source.allocated hargs) (covers_application h.target hargs)
  have hlevel : ∀ {s₁}, s.Precedes s₁ → n ≤ s₁.config.maxDepth := fun hle => by
    rw [hle.sameConfig, hdepth]
    exact Nat.le_succ n
  rw [run_evaluateCall hdepth] at hcall
  unfold LacksDepth
  rw [run_evaluateCall hdepth]
  -- The preparation is the same on both sides.
  obtain ⟨prepared, s₁, text, hprepare, -, -, hfinish⟩ :=
    hleft.call_source (hlevel hle) hargsLeft hcall
  have hlike := Renaming.le_identity (h := hstandard) h.intact hle.toExtends hle'.toExtends
  have hterms : List.Forall₂ (itself.like s s).term args args :=
    Likeness.terms_diagonal.2 ⟨rfl, hargs⟩
  have hends := corresponds_prepare .evaluate hC.toSteady hengines (hlike.scope h.scope)
    (hlike.term ⟨rfl, h.type⟩) (hlike.terms hterms) hbeside
  rw [hprepare] at hends
  generalize hprepare' : ((ofLevels n).prepare .evaluate ctx ty args).run
    (s.intern (.application residual args)).2 = r' at hends
  cases hends with
  | @gives _ prepared' _ s₁' hleads hprepared =>
    have hle₁' := (repeats_prepare .evaluate (engines_ofLevels lawful_itself n)
      (repeating_ofLevels n) hright.scope ⟨rfl, hright.type⟩ hargsRight hright.intact _ _
      hprepare').1
    rcases hright.call_target (hlevel hle') hprepare' hle₁' with hlacks | ⟨text', hsame⟩
    · exact Or.inl hlacks
    · refine Or.inr ?_
      rw [hsame]
      have hwrote : (Renaming.identity hstandard).alongside.Leads s₁ s₁' (s₁.wrote text)
          (s₁'.wrote text') := ⟨hleads.after, hleads.after.wrote text text',
        Store.extends_write s₁ text, Store.extends_write s₁' text'⟩
      have hleads' := hleads.trans hwrote
      have hends := corresponds_finish .evaluate hC.toSteady hengines
        (hleads'.scope hC.toSteady (hlike.scope h.scope))
        (hleads'.term hC.toSteady (hlike.term ⟨rfl, h.target⟩))
        ⟨hwrote.resolves hC.toSteady hprepared.1, hwrote.terms hC.toSteady hprepared.2⟩ hwrote.after
      rw [hfinish] at hends
      generalize ((ofLevels n).finish .evaluate ctx residual prepared').run (s₁'.wrote text') = r
        at hends ⊢
      cases hends with
      | gives hleads₂ hv =>
        have hafter := hleads₂.after
        exact ⟨_, _, rfl, Renaming.tree_eq hafter.left.toLinked hafter.right.toLinked hv⟩

/-- If the call of the function made no variable, then that of its residual comes to the same term
at any later time. -/
theorem evaluateCall_later (hcall : (evaluateCall ctx function args).run s = (.ok v, s'))
    (hquiet : s'.vars.size = s.vars.size) (hlater : s'.Precedes later) :
    LacksDepth (evaluateCall ctx residual args) later ∨
      ((evaluateCall ctx residual args).run later).1 = .ok v := by
  have hC := lawful_itself.toSteady
  obtain ⟨n, hdepth⟩ := exists_level hcall
  have hlevel : ∀ {s₁}, s.Precedes s₁ → s₁.config.maxDepth = n + 1 := fun hle => by
    rw [hle.sameConfig, hdepth]
  have hown := engines_ofLevels lawful_itself n
  have he := repeating_ofLevels n
  obtain ⟨hle, hleft, hargsLeft⟩ := h.applied hargs h.source.allocated
  rw [run_evaluateCall hdepth] at hcall
  obtain ⟨prepared, s₁, text, hprepare, hle₁, hprepared, hfinish⟩ :=
    hleft.call_source ((hlevel hle).symm ▸ Nat.le_succ n) hargsLeft hcall
  have hstaged₁ := hleft.mono hle₁
  have hwrote : s₁.Precedes (s₁.wrote text) := .wrote (.refl hle₁.intact) text
  have hstaged₂ := hstaged₁.mono hwrote
  have hleads := hwrote.leads hle₁.intact
  -- Both parts of the first call repeat themselves.
  obtain ⟨-, hagain₁⟩ := repeats_prepare .evaluate hown he hleft.scope ⟨rfl, hleft.type⟩
    hargsLeft hleft.intact _ _ hprepare
  obtain ⟨hle₂, hagain₂⟩ := repeats_finish .evaluate hown he hstaged₂.scope
    ⟨rfl, hstaged₂.target⟩ ⟨hleads.resolves hC hprepared.1, hleads.terms hC hprepared.2⟩
    hstaged₂.intact _ _ hfinish
  have hsizes : s.vars.size ≤ (s.intern (.application function args)).2.vars.size ∧
      (s.intern (.application function args)).2.vars.size ≤ s₁.vars.size ∧
      s₁.vars.size ≤ (s₁.wrote text).vars.size ∧ (s₁.wrote text).vars.size ≤ s'.vars.size :=
    ⟨hle.size_vars, hle₁.size_vars, hwrote.size_vars, hle₂.size_vars⟩
  obtain ⟨text₁, hagain₁⟩ := hagain₁ (by omega)
  obtain ⟨text₂, hagain₂⟩ := hagain₂ (by omega)
  -- The second call goes through the same parts.
  have hsince := hle.trans (hle₁.trans (hwrote.trans (hle₂.trans hlater)))
  obtain ⟨hle', hright, -⟩ := (h.mono hsince).applied
    (fun arg harg => hsince.allocated (hargs arg harg)) (hsince.allocated h.target)
  have hlast : s'.Precedes (later.intern (.application residual args)).2 := hlater.trans hle'
  unfold LacksDepth
  rw [run_evaluateCall (hlevel hsince)]
  rcases hright.call_target ((hlevel (hsince.trans hle')).symm ▸ Nat.le_succ n)
    (hagain₁ _ (hwrote.trans (hle₂.trans hlast))) (.wrote (.refl hle'.intact) text₁) with
    hlacks | ⟨text', hsame⟩
  · exact Or.inl hlacks
  · rw [hsame, hagain₂ _ ((hlast.wrote text₁).wrote text')]
    exact Or.inr rfl

end Staged

/-! ## New stores -/

theorem corresponds_stage {C : Correspondence} (hC : C.Lawful) {ctx' : Context}
    {function' : TermId} (hctx : C.scope s s' ctx ctx')
    (hfunction : (C.like s s').term function function') :
    C.Corresponds (fun _ _ _ _ => True) (stage ctx function) (stage ctx' function') s s' := by
  refine .bind (corresponds_reduce hC hctx hfunction) fun residual residual' s₁ s₁' h₁ hr => ?_
  have hctx₁ := h₁.scope hC.toSteady hctx
  refine .bind (corresponds_reduce hC hctx₁ hr) fun value value' s₂ s₂' h₂ _ => ?_
  have hctx₂ := h₂.scope hC.toSteady hctx₁
  refine .bind (corresponds_infer hC hctx₂ ((h₁.trans h₂).term hC.toSteady hfunction))
    fun ty ty' s₃ s₃' h₃ _ => ?_
  refine .bind (corresponds_infer hC (h₃.scope hC.toSteady hctx₂)
    ((h₂.trans h₃).term hC.toSteady hr)) fun _ _ s₄ s₄' h₄ _ => .pure trivial

/-- Staging keeps the keys of what is remembered in order. -/
theorem keyed_of_stage {staged : TermId × TermId × TermId × TermId} (hs : s.Intact)
    (hkeyed : s.Keyed) (hctx : itself.scope s s ctx ctx) (hfunction : s.Allocated function)
    (hstage : (stage ctx function).run s = (.ok staged, s')) : s'.Keyed := by
  have hscope : keyed.scope s s ctx ctx := hctx
  have hends := corresponds_stage lawful_keyed hscope ⟨rfl, hfunction⟩ ⟨rfl, hs, hkeyed⟩
  rw [hstage] at hends
  cases hends with
  | gives hleads _ => exact hleads.after.2.2

/-- A residual function that is its own value and has the type of its source takes the place of the
source in every call, complete or not: where the source is called with a result, so is the residual,
unless depth is lacking. The results are the same tree. -/
theorem evaluateCall_residual (hs : s.Built) (hctx : ∀ handle ∈ ctx.handles, s.Owns handle)
    (hfunction : s.IsFunction function) (hargs : ∀ arg ∈ args, s.Allocated arg)
    (hstage : (stage ctx function).run s = (.ok (residual, residual, ty, ty), s₁))
    (hquiet : s₁.vars.size = s.vars.size)
    (hcall : (evaluateCall ctx function args).run s₁ = (.ok v, s₂)) :
    LacksDepth (evaluateCall ctx residual args) s₁ ∨
      ∃ v' s₂', (evaluateCall ctx residual args).run s₁ = (.ok v', s₂') ∧
        s₂.tree v = s₂'.tree v' := by
  have hintact := hs.genuine.intact
  obtain ⟨hle, hstaged⟩ := staged_of_stage hintact (scope_itself hctx) hfunction hstage hquiet
  have hkeyed := keyed_of_stage hintact hs.keyed (scope_itself hctx) hfunction.allocated hstage
  have hstandard : s₁.Standard := by
    refine ⟨?_, ?_⟩
    · rw [hle.sameNatives, hle.sameConfig, hs.natives_eq]
    · rw [hle.sameConfig]
      exact hs.extends_initial.trans hle.toExtends
  exact hstaged.evaluateCall_tree (fun arg harg => hle.allocated (hargs arg harg)) hstandard hkeyed
    hcall

end Attempt

namespace Sample

open Build

/-- `fn(x: Unit, y: Unit) => (x as Unit)`, and the argument `Unit{}` for `x`. -/
def castFirst : Build (TermId × List TermId) := do
  let x ← freshVariable false (some "x")
  let y ← freshVariable false (some "y")
  let body ← cast (← variableTerm x) Store.unitType
  let function ← abstraction [] [(x, Store.unitType), (y, Store.unitType)] body
  return (function, [← unitValue Store.unitType])

seal Store.intern Store.initial in
/-- The function and its argument in a new store. -/
def castFirstCall : Store.Setup (TermId × List TermId) := castFirst.setup <| by
  repeat' apply Store.Built.add
  · exact fun _ : True => .freshVariable _ _ (.freshVariable _ _ (.initial {}))
  · decide +kernel

end Sample

namespace Attempt

open Sample

/-- The residual function is `fn(x: Unit, y: Unit) => x`, and each of the calls leaves a function of
`y` behind, whose parameter is a new variable. -/
theorem evaluateCall_residual_castFirst :
    ∃ s : Store, s.Built ∧ ∃ function residual ty v args s₁ s₂, s.IsFunction function ∧
      residual ≠ function ∧ (∀ arg ∈ args, s.Allocated arg) ∧
      (stage .root function).run s = (.ok (residual, residual, ty, ty), s₁) ∧
      (evaluateCall .root function args).run s₁ = (.ok v, s₂) ∧ s₁.vars.size < s₂.vars.size ∧
      (LacksDepth (evaluateCall .root residual args) s₁ ∨
        ∃ v' s₂', (evaluateCall .root residual args).run s₁ = (.ok v', s₂') ∧
          s₂.tree v = s₂'.tree v') := by
  have hbuilt := castFirstCall.built
  have hchecks :
      let function := castFirstCall.value.1
      let args := castFirstCall.value.2
      let staged := (stage .root function).run castFirstCall.store
      let called := (evaluateCall .root function args).run staged.2
      castFirstCall.store.shape function =
          .abstraction [] [(⟨6⟩, Store.unitType), (⟨7⟩, Store.unitType)] ⟨24⟩ ∧
        ⟨28⟩ ≠ function ∧ (∀ arg ∈ args, castFirstCall.store.Allocated arg) ∧
        staged.1 = .ok (⟨28⟩, ⟨28⟩, ⟨29⟩, ⟨29⟩) ∧
        staged.2.vars.size = castFirstCall.store.vars.size ∧ called.1 = .ok ⟨34⟩ ∧
        staged.2.vars.size < called.2.vars.size := by
    decide +kernel
  generalize castFirstCall.store = s at hbuilt hchecks
  generalize castFirstCall.value = call at hchecks
  obtain ⟨function, args⟩ := call
  obtain ⟨hshape, hne, hargs, hstage, hquiet, hcall, hmakes⟩ := hchecks
  dsimp only at hshape hne hargs hstage hquiet hcall hmakes
  rcases hrun : (stage .root function).run s with ⟨r, s₁⟩
  rw [hrun] at hstage hquiet hcall hmakes
  obtain rfl : r = _ := hstage
  rcases hrun' : (evaluateCall .root function args).run s₁ with ⟨r, s₂⟩
  rw [hrun'] at hcall hmakes
  obtain rfl : r = .ok ⟨34⟩ := hcall
  have hfunction : s.IsFunction function := .inr ⟨_, _, hshape, by simp⟩
  exact ⟨s, hbuilt, function, ⟨28⟩, ⟨29⟩, ⟨34⟩, args, s₁, s₂, hfunction, hne, hargs, hrun, hrun',
    hmakes, evaluateCall_residual hbuilt nofun hfunction hargs hrun hquiet hrun'⟩

end Attempt

/-! ## A residual function of another type -/

namespace Sample

open Build

/-- `forall U. fn(comptime T: Type, x: U) => cast(T)(x)`, and the arguments `Unit` and `Unit{}`. -/
def curriedCast : Build (TermId × List TermId) := do
  let u ← freshVariable true (some "U")
  let ty ← freshVariable true (some "T")
  let x ← freshVariable false (some "x")
  let cast ← intern (.native ⟨0⟩)
  let target ← variableTerm ty
  let subject ← variableTerm x
  let paramType ← variableTerm u
  let partly ← apply cast [target]
  let body ← apply partly [subject]
  let function ← abstraction [] [(ty, Store.typeOfTypes), (x, paramType)] body
  let quantified ← forAll [u] function
  return (quantified, [Store.unitType, ← unitValue Store.unitType])

seal Store.intern Store.initial in
/-- The function and its arguments in a new store. -/
def curriedCastCall : Store.Setup (TermId × List TermId) := curriedCast.setup <| by
  repeat' apply Store.Built.add
  · exact fun _ : True =>
      .freshVariable _ _ (.freshVariable _ _ (.freshVariable _ _ (.initial {})))
  · decide +kernel

end Sample

namespace Attempt

open Sample

/-- In the residual function the cast has both of its arguments, and with them a type that mentions
`T`, so that the type of the function quantifies over `T` below `U`. -/
theorem evaluate_refuses_residual :
    ∃ s : Store, s.Built ∧ ∃ function args residual value,
      let r := (compile .root function).run s
      s.display function = "forall U. fn(comptime T: Type, x: U) => native cast(T)(x)" ∧
      (s.freeVariables function).isEmpty = true ∧ args.map s.display = ["Unit", "Unit{}"] ∧
      r.1 = .ok residual ∧
      r.2.display residual = "forall U. fn(comptime T: Type, x: U) => native cast(T, x)" ∧
      ((evaluateCall .root function args).run s).1 = .ok value ∧
      ((evaluateCall .root function args).run r.2).1 = .ok value ∧
      ((evaluateCall .root residual args).run r.2).1 =
        .error (.notAFunction "forall T. fn(comptime T: Type, U) -> T") := by
  refine ⟨curriedCastCall.store, curriedCastCall.built, curriedCastCall.value.1,
    curriedCastCall.value.2, ⟨41⟩, curriedCastCall.value.2.getLastD Store.unitType, ?_⟩
  decide +kernel

end Attempt

end StagedCalculus
