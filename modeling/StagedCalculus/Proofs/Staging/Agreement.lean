import StagedCalculus.Proofs.Staging.Built
import StagedCalculus.Proofs.Staging.ReplayReduce

/-!
# When evaluation and compilation agree

Both modes follow the same rules. They part at a binding or an argument that is no value, which
compilation keeps as a residual binding, and at a call of a native with effects, which compilation
leaves residual.

* `Engine.cautious`: evaluation that gives up as soon as it comes to such a term;
* `Attempt.agree_of_cautious`: what cautious evaluation gives is a value, and evaluation and
  compilation give it too and leave the same store behind;
* `Attempt.evaluate_leaks_variable`: evaluation may come to such a term in a closed program without
  quantifiers and effects, and then compilation fails.
-/

namespace StagedCalculus

namespace Store

/-! ## Settled terms -/

/-- What is left of a term when its quantifiers are opened. -/
def opened (s : Store) : Nat → TermId → TermId
  | 0, t => t
  | bound + 1, t =>
    match s.shape t with
    | .forAll _ body => s.opened bound body
    | _ => t

/-- The term is no native with effects, under whatever quantifiers. -/
def isQuiet (s : Store) (t : TermId) : Bool :=
  match s.shape (s.opened (t.index + 1) t) with
  | .native id => (s.native? id).all fun registered => registered.native.isPure
  | _ => true

/-- A value of the store that can be called without effects. -/
def isSettled (s : Store) (t : TermId) : Bool :=
  decide (s.Allocated t) && s.isValue t && s.isQuiet t

/-- A value that the store has given out. -/
def Values (t : TermId) (s : Store) : Prop := s.Allocated t ∧ s.isValue t = true

variable {s s' : Store} {t : TermId}

theorem Values.mono (h : Values t s) (hle : s.Extends s') : Values t s' :=
  ⟨hle.allocated h.1, (hle.isValue_eq h.1).trans h.2⟩

theorem values_of_isSettled (h : s.isSettled t = true) : Values t s ∧ s.isQuiet t = true := by
  simp only [isSettled, Bool.and_eq_true, decide_eq_true_eq] at h
  exact ⟨⟨h.1.1, h.1.2⟩, h.2⟩

end Store

namespace Engine

/-! ## Cautious evaluation -/

/-- Gives a settled term, and refuses any other one. -/
def settled (t : TermId) : Attempt TermId := do
  let s ← get
  if s.isSettled t then return t else throw (.valueNotAvailable (s.display t))

/-- Every result of evaluation has to be settled. Inference and compilation are as usual. -/
def cautious : Nat → Engine
  | 0 => .ofLevels 0
  | n + 1 =>
    { levels := n + 1
      infer := (ofLevels (n + 1)).infer
      reduce := fun mode ctx t =>
        match mode with
        | .compile => (ofLevels (n + 1)).compile ctx t
        | .evaluate => do settled (← (cautious n).reduceStep .evaluate ctx t) }

end Engine

/-- Evaluation that gives up as soon as it comes to a term that is not settled. -/
def Attempt.cautious (ctx : Context) (t : TermId) : Attempt TermId := do
  let s ← get
  (Engine.cautious s.config.maxDepth).reduce .evaluate ctx t

namespace Replay

open Attempt Engine Follows

variable {α β : Type} {post : α → Store → Prop} {s : Store}

/-! ## Up to the first failure -/

/-- A first computation that fails says nothing about the second one. -/
theorem Follows.of_error {c c' : Attempt α} {e : Error} (h : c.run s = (.error e, s)) :
    untilFailure.Follows post c c' s := by
  intro hs
  rw [h]
  exact .excused (.refl hs) trivial trivial

/-- A check on the first side alone. -/
theorem Follows.checks {c : Attempt β} {f : β → Attempt α} {c' : Attempt α}
    (hc : (c.run s).2 = s) (hf : ∀ b, untilFailure.Follows post (f b) c' s) :
    untilFailure.Follows post (c >>= f) c' s := by
  intro hs
  rw [run_bind]
  rcases hrun : c.run s with ⟨r, s₁⟩
  rw [hrun] at hc
  subst hc
  cases r with
  | error e => exact .excused (.refl hs) trivial trivial
  | ok b => exact hf b hs

/-! ## Computations that leave the store alone -/

theorem run_bindAll (ctx : Context) (bindings : List (VarId × TermId)) (s : Store) :
    (∃ inner, (bindAll ctx bindings).run s = (.ok inner, s)) ∨
      ∃ e, (bindAll ctx bindings).run s = (.error e, s) := by
  induction bindings generalizing ctx with
  | nil => exact Or.inl ⟨ctx, rfl⟩
  | cons b rest ih =>
    unfold Attempt.bindAll Attempt.bind
    cases ctx.bind? b.1 b.2 with
    | none => exact Or.inr ⟨_, rfl⟩
    | some inner => exact ih inner

/-- Opening quantifiers fails, or gives what is left of the callee. -/
theorem run_openQuantifiers (r : Resolution) (bound : Nat) (ctx : Context) (callee : TermId)
    (s : Store) :
    (∃ inner, (openQuantifiers r bound ctx callee).run s =
        (.ok (inner, s.opened bound callee), s)) ∨
      ∃ e, (openQuantifiers r bound ctx callee).run s = (.error e, s) := by
  induction bound generalizing ctx callee with
  | zero => exact Or.inl ⟨ctx, rfl⟩
  | succ bound ih =>
    have hshape : ∀ f : Shape TermId → Attempt (Context × TermId),
        (Attempt.shape callee >>= f).run s = (f (s.shape callee)).run s := fun _ => rfl
    unfold openQuantifiers Store.opened
    rw [hshape]
    cases s.shape callee with
    | forAll vars body =>
      dsimp only
      rw [run_bind]
      rcases run_bindAll ctx.child (vars.map fun v => (v, r.valueOf v)) s with
        ⟨inner, hrun⟩ | ⟨e, hrun⟩
      · rw [hrun]
        exact ih inner body
      · rw [hrun]
        exact Or.inr ⟨e, rfl⟩
    | _ => exact Or.inl ⟨ctx, rfl⟩

theorem run_ensureAvailable (ctx : Context) (function : TermId) (s : Store) :
    ((ensureAvailable ctx function).run s).2 = s := by
  have hget : (get : Attempt Store).run s = (.ok s, s) := rfl
  unfold ensureAvailable
  rw [run_bind, hget]
  dsimp only
  split <;> rfl

theorem follows_settled (t : TermId) :
    untilFailure.Follows (fun t s => Store.Values t s ∧ s.isQuiet t = true) (settled t)
      (Pure.pure t) s := by
  intro hs
  have hrun : (settled t).run s =
      (if s.isSettled t then return t else throw (.valueNotAvailable (s.display t)) :
        Attempt TermId).run s := rfl
  rw [hrun]
  split
  · rename_i hsettled
    exact .gives (.refl hs) (Store.values_of_isSettled hsettled)
  · exact .excused (.refl hs) trivial trivial

/-! ## Evaluation and compilation side by side -/

/-- Compilation gives what evaluation gives, and that is settled. -/
def Agrees (e e' : Engine) : Prop := ∀ ctx t s,
  untilFailure.Follows (fun t s => Store.Values t s ∧ s.isQuiet t = true)
    (e.reduce .evaluate ctx t) (e'.reduce .compile ctx t) s

variable {e e' : Engine}

theorem Agrees.reduces (h : Agrees e e') : untilFailure.Reduces e e' .evaluate .compile :=
  fun ctx t s => (h ctx t s).imp fun _ _ _ _ => trivial

/-- A value can be inlined. -/
theorem follows_inlinable_value {t : TermId} (ht : Store.Values t s) :
    untilFailure.Follows (fun canInline _ => canInline = true) (inlinable t) (inlinable t) s := by
  refine .reads rfl rfl ?_
  split
  · exact .pure rfl
  · exact .withStore (.pure ht.2)

section Rules

variable (he : untilFailure.Engines e e') (hagrees : Agrees e e')

include he hagrees

omit he in
theorem agrees_bindLets (ctx : Context) (lets : List (VarId × TermId)) :
    untilFailure.Follows Any (e.bindLets .evaluate ctx lets) (e'.bindLets .compile ctx lets) s := by
  induction lets generalizing s ctx with
  | nil => exact .done _
  | cons b rest ih =>
    refine .bind (hagrees ctx b.2 s) fun value s₁ _ hvalue => ?_
    refine .bind (follows_inlinable_value hvalue.1) fun canInline s₂ _ hinline => ?_
    subst hinline
    exact .next (.bindContext lawful_untilFailure ctx b.1 value) fun ctx s => ih ctx

omit he hagrees in
theorem agrees_bindArgs {args : List (VarId × TermId)} (hargs : ∀ b ∈ args, Store.Values b.2 s)
    (outer ctx : Context) :
    untilFailure.Follows Any (e.bindArgs .evaluate outer ctx args)
      (e'.bindArgs .compile outer ctx args) s := by
  induction args generalizing s ctx with
  | nil => exact .done _
  | cons b rest ih =>
    refine .bind (follows_inlinable_value (hargs b (by simp))) fun canInline s₁ h₁ hinline => ?_
    subst hinline
    refine .bind (.bindContext lawful_untilFailure ctx b.1 b.2) fun ctx s₂ h₂ _ => ?_
    refine ih (fun b' hb' => ?_) ctx
    exact (hargs b' (List.mem_cons_of_mem _ hb')).mono (h₁.later.trans h₂.later)

omit hagrees in
/-- A native without effects is called on values in both modes. -/
theorem agrees_callNative {native : Native} (hpure : native.isPure = true) {args : List TermId}
    (hargs : ∀ arg ∈ args, Store.Values arg s) (ctx : Context) (callee : TermId) :
    untilFailure.Follows Any (e.callNative .evaluate ctx callee native args)
      (e'.callNative .compile ctx callee native args) s := by
  have hvalues : args.all s.isValue = true := List.all_eq_true.2 fun arg harg => (hargs arg harg).2
  refine .withStore ?_
  change untilFailure.Follows Any (e.run ctx (native.call args))
    (if Mode.compile = .compile && !(native.isPure && args.all s.isValue) then
        Build.apply callee args
      else e'.run ctx (native.call args)) s
  rw [hpure, hvalues]
  exact follows_run lawful_untilFailure he
    (Script.failsWith_of_forall (fun _ => trivial) (native.call args)) ctx

omit he in
theorem agrees_callAbstraction {args : List TermId} (hargs : ∀ arg ∈ args, Store.Values arg s)
    (ctx : Context) (lets params : List (VarId × TermId)) (body : TermId) :
    untilFailure.Follows Any (e.callAbstraction .evaluate ctx lets params body args)
      (e'.callAbstraction .compile ctx lets params body args) s := by
  unfold callAbstraction
  dsimp only
  split
  · exact .fails lawful_untilFailure rfl rfl nofun
  refine .bind (agrees_bindLets hagrees ctx.child lets) fun r s₁ h₁ _ => ?_
  refine .next (agrees_bindArgs (fun b hb => ?_) ctx r.1) fun kept s => ?_
  · exact (hargs b.2 (List.of_mem_zip hb).2).mono h₁.later
  · refine .next (hagrees.reduces kept.1 body s) fun value s => ?_
    exact follows_wrapResidual lawful_untilFailure _ value

omit he hagrees in
/-- Evaluation cannot call what is no function. -/
theorem agrees_callOther (callee : TermId) (args : List TermId) :
    untilFailure.Follows Any (callOther .evaluate callee args) (callOther .compile callee args) s :=
  .of_error rfl

theorem agrees_call {callee : TermId} (hcallee : s.isQuiet callee = true) {args : List TermId}
    (hargs : ∀ arg ∈ args, Store.Values arg s) (ctx : Context) (r : Resolution) :
    untilFailure.Follows Any (e.call .evaluate ctx r callee args)
      (e'.call .compile ctx r callee args) s := by
  unfold Store.isQuiet at hcallee
  rcases run_openQuantifiers r (callee.index + 1) ctx callee s with ⟨inner, hrun⟩ | ⟨err, hrun⟩
  · refine .reads hrun hrun (.reads rfl rfl ?_)
    generalize s.opened (callee.index + 1) callee = head at hcallee ⊢
    cases hshape : s.shape head with
    | native id =>
      rw [hshape] at hcallee
      refine .reads rfl rfl ?_
      cases hnative : s.native? id with
      | none => exact agrees_callOther head args
      | some registered =>
        dsimp only at hcallee
        rw [hnative] at hcallee
        exact agrees_callNative he hcallee hargs inner head
    | abstraction lets params body =>
      cases params with
      | nil => exact agrees_callOther head args
      | cons p rest => exact agrees_callAbstraction hagrees hargs inner lets (p :: rest) body
    | _ => exact agrees_callOther head args
  · refine .of_error (e := err) ?_
    unfold call
    rw [run_bind, hrun]

theorem agrees_reduceArgs (ctx : Context) (args : List (TermId × TermId)) :
    untilFailure.Follows (fun values s => ∀ value ∈ values, Store.Values value s)
      (e.reduceArgs .evaluate ctx args) (e'.reduceArgs .compile ctx args) s := by
  induction args generalizing s with
  | nil => exact .pure (by simp)
  | cons p rest ih =>
    refine .bind (hagrees ctx p.1 s) fun value s₁ h₁ hvalue => ?_
    refine .bind (he.infer ctx value s₁) fun valueType s₂ h₂ _ => ?_
    have hrest : ∀ value s, Store.Values value s →
        untilFailure.Follows (fun values s => ∀ value ∈ values, Store.Values value s)
          (do return value :: (← e.reduceArgs .evaluate ctx rest))
          (do return value :: (← e'.reduceArgs .compile ctx rest)) s := by
      intro value s hvalue
      refine .bind ih fun values s' h hvalues => .pure ?_
      rw [List.forall_mem_cons]
      exact ⟨hvalue.mono h.later, hvalues⟩
    dsimp only
    split
    · exact .bind (.pure (hvalue.1.mono h₂.later)) fun value s _ hvalue => hrest value s hvalue
    · refine .next (.intern lawful_untilFailure _) fun cast s => ?_
      exact .bind (hagrees ctx cast s) fun value s _ hvalue => hrest value s hvalue.1

/-! ## The rules of reduction -/

omit he in
theorem agrees_reduceVariable (ctx : Context) (t : TermId) (v : VarId) :
    untilFailure.Follows Any (e.reduceVariable .evaluate ctx t v)
      (e'.reduceVariable .compile ctx t v) s := by
  unfold reduceVariable
  cases ctx.get? v with
  | none => exact .of_error rfl
  | some value =>
    refine .reads rfl rfl ?_
    split
    · exact .of_error rfl
    · split
      · exact hagrees.reduces ctx value s
      · exact .done value
    · exact .done value

omit he in
theorem agrees_reduceProjection (ctx : Context) (domain : TermId) (field : String) :
    untilFailure.Follows Any (e.reduceProjection .evaluate ctx domain field)
      (e'.reduceProjection .compile ctx domain field) s := by
  refine .next (hagrees.reduces ctx domain s) fun domain s => .reads rfl rfl ?_
  split
  · split
    · exact .done _
    · exact .of_error rfl
  · exact .of_error rfl

theorem agrees_reduceCast (ctx : Context) (subject target : TermId) :
    untilFailure.Follows Any (e.reduceCast .evaluate ctx subject target)
      (e'.reduceCast .compile ctx subject target) s := by
  refine .next (hagrees.reduces ctx subject s) fun subject s => ?_
  refine .next (hagrees.reduces ctx target s) fun target s => ?_
  refine .next (he.infer ctx subject s) fun subjectType s => ?_
  split
  · exact .done subject
  · exact .of_error rfl

omit hagrees in
theorem agrees_reduceForAll (ctx : Context) (vars : List VarId) (body : TermId) :
    untilFailure.Follows Any (e.reduceForAll .evaluate ctx vars body)
      (e'.reduceForAll .compile ctx vars body) s := by
  refine .next (.bindQuantified lawful_untilFailure ctx.child vars) fun inner s => ?_
  refine .next (he.compile inner body s) fun body s => ?_
  refine .next (.quantify lawful_untilFailure vars body) fun function s => ?_
  exact .checks (run_ensureAvailable ctx function s) fun _ => .done function

theorem agrees_reduceAbstraction (ctx : Context) (lets params : List (VarId × TermId))
    (body : TermId) :
    untilFailure.Follows Any (e.reduceAbstraction .evaluate ctx lets params body)
      (e'.reduceAbstraction .compile ctx lets params body) s := by
  refine .next (agrees_bindLets hagrees ctx.child lets) fun r s => ?_
  obtain ⟨inner, residual⟩ := r
  dsimp only
  split
  · refine .next (hagrees.reduces inner body s) fun value s => ?_
    exact follows_wrapResidual lawful_untilFailure residual value
  · refine .next (follows_bindParams lawful_untilFailure he inner params) fun q s => ?_
    refine .next (he.compile q.1 body s) fun body s => ?_
    refine .next (.intern lawful_untilFailure _) fun function s => ?_
    exact .checks (run_ensureAvailable q.1 function s) fun _ => .done function

theorem agrees_reduceApplication (ctx : Context) (callee : TermId) (args : List TermId) :
    untilFailure.Follows Any (e.reduceApplication .evaluate ctx callee args)
      (e'.reduceApplication .compile ctx callee args) s := by
  refine .next (follows_resolve lawful_untilFailure he ctx callee args) fun r s => ?_
  refine .bind (agrees_reduceArgs he hagrees ctx _) fun values s₁ _ hvalues => ?_
  refine .bind (hagrees ctx callee s₁) fun callee s₂ h₂ hcallee => ?_
  split
  · refine agrees_call he hagrees hcallee.2 (fun value hvalue => ?_) ctx r
    exact (hvalues value hvalue).mono h₂.later
  · exact follows_curry lawful_untilFailure he hagrees.reduces ctx r callee values

theorem agrees_reduceStep (ctx : Context) (t : TermId) :
    untilFailure.Follows Any (e.reduceStep .evaluate ctx t) (e'.reduceStep .compile ctx t) s := by
  refine .reads rfl rfl ?_
  cases s.shape t with
  | «variable» v => exact agrees_reduceVariable hagrees ctx t v
  | deferred ty availability => exact .of_error rfl
  | unitValue ty =>
    exact .next (hagrees.reduces ctx ty s) fun _ _ => .intern lawful_untilFailure _
  | productValue ty fields =>
    refine .next (hagrees.reduces ctx ty s) fun ty s => ?_
    exact .next (follows_reduceNamed hagrees.reduces ctx fields) fun _ _ =>
      .intern lawful_untilFailure _
  | functionType params result =>
    refine .next (follows_reduceSlots hagrees.reduces ctx params) fun params s => ?_
    exact .next (hagrees.reduces ctx result s) fun _ _ => .intern lawful_untilFailure _
  | productType members =>
    exact .next (follows_reduceNamed hagrees.reduces ctx members) fun _ _ =>
      .intern lawful_untilFailure _
  | projection domain field => exact agrees_reduceProjection hagrees ctx domain field
  | cast subject target => exact agrees_reduceCast he hagrees ctx subject target
  | forAll vars body => exact agrees_reduceForAll he ctx vars body
  | abstraction lets params body => exact agrees_reduceAbstraction he hagrees ctx lets params body
  | application callee args => exact agrees_reduceApplication he hagrees ctx callee args
  | _ => exact .done t

end Rules

/-! ## Levels -/

theorem levels_cautious (n : Nat) : (cautious n).levels = n := by
  cases n with
  | zero => rfl
  | succ n => rfl

/-- The checks of cautious evaluation change nothing as long as they succeed. -/
theorem engines_cautious (n : Nat) : untilFailure.Engines (cautious n) (.ofLevels n) := by
  have hplain : untilFailure.Engines (.ofLevels n) (.ofLevels n) :=
    engines_ofLevels lawful_untilFailure (Nat.le_refl n)
  induction n with
  | zero => exact hplain
  | succ n ih =>
    have he := ih (engines_ofLevels lawful_untilFailure (Nat.le_refl n))
    refine ⟨?_, hplain.infer, fun mode ctx t s => ?_⟩
    · rw [levels_ofLevels]
      exact Nat.le_refl _
    · cases mode with
      | compile => exact hplain.reduce .compile ctx t s
      | evaluate =>
        rw [reduce_ofLevels, ← bind_pure (Engine.reduceStep _ _ _ _)]
        refine .next (follows_reduceStep lawful_untilFailure he ctx t) fun t s => ?_
        exact (follows_settled t).imp fun _ _ _ _ => trivial

theorem agrees_cautious (n : Nat) : Agrees (cautious n) (.ofLevels n) := by
  induction n with
  | zero => exact fun ctx t s => .throwDepth lawful_untilFailure
  | succ n ih =>
    intro ctx t s
    rw [reduce_ofLevels, ← bind_pure (Engine.reduceStep _ _ _ _)]
    refine .next (agrees_reduceStep (engines_cautious n) ih ctx t) fun t s => ?_
    exact follows_settled t

end Replay

namespace Attempt

open Replay

/-- What cautious evaluation gives is a value, and evaluation and compilation give it too and leave
the same store behind. -/
theorem agree_of_cautious {s s' : Store} {ctx : Context} {t v : TermId}
    (h : (cautious ctx t).run s = (.ok v, s')) :
    (evaluate ctx t).run s = (.ok v, s') ∧ (compile ctx t).run s = (.ok v, s') ∧
      s'.isValue v = true := by
  have hrun : (cautious ctx t).run s =
      ((Engine.cautious s.config.maxDepth).reduce .evaluate ctx t).run s := rfl
  rw [hrun] at h
  have hevaluate := (engines_cautious s.config.maxDepth).reduce .evaluate ctx t s trivial
  have hcompile := agrees_cautious s.config.maxDepth ctx t s trivial
  rw [h] at hevaluate hcompile
  exact ⟨hevaluate.same nofun, hcompile.same nofun, (hcompile.holds rfl).1.2⟩

end Attempt

/-! ## A partial application -/

namespace Sample

open Build

/-- `{let f = fn(x: Unit, y: Unit) => x; f(Unit{})(Unit{})}`. -/
def partialCall : Build TermId := do
  let f ← freshVariable false (some "f")
  let x ← freshVariable false (some "x")
  let y ← freshVariable false (some "y")
  let body ← variableTerm x
  let function ← abstraction [] [(x, Store.unitType), (y, Store.unitType)] body
  let callee ← variableTerm f
  let value ← unitValue Store.unitType
  let partially ← apply callee [value]
  letIn [(f, function)] (← apply partially [value])

end Sample

namespace Attempt

open Sample

/-- Partial application makes a function on the way, which is a value. -/
theorem agree_of_cautious_partialCall :
    ∃ s v s', (cautious .root ⟨29⟩).run s = (.ok v, s') ∧
      s.display ⟨29⟩ = "\x7blet f = fn(x: Unit, y: Unit) => x; f(Unit\x7b\x7d)(Unit\x7b\x7d)\x7d" ∧
      (evaluate .root ⟨29⟩).run s = (.ok v, s') ∧ (compile .root ⟨29⟩).run s = (.ok v, s') ∧
      s'.isValue v = true := by
  have hchecks : ((cautious .root ⟨29⟩).run (partialCall.run (.initial {})).2).1 = .ok ⟨26⟩ ∧
      (partialCall.run (.initial {})).2.display ⟨29⟩ =
        "\x7blet f = fn(x: Unit, y: Unit) => x; f(Unit\x7b\x7d)(Unit\x7b\x7d)\x7d" := by
    decide +kernel
  obtain ⟨hvalue, htext⟩ := hchecks
  generalize (partialCall.run (.initial {})).2 = s at hvalue htext
  rcases hrun : (cautious .root ⟨29⟩).run s with ⟨r, s'⟩
  obtain rfl : r = .ok ⟨26⟩ := by rw [← hvalue, hrun]
  exact ⟨s, ⟨26⟩, s', hrun, htext, agree_of_cautious hrun⟩

end Attempt

/-! ## A program that evaluation and compilation disagree on -/

namespace Shape

variable {α : Type}

/-- The types of parameters, the annotations of values and the targets of casts. -/
def annotations : Shape α → List α
  | .abstraction _ params _ => params.map (·.2)
  | .unitValue ty => [ty]
  | .productValue ty _ => [ty]
  | .cast _ target => [target]
  | _ => []

end Shape

namespace Store

/-- No quantifier, no placeholder and no native but a pure one, which imports nothing. -/
def isPlain {α : Type} (s : Store) : Shape α → Bool
  | .forAll _ _ => false
  | .deferred _ _ => false
  | .native id => (s.native? id).any fun registered =>
    registered.native.isPure && registered.native.name != "cimport"
  | _ => true

/-- The program is pure, no quantifier stands in it, and its annotations are closed. -/
def isMonomorphic (s : Store) (t : TermId) : Bool :=
  s.fold false (fun shape => s.isPlain shape &&
    (shape.annotations.all fun annotation => (s.freeVariables annotation.1).isEmpty) &&
    shape.children.all (·.2)) t

end Store

namespace Sample

open Build

/-- `{let h = fn(comptime T: Type) => (fn(a: Unit, comptime T: Type) => cast(T, 3))((cast(T, 3) as
Unit)); fn(u: Unit) => h(Unit)(literal 3)}`, and a program that binds it and does not use it. -/
def capturing : Build (TermId × TermId) := do
  let ty ← freshVariable true (some "T")
  let a ← freshVariable false (some "a")
  let h ← freshVariable false (some "h")
  let u ← freshVariable false (some "u")
  let w ← freshVariable false (some "w")
  let cast ← intern (.native ⟨0⟩)
  let three ← numeric 3
  let tyTerm ← variableTerm ty
  let call ← apply cast [tyTerm, three]
  let inner ← abstraction [] [(a, Store.unitType), (ty, Store.typeOfTypes)] call
  let arg ← Build.cast call Store.unitType
  let partially ← apply inner [arg]
  let outer ← abstraction [] [(ty, Store.typeOfTypes)] partially
  let first ← apply (← variableTerm h) [Store.unitType]
  let second ← apply first [← numericType 3]
  let function ← abstraction [] [(u, Store.unitType)] second
  let block ← letIn [(h, outer)] function
  return (block, ← letIn [(w, block)] (← numeric 5))

seal Store.intern Store.initial in
/-- The programs in a new store. -/
def captured : Store.Setup (TermId × TermId) := capturing.setup <| by
  repeat' apply Store.Built.add
  · exact fun _ : True => .freshVariable _ _ (.freshVariable _ _ (.freshVariable _ _
      (.freshVariable _ _ (.freshVariable _ _ (.initial {})))))
  · decide +kernel

end Sample

namespace Attempt

open Sample

/-- A partial application quantifies over the variables that none of its arguments determines. Such
a variable may be in scope, and may be free in an argument, where it is captured. When the rest of
the arguments does not determine it either, a placeholder takes its place in a residual call, so
that evaluation of a closed block gives a function with a free variable. Evaluation may bind
this function, and compilation may not. -/
theorem evaluate_leaks_variable :
    ∃ s : Store, s.Built ∧ ∃ block t function v,
      s.Allocated t ∧ (s.freeVariables t).isEmpty = true ∧ s.isMonomorphic t = true ∧
      s.shape t = .abstraction [(⟨10⟩, block)] [] v ∧
      ((evaluate .root block).run s).1 = .ok function ∧
      (((evaluate .root block).run s).2.freeVariables function).isEmpty = false ∧
      ((evaluate .root t).run s).1 = .ok v ∧
      ((compile .root t).run s).1 = .error (.unboundVariable "T") := by
  refine ⟨captured.store, captured.built, captured.value.1, captured.value.2, ⟨58⟩, ⟨36⟩, ?_⟩
  decide +kernel

end Attempt

end StagedCalculus
