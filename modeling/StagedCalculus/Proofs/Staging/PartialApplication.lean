import StagedCalculus.Proofs.Staging.FunctionTypes
import StagedCalculus.Proofs.Staging.Replacement

/-!
# Partial applications

Fewer arguments than positions leave a function behind, which takes the arguments that are missing.

* `Attempt.Gives`: a condition on the result of a computation, whatever the store and the context;
* `Engine.KeepsFunctions`: what is left of a function after reduction is a function of the same
  parameters;
* `Engine.gives_partial`: a partial application comes to a function with a parameter for each
  position that is left, at the stage of that position;
* `Attempt.reduce_partial`: so does it at the top, and the type of that function has these positions
  as well;
* `Attempt.evaluate_partial_fails`: it need not come to anything, even where the whole application
  has a value.
-/

namespace StagedCalculus

open Attempt Replay

namespace Store

variable {s s' : Store} {names : List VarId} {n : Nat} {t : TermId}

/-- The term is a function of parameters with these names, below at most so many quantifiers. -/
def TakesNames (s : Store) (names : List VarId) (n : Nat) (t : TermId) : Prop :=
  ∃ m ≤ n, ∃ params, s.Takes params m t ∧ params.map (·.1) = names

theorem TakesNames.mono (h : s.TakesNames names n t) (hle : s.Extends s') :
    s'.TakesNames names n t := by
  obtain ⟨m, hm, params, htakes, hnames⟩ := h
  exact ⟨m, hm, params, htakes.mono hle, hnames⟩

/-- The variables are in the store, and these are their stages. -/
def Stages (s : Store) (names : List VarId) (stages : List Bool) : Prop :=
  (∀ v ∈ names, v.index < s.vars.size) ∧ names.map s.isComptime = stages

theorem Stages.mono {stages : List Bool} (h : s.Stages names stages) (hle : s.Extends s') :
    s'.Stages names stages := by
  refine ⟨fun v hv => hle.lt_vars (h.1 v hv), ?_⟩
  rw [← h.2]
  exact List.map_congr_left fun v hv => hle.isComptime_eq (h.1 v hv)

theorem Stages.append {names' : List VarId} {stages stages' : List Bool}
    (h : s.Stages names stages) (h' : s.Stages names' stages') :
    s.Stages (names ++ names') (stages ++ stages') := by
  refine ⟨List.forall_mem_append.2 ⟨h.1, h'.1⟩, ?_⟩
  rw [List.map_append, h.2, h'.2]

end Store

namespace Attempt

variable {α β : Type} {post : α → Store → Prop} {c : Attempt α} {s s' : Store}

/-- If the computation gives a result, the result satisfies the condition. -/
abbrev Gives (post : α → Store → Prop) (c : Attempt α) (s : Store) : Prop :=
  untilFailure.Follows post c c s

namespace Gives

theorem holds (h : Gives post c s) {a : α} (hrun : c.run s = (.ok a, s')) :
    s.Extends s' ∧ post a s' := by
  have hends := h trivial
  have hpost := hends.holds (a := a) (by rw [hrun])
  have hstep := hends.step
  rw [hrun] at hpost hstep
  exact ⟨hstep.later, hpost⟩

theorem of_runs (h : Gives Any c s) (hpost : ∀ a s', c.run s = (.ok a, s') → post a s') :
    Gives post c s := by
  intro hs
  have hends := h hs
  change untilFailure.Ends post s (c.run s) (c.run s)
  change untilFailure.Ends Any s (c.run s) (c.run s) at hends
  rcases hrun : c.run s with ⟨e | a, s'⟩
  · rw [hrun] at hends
    have hstep := hends.step
    exact .fails hstep trivial
  · rw [hrun] at hends
    exact .gives hends.step (hpost a s' hrun)

/-- A term that is built. -/
theorem builds {shape : Shape TermId} (hshape : ∀ body, shape ≠ .forAll [] body) :
    Gives (fun t s' => s'.shape t = shape) (Build.intern shape) s :=
  of_runs (.intern lawful_untilFailure shape) fun _ _ hrun =>
    Store.shape_of_intern (Engine.intern_of_run hrun) hshape

end Gives

/-- Quantifying a function. -/
theorem gives_quantify {names vars : List VarId} {n : Nat} {body : TermId}
    (h : s.TakesNames names n body) :
    Gives (fun t s' => s'.TakesNames names (n + 1) t) (quantify vars body) s := by
  obtain ⟨m, hm, params, htakes, hnames⟩ := h
  refine .reads rfl rfl ?_
  cases hvars : vars.filter (s.freeVariables body).contains with
  | nil => exact .pure ⟨m, Nat.le_succ_of_le hm, params, htakes, hnames⟩
  | cons v rest =>
    refine (Gives.builds fun _ heq => by cases heq).imp fun t s' hstep hshape => ?_
    exact ⟨m + 1, Nat.succ_le_succ hm, params, .quantified hshape (htakes.mono hstep.later), hnames⟩

end Attempt

namespace Engine

variable {n k : Nat} {e : Engine} {mode : Mode} {s s₁ s' : Store} {ctx : Context}
  {params : List (VarId × TermId)}

/-- One level further down, what is left of a function is a function of the same parameters. -/
def KeepsFunctions (e : Engine) : Prop :=
  ∀ {mode s ctx t n params}, s.Takes params n t →
    Gives (fun u s' => s'.TakesNames (params.map (·.1)) n u) (e.reduce mode ctx t) s

section Rules

variable (he : untilFailure.Engines e e)

include he

/-- Reduction of a function goes on in its body. -/
theorem gives_reduceAbstraction {lets : List (VarId × TermId)} {body : TermId}
    (hparams : params ≠ []) :
    Gives (fun u s' => s'.TakesNames (params.map (·.1)) 0 u)
      (e.reduceAbstraction mode ctx lets params body) s := by
  have hF := lawful_untilFailure
  refine .bind (follows_bindLets hF he ctx.child lets) fun r s₁ _ _ => ?_
  dsimp only
  rw [if_neg (by simpa using hparams)]
  refine .bind (Gives.of_runs (follows_bindParams hF he r.1 params) fun q s' hrun =>
    names_bindParams hrun) fun q s₂ _ hnames => ?_
  refine .bind (he.compile q.1 body s₂) fun body s₃ _ _ => ?_
  refine .bind (Gives.builds nofun) fun function s₄ h₄ hshape => ?_
  have hfunction : s₄.TakesNames (params.map (·.1)) 0 function := by
    refine ⟨0, Nat.le_refl 0, q.2, .function hshape ?_, hnames⟩
    rintro hnil
    rw [hnil] at hnames
    exact hparams (List.map_eq_nil_iff.1 hnames.symm)
  split
  · exact .bind (follows_ensureAvailable hF q.1 function) fun _ s₅ h₅ _ =>
      .pure (hfunction.mono h₅.later)
  · exact .pure hfunction

omit he in
theorem gives_reduceForAll {vars : List VarId} {body : TermId} (hkeeps : e.KeepsFunctions)
    (hbody : s.Takes params n body) :
    Gives (fun u s' => s'.TakesNames (params.map (·.1)) (n + 1) u)
      (e.reduceForAll mode ctx vars body) s := by
  have hF := lawful_untilFailure
  refine .bind (.bindQuantified hF ctx.child vars) fun inner s₁ h₁ _ => ?_
  refine .bind (hkeeps (hbody.mono h₁.later)) fun body s₂ _ hbody => ?_
  refine .bind (gives_quantify hbody) fun function s₃ _ hfunction => ?_
  split
  · exact .bind (follows_ensureAvailable hF ctx function) fun _ s₄ h₄ _ =>
      .pure (hfunction.mono h₄.later)
  · exact .pure hfunction

theorem gives_reduceStep {t : TermId} (hkeeps : e.KeepsFunctions) (ht : s.Takes params n t) :
    Gives (fun u s' => s'.TakesNames (params.map (·.1)) n u) (e.reduceStep mode ctx t) s := by
  refine .reads rfl rfl ?_
  cases ht with
  | function hshape hparams =>
    rw [hshape]
    exact gives_reduceAbstraction he hparams
  | quantified hshape hbody =>
    rw [hshape]
    exact gives_reduceForAll hkeeps hbody

end Rules

/-- At every number of levels a function is reduced to a function of the same parameters. -/
theorem keepsFunctions_ofLevels (n : Nat) : (ofLevels n).KeepsFunctions := by
  induction n with
  | zero => exact fun _ => .throwDepth lawful_untilFailure
  | succ n ih =>
    exact fun ht => gives_reduceStep (engines_ofLevels lawful_untilFailure (Nat.le_refl n)) ih ht

section Partial

variable (he : untilFailure.Engines e e)

include he

/-- A fresh parameter is at the stage of its position. -/
theorem gives_freshParams {undetermined : List VarId} {slots : List (Slot TermId)} :
    Gives (fun params s' => s'.Stages (params.map (·.1)) (slots.map (·.comptime)))
      (e.freshParams undetermined ctx slots) s := by
  have hF := lawful_untilFailure
  induction slots generalizing s ctx with
  | nil => exact .pure ⟨by simp, rfl⟩
  | cons slot rest ih =>
    refine .bind (he.compile ctx slot.ty s) fun ty s₁ _ _ => ?_
    have hfresh : Gives (fun v s' => s'.Stages [v] [slot.comptime])
        (Build.freshVariable slot.comptime none) s₁ := by
      refine .of_runs (.freshVariable hF _ _) fun v s' hrun => ?_
      cases hrun
      exact ⟨by simp, congrArg (fun b => [b]) (Store.isComptime_freshVariable rfl)⟩
    refine .bind hfresh fun v s₂ _ hv => ?_
    refine .bind (.intern hF _) fun vTerm s₃ h₃ _ => ?_
    have hrest : ∀ (ctx : Context) s₄, untilFailure.Step s₃ s₄ →
        Gives (fun params s' => s'.Stages (params.map (·.1)) ((slot :: rest).map (·.comptime)))
          (do return (v, ty) :: (← e.freshParams undetermined ctx rest)) s₄ := by
      refine fun ctx s₄ h₄ => .bind ih fun params s₅ h₅ hparams => .pure ?_
      have hv₅ := hv.mono ((h₃.later.trans h₄.later).trans h₅.later)
      exact hv₅.append hparams
    cases slot.binds.filter (· ∈ undetermined) with
    | none => exact .bind (.done ctx) fun ctx s₄ h₄ _ => hrest ctx s₄ h₄
    | some supplied =>
      refine .bind (.intern hF _) fun placeholder s₄ h₄ _ => ?_
      refine .bind (.bindContext hF ctx v placeholder) fun inner s₅ h₅ _ => ?_
      refine .bind (.bindContext hF inner supplied vTerm) fun inner s₆ h₆ _ => ?_
      exact hrest inner s₆ ((h₄.trans h₅).trans h₆)

/-- What a partial application comes to takes an argument for each position that is left. -/
theorem gives_curry (hkeeps : e.KeepsFunctions) {r : Resolution} {callee : TermId}
    {args : List TermId} (hremaining : r.remaining ≠ []) :
    Gives (fun u s' => ∃ names, s'.TakesNames names 1 u ∧
        s'.Stages names (r.remaining.map (·.comptime)))
      (e.curry mode ctx r callee args) s := by
  have hF := lawful_untilFailure
  refine .bind (.bindQuantified hF ctx.child _) fun renamed s₁ _ _ => ?_
  refine .bind (gives_freshParams he) fun params s₂ _ hparams => ?_
  refine .bind (.variableTerms hF _) fun own s₃ h₃ _ => ?_
  refine .bind (.intern hF _) fun body s₄ h₄ _ => ?_
  refine .bind (Gives.builds nofun) fun function s₅ h₅ hfunction => ?_
  have hne : params ≠ [] := by
    rintro rfl
    exact hremaining (List.map_eq_nil_iff.1 hparams.2.symm)
  have htakes : s₅.TakesNames (params.map (·.1)) 0 function :=
    ⟨0, Nat.le_refl 0, params, .function hfunction hne, rfl⟩
  refine .bind (gives_quantify htakes) fun quantified s₆ h₆ hquantified => ?_
  obtain ⟨m, hm, params', htakes', hnames⟩ := hquantified
  refine (hkeeps htakes').imp fun u s' h' hu => ?_
  obtain ⟨k, hk, hu⟩ := hu
  rw [hnames] at hu
  refine ⟨_, ⟨k, hk.trans hm, hu⟩, hparams.mono ?_⟩
  exact (((h₃.later.trans h₄.later).trans h₅.later).trans h₆.later).trans h'.later

/-! ## Positions that are left -/

omit he in
theorem gives_functionParts {ty : TermId} {stages : List Bool} (h : s.Positioned stages k ty) :
    Gives (fun parts _ => parts.2.1.map (·.comptime) = stages) (functionParts ty) s := by
  refine .reads rfl rfl ?_
  cases h with
  | function hshape hstages =>
    rw [hshape]
    refine .reads rfl rfl (.reads rfl rfl ?_)
    rw [hshape]
    exact .pure hstages
  | quantified hshape hfunction =>
    rw [hshape]
    refine .reads rfl rfl (.reads rfl rfl ?_)
    cases hfunction with
    | function hshape' hstages =>
      rw [hshape']
      exact .pure hstages
    | quantified hshape' _ =>
      rw [hshape']
      exact .display _ (.throws lawful_untilFailure nofun)

theorem gives_compileSlots {slots : List (Slot TermId)} :
    Gives (fun slots' _ => slots'.map (·.comptime) = slots.map (·.comptime))
      (e.compileSlots ctx slots) s := by
  induction slots generalizing s with
  | nil => exact .pure rfl
  | cons slot rest ih =>
    refine .bind (he.compile ctx slot.ty s) fun ty s₁ _ _ => ?_
    refine .bind ih fun rest' s₂ _ hrest => .pure ?_
    rw [List.map_cons, List.map_cons, hrest]

/-- The positions that are left come after those that were supplied. -/
theorem gives_resolve {callee : TermId} {args : List TermId} {stages : List Bool}
    (hinfer : Gives (fun ty s' => ∃ k, s'.Positioned stages k ty) (e.infer ctx callee) s) :
    Gives (fun r _ => r.remaining.map (·.comptime) = stages.drop args.length)
      (e.resolve ctx callee args) s := by
  have hF := lawful_untilFailure
  refine .bind hinfer fun ty s₁ _ hty => ?_
  obtain ⟨k, hty⟩ := hty
  refine .bind (gives_functionParts hty) fun parts s₂ _ hstages => ?_
  obtain ⟨vars, params, result⟩ := parts
  dsimp only at hstages ⊢
  split
  · exact .fails hF rfl rfl nofun
  · refine .bind (.bindQuantified hF ctx.child vars) fun quantified s₃ _ _ => ?_
    refine .bind (follows_supplyAll hF he ctx _ 0 _) fun supplied s₄ _ _ => ?_
    refine .bind (gives_compileSlots he) fun remaining s₅ _ hremaining => ?_
    refine .bind (he.compile _ result s₅) fun result s₆ _ _ => .pure ?_
    rw [hremaining, List.map_drop, hstages]

/-- So a partial application comes to a function with a parameter for each of them. -/
theorem gives_partial (hkeeps : e.KeepsFunctions) {callee : TermId} {args : List TermId}
    {stages : List Bool} (hfewer : args.length < stages.length)
    (hinfer : Gives (fun ty s' => ∃ k, s'.Positioned stages k ty) (e.infer ctx callee) s) :
    Gives (fun u s' => ∃ names, s'.TakesNames names 1 u ∧
        s'.Stages names (stages.drop args.length))
      (e.reduceApplication mode ctx callee args) s := by
  have hF := lawful_untilFailure
  refine .bind (gives_resolve he hinfer) fun r s₁ _ hremaining => ?_
  refine .bind (follows_reduceArgs hF he ctx _) fun values s₂ _ _ => ?_
  refine .bind (he.reduce mode ctx callee s₂) fun callee s₃ _ _ => ?_
  have hne : r.remaining ≠ [] := by
    intro hnil
    rw [hnil, List.map_nil, eq_comm, List.drop_eq_nil_iff] at hremaining
    omega
  rw [if_neg (by simpa [Resolution.isSaturated] using hne), ← hremaining]
  exact gives_curry he hkeeps hne

end Partial

end Engine

/-! ## The judgments -/

namespace Attempt

open Engine

variable {mode : Mode} {s s₁ s' : Store} {ctx : Context} {t callee ty g : TermId}
  {args : List TermId} {stages : List Bool} {n : Nat}

/-- What a partial application comes to is a function of the arguments that are missing. -/
theorem takes_partial (hshape : s.shape t = .application callee args)
    (hinfer : (infer ctx callee).run s = (.ok ty, s₁)) (htype : s₁.Positioned stages n ty)
    (hfewer : args.length < stages.length) (hrun : (reduce mode ctx t).run s = (.ok g, s')) :
    ∃ m ≤ 1, ∃ params, s'.Takes params m g ∧ s'.stagesOf params = stages.drop args.length := by
  change ((ofLevels s.config.maxDepth).reduce mode ctx t).run s = (.ok g, s') at hrun
  cases hlevels : s.config.maxDepth with
  | zero =>
    rw [hlevels] at hrun
    cases hrun
  | succ levels =>
    rw [hlevels, reduce_ofLevels, run_reduceStep_application hshape] at hrun
    have he : untilFailure.Engines (ofLevels levels) (ofLevels levels) :=
      engines_ofLevels lawful_untilFailure (Nat.le_refl levels)
    have hlevel : Gives (fun ty s' => ∃ k, s'.Positioned stages k ty)
        ((ofLevels levels).infer ctx callee) s := by
      refine .of_runs (he.infer ctx callee s) fun ty' s₁' hrun' => ?_
      have hasked : LacksDepth ((ofLevels levels).infer ctx callee) s ∨
          (infer ctx callee).run s = ((ofLevels levels).infer ctx callee).run s :=
        infer_level (by omega)
      rcases hasked with ⟨limit, hlacks⟩ | hsame
      · rw [hrun'] at hlacks
        cases hlacks
      · rw [hrun', hinfer] at hsame
        cases hsame
        exact ⟨n, htype⟩
    obtain ⟨-, names, ⟨m, hm, params, htakes, rfl⟩, hstages⟩ :=
      (gives_partial he (keepsFunctions_ofLevels levels) hfewer hlevel).holds hrun
    exact ⟨m, hm, params, htakes, (Store.stagesOf_eq _ _).trans hstages.2⟩

/-- A partial application that comes to a result comes to a function of the arguments that are
missing, in order and at their stages, and whatever type that function has takes them. -/
theorem reduce_partial (hs : s.Intact) (hmemory : s.RemembersFunctions)
    (hctx : ∀ handle ∈ ctx.handles, s.Owns handle) (hshape : s.shape t = .application callee args)
    (hinfer : (infer ctx callee).run s = (.ok ty, s₁)) (htype : s₁.Positioned stages n ty)
    (hfewer : args.length < stages.length) (hrun : (reduce mode ctx t).run s = (.ok g, s')) :
    (∃ m ≤ 1, ∃ params, s'.Takes params m g ∧ s'.stagesOf params = stages.drop args.length) ∧
      ∀ ctx' gty s'', (∀ handle ∈ ctx'.handles, s'.Owns handle) →
        (infer ctx' g).run s' = (.ok gty, s'') →
        ∃ m ≤ 2, s''.Positioned (stages.drop args.length) m gty := by
  have ht : s.Allocated t := Store.allocated_of_shape (by simp [hshape])
  obtain ⟨m, hm, params, htakes, hstages⟩ := takes_partial hshape hinfer htype hfewer hrun
  refine ⟨⟨m, hm, params, htakes, hstages⟩, fun ctx' gty s'' hctx' hgrun => ?_⟩
  have hmemory' : s'.RemembersFunctions := by
    have hremembers := (remembers_judgments ruled_functionLaw hs
      (Store.remembersFunctions_iff.1 hmemory) hctx ht).2.1 mode
    rw [hrun] at hremembers
    exact Store.remembersFunctions_iff.2 hremembers
  obtain ⟨hleads, hg⟩ := owned_of_ok (Correspondence.corresponds_reduce
    Correspondence.lawful_itself (scope_itself hctx) ⟨rfl, ht⟩) hs hrun
  obtain ⟨hleads', -⟩ := owned_of_ok (Correspondence.corresponds_infer
    Correspondence.lawful_itself (scope_itself hctx') hg) hleads.after.2 hgrun
  have hs' := hleads.after.2
  obtain ⟨k, hk, hpositioned⟩ := fits_infer hs' hmemory' hctx' hg.2 hgrun m params
    (htakes.mono hleads'.left)
  rw [htakes.stagesOf_eq hs'.toCanonical hleads'.left, hstages] at hpositioned
  exact ⟨k, by omega, hpositioned⟩

end Attempt

namespace Sample

open Build

/-- `(fn(comptime T: Type, x: T) => x)(literal 2)`, and its callee. -/
def suppliedType : Build (TermId × TermId) := do
  let ty ← freshVariable true (some "T")
  let x ← freshVariable false (some "x")
  let tyTerm ← variableTerm ty
  let function ← abstraction [] [(ty, Store.typeOfTypes), (x, tyTerm)] (← variableTerm x)
  return (function, ← apply function [← numericType 2])

seal Store.intern Store.initial in
/-- The function and the call in a new store. -/
def supplied : Store.Setup (TermId × TermId) := suppliedType.setup <| by
  repeat' apply Store.Built.add
  · exact fun _ : True => .freshVariable _ _ (.freshVariable _ _ (.initial {}))
  · decide +kernel

/-- `f = fn(comptime T: Type, x: literal "ab") => {let r = (printf(x) as T); x}`, with the calls
`f(literal 2, "ab")` and `f(literal 2)`. -/
def printingFunction : Build (TermId × TermId × TermId) := do
  let ty ← freshVariable true (some "T")
  let x ← freshVariable false (some "x")
  let r ← freshVariable false (some "r")
  let printf ← intern (.native ⟨3⟩)
  let xTerm ← variableTerm x
  let printed ← cast (← apply printf [xTerm]) (← variableTerm ty)
  let body ← letIn [(r, printed)] xTerm
  let text ← stringType "ab"
  let function ← abstraction [] [(ty, Store.typeOfTypes), (x, text)] body
  let two ← numericType 2
  let whole ← apply function [two, ← string "ab"]
  return (function, whole, ← apply function [two])

seal Store.intern Store.initial in
/-- The function and its calls in a new store. -/
def printing : Store.Setup (TermId × TermId × TermId) := printingFunction.setup <| by
  repeat' apply Store.Built.add
  · exact fun _ : True => .freshVariable _ _ (.freshVariable _ _ (.freshVariable _ _ (.initial {})))
  · decide +kernel

end Sample

namespace Attempt

open Sample

/-- `fn(comptime T: Type, x: T) => x` is given its type first. What is left is
`fn(x: literal 2) => x`, but for the name of the parameter. -/
theorem reduce_partial_suppliedType :
    ∃ s : Store, s.Intact ∧ s.RemembersFunctions ∧ ∃ t callee arg ty s₁ g s',
      s.shape t = .application callee [arg] ∧
      s.display callee = "fn(comptime T: Type, x: T) => x" ∧
      (infer .root callee).run s = (.ok ty, s₁) ∧ s₁.Positioned [true, false] 1 ty ∧
      (evaluate .root t).run s = (.ok g, s') ∧
      (∃ m ≤ 1, ∃ params, s'.Takes params m g ∧ s'.stagesOf params = [false]) ∧
      ∀ ctx' gty s'', (∀ handle ∈ ctx'.handles, s'.Owns handle) →
        (infer ctx' g).run s' = (.ok gty, s'') → ∃ m ≤ 2, s''.Positioned [false] m gty := by
  have hbuilt := supplied.built
  have hchecks : ∃ vars body slots result,
      let r := (infer .root supplied.value.1).run supplied.store
      supplied.store.shape supplied.value.2 = .application supplied.value.1 [⟨26⟩] ∧
      supplied.store.display supplied.value.1 = "fn(comptime T: Type, x: T) => x" ∧
      r.1 = .ok ⟨31⟩ ∧ r.2.shape ⟨31⟩ = .forAll vars body ∧
      r.2.shape body = .functionType slots result ∧ slots.map (·.comptime) = [true, false] ∧
      ((evaluate .root supplied.value.2).run supplied.store).1 = .ok ⟨36⟩ :=
    ⟨[⟨6⟩], ⟨30⟩, [⟨Store.typeOfTypes, true, some ⟨6⟩⟩, ⟨⟨23⟩, false, none⟩], ⟨23⟩,
      by decide +kernel⟩
  generalize supplied.store = s at hbuilt hchecks
  generalize supplied.value = terms at hchecks
  obtain ⟨callee, t⟩ := terms
  obtain ⟨vars, body, slots, result, hshape, htext, hty, htype, hbody, hstages, hg⟩ := hchecks
  rcases hinfer : (infer .root callee).run s with ⟨r, s₁⟩
  rcases hrun : (evaluate .root t).run s with ⟨q, s'⟩
  rw [hinfer] at hty htype hbody
  rw [hrun] at hg
  obtain rfl : r = .ok ⟨31⟩ := hty
  obtain rfl : q = .ok ⟨36⟩ := hg
  have hpositioned : s₁.Positioned [true, false] 1 ⟨31⟩ :=
    .quantified htype (.function hbody hstages)
  have hroot : ∀ handle ∈ Context.root.handles, s.Owns handle := nofun
  exact ⟨s, hbuilt.genuine.intact, hbuilt.remembersFunctions, t, callee, ⟨26⟩, ⟨31⟩, s₁, ⟨36⟩, s',
    hshape, htext, hinfer, hpositioned, hrun,
    reduce_partial hbuilt.genuine.intact hbuilt.remembersFunctions hroot hshape hinfer hpositioned
      (by decide) hrun⟩

/-- A partial application may have no result although the call with all arguments has one. Compiling
the body finds the declared type `Top` of a call whose text is not known yet, and refuses to cast
it. -/
theorem evaluate_partial_fails :
    ∃ s : Store, s.Built ∧ ∃ function first second whole part,
      s.display function =
        "fn(comptime T: Type, x: literal \"ab\") => \x7blet r = (native printf(x) as T); x\x7d" ∧
      s.display first = "literal 2" ∧ s.display second = "\"ab\"" ∧
      (∀ t ∈ [function, first, second], (s.freeVariables t).isEmpty = true ∧
        ((evaluate .root t).run s).1 = .ok t) ∧
      s.shape whole = .application function [first, second] ∧
      ((evaluate .root whole).run s).1 = .ok second ∧
      s.shape part = .application function [first] ∧
      ((evaluate .root part).run s).1 = .error (.uncastableTypes "Top" "literal 2") := by
  refine ⟨printing.store, printing.built, printing.value.1, ⟨30⟩, ⟨31⟩, printing.value.2.1,
    printing.value.2.2, ?_⟩
  decide +kernel

end Attempt

end StagedCalculus
