import StagedCalculus.Proofs.Staging.FunctionTypes
import StagedCalculus.Proofs.Staging.Idempotence
import StagedCalculus.Proofs.Staging.Partition

/-!
# Functions can be applied

A function that has a type should be applicable: resolved without arguments, it leaves a position
for each of its parameters.

* `Engine.resolve_reduced`: that is so if the type has one quantifier at most, nothing is left to do
  in it, and its variables await their values;
* `Engine.refuses_nested`: a type below two quantifiers is taken for none of a function;
* `Attempt.resolve_unsupplied`: so for every function it depends on the number of quantifiers;
* `Attempt.resolve_refuses_function`: a quantified function with a dependent parameter has a type
  below two quantifiers, and cannot be applied at all.
-/

namespace StagedCalculus

namespace Store

variable {s : Store} {scope : List VarId} {t body result : TermId} {vars : List VarId}
  {slots : List (Slot TermId)}

/-! ## Parts of reduced types -/

theorem Reduced.of_forAll (h : s.Reduced scope t) (hshape : s.shape t = .forAll vars body) :
    vars.Nodup ∧ s.Reduced (vars ++ scope) body := by
  cases h with
  | quantified hshape' hnodup _ hbody =>
    cases hshape.symm.trans hshape'
    exact ⟨hnodup, hbody⟩
  | constant _ hconstant =>
    rw [hshape] at hconstant
    cases hconstant
  | _ => simp_all

theorem Reduced.of_functionType (h : s.Reduced scope t)
    (hshape : s.shape t = .functionType slots result) :
    (∀ slot ∈ slots, s.Reduced scope slot.ty) ∧ s.Reduced scope result := by
  cases h with
  | functionType hshape' hslots hresult =>
    cases hshape.symm.trans hshape'
    exact ⟨hslots, hresult⟩
  | constant _ hconstant =>
    rw [hshape] at hconstant
    cases hconstant
  | _ => simp_all

/-! ## Function types below quantifiers -/

variable {stages : List Bool} {n : Nat}

theorem Positioned.parts (h : s.Positioned stages n t) (hn : n ≤ 1) :
    ∃ vars function slots result,
      (s.shape t = .forAll vars function ∨ vars = [] ∧ function = t) ∧
        s.shape function = .functionType slots result ∧ slots.map (·.comptime) = stages := by
  cases h with
  | function hshape hstages => exact ⟨[], t, _, _, Or.inr ⟨rfl, rfl⟩, hshape, hstages⟩
  | quantified hshape hbody =>
    cases hbody with
    | function hfunction hstages => exact ⟨_, _, _, _, Or.inl hshape, hfunction, hstages⟩
    | quantified => omega

theorem Positioned.nested (h : s.Positioned stages n t) (hn : 1 < n) :
    ∃ vars function vars' body,
      s.shape t = .forAll vars function ∧ s.shape function = .forAll vars' body := by
  cases h with
  | function => omega
  | quantified hshape hbody =>
    cases hbody with
    | function => omega
    | quantified hfunction _ => exact ⟨_, _, _, _, hshape, hfunction⟩

end Store

namespace Engine

open Attempt

variable {s s₁ : Store} {ctx : Context} {scope vars : List VarId} {slots : List (Slot TermId)}
  {callee ty function result : TermId}

/-! ## Resolution without arguments -/

/-- Resolution gives the parts of a reduced type back. -/
theorem resolve_reduced {e : Engine} (he : e.Restores)
    (hdeferred : (s₁.shape Store.comptimeType).isDeferred = true) (hs₁ : s₁.Intact)
    (hinfer : (e.infer ctx callee).run s = (.ok ty, s₁)) (hreduced : s₁.Reduced scope ty)
    (hctx : Awaits s₁ scope ctx)
    (htype : s₁.shape ty = .forAll vars function ∨ vars = [] ∧ function = ty)
    (hfunction : s₁.shape function = .functionType slots result) :
    Ends (fun r _ => r = ⟨[], vars, [], slots, result⟩) s₁ ((e.resolve ctx callee []).run s) := by
  have hparts := run_functionParts htype hfunction
  obtain ⟨hnodup, hbody⟩ : vars.Nodup ∧ s₁.Reduced (vars ++ scope) function := by
    rcases htype with hquantified | ⟨rfl, rfl⟩
    · exact hreduced.of_forAll hquantified
    · exact ⟨List.nodup_nil, hreduced⟩
  obtain ⟨hslots, hresult⟩ := hbody.of_functionType hfunction
  unfold resolve
  rw [run_bind, hinfer]
  dsimp only
  rw [run_bind, hparts]
  dsimp only
  rw [List.length_nil, if_neg (Nat.not_lt_zero _)]
  refine Idles.bind (idles_bindQuantified hdeferred hctx.child hnodup fun _ _ => rfl)
    (fun quantified s₂ h₂ _ hquantified => ?_) hs₁
  have hdeferred₂ := h₂.isDeferred hdeferred
  refine .reads rfl ?_
  rw [compileSlots_eq]
  refine .bind (idles_reduceSlots he hdeferred₂ hquantified.child (.inl rfl)
    fun slot hslot => (hslots slot hslot).mono h₂) fun remaining s₃ h₃ _ hremaining => ?_
  refine .bind (he (hresult.mono (h₂.trans h₃)) (hquantified.child.mono h₃)
    (h₃.isDeferred hdeferred₂) (.inl rfl)) fun result' s₄ _ _ hresult' => .pure ?_
  subst hremaining hresult'
  -- All variables are open, so that none is determined.
  have hopen : vars.filter (· ∉ vars) = [] := by simp
  rw [hopen]
  rfl

/-- No function type is looked for under a second quantifier. -/
theorem refuses_nested {e : Engine} {vars' : List VarId} {args : List TermId}
    (hinfer : (e.infer ctx callee).run s = (.ok ty, s₁)) (htype : s₁.shape ty = .forAll vars function)
    (hfunction : s₁.shape function = .forAll vars' result) :
    (e.resolve ctx callee args).run s = (.error (.notAFunction (s₁.display function)), s₁) := by
  have hshape : ∀ t, (Attempt.shape t).run s₁ = (.ok (s₁.shape t), s₁) := fun _ => rfl
  have hdisplay : ∀ t, (Attempt.display t).run s₁ = (.ok (s₁.display t), s₁) := fun _ => rfl
  have hparts : (functionParts ty).run s₁ = (.error (.notAFunction (s₁.display function)), s₁) := by
    have hpure : ∀ {α : Type} (a : α), (pure a : Attempt α).run s₁ = (.ok a, s₁) := fun _ => rfl
    unfold functionParts
    simp only [run_bind, hshape, htype, hpure, hfunction, hdisplay]
    rfl
  unfold resolve
  rw [run_bind, hinfer]
  dsimp only
  rw [run_bind, hparts]

end Engine

namespace Attempt

open Engine Sample

/-- A function that has a type can be applied if its type has one quantifier at most, nothing is
left to do in the type, and its variables await their values: without arguments, exactly the
positions of its parameters remain, in order and at their stages. Below two quantifiers it cannot be
applied. -/
theorem resolve_unsupplied {s s₁ : Store} {ctx : Context} {scope : List VarId}
    {function ty : TermId} {n : Nat} {params : List (VarId × TermId)} (hs : s.Genuine)
    (hmemory : s.RemembersFunctions) (hctx : ∀ handle ∈ ctx.handles, s.Owns handle)
    (hfunction : s.Takes params n function) (hinfer : (infer ctx function).run s = (.ok ty, s₁))
    (hreduced : s₁.Reduced scope ty) (hawaits : Awaits s₁ scope ctx) :
    ∃ m ≤ n + 1, s₁.Positioned (s.stagesOf params) m ty ∧
      (m ≤ 1 → (∃ limit, ((resolve ctx function []).run s).1 = .error (.depthExceeded limit)) ∨
        ∃ r, ((resolve ctx function []).run s).1 = .ok r ∧ r.supplied = [] ∧ r.determined = [] ∧
          r.remaining.map (·.comptime) = s.stagesOf params) ∧
      (1 < m → ∃ text, ((resolve ctx function []).run s).1 = .error (.notAFunction text)) := by
  have ht := hfunction.allocated
  have hs₁ : s₁.Genuine := by
    have hasked : ((infer ctx function).run s).2.Genuine := .infer hs hctx ht
    rwa [hinfer] at hasked
  have hle : s.Extends s₁ := by
    have hle := extends_run hs.intact (Correspondence.corresponds_infer Correspondence.lawful_itself
      (scope_itself hctx) ⟨rfl, ht⟩)
    rwa [hinfer] at hle
  obtain ⟨m, hm, hpositioned⟩ :=
    fits_infer hs.intact hmemory hctx ht hinfer n params (hfunction.mono hle)
  rw [hfunction.stagesOf_eq hs.intact.toCanonical hle] at hpositioned
  rw [run_infer] at hinfer
  rw [run_resolve]
  refine ⟨m, hm, hpositioned, fun hone => ?_, fun htwo => ?_⟩
  · obtain ⟨vars, body, slots, result, htype, hbody, hstages⟩ := hpositioned.parts hone
    have hends := resolve_reduced (restores_ofLevels _) hs₁.deferred_comptimeType hs₁.intact hinfer
      hreduced hawaits htype hbody
    generalize ((ofLevels s.config.maxDepth).resolve ctx function []).run s = r at hends
    cases hends with
    | deep => exact Or.inl ⟨_, rfl⟩
    | gives _ _ _ hr =>
      subst hr
      exact Or.inr ⟨_, rfl, rfl, rfl, hstages⟩
  · obtain ⟨vars, body, vars', inner, htype, hbody⟩ := hpositioned.nested htwo
    exact ⟨_, congrArg Prod.fst (refuses_nested hinfer htype hbody)⟩

/-- `fn(comptime T: Type, x: T) => x` has a type below one quantifier. -/
theorem resolve_unsupplied_dependentIdentity :
    ∃ s : Store, s.Genuine ∧ s.RemembersFunctions ∧ ∃ function ty params s₁,
      s.display function = "fn(comptime T: Type, x: T) => x" ∧ s.Takes params 0 function ∧
      (infer .root function).run s = (.ok ty, s₁) ∧ s₁.Reduced [] ty ∧
      s.stagesOf params = [true, false] ∧
      ((∃ limit, ((resolve .root function []).run s).1 = .error (.depthExceeded limit)) ∨
        ∃ r, ((resolve .root function []).run s).1 = .ok r ∧ r.supplied = [] ∧ r.determined = [] ∧
          r.remaining.map (·.comptime) = [true, false]) := by
  have hbuilt := dependentFunction.built
  have hchecks : ∃ function t x xType xTerm body ty,
      let params := [(t, Store.typeOfTypes), (x, xType)]
      let r := (infer .root function).run dependentFunction.store
      dependentFunction.store.display function = "fn(comptime T: Type, x: T) => x" ∧
      dependentFunction.store.shape function = .abstraction [] params xTerm ∧
      dependentFunction.store.stagesOf params = [true, false] ∧ r.1 = .ok ty ∧
      r.2.shape ty = .forAll [t] body ∧ (r.2.freeVariables body).contains t = true ∧
      r.2.shape body =
        .functionType [⟨Store.typeOfTypes, true, some t⟩, ⟨xType, false, none⟩] xType ∧
      r.2.shape xType = .variable t ∧ r.2.Allocated Store.typeOfTypes ∧
      (r.2.shape Store.typeOfTypes).isConstant = true :=
    ⟨dependentFunction.value, ⟨6⟩, ⟨7⟩, ⟨23⟩, ⟨24⟩, ⟨28⟩, ⟨29⟩, by decide +kernel⟩
  generalize dependentFunction.store = s at hbuilt hchecks
  obtain ⟨function, t, x, xType, xTerm, body, ty, htext, hshape, hstages, hty, htype, hused, hbody,
    hvariable, hallocated, hconstant⟩ := hchecks
  rcases hrun : (infer .root function).run s with ⟨r, s₁⟩
  rw [hrun] at hty htype hused hbody hvariable hallocated hconstant
  obtain rfl : r = .ok ty := hty
  have hfunction : s.Takes _ 0 function := .function hshape (List.cons_ne_nil _ _)
  have hreduced : s₁.Reduced [] ty := by
    have hxType : s₁.Reduced [t] xType := .variable hvariable (List.mem_singleton_self t)
    refine .quantified htype (List.nodup_singleton t) ?_ (.functionType hbody ?_ hxType)
    · simpa using hused
    · simpa using And.intro (Store.Reduced.constant hallocated hconstant) hxType
  have hroot : ∀ handle ∈ Context.root.handles, s.Owns handle := nofun
  have hawaits : Awaits s₁ [] .root := nofun
  obtain ⟨m, hm, -, happlies, -⟩ := resolve_unsupplied hbuilt.genuine hbuilt.remembersFunctions
    hroot hfunction hrun hreduced hawaits
  exact ⟨s, hbuilt.genuine, hbuilt.remembersFunctions, function, ty, _, s₁, htext, hfunction, hrun,
    hreduced, hstages, hstages ▸ happlies hm⟩

end Attempt

/-! ## Functions that cannot be applied -/

namespace Sample

open Build

/-- `forall U. fn(comptime T: Type, x: T, y: U) => x`. -/
def quantifiedDependent : Build TermId := do
  let u ← freshVariable true (some "U")
  let ty ← freshVariable true (some "T")
  let x ← freshVariable false (some "x")
  let y ← freshVariable false (some "y")
  let first ← variableTerm ty
  let second ← variableTerm u
  let body ← variableTerm x
  forAll [u] (← abstraction [] [(ty, Store.typeOfTypes), (x, first), (y, second)] body)

seal Store.intern Store.initial in
/-- The function in a new store. -/
def genericDependent : Store.Setup TermId := quantifiedDependent.setup <| by
  repeat' apply Store.Built.add
  · exact fun _ : True => .freshVariable _ _ (.freshVariable _ _ (.freshVariable _ _
      (.freshVariable _ _ (.initial {}))))
  · decide +kernel

/-- `fn(x: Type) => (3 as x)`. -/
def castToParameter : Build TermId := do
  let x ← freshVariable false (some "x")
  let three ← numeric 3
  abstraction [] [(x, Store.typeOfTypes)] (← cast three (← variableTerm x))

seal Store.intern Store.initial in
/-- The function in a new store. -/
def leakingFunction : Store.Setup TermId := castToParameter.setup <| by
  repeat' apply Store.Built.add
  · exact fun _ : True => .freshVariable _ _ (.initial {})
  · decide +kernel

end Sample

namespace Attempt

open Sample

/-- The dependent parameter is quantified over inside of the quantifier of the function, so that the
type is below two quantifiers. -/
theorem resolve_refuses_function :
    ∃ s : Store, s.Built ∧ ∃ function params ty,
      s.display function = "forall U. fn(comptime T: Type, x: T, y: U) => x" ∧
      s.Takes params 1 function ∧ params.length = 3 ∧
      ((infer .root function).run s).1 = .ok ty ∧
      ((infer .root function).run s).2.display ty =
        "forall U. forall T. fn(comptime T: Type, T, U) -> T" ∧
      ((resolve .root function []).run s).1 =
        .error (.notAFunction "forall T. fn(comptime T: Type, T, U) -> T") := by
  refine ⟨genericDependent.store, genericDependent.built, genericDependent.value,
    [(⟨7⟩, Store.typeOfTypes), (⟨8⟩, ⟨23⟩), (⟨9⟩, ⟨24⟩)], ⟨33⟩, ?_⟩
  have hquantified : genericDependent.store.shape genericDependent.value = .forAll [⟨6⟩] ⟨26⟩ := by
    decide +kernel
  have hfunction : genericDependent.store.shape ⟨26⟩ =
      .abstraction [] [(⟨7⟩, Store.typeOfTypes), (⟨8⟩, ⟨23⟩), (⟨9⟩, ⟨24⟩)] ⟨25⟩ := by
    decide +kernel
  refine ⟨?_, .quantified hquantified (.function hfunction (List.cons_ne_nil _ _)), rfl, ?_⟩
  all_goals decide +kernel

/-- A type may mention a runtime parameter, which no quantifier binds. Then there is one quantifier
at most, but something is left to do in the type, for which a variable has no value. -/
theorem resolve_misses_parameter :
    ∃ s : Store, s.Built ∧ ∃ function params ty,
      s.display function = "fn(x: Type) => (3 as x)" ∧ s.Takes params 0 function ∧
      ((infer .root function).run s).1 = .ok ty ∧
      ((infer .root function).run s).2.display ty = "fn(Type) -> x" ∧
      ((resolve .root function []).run s).1 = .error (.unboundVariable "x") := by
  refine ⟨leakingFunction.store, leakingFunction.built, leakingFunction.value,
    [(⟨6⟩, Store.typeOfTypes)], ⟨28⟩, ?_⟩
  have hfunction : leakingFunction.store.shape leakingFunction.value =
      .abstraction [] [(⟨6⟩, Store.typeOfTypes)] ⟨25⟩ := by
    decide +kernel
  refine ⟨?_, .function hfunction (List.cons_ne_nil _ _), ?_⟩
  all_goals decide +kernel

end Attempt

end StagedCalculus
