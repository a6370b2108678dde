import StagedCalculus.Proofs.Staging.Built
import StagedCalculus.Proofs.Staging.CleanReduce

/-!
# Variables are bound once

A frame refuses to bind a variable twice. This module shows that this refusal is never the doing of
inference or reduction.

* `Store.Orderly`: the stores that come about by asking about well-bound terms in tidy contexts;
* `Store.Orderly.neat`: all of them are neat, also after a step that fails;
* `Attempt.judgments_bind_once`: in such a store a question about a well-bound term is never
  answered by the refusal, and every term of an answer is well-bound.
-/

namespace StagedCalculus

namespace Attempt.Clean

variable {s : Store}

/-! ## Generic signatures -/

theorem genericSlots (params : List (String × Bool)) :
    Clean (fun r s' => r.1.Nodup ∧
        (∀ v ∈ r.1, s.vars.size ≤ v.index ∧ v.index < s'.vars.size) ∧
        ∀ slot ∈ r.2, slot.binds = none ∧ s'.WellBound slot.ty)
      (Build.genericSlots params) s := by
  induction params generalizing s with
  | nil => exact .pure ⟨List.nodup_nil, by simp, by simp⟩
  | cons p rest ih =>
    let next := fun v => (do
      let ty ← Build.variableTerm v
      let r ← Build.genericSlots rest
      return (v :: r.1, ⟨ty, p.2, none⟩ :: r.2) : Attempt (List VarId × List (Slot TermId)))
    change Clean _ (Build.freshVariable true (some p.1) >>= next) s
    refine .bind (.freshVariable _ _) fun v s₁ h₁ hv => ?_
    refine .bind (.variableTerm hv.2) fun ty s₂ h₂ hty => ?_
    refine .bind ih fun r s₃ h₃ hr => .pure ?_
    obtain ⟨hdistinct, hvars, hslots⟩ := hr
    have hlt : v.index < s₂.vars.size := h₂.lt_vars hv.2
    refine ⟨List.nodup_cons.2 ⟨fun hmem => ?_, hdistinct⟩, List.forall_mem_cons.2
      ⟨⟨hv.1, h₃.lt_vars hlt⟩, fun w hw => ⟨?_, (hvars w hw).2⟩⟩,
      List.forall_mem_cons.2 ⟨⟨rfl, hty.mono h₃⟩, hslots⟩⟩
    · exact absurd hlt (Nat.not_lt.2 (hvars v hmem).1)
    · exact Nat.le_trans (h₁.trans h₂).size_vars (hvars w hw).1

theorem genericSignature (params : List (String × Bool)) :
    Clean Term (Build.genericSignature params) s := by
  let next := fun r : List VarId × List (Slot TermId) => (do
    let function ← Build.functionType r.2 Store.topType
    Build.forAll r.1 function : Attempt TermId)
  change Clean Term (Build.genericSlots params >>= next) s
  refine .bind (genericSlots params) fun r s₁ _ hr => .withNeat fun hs₁ => ?_
  obtain ⟨hdistinct, hvars, hslots⟩ := hr
  refine .bind ((Store.Positions.plain hslots).build (hs₁.basic 3 (by decide)))
    fun function s₂ h₂ hfunction => ?_
  refine .binds rfl (fun v hv => h₂.lt_vars (hvars v hv).2) hdistinct ?_
  simpa [Shape.children] using hfunction

end Attempt.Clean

namespace Store

variable {s : Store}

/-! ## The initial store -/

theorem Neat.register (hs : s.Neat) {native : Native} {signature : TermId} {captured : List Handle}
    (hintact : (s.register native signature).2.Intact)
    (hcaptured : ∀ handle ∈ captured, s.Holds handle) (hnative : native.Orderly captured)
    (hsignature : s.WellBound signature) : (s.register native signature).2.Neat := by
  have hle := extends_register s native signature
  have htypes : (s.register native signature).2.types = s.types := types_intern _ _
  have hcases : ∀ {id registered},
      (s.register native signature).2.native? id = some registered →
      registered = ⟨native, signature⟩ ∨ s.native? id = some registered := by
    intro id registered hid
    rw [Store.register, native?, natives_intern] at hid
    exact native?_push hid
  refine ⟨hintact, fun i hi => (hs.basic i hi).mono hle, fun t restriction ty h => ?_,
    fun t restriction name => ?_, fun id registered hid => ?_, fun id registered hid => ?_⟩
  · rw [htypes] at h
    exact (hs.answers t restriction ty h).mono hle
  · rw [htypes]
    exact hs.refusals t restriction name
  · rcases hcases hid with rfl | hold
    · exact hsignature.mono hle
    · exact (hs.declared id registered hold).mono hle
  · rcases hcases hid with rfl | hold
    · exact ⟨captured, fun handle hhandle => hle.holds (hcaptured handle hhandle), hnative⟩
    · obtain ⟨captured, hcaptured, horderly⟩ := hs.orderly id registered hold
      exact ⟨captured, fun handle hhandle => hle.holds (hcaptured handle hhandle), horderly⟩

/-- Registering a native that captured no handle. -/
theorem Neat.registerGeneric (hs : s.Neat) {native : Native} (params : List (String × Bool))
    (hintact : ((Build.register native params).run s).2.Intact) (hnative : native.Orderly []) :
    ((Build.register native params).run s).2.Neat := by
  have hends := Attempt.Clean.genericSignature (s := s) params hs
  let r := (Build.genericSignature params).run s
  change Attempt.EndsClean Attempt.Term s (.ok r.1, r.2) at hends
  cases hends with
  | gives _ hs₁ hsignature => exact hs₁.register hintact (List.forall_mem_nil _) hnative hsignature

theorem neat_commonTerms (config : Config) : (Build.commonTerms.run (empty config)).2.Neat := by
  have hintact := intact_commonTerms config
  have hnone : ∀ id registered,
      (Build.commonTerms.run (empty config)).2.native? id ≠ some registered := by
    intro id registered hid
    have hmem := mem_nativeFunctions hid
    rw [nativeFunctions_commonTerms] at hmem
    simp [nativeFunctions, empty] at hmem
  have hleaf : ∀ i < 5, ((Build.commonTerms.run (empty config)).2.shape ⟨i⟩).binders.Nodup := by
    intro i hi
    have hbinders : ((Build.commonTerms.run (empty config)).2.shape ⟨i⟩).binders = [] := by
      have hcases : i = 0 ∨ i = 1 ∨ i = 2 ∨ i = 3 ∨ i = 4 := by omega
      rcases hcases with rfl | rfl | rfl | rfl | rfl <;> rfl
    rw [hbinders]
    exact List.nodup_nil
  have htypes : (Build.commonTerms.run (empty config)).2.types = .empty := rfl
  refine ⟨hintact, fun i hi => hintact.toLinked.wellBound hleaf (hintact.allocated_common hi),
    fun t restriction ty h => ?_, fun t restriction name h => ?_,
    fun id registered hid => absurd hid (hnone id registered),
    fun id registered hid => absurd hid (hnone id registered)⟩
  · rw [htypes, TypeCache.get?_empty] at h
    cases h
  · rw [htypes, TypeCache.get?_empty] at h
    cases h

seal Build.commonTerms Build.register in
theorem neat_initial (config : Config) : (initial config).Neat := by
  have step : ∀ {s : Store} {native : Native} (params : List (String × Bool)), s.Neat →
      native ∈ [Native.cast, Native.project, Native.cimport, Native.printf] →
      native.Careful [] [] → (∀ s, Correspondence.reflexive.Natives s s native native) →
      ((Build.register native params).run s).2.Neat := fun params hs hmem hcareful hnative =>
    hs.registerGeneric params (intact_registerGeneric hs.toIntact hcareful hnative params)
      (Native.orderly_builtin hmem)
  have hcast := step [("Target", true), ("Subject", false)] (neat_commonTerms config) (by simp)
    Native.careful_cast fun _ => Correspondence.natives_cast Correspondence.stable_reflexive
  have hproject := step [("Product", false), ("Field", true)] hcast (by simp)
    Native.careful_project fun _ => Correspondence.natives_project Correspondence.stable_reflexive
  have hcimport := step [("Header", true)] hproject (by simp)
    Native.careful_cimport fun _ => Correspondence.natives_cimport Correspondence.stable_reflexive
  exact step [("Format", false)] hcimport (by simp)
    Native.careful_printf fun _ => Correspondence.natives_printf Correspondence.stable_reflexive

/-! ## Stores that come about -/

/-- The stores that come about by building terms, registering natives and asking for judgments in
any order, whether the judgments succeed or fail. What is asked about is well-bound, and so are the
terms in its context and the signatures of natives; natives are orderly. -/
inductive Orderly : Store → Prop
  | initial (config : Config) : Orderly (initial config)
  | intern {s : Store} {shape : Shape TermId} : Orderly s → s.Covers shape →
      Orderly (s.intern shape).2
  | freshVariable {s : Store} (comptime : Bool) (name : Option String) : Orderly s →
      Orderly (s.freshVariable comptime name).2
  | freshNamedType {s : Store} (name : String) : Orderly s → Orderly (s.freshNamedType name).2
  | register {s : Store} {native : Native} {signature : TermId} {captured : List Handle} :
      Orderly s → native.Grounded captured → native.Orderly captured →
      (∀ handle ∈ captured, s.Holds handle) → s.WellBound signature →
      Orderly (s.register native signature).2
  | builtin {s : Store} (name : String) : Orderly s → Orderly (s.builtin name).2
  | redirect {s : Store} (sink : Sink) : Orderly s → Orderly (s.redirect sink)
  | write {s : Store} (text : String) : Orderly s → Orderly (s.write text).2
  | infer {s : Store} {ctx : Context} {t : TermId} : Orderly s → ctx.Tidy s → s.WellBound t →
      Orderly ((Attempt.infer ctx t).run s).2
  | reduce {s : Store} {mode : Mode} {ctx : Context} {t : TermId} : Orderly s → ctx.Tidy s →
      s.WellBound t → Orderly ((Attempt.reduce mode ctx t).run s).2
  | resolve {s : Store} {ctx : Context} {callee : TermId} {args : List TermId} : Orderly s →
      ctx.Tidy s → s.WellBound callee → (∀ arg ∈ args, s.WellBound arg) →
      Orderly ((Attempt.resolve ctx callee args).run s).2
  | observed {s : Store} {ctx : Context} {t : TermId} : Orderly s → ctx.Tidy s → s.WellBound t →
      Orderly ((Attempt.observed ctx t).run s).2

end Store

namespace Attempt

variable {α : Type} {s : Store} {post : α → Store → Prop} {c : Attempt α} {ctx : Context}

/-! ## The judgments -/

theorem EndsClean.neat {r : Except Error α × Store} (h : EndsClean post s r) : r.2.Neat := by
  cases h with
  | fails _ hs' _ => exact hs'
  | gives _ hs' _ => exact hs'

theorem clean_infer {t : TermId} (hctx : ctx.Tidy s) (ht : s.WellBound t) :
    Clean Term (infer ctx t) s :=
  .reads rfl ((Engine.clean_ofLevels _).infer hctx ht)

theorem clean_reduce {mode : Mode} {t : TermId} (hctx : ctx.Tidy s) (ht : s.WellBound t) :
    Clean Term (reduce mode ctx t) s :=
  .reads rfl ((Engine.clean_ofLevels _).reduce hctx ht)

theorem clean_resolve {callee : TermId} {args : List TermId} (hctx : ctx.Tidy s)
    (hcallee : s.WellBound callee) (hargs : ∀ arg ∈ args, s.WellBound arg) :
    Clean (fun r s' => r.Tidy s') (resolve ctx callee args) s :=
  .reads rfl (Engine.clean_resolve (Engine.clean_ofLevels _) hctx hcallee hargs)

theorem clean_observed {t : TermId} (hctx : ctx.Tidy s) : Clean Anything (observed ctx t) s :=
  .restrict hctx fun hctx hvalue => clean_infer hctx hvalue

end Attempt

namespace Store

variable {s : Store}

/-- Every step leaves a neat store, also one that fails. -/
theorem Orderly.neat (h : s.Orderly) : s.Neat := by
  induction h with
  | initial config => exact neat_initial config
  | intern _ hshape ih => exact ih.intern hshape
  | freshVariable comptime name _ ih => exact ih.freshVariable comptime name
  | freshNamedType name _ ih =>
    exact ih.later (intact_freshNamedType ih.toIntact name) (extends_freshNamedType _ name)
      (natives_intern _ _) (types_intern _ _)
  | register _ hgrounded hnative hcaptured hsignature ih =>
    have howns := fun handle hhandle => (hcaptured handle hhandle).owns
    refine ih.register (intact_register ih.toIntact (fun t ht => howns _ (Handle.mem_terms.1 ht))
      hgrounded.confined (Correspondence.natives_reflexive hgrounded howns) hsignature.allocated)
      hcaptured hnative hsignature
  | builtin name _ ih =>
    exact ih.later (intact_builtin ih.toIntact name) (extends_builtin _ name)
      (natives_builtin _ name) (untouched_builtin _ name).types
  | redirect sink _ ih => exact ih.output _
  | write text _ ih => exact ih.write text
  | infer _ hctx ht ih => exact (Attempt.clean_infer hctx ht ih).neat
  | reduce _ hctx ht ih => exact (Attempt.clean_reduce hctx ht ih).neat
  | resolve _ hctx hcallee hargs ih => exact (Attempt.clean_resolve hctx hcallee hargs ih).neat
  | observed _ hctx _ ih => exact (Attempt.clean_observed hctx ih).neat

/-- A new store in which no question was asked. -/
theorem Built.orderly (h : s.Built) : s.Orderly := by
  induction h with
  | initial config => exact .initial config
  | intern _ hshape ih => exact .intern ih hshape
  | freshVariable comptime name _ ih => exact .freshVariable comptime name ih
  | freshNamedType name _ ih => exact .freshNamedType name ih
  | builtin name _ ih => exact .builtin name ih
  | redirect sink _ ih => exact .redirect sink ih

end Store

namespace Attempt

variable {α : Type} {s : Store} {post : α → Store → Prop} {c : Attempt α} {ctx : Context}

/-- The computation does not fail because a variable is bound already, and its result satisfies a
condition. -/
structure BindsOnce (post : α → Store → Prop) (s : Store) (c : Attempt α) : Prop where
  failure : ∀ name, (c.run s).1 ≠ .error (.alreadyBound name)
  result : ∀ a, (c.run s).1 = .ok a → post a (c.run s).2

theorem Clean.bindsOnce (h : Clean post c s) (hs : s.Neat) : BindsOnce post s c := by
  have hends := h hs
  refine ⟨fun name heq => ?_, fun a heq => ?_⟩ <;>
    generalize c.run s = r at hends heq ⊢ <;>
    cases hends with
    | fails _ _ he => first | exact he name (Except.error.inj heq) | cases heq
    | gives _ _ hpost =>
      cases heq
      try exact hpost

/-- In a tidy context no question about a well-bound term fails because a variable is bound already,
and every term of an answer is well-bound. -/
theorem judgments_bind_once (hs : s.Orderly) (hctx : ctx.Tidy s) {t : TermId}
    (ht : s.WellBound t) :
    BindsOnce Term s (evaluate ctx t) ∧ BindsOnce Term s (compile ctx t) ∧
      BindsOnce Term s (infer ctx t) ∧
      ∀ args, (∀ arg ∈ args, s.WellBound arg) →
        BindsOnce (fun r s' => r.Tidy s') s (resolve ctx t args) :=
  ⟨(clean_reduce hctx ht).bindsOnce hs.neat, (clean_reduce hctx ht).bindsOnce hs.neat,
    (clean_infer hctx ht).bindsOnce hs.neat, fun _ hargs =>
      (clean_resolve hctx ht hargs).bindsOnce hs.neat⟩

end Attempt

namespace Sample

open Build

/-- `(fn(comptime T: Type, x: T) => x)()`. -/
def suspendedIdentity : Build TermId := do
  let ty ← freshVariable true (some "T")
  let x ← freshVariable false (some "x")
  let tyTerm ← variableTerm ty
  let xTerm ← variableTerm x
  let identity ← abstraction [] [(ty, Store.typeOfTypes), (x, tyTerm)] xTerm
  apply identity []

seal Store.intern Store.initial in
/-- The call without arguments in a new store. -/
def suspended : Store.Setup TermId := suspendedIdentity.setup <| by
  repeat' apply Store.Built.add
  · exact fun _ : True => .freshVariable _ _ (.freshVariable _ _ (.initial {}))
  · decide +kernel

end Sample

namespace Attempt

open Sample

/-- The frame in which the call without arguments is made a function binds a new variable for each
parameter, and renames `T` to the first of them. -/
theorem judgments_bind_once_suspended :
    ∃ s : Store, s.Orderly ∧ ∃ t r, s.WellBound t ∧
      s.display t = "fn(comptime T: Type, x: T) => x()" ∧
      ((evaluate .root t).run s).1 = .ok r ∧
      ((evaluate .root t).run s).2.display r = "fn(comptime GV#8: Type, GV#9: GV#8) => GV#9" ∧
      ((evaluate .root t).run s).2.WellBound r := by
  have horderly := suspended.built.orderly
  have hchecks :
      (∀ i < suspended.store.entries.size, (suspended.store.shape ⟨i⟩).binders.Nodup) ∧
      ∃ t r, suspended.store.Allocated t ∧
        suspended.store.display t = "fn(comptime T: Type, x: T) => x()" ∧
        ((evaluate .root t).run suspended.store).1 = .ok r ∧
        ((evaluate .root t).run suspended.store).2.display r =
          "fn(comptime GV#8: Type, GV#9: GV#8) => GV#9" :=
    ⟨by decide +kernel, suspended.value, ⟨36⟩, by decide +kernel⟩
  generalize suspended.store = s at horderly hchecks
  obtain ⟨hbinders, t, r, ht, htext, hvalue, hshown⟩ := hchecks
  have hwell : s.WellBound t := horderly.neat.toLinked.wellBound hbinders ht
  exact ⟨s, horderly, t, r, hwell, htext, hvalue, hshown,
    (judgments_bind_once horderly (Context.Tidy.root s) hwell).1.result r hvalue⟩

end Attempt

end StagedCalculus
