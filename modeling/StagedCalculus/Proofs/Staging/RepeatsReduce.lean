import StagedCalculus.Proofs.Staging.Repeats

/-!
# Asking again

This module follows the rules of resolution and reduction over an engine whose own calls repeat
themselves (`Engine.repeats_resolve`, `Engine.repeats_reduceStep`), and climbs the levels. Inference
needs no rules of its own, for it remembers what it gave (`Engine.infer_remembers`).

So whatever was asked of a store is answered in the same way at any later time.

* `Attempt.infer_remembers`: a term has the type that it had, and asking for it changes nothing;
* `Attempt.reduce_repeats`, `Attempt.resolve_repeats`: reduction and resolution give the same
  result, unless they make a variable, and add nothing to the store but output.
-/

namespace StagedCalculus

namespace Engine

open Attempt Correspondence

variable {e : Engine} {s : Store} {ctx : Context} {mode : Mode}

section Rules

variable (hC : itself.Steady) (hown : itself.Engines e e) (he : Repeating e)

include hC hown he

/-! ## Resolution -/

theorem repeats_bindParams {params : List (VarId × TermId)} (hctx : itself.scope s s ctx ctx)
    (hparams : (itself.like s s).Bindings params params) : Repeats (e.bindParams ctx params) s := by
  induction params generalizing s ctx with
  | nil => exact .pure _
  | cons p rest ih =>
    cases hparams with
    | cons hp hrest =>
      refine .bind (hown.compile hctx hp.term) (he.compile hctx hp.term) fun ty s₁ h₁ hty => ?_
      have hvar := h₁.var hC hp.var
      refine .isComptime hvar.2 ?_
      refine .bind (.intern hC (.deferred _ hty)) (.intern (.deferred _ hty))
        fun placeholder s₂ h₂ hdeferred => ?_
      refine .bind (.bindContext hC (by grind) (by grind) hdeferred) (.bindContext _ _ _)
        fun ctx s₃ h₃ hctx₃ => ?_
      exact .map (ih hctx₃ (by grind)) _

omit hC hown he in
theorem repeats_knownAtCompileTime {value : TermId} (hctx : itself.scope s s ctx ctx)
    (hvalue : s.Allocated value) : Repeats (knownAtCompileTime ctx value) s := by
  refine .isValue hvalue ?_
  split
  · exact .pure true
  · refine .shape hvalue ?_
    split
    · rename_i v hshape
      cases hget : ctx.get? v with
      | none => exact .pure false
      | some bound =>
        refine .shape (within_of_scope hctx v bound hget) ?_
        split
        · exact .pure true
        · exact .pure false
    · exact .pure false

theorem repeats_supplyComptime {m : Matching} {index : Nat} {arg : TermId} {slot : Slot TermId}
    (hctx : itself.scope s s ctx ctx) (harg : (itself.like s s).term arg arg) :
    Repeats (e.supplyComptime ctx m index arg slot) s := by
  refine .bind (hown.compile hctx harg) (he.compile hctx harg) fun value s₁ h₁ hvalue => ?_
  have hctx₁ := h₁.scope hC hctx
  refine .bind (corresponds_knownAtCompileTime hC hctx₁ hvalue)
    (repeats_knownAtCompileTime hctx₁ hvalue.2) fun known s₂ h₂ _ => ?_
  cases known with
  | false => exact .fails rfl
  | true =>
    simp only [Bool.not_true, Bool.false_eq_true, if_false]
    cases slot.binds with
    | none => exact .pure m
    | some v =>
      dsimp only
      split
      · exact .map (.bindContext _ v value) _
      · exact .pure m

theorem repeats_supply {m : Matching} {index : Nat} {arg : TermId} {slot : Slot TermId}
    (hctx : itself.scope s s ctx ctx) (hm : itself.Matchings s s m m)
    (harg : (itself.like s s).term arg arg) (hslot : (itself.like s s).Position slot slot) :
    Repeats (e.supply ctx m index arg slot) s := by
  have hrest : ∀ (m : Matching) s₁, itself.Leads s s s₁ s₁ → itself.Matchings s₁ s₁ m m →
      Repeats (do
        let argType ← e.infer ctx arg
        let expected ← e.compile m.context slot.ty
        let m ← e.unify m expected argType
        return (m, ← e.compile m.context slot.ty)) s₁ := by
    intro m s₁ h₁ hm₁
    have hctx₁ := h₁.scope hC hctx
    have harg₁ := h₁.term hC harg
    refine .bind (hown.infer hctx₁ harg₁) (he.infer hctx₁ harg₁) fun argType s₂ h₂ hargType => ?_
    have hty₂ := (h₁.trans h₂).term hC hslot.ty
    have hm₂ := hm₁.mono hC h₂
    refine .bind (hown.compile hm₂.context hty₂) (he.compile hm₂.context hty₂)
      fun expected s₃ h₃ hexpected => ?_
    have hm₃ := hm₂.mono hC h₃
    have hargType₃ := h₃.term hC hargType
    refine .bind (corresponds_unify hC hown hm₃ hexpected hargType₃)
      (repeats_unify hm₃ hexpected hargType₃) fun m s₄ h₄ hm₄ => ?_
    exact .map (he.compile hm₄.context ((h₃.trans h₄).term hC hty₂)) _
  unfold supply
  dsimp only
  split
  · exact .bind (corresponds_supplyComptime hC hown hctx hm harg hslot)
      (repeats_supplyComptime hC hown he hctx harg) hrest
  · exact .bind (.pure hm) (.pure m) hrest

theorem repeats_supplyAll {m : Matching} {index : Nat} {args : List (TermId × Slot TermId)}
    (hctx : itself.scope s s ctx ctx) (hm : itself.Matchings s s m m)
    (hargs : List.Forall₂ (fun p p' => (itself.like s s).term p.1 p'.1 ∧
      (itself.like s s).Position p.2 p'.2) args args) :
    Repeats (e.supplyAll ctx m index args) s := by
  induction args generalizing s m index with
  | nil => exact .pure _
  | cons p rest ih =>
    cases hargs with
    | cons hp hrest =>
      refine .bind (corresponds_supply hC hown hctx hm hp.1 hp.2)
        (repeats_supply hC hown he hctx hm hp.1 hp.2) fun r s₁ h₁ hr => ?_
      refine .map (ih (h₁.scope hC hctx) hr.1 (hrest.imp fun _ _ hq => ?_)) _
      exact ⟨h₁.term hC hq.1, h₁.position hC hq.2⟩

theorem repeats_compileSlots {slots : List (Slot TermId)} (hctx : itself.scope s s ctx ctx)
    (hslots : List.Forall₂ (itself.like s s).Position slots slots) :
    Repeats (e.compileSlots ctx slots) s := by
  induction slots generalizing s with
  | nil => exact .pure []
  | cons slot rest ih =>
    cases hslots with
    | cons hslot hrest =>
      refine .bind (hown.compile hctx hslot.ty) (he.compile hctx hslot.ty) fun ty s₁ h₁ hty => ?_
      exact .map (ih (h₁.scope hC hctx) (h₁.positions hC hrest)) _

omit hown he in
theorem repeats_functionParts {ty : TermId} (hty : (itself.like s s).term ty ty) :
    Repeats (functionParts ty) s := by
  refine .withIntact fun hs => .shape hty.2 ?_
  have hshape := hC.shape ⟨rfl, hs⟩ hty
  -- Below the quantifier, if there is one, stands a function type or the failure.
  split
  · rename_i vars body hquantifier
    rw [hquantifier] at hshape
    cases hshape with
    | forAll hvars hbody =>
      refine .reads rfl (fun _ _ => rfl) (.shape hbody.2 ?_)
      split
      · exact .pure _
      · exact .fails rfl
  · refine .reads rfl (fun _ _ => rfl) (.shape hty.2 ?_)
    split
    · exact .pure _
    · exact .fails rfl

theorem repeats_resolveTyped {ty : TermId} {args : List TermId} (hctx : itself.scope s s ctx ctx)
    (hty : (itself.like s s).term ty ty) (hargs : List.Forall₂ (itself.like s s).term args args) :
    Repeats (e.resolveTyped ctx ty args) s := by
  refine .bind (corresponds_functionParts hC hty) (repeats_functionParts hC hty)
    fun parts s₁ h₁ hparts => ?_
  obtain ⟨vars, params, result⟩ := parts
  obtain ⟨hvars, hparams, hresult⟩ := hparts
  dsimp only at hvars hparams hresult ⊢
  split
  · exact .fails rfl
  have hchild := hC.child (h₁.scope hC hctx)
  refine .bind (.bindQuantified hC hchild hvars) (.bindQuantified hchild hvars)
    fun quantified s₂ h₂ hquantified => ?_
  have h₁₂ := h₁.trans h₂
  have hzip := rel_zip (h₁₂.terms hC hargs) (h₂.positions hC hparams)
  have hm : itself.Matchings s₂ s₂ ⟨vars, quantified.child⟩ ⟨vars, quantified.child⟩ :=
    ⟨h₂.vars hC hvars, hC.child hquantified⟩
  have hctx₂ := h₁₂.scope hC hctx
  refine .bind (corresponds_supplyAll hC hown hctx₂ hm hzip)
    (repeats_supplyAll hC hown he hctx₂ hm hzip) fun r s₃ h₃ hr => ?_
  obtain ⟨m, supplied⟩ := r
  obtain ⟨hm₃, -⟩ := hr
  dsimp only at hm₃ ⊢
  have hrest := List.forall₂_drop args.length ((h₂.trans h₃).positions hC hparams)
  refine .bind (corresponds_compileSlots hC hown hm₃.context hrest)
    (repeats_compileSlots hC hown he hm₃.context hrest) fun remaining s₄ h₄ hremaining => ?_
  exact .map (he.compile (h₄.scope hC hm₃.context) ((h₂.trans (h₃.trans h₄)).term hC hresult)) _

theorem repeats_resolve {callee : TermId} {args : List TermId} (hctx : itself.scope s s ctx ctx)
    (hcallee : (itself.like s s).term callee callee)
    (hargs : List.Forall₂ (itself.like s s).term args args) :
    Repeats (e.resolve ctx callee args) s := by
  rw [resolve_eq]
  refine .bind (hown.infer hctx hcallee) (he.infer hctx hcallee) fun ty s₁ h₁ hty => ?_
  exact repeats_resolveTyped hC hown he (h₁.scope hC hctx) hty (h₁.terms hC hargs)

/-! ## Residual bindings -/

omit hC hown he in
theorem repeats_inlinable {t : TermId} (ht : s.Allocated t) : Repeats (inlinable t) s := by
  refine .shape ht ?_
  split
  · exact .pure true
  · refine .stays rfl fun later h => ?_
    rw [← h.isValue_eq ht]
    rfl

theorem repeats_bindLets {lets : List (VarId × TermId)} (hctx : itself.scope s s ctx ctx)
    (hlets : (itself.like s s).Bindings lets lets) : Repeats (e.bindLets mode ctx lets) s := by
  induction lets generalizing s ctx with
  | nil => exact .pure _
  | cons b rest ih =>
    cases hlets with
    | cons hb hrest =>
      have hvar := hb.var
      refine .bind (hown.reduce hctx hb.term) (he.reduce hctx hb.term) fun value s₁ h₁ hvalue => ?_
      refine .bind (corresponds_inlinable hC hvalue) (repeats_inlinable hvalue.2)
        fun canInline s₂ h₂ _ => ?_
      dsimp only
      split
      · refine .bind (.bindContext hC (by grind) (by grind) (h₂.term hC hvalue))
          (.bindContext _ _ _) fun ctx s₃ h₃ hctx₃ => ih hctx₃ (by grind)
      · have hctx₂ := (h₁.trans h₂).scope hC hctx
        have hvalue₂ := h₂.term hC hvalue
        refine .bind (hown.infer hctx₂ hvalue₂) (he.infer hctx₂ hvalue₂) fun ty s₃ h₃ hty => ?_
        refine .bind (.intern hC (.deferred .runtime hty)) (.intern (.deferred .runtime hty))
          fun placeholder s₄ h₄ hdeferred => ?_
        refine .bind (.bindContext hC (by grind) (by grind) hdeferred) (.bindContext _ _ _)
          fun ctx s₅ h₅ hctx₅ => ?_
        exact .map (ih hctx₅ (by grind)) _

omit hC hown he in
theorem repeats_wrapResidual {residual : List (VarId × TermId)} {value : TermId}
    (hresidual : (itself.like s s).Bindings residual residual)
    (hvalue : (itself.like s s).term value value) : Repeats (wrapResidual residual value) s := by
  unfold wrapResidual
  split
  · exact .pure value
  · exact .intern (.abstraction hresidual .nil hvalue)

omit hC hown he in
theorem repeats_ensureAvailable {function : TermId} (hctx : itself.scope s s ctx ctx)
    (hfunction : s.Allocated function) : Repeats (ensureAvailable ctx function) s := by
  have hmissing : ∀ later, s.Precedes later →
      ((later.freeVariables function).vars.find? fun v =>
        (ctx.get? v).any fun value => (later.shape value).isDeferred) =
      (s.freeVariables function).vars.find? fun v =>
        (ctx.get? v).any fun value => (s.shape value).isDeferred := by
    intro later h
    rw [h.freeVariables_eq hfunction]
    refine List.find?_congr fun v _ => ?_
    cases hget : ctx.get? v with
    | none => rfl
    | some value =>
      rw [Option.any_some, Option.any_some, h.shape_eq (within_of_scope hctx v value hget)]
  refine .withStore (fun later h => ?_) ?_
  · dsimp only
    rw [hmissing later h]
  · dsimp only
    split
    · exact .fails rfl
    · exact .pure ()

/-! ## Components -/

theorem repeats_reduceNamed {named : List (String × TermId)} (hctx : itself.scope s s ctx ctx)
    (hnamed : (itself.like s s).Named named named) : Repeats (e.reduceNamed mode ctx named) s := by
  induction named generalizing s with
  | nil => exact .pure []
  | cons c rest ih =>
    cases hnamed with
    | cons hc hrest =>
      refine .bind (hown.reduce hctx hc.term) (he.reduce hctx hc.term) fun t s₁ h₁ ht => ?_
      exact .map (ih (h₁.scope hC hctx) (h₁.named hC hrest)) _

theorem repeats_reduceSlots {slots : List (Slot TermId)} (hctx : itself.scope s s ctx ctx)
    (hslots : List.Forall₂ (itself.like s s).Position slots slots) :
    Repeats (e.reduceSlots mode ctx slots) s := by
  induction slots generalizing s with
  | nil => exact .pure []
  | cons slot rest ih =>
    cases hslots with
    | cons hslot hrest =>
      refine .bind (hown.reduce hctx hslot.ty) (he.reduce hctx hslot.ty) fun ty s₁ h₁ hty => ?_
      exact .map (ih (h₁.scope hC hctx) (h₁.positions hC hrest)) _

/-! ## Calls -/

omit hown he in
theorem repeats_openQuantifiers {r : Resolution} {bound : Nat} {callee : TermId}
    (hr : (itself.like s s).Resolves r r) (hctx : itself.scope s s ctx ctx)
    (hcallee : (itself.like s s).term callee callee) :
    Repeats (openQuantifiers r bound ctx callee) s := by
  induction bound generalizing s ctx callee with
  | zero => exact .pure _
  | succ bound ih =>
    refine .withIntact fun hs => .shape hcallee.2 ?_
    have hstores : itself.stores s s := ⟨rfl, hs⟩
    have hshape := hC.shape hstores hcallee
    split
    · rename_i vars body hquantifier
      rw [hquantifier] at hshape
      cases hshape with
      | forAll hvars hbody =>
        have hvalue := lawful_itself.common hstores 4 (by decide)
        have hbindings : (itself.like s s).Bindings (vars.map fun v => (v, r.valueOf v))
            (vars.map fun v => (v, r.valueOf v)) :=
          List.rel_map (fun v v' hv => ⟨hv, valueOf_like hr (hC.ordered hstores) hvalue hv⟩) hvars
        have hchild := hC.child hctx
        refine .bind (.bindAll hC hchild hbindings) (.bindAll hchild hbindings)
          fun inner s₁ h₁ hinner => ?_
        exact ih (h₁.resolves hC hr) hinner (h₁.term hC hbody)
    · exact .pure _

theorem repeats_bindArgs {outer : Context} {args : List (VarId × TermId)}
    (houter : itself.scope s s outer outer) (hctx : itself.scope s s ctx ctx)
    (hargs : (itself.like s s).Bindings args args) :
    Repeats (e.bindArgs mode outer ctx args) s := by
  induction args generalizing s ctx with
  | nil => exact .pure _
  | cons b rest ih =>
    cases hargs with
    | cons hb hrest =>
      have hvar := hb.var
      have harg := hb.term
      refine .bind (corresponds_inlinable hC harg) (repeats_inlinable harg.2)
        fun canInline s₁ h₁ _ => ?_
      dsimp only
      split
      · refine .bind (.bindContext hC (by grind) (by grind) (h₁.term hC harg)) (.bindContext _ _ _)
          fun ctx s₂ h₂ hctx₂ => ih (by grind) hctx₂ (by grind)
      · have hvar₁ := h₁.var hC hvar
        refine .isComptime hvar₁.2 (.reads rfl (fun later h => ?_) ?_)
        · rw [← h.variableName_eq hvar₁.2]
          rfl
        refine .bind (.freshVariable hC _ (.some rfl)) (.freshVariable _ _)
          fun fresh s₂ h₂ hfresh => ?_
        refine .bind (.variableTerm hC hfresh) (.variableTerm hfresh)
          fun freshTerm s₃ h₃ hfreshTerm => ?_
        have houter₃ := (h₁.trans (h₂.trans h₃)).scope hC houter
        have harg₃ := (h₁.trans (h₂.trans h₃)).term hC harg
        refine .bind (hown.infer houter₃ harg₃) (he.infer houter₃ harg₃) fun ty s₄ h₄ hty => ?_
        refine .bind (.intern hC (.deferred _ hty)) (.intern (.deferred _ hty))
          fun placeholder s₅ h₅ hdeferred => ?_
        refine .bind (.bindContext hC (by grind) (by grind) hdeferred) (.bindContext _ _ _)
          fun ctx s₆ h₆ hctx₆ => ?_
        refine .bind (.bindContext hC hctx₆ (by grind) (by grind)) (.bindContext _ _ _)
          fun ctx s₇ h₇ hctx₇ => ?_
        exact .map (ih (by grind) hctx₇ (by grind)) _

omit hC hown he in
theorem repeats_apply {callee : TermId} {args : List TermId}
    (hcallee : (itself.like s s).term callee callee)
    (hargs : List.Forall₂ (itself.like s s).term args args) : Repeats (Build.apply callee args) s :=
  .intern (.application hcallee hargs)

omit hC in
theorem repeats_callNative {callee : TermId} {native : Native} {args : List TermId}
    (hctx : itself.scope s s ctx ctx) (hcallee : (itself.like s s).term callee callee)
    (hnative : itself.Natives s s native native)
    (hargs : List.Forall₂ (itself.like s s).term args args) :
    Repeats (e.callNative mode ctx callee native args) s := by
  refine .withStore (fun later h => ?_) ?_
  · have hvalues : args.all later.isValue = args.all s.isValue := by
      rw [Bool.eq_iff_iff, List.all_eq_true, List.all_eq_true]
      refine forall₂_congr fun arg harg => ?_
      rw [h.isValue_eq ((Likeness.terms_diagonal.1 hargs).2 arg harg)]
    rw [hvalues]
  · split
    · exact repeats_apply hcallee hargs
    · refine .withIntact fun hs => ?_
      exact repeats_run hown he (hnative.call (.refl ⟨rfl, hs⟩) hargs) hctx

theorem repeats_callAbstraction {lets params : List (VarId × TermId)} {body : TermId}
    {args : List TermId} (hctx : itself.scope s s ctx ctx)
    (hlets : (itself.like s s).Bindings lets lets)
    (hparams : (itself.like s s).Bindings params params)
    (hbody : (itself.like s s).term body body)
    (hargs : List.Forall₂ (itself.like s s).term args args) :
    Repeats (e.callAbstraction mode ctx lets params body args) s := by
  unfold callAbstraction
  dsimp only
  split
  · exact .fails rfl
  have hchild := hC.child hctx
  refine .bind (corresponds_bindLets hC hown hchild hlets)
    (repeats_bindLets hC hown he hchild hlets) fun r s₁ h₁ hr => ?_
  have hnames : List.Forall₂ (itself.like s₁ s₁).var (params.map (·.1)) (params.map (·.1)) :=
    List.rel_map (fun _ _ hp => hp.var) (h₁.bindings hC hparams)
  have hzip : (itself.like s₁ s₁).Bindings ((params.map (·.1)).zip args)
      ((params.map (·.1)).zip args) :=
    (rel_zip hnames (h₁.terms hC hargs)).imp fun _ _ hb => ⟨hb.1, hb.2⟩
  have hctx₁ := h₁.scope hC hctx
  refine .bind (corresponds_bindArgs hC hown hctx₁ hr.1 hzip)
    (repeats_bindArgs hC hown he hctx₁ hr.1 hzip) fun q s₂ h₂ hq => ?_
  have hbody₂ := (h₁.trans h₂).term hC hbody
  refine .bind (hown.reduce hq.1 hbody₂) (he.reduce hq.1 hbody₂) fun value s₃ h₃ hvalue => ?_
  exact repeats_wrapResidual (List.rel_append ((h₂.trans h₃).bindings hC hr.2)
    (h₃.bindings hC hq.2)) hvalue

omit hC hown he in
theorem repeats_callOther {callee : TermId} {args : List TermId}
    (hcallee : (itself.like s s).term callee callee)
    (hargs : List.Forall₂ (itself.like s s).term args args) :
    Repeats (callOther mode callee args) s := by
  refine .isValue hcallee.2 ?_
  split
  · exact repeats_apply hcallee hargs
  · exact .fails rfl

theorem repeats_call {r : Resolution} {callee : TermId} {args : List TermId}
    (hr : (itself.like s s).Resolves r r) (hctx : itself.scope s s ctx ctx)
    (hcallee : (itself.like s s).term callee callee)
    (hargs : List.Forall₂ (itself.like s s).term args args) :
    Repeats (e.call mode ctx r callee args) s := by
  refine .bind (corresponds_openQuantifiers hC hr hctx hcallee (Nat.lt_succ_self _)
    (Nat.lt_succ_self _)) (repeats_openQuantifiers hC hr hctx hcallee) fun p s₁ h₁ hp => ?_
  obtain ⟨ctx, callee⟩ := p
  obtain ⟨hctx₁, hcallee₁⟩ := hp
  dsimp only at hctx₁ hcallee₁ ⊢
  have hargs₁ := h₁.terms hC hargs
  have hstores : itself.stores s₁ s₁ := h₁.after
  have hother : Repeats (callOther mode callee args) s₁ := repeats_callOther hcallee₁ hargs₁
  have hshape := hC.shape hstores hcallee₁
  refine .shape hcallee₁.2 ?_
  generalize s₁.shape callee = shape at hshape ⊢
  cases shape with
  | native id =>
    cases hshape with
    | native hid =>
      have hnative := hC.native hstores hid
      refine .reads rfl (fun later h => ?_) ?_
      · rw [← h.native?_eq]
        rfl
      cases hregistered : s₁.native? id with
      | none => exact hother
      | some registered =>
        rw [hregistered] at hnative
        cases hnative with
        | some h => exact repeats_callNative hown he hctx₁ hcallee₁ h.1 hargs₁
  | abstraction lets params body =>
    cases hshape with
    | abstraction hlets hparams hbody =>
      cases params with
      | nil => exact hother
      | cons p rest => exact repeats_callAbstraction hC hown he hctx₁ hlets hparams hbody hargs₁
  | _ => exact hother

/-! ## Partial application -/

theorem repeats_freshParams {undetermined : List VarId} {slots : List (Slot TermId)}
    (hctx : itself.scope s s ctx ctx)
    (hslots : List.Forall₂ (itself.like s s).Position slots slots) :
    Repeats (e.freshParams undetermined ctx slots) s := by
  induction slots generalizing s ctx with
  | nil => exact .pure []
  | cons slot rest ih =>
    cases hslots with
    | cons hslot hrest =>
      refine .bind (hown.compile hctx hslot.ty) (he.compile hctx hslot.ty) fun ty s₁ h₁ hty => ?_
      refine .bind (.freshVariable hC _ .none) (.freshVariable _ _) fun v s₂ h₂ hv => ?_
      refine .bind (.variableTerm hC hv) (.variableTerm hv) fun vTerm s₃ h₃ hvTerm => ?_
      have hnext : ∀ (inner : Context) s₄, itself.Leads s₃ s₃ s₄ s₄ →
          itself.scope s₄ s₄ inner inner →
          Repeats (do return (v, ty) :: (← e.freshParams undetermined inner rest)) s₄ :=
        fun inner s₄ h₄ hinner => .map (ih hinner (by grind)) _
      have hbinds := ((h₁.trans (h₂.trans h₃)).position hC hslot).binds
      generalize slot.binds = binds at hbinds ⊢
      cases hbinds with
      | none => exact .bind (.pure (by grind)) (.pure ctx) hnext
      | @some supplied supplied' hsupplied =>
        by_cases hopen : supplied ∈ undetermined
        · simp only [Option.filter_some, hopen, decide_true, if_true]
          have hty₃ := (h₂.trans h₃).term hC hty
          refine .bind (.intern hC (.deferred .comptime hty₃)) (.intern (.deferred .comptime hty₃))
            fun placeholder s₄ h₄ hdeferred => ?_
          refine .bind (.bindContext hC (by grind) (by grind) hdeferred) (.bindContext _ _ _)
            fun inner s₅ h₅ hinner₅ => ?_
          refine .bind (.bindContext hC hinner₅ (by grind) (by grind)) (.bindContext _ _ _)
            fun inner s₆ h₆ hinner₆ => ?_
          exact hnext inner s₆ (by grind) hinner₆
        · simp only [Option.filter_some, hopen, decide_false, Bool.false_eq_true, if_false]
          exact .bind (.pure (by grind)) (.pure ctx) hnext

theorem repeats_curry {r : Resolution} {callee : TermId} {args : List TermId}
    (hr : (itself.like s s).Resolves r r) (hctx : itself.scope s s ctx ctx)
    (hcallee : (itself.like s s).term callee callee)
    (hargs : List.Forall₂ (itself.like s s).term args args) :
    Repeats (e.curry mode ctx r callee args) s := by
  have hkept : List.Forall₂ (itself.like s s).var
      (r.undetermined.filter (· ∉ r.remaining.filterMap (·.binds)))
      (r.undetermined.filter (· ∉ r.remaining.filterMap (·.binds))) :=
    Likeness.vars_diagonal.2 ⟨rfl, fun v hv =>
      (Likeness.vars_diagonal.1 hr.undetermined).2 v (List.mem_filter.1 hv).1⟩
  have hchild := hC.child hctx
  refine .bind (.bindQuantified hC hchild hkept) (.bindQuantified hchild hkept)
    fun renamed s₁ h₁ hrenamed => ?_
  have hremaining := h₁.positions hC hr.remaining
  refine .bind (corresponds_freshParams hC hown (h₁.vars hC hr.undetermined) hrenamed hremaining)
    (repeats_freshParams hC hown he hrenamed hremaining) fun params s₂ h₂ hparams => ?_
  have hnames : List.Forall₂ (itself.like s₂ s₂).var (params.map (·.1)) (params.map (·.1)) :=
    List.rel_map (fun _ _ hp => hp.var) hparams
  refine .bind (.variableTerms hC hnames) (.variableTerms hnames) fun own s₃ h₃ howned => ?_
  have h₁₃ := h₁.trans (h₂.trans h₃)
  have hcallee₃ := h₁₃.term hC hcallee
  have hall := List.rel_append (h₁₃.terms hC hargs) howned
  refine .bind (corresponds_apply hC hcallee₃ hall) (repeats_apply hcallee₃ hall)
    fun body s₄ h₄ hbody => ?_
  have hparams₄ := (h₃.trans h₄).bindings hC hparams
  refine .bind (.intern hC (.abstraction .nil hparams₄ hbody))
    (.intern (.abstraction .nil hparams₄ hbody)) fun function s₅ h₅ hfunction => ?_
  have h₁₅ := h₁₃.trans (h₄.trans h₅)
  have hundetermined := h₁₅.vars hC hr.undetermined
  refine .bind (.quantify hC hundetermined hfunction) (.quantify hundetermined hfunction)
    fun quantified s₆ h₆ hquantified => ?_
  exact he.reduce ((h₁₅.trans h₆).scope hC hctx) hquantified

theorem repeats_reduceArgs {args : List (TermId × TermId)} (hctx : itself.scope s s ctx ctx)
    (hargs : List.Forall₂ (fun p p' => (itself.like s s).term p.1 p'.1 ∧
      (itself.like s s).term p.2 p'.2) args args) :
    Repeats (e.reduceArgs mode ctx args) s := by
  induction args generalizing s with
  | nil => exact .pure []
  | cons p rest ih =>
    cases hargs with
    | cons hp hrest =>
      obtain ⟨harg, hty⟩ := hp
      refine .bind (hown.reduce hctx harg) (he.reduce hctx harg) fun value s₁ h₁ hvalue => ?_
      have hctx₁ := h₁.scope hC hctx
      refine .bind (hown.infer hctx₁ hvalue) (he.infer hctx₁ hvalue)
        fun valueType s₂ h₂ hvalueType => ?_
      have hnext : ∀ value s₃, itself.Leads s₂ s₂ s₃ s₃ → (itself.like s₃ s₃).term value value →
          Repeats (do return value :: (← e.reduceArgs mode ctx rest)) s₃ := by
        intro value s₃ h₃ _
        have h₁₃ := h₁.trans (h₂.trans h₃)
        exact .map (ih (h₁₃.scope hC hctx) (hrest.imp fun _ _ hq =>
          ⟨h₁₃.term hC hq.1, h₁₃.term hC hq.2⟩)) _
      dsimp only
      split
      · have hsame : itself.Corresponds itself.Terms (pure value) (pure value) s₂ s₂ :=
          .pure (h₂.term hC hvalue)
        exact .bind hsame (.pure value) hnext
      · have hcast : (itself.like s₂ s₂).Layer (.cast value p.2) (.cast value p.2) :=
          .cast (h₂.term hC hvalue) ((h₁.trans h₂).term hC hty)
        refine .bind (.intern hC hcast) (.intern hcast) fun cast s₃ h₃ hcast => ?_
        have hctx₃ := (h₂.trans h₃).scope hC hctx₁
        refine .bind (hown.reduce hctx₃ hcast) (he.reduce hctx₃ hcast) fun value s₄ h₄ hvalue₄ => ?_
        exact hnext value s₄ (h₃.trans h₄) hvalue₄

theorem repeats_reduceApplication {callee : TermId} {args : List TermId}
    (hctx : itself.scope s s ctx ctx) (hcallee : (itself.like s s).term callee callee)
    (hargs : List.Forall₂ (itself.like s s).term args args) :
    Repeats (e.reduceApplication mode ctx callee args) s := by
  refine .bind (corresponds_resolve hC hown hctx hcallee hargs)
    (repeats_resolve hC hown he hctx hcallee hargs) fun r s₁ h₁ hr => ?_
  have hctx₁ := h₁.scope hC hctx
  have hzip := rel_zip (h₁.terms hC hargs) hr.supplied
  refine .bind (corresponds_reduceArgs hC hown hctx₁ hzip)
    (repeats_reduceArgs hC hown he hctx₁ hzip) fun values s₂ h₂ hvalues => ?_
  have hctx₂ := h₂.scope hC hctx₁
  have hcallee₂ := (h₁.trans h₂).term hC hcallee
  refine .bind (hown.reduce hctx₂ hcallee₂) (he.reduce hctx₂ hcallee₂)
    fun callee s₃ h₃ hcallee₃ => ?_
  have hr₃ := (h₂.trans h₃).resolves hC hr
  have hctx₃ := h₃.scope hC hctx₂
  split
  · exact repeats_call hC hown he hr₃ hctx₃ hcallee₃ (h₃.terms hC hvalues)
  · exact repeats_curry hC hown he hr₃ hctx₃ hcallee₃ (h₃.terms hC hvalues)

/-! ## One level -/

omit hC hown in
theorem repeats_reduceVariable {t : TermId} {v : VarId} (hctx : itself.scope s s ctx ctx) :
    Repeats (e.reduceVariable mode ctx t v) s := by
  unfold reduceVariable
  cases hget : ctx.get? v with
  | none => exact .fails rfl
  | some value =>
    have hvalue := within_of_scope hctx v value hget
    refine .shape hvalue ?_
    generalize s.shape value = shape
    cases shape with
    | deferred stage ty =>
      cases mode with
      | compile => exact .pure t
      | evaluate => exact .fails rfl
    | «variable» other =>
      dsimp only
      split
      · exact he.reduce hctx ⟨rfl, hvalue⟩
      · exact .pure value
    | _ => exact .pure value

omit hC hown he in
theorem repeats_memberType {ty : TermId} {field : String} (hty : s.Allocated ty) :
    Repeats (memberType ty field) s := by
  refine .shape hty ?_
  split
  · split
    · exact .pure _
    · exact .fails rfl
  · exact .fails rfl

theorem repeats_reduceProjection {domain : TermId} {field : String}
    (hctx : itself.scope s s ctx ctx) (hdomain : (itself.like s s).term domain domain) :
    Repeats (e.reduceProjection mode ctx domain field) s := by
  refine .bind (hown.reduce hctx hdomain) (he.reduce hctx hdomain) fun domain s₁ h₁ hdomain₁ => ?_
  refine .shape hdomain₁.2 ?_
  split
  · split
    · exact .pure _
    · exact .fails rfl
  · refine .isValue hdomain₁.2 ?_
    split
    · have hctx₁ := h₁.scope hC hctx
      refine .bind (hown.infer hctx₁ hdomain₁) (he.infer hctx₁ hdomain₁) fun ty s₂ h₂ hty => ?_
      refine .bind (corresponds_memberType hC hty) (repeats_memberType hty.2)
        fun _ s₃ h₃ _ => ?_
      exact .intern (.projection field ((h₂.trans h₃).term hC hdomain₁))
    · exact .fails rfl

theorem repeats_reduceCast {subject target : TermId} (hctx : itself.scope s s ctx ctx)
    (hsubject : (itself.like s s).term subject subject)
    (htarget : (itself.like s s).term target target) :
    Repeats (e.reduceCast mode ctx subject target) s := by
  refine .bind (hown.reduce hctx hsubject) (he.reduce hctx hsubject)
    fun subject s₁ h₁ hsubject₁ => ?_
  have hctx₁ := h₁.scope hC hctx
  have htarget₁ := h₁.term hC htarget
  refine .bind (hown.reduce hctx₁ htarget₁) (he.reduce hctx₁ htarget₁)
    fun target s₂ h₂ htarget₂ => ?_
  have hctx₂ := h₂.scope hC hctx₁
  have hsubject₂ := h₂.term hC hsubject₁
  refine .bind (hown.infer hctx₂ hsubject₂) (he.infer hctx₂ hsubject₂)
    fun subjectType s₃ h₃ hsubjectType => .withIntact fun hs₃ => ?_
  split
  · exact .pure subject
  · have htarget₃ := h₃.term hC htarget₂
    refine .withStore (fun later h => ?_) ?_
    · rw [h.isConcrete_eq hsubjectType.2, h.isConcrete_eq htarget₃.2,
        h.display_eq hs₃.toCanonical hsubjectType.2, h.display_eq hs₃.toCanonical htarget₃.2]
    · split
      · exact .intern (.cast (h₃.term hC hsubject₂) htarget₃)
      · exact .fails rfl

theorem repeats_reduceForAll {vars : List VarId} {body : TermId} (hctx : itself.scope s s ctx ctx)
    (hvars : List.Forall₂ (itself.like s s).var vars vars)
    (hbody : (itself.like s s).term body body) :
    Repeats (e.reduceForAll mode ctx vars body) s := by
  have hchild := hC.child hctx
  refine .bind (.bindQuantified hC hchild hvars) (.bindQuantified hchild hvars)
    fun inner s₁ h₁ hinner => ?_
  have hbody₁ := h₁.term hC hbody
  refine .bind (hown.compile hinner hbody₁) (he.compile hinner hbody₁) fun body s₂ h₂ hbody₂ => ?_
  have hvars₂ := (h₁.trans h₂).vars hC hvars
  refine .bind (.quantify hC hvars₂ hbody₂) (.quantify hvars₂ hbody₂)
    fun function s₃ h₃ hfunction => ?_
  dsimp only
  split
  · have hctx₃ := (h₁.trans (h₂.trans h₃)).scope hC hctx
    exact .map (repeats_ensureAvailable hctx₃ hfunction.2) _
  · exact .pure function

theorem repeats_reduceAbstraction {lets params : List (VarId × TermId)} {body : TermId}
    (hctx : itself.scope s s ctx ctx) (hlets : (itself.like s s).Bindings lets lets)
    (hparams : (itself.like s s).Bindings params params)
    (hbody : (itself.like s s).term body body) :
    Repeats (e.reduceAbstraction mode ctx lets params body) s := by
  have hchild := hC.child hctx
  refine .bind (corresponds_bindLets hC hown hchild hlets)
    (repeats_bindLets hC hown he hchild hlets) fun r s₁ h₁ hr => ?_
  obtain ⟨inner, residual⟩ := r
  obtain ⟨hinner, hresidual⟩ := hr
  dsimp only at hinner hresidual ⊢
  have hbody₁ := h₁.term hC hbody
  split
  · refine .bind (hown.reduce hinner hbody₁) (he.reduce hinner hbody₁) fun value s₂ h₂ hvalue => ?_
    exact repeats_wrapResidual (h₂.bindings hC hresidual) hvalue
  · have hparams₁ := h₁.bindings hC hparams
    refine .bind (corresponds_bindParams hC hown hinner hparams₁)
      (repeats_bindParams hC hown he hinner hparams₁) fun q s₂ h₂ hq => ?_
    obtain ⟨inner, params⟩ := q
    obtain ⟨hinner₂, hparams₂⟩ := hq
    dsimp only at hinner₂ hparams₂ ⊢
    have hbody₂ := h₂.term hC hbody₁
    refine .bind (hown.compile hinner₂ hbody₂) (he.compile hinner₂ hbody₂)
      fun body s₃ h₃ hbody₃ => ?_
    have hfunction₃ : (itself.like s₃ s₃).Layer (.abstraction residual params body)
        (.abstraction residual params body) :=
      .abstraction ((h₂.trans h₃).bindings hC hresidual) (h₃.bindings hC hparams₂) hbody₃
    refine .bind (.intern hC hfunction₃) (.intern hfunction₃) fun function s₄ h₄ hfunction => ?_
    split
    · exact .map (repeats_ensureAvailable ((h₃.trans h₄).scope hC hinner₂) hfunction.2) _
    · exact .pure function

theorem repeats_reduceStep {t : TermId} (hctx : itself.scope s s ctx ctx)
    (ht : (itself.like s s).term t t) : Repeats (e.reduceStep mode ctx t) s := by
  refine .withIntact fun hs => .shape ht.2 ?_
  have hshape := hC.shape ⟨rfl, hs⟩ ht
  generalize s.shape t = shape at hshape ⊢
  cases shape with
  | «variable» v => exact repeats_reduceVariable he hctx
  | deferred stage ty =>
    cases mode with
    | compile => exact .pure t
    | evaluate => exact .fails rfl
  | unitValue ty =>
    cases hshape with
    | unitValue hty =>
      exact .bind (hown.reduce hctx hty) (he.reduce hctx hty) fun ty s₁ h₁ hty₁ =>
        .intern (.unitValue hty₁)
  | productValue ty fields =>
    cases hshape with
    | productValue hty hfields =>
      refine .bind (hown.reduce hctx hty) (he.reduce hctx hty) fun ty s₁ h₁ hty₁ => ?_
      have hctx₁ := h₁.scope hC hctx
      have hfields₁ := h₁.named hC hfields
      refine .bind (corresponds_reduceNamed hC hown hctx₁ hfields₁)
        (repeats_reduceNamed hC hown he hctx₁ hfields₁) fun fields s₂ h₂ hfields₂ => ?_
      exact .intern (.productValue (h₂.term hC hty₁) hfields₂)
  | functionType params result =>
    cases hshape with
    | functionType hparams hresult =>
      refine .bind (corresponds_reduceSlots hC hown hctx hparams)
        (repeats_reduceSlots hC hown he hctx hparams) fun params s₁ h₁ hparams₁ => ?_
      have hctx₁ := h₁.scope hC hctx
      have hresult₁ := h₁.term hC hresult
      refine .bind (hown.reduce hctx₁ hresult₁) (he.reduce hctx₁ hresult₁)
        fun result s₂ h₂ hresult₂ => ?_
      exact .intern (.functionType (h₂.positions hC hparams₁) hresult₂)
  | productType members =>
    cases hshape with
    | productType hmembers =>
      exact .bind (corresponds_reduceNamed hC hown hctx hmembers)
        (repeats_reduceNamed hC hown he hctx hmembers) fun members s₁ h₁ hm =>
          .intern (.productType hm)
  | projection domain field =>
    cases hshape with
    | projection _ hdomain => exact repeats_reduceProjection hC hown he hctx hdomain
  | cast subject target =>
    cases hshape with
    | cast hsubject htarget => exact repeats_reduceCast hC hown he hctx hsubject htarget
  | forAll vars body =>
    cases hshape with
    | forAll hvars hbody => exact repeats_reduceForAll hC hown he hctx hvars hbody
  | abstraction lets params body =>
    cases hshape with
    | abstraction hlets hparams hbody =>
      exact repeats_reduceAbstraction hC hown he hctx hlets hparams hbody
  | application callee args =>
    cases hshape with
    | application hcallee hargs => exact repeats_reduceApplication hC hown he hctx hcallee hargs
  | _ => exact .pure t

end Rules

/-! ## The levels -/

/-- Stores that write to a given sink. -/
def writingTo (sink : Sink) : Enclosure := whole.given fun s => s.output.sink = sink

/-- No operation on a store redirects its output. -/
theorem lawful_writingTo (sink : Sink) : (writingTo sink).Lawful where
  toSteady := Enclosure.steady_given lawful_whole.toSteady
    fun _ hknown _ _ hsink => hsink.trans hknown
  remember hs hty := ⟨lawful_whole.remember hs.1 hty, hs.2⟩

/-- A type that was given once is given from memory at any later time, whatever it took to come to
it. -/
theorem inferStep_remembers {n : Nat} {t ty : TermId} {s' : Store} (hs : s.Intact)
    (hctx : itself.scope s s ctx ctx) (ht : s.Allocated t)
    (hrun : ((ofLevels n).inferStep ctx t).run s = (.ok ty, s')) :
    s.Precedes s' ∧ ∀ later, s'.Precedes later →
      ((ofLevels n).inferStep ctx t).run later = (.ok ty, later) := by
  have hsound := hs.toClosed.sound
  have halike := (within_of_scope hctx).alike
  have hquiet : ∀ final : Store, final.Honest → final.Honest := fun _ h => h
  have hkeeps := keeps_inferStep (inStep_ofLevels n) hquiet halike (.nil ht)
  obtain ⟨-, hstep⟩ := hkeeps.run_eq hsound hrun nofun
  refine ⟨?_, fun later hle => ?_⟩
  · have hlawful := Enclosure.correspondence_lawful (lawful_writingTo s.output.sink)
    have hends := (engines_ofLevels hlawful (n + 1)).infer hctx ⟨rfl, ht⟩ ⟨rfl, hs, rfl⟩
    rw [show ((ofLevels (n + 1)).infer ctx t).run s = _ from hrun] at hends
    cases hends with
    | gives hleads _ =>
      obtain ⟨hs', hsink⟩ := hleads.after.2
      exact ⟨hstep.growsTo hs.toLinked, hs', hstep.natives, hstep.config, hsink⟩
  · have hdeclares : ∀ {u}, s.Allocated u → s.Declares u := hs.toCanonical.declares hs.toLinked
    rw [← sealed_nil] at hrun
    exact inferStep_again hsound halike
      (fun v u hget => hdeclares (within_of_scope hctx v u hget)) (.nil ht) (hdeclares ht) hrun
      (.ok ty) hle.toGrowsTo

theorem infer_remembers {n : Nat} {t ty : TermId} {s' : Store} (hs : s.Intact)
    (hctx : itself.scope s s ctx ctx) (ht : s.Allocated t)
    (hrun : ((ofLevels n).infer ctx t).run s = (.ok ty, s')) :
    s.Precedes s' ∧ ∀ later, s'.Precedes later →
      ((ofLevels n).infer ctx t).run later = (.ok ty, later) := by
  cases n with
  | zero => cases hrun
  | succ n => exact inferStep_remembers hs hctx ht hrun

theorem repeating_ofLevels (n : Nat) : Repeating (ofLevels n) := by
  induction n with
  | zero => exact ⟨fun _ _ => .fails rfl, fun _ _ => .fails rfl⟩
  | succ n ih =>
    refine ⟨fun {s ctx t} hctx ht hs ty s' hrun => ?_, fun hctx ht =>
      repeats_reduceStep lawful_itself.toSteady (engines_ofLevels lawful_itself n) ih hctx ht⟩
    obtain ⟨hle, hagain⟩ := infer_remembers hs hctx ht.2 hrun
    refine ⟨hle, fun _ => ⟨"", fun later hlater => ?_⟩⟩
    rw [hagain later hlater, Store.wrote_empty]

end Engine

/-! ## The judgments -/

open Correspondence

/-- A later store has whatever the store has. -/
theorem Store.Precedes.leads {s later : Store} (h : s.Precedes later) (hs : s.Intact) :
    itself.Leads s s later later :=
  ⟨⟨rfl, hs⟩, ⟨rfl, h.intact⟩, h.toExtends, h.toExtends⟩

namespace Attempt

open Engine

variable {s : Store} {ctx : Context}

/-- A computation at the depth that the store is configured for. -/
theorem Repeats.levels {α : Type} {c : Engine → Attempt α}
    (h : Repeats (c (.ofLevels s.config.maxDepth)) s) :
    Repeats (do c (.ofLevels (← get).config.maxDepth)) s :=
  .withStore (fun later hle => by rw [hle.sameConfig]) h

/-- A term has the same type at any later time. -/
theorem infer_remembers (hs : s.Intact) (hctx : itself.scope s s ctx ctx) {t ty : TermId}
    {s' : Store} (ht : s.Allocated t) (hrun : (infer ctx t).run s = (.ok ty, s')) :
    s.Precedes s' ∧ ∀ later, s'.Precedes later → (infer ctx t).run later = (.ok ty, later) := by
  have hlevels : ∀ s : Store, (infer ctx t).run s =
      ((Engine.ofLevels s.config.maxDepth).infer ctx t).run s := fun _ => rfl
  rw [hlevels] at hrun
  obtain ⟨hle, hagain⟩ := Engine.infer_remembers hs hctx ht hrun
  refine ⟨hle, fun later hlater => ?_⟩
  rw [hlevels, (hle.trans hlater).sameConfig]
  exact hagain later hlater

/-- A term reduces to the same result at any later time, unless reduction makes a variable. -/
theorem reduce_repeats (hctx : itself.scope s s ctx ctx) {mode : Mode} {t : TermId}
    (ht : s.Allocated t) : Repeats (reduce mode ctx t) s :=
  .levels (c := fun e => e.reduce mode ctx t) ((repeating_ofLevels _).reduce hctx ⟨rfl, ht⟩)

/-- A call is resolved in the same way at any later time. -/
theorem resolve_repeats (hctx : itself.scope s s ctx ctx) {callee : TermId} {args : List TermId}
    (hcallee : s.Allocated callee) (hargs : ∀ arg ∈ args, s.Allocated arg) :
    Repeats (resolve ctx callee args) s :=
  .levels (c := fun e => e.resolve ctx callee args)
    (repeats_resolve lawful_itself.toSteady (engines_ofLevels lawful_itself _)
      (repeating_ofLevels _) hctx ⟨rfl, hcallee⟩ (Likeness.terms_diagonal.2 ⟨rfl, hargs⟩))

end Attempt

end StagedCalculus
