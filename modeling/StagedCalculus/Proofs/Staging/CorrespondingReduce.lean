import StagedCalculus.Proofs.Staging.CorrespondingInfer
import StagedCalculus.Staging.Judgment

/-!
# Reduction in corresponding stores

This module follows the rules of reduction over two engines whose own calls correspond
(`Correspondence.corresponds_reduceStep`), and climbs the levels: the judgments correspond in stores
that do (`Correspondence.corresponds_infer`, `Correspondence.corresponds_reduce`).
-/

namespace StagedCalculus

namespace Correspondence

open Attempt Engine

variable {C : Correspondence} {e e' : Engine} {s s' : Store} {ctx ctx' : Context} {mode : Mode}

section Rules

variable (hC : C.Steady) (he : C.Engines e e')

include hC he

/-! ## Residual bindings -/

omit he in
theorem corresponds_inlinable {t t' : TermId} (ht : (C.like s s').term t t') :
    C.Corresponds (fun _ _ => Eq) (inlinable t) (inlinable t') s s' := by
  refine .withStores fun hs => .reads rfl rfl ?_
  have hvalue : C.Corresponds (fun _ _ => Eq) (Attempt.isValue t) (Attempt.isValue t') s s' :=
    fun _ => .gives (.refl hs) (hC.isValue hs ht).2
  have hshape := hC.shape hs ht
  generalize s.shape t = shape, s'.shape t' = shape' at hshape ⊢
  cases hshape with
  | «variable» _ => exact .same true
  | _ => exact hvalue

theorem corresponds_bindLets {lets lets' : List (VarId × TermId)}
    (hctx : C.scope s s' ctx ctx') (hlets : (C.like s s').Bindings lets lets') :
    C.Corresponds
      (fun s s' r r' => C.scope s s' r.1 r'.1 ∧ (C.like s s').Bindings r.2 r'.2)
      (e.bindLets mode ctx lets) (e'.bindLets mode ctx' lets') s s' := by
  induction lets generalizing lets' s s' ctx ctx' with
  | nil =>
    cases hlets
    exact .pure ⟨hctx, .nil⟩
  | cons b rest ih =>
    cases hlets with
    | @cons _ b' _ rest' hb hrest =>
      have hvar := hb.var
      refine .bind (he.reduce hctx hb.term) fun value value' s₁ s₁' h₁ hvalue => ?_
      refine .bind (corresponds_inlinable hC hvalue) fun _ canInline s₂ s₂' h₂ hsame => ?_
      dsimp only at hsame ⊢
      subst hsame
      split
      · refine .bind (.bindContext hC (by grind) (by grind) (h₂.term hC hvalue))
          fun ctx ctx' s₃ s₃' h₃ hctx₃ => ih hctx₃ (by grind)
      · refine .bind (he.infer (by grind) (h₂.term hC hvalue)) fun ty ty' s₃ s₃' h₃ hty => ?_
        refine .bind (.intern hC (.deferred .runtime hty))
          fun placeholder placeholder' s₄ s₄' h₄ hdeferred => ?_
        refine .bind (.bindContext hC (by grind) (by grind) hdeferred)
          fun ctx ctx' s₅ s₅' h₅ hctx₅ => ?_
        refine .bind (ih hctx₅ (by grind)) fun r r' s₆ s₆' h₆ hr => ?_
        exact .pure ⟨hr.1, .cons ⟨by grind, by grind⟩ hr.2⟩

omit he in
theorem corresponds_wrapResidual {residual residual' : List (VarId × TermId)}
    {value value' : TermId} (hresidual : (C.like s s').Bindings residual residual')
    (hvalue : (C.like s s').term value value') :
    C.Corresponds C.Terms (wrapResidual residual value) (wrapResidual residual' value') s s' := by
  unfold wrapResidual
  rw [rel_isEmpty hresidual]
  split
  · exact .pure hvalue
  · exact .intern hC (.abstraction hresidual .nil hvalue)

omit he in
/-- Both sides miss the same variable first, if they miss any. -/
theorem corresponds_ensureAvailable {function function' : TermId}
    (hctx : C.scope s s' ctx ctx') (hfunction : (C.like s s').term function function') :
    C.Corresponds (fun _ _ => Eq) (ensureAvailable ctx function) (ensureAvailable ctx' function')
      s s' := by
  refine .withStores fun hs => .reads rfl rfl ?_
  have hmissing := rel_find? (Likeness.entries_vars (hC.free hs hfunction))
    (p := fun v => (ctx.get? v).any fun value => (s.shape value).isDeferred)
    (q := fun v => (ctx'.get? v).any fun value => (s'.shape value).isDeferred) fun hv => by
      have hget := hC.get? hs hctx hv
      generalize ctx.get? _ = value, ctx'.get? _ = value' at hget ⊢
      cases hget with
      | none => rfl
      | some hvalue => exact Steady.isDeferred_eq (hC.shape hs hvalue)
  dsimp only [VarMap.vars]
  generalize List.find? (fun v => (ctx.get? v).any fun value => (s.shape value).isDeferred) _ =
    missing, List.find? (fun v => (ctx'.get? v).any fun value => (s'.shape value).isDeferred) _ =
    missing' at hmissing ⊢
  cases hmissing with
  | none => exact .same ()
  | some hv => exact .reads rfl rfl (.throws (.valueNotAvailable (hC.name hs hv)))

/-! ## Components -/

theorem corresponds_reduceNamed {named named' : List (String × TermId)}
    (hctx : C.scope s s' ctx ctx') (hnamed : (C.like s s').Named named named') :
    C.Corresponds (fun s s' => (C.like s s').Named) (e.reduceNamed mode ctx named)
      (e'.reduceNamed mode ctx' named') s s' := by
  induction named generalizing named' s s' with
  | nil =>
    cases hnamed
    exact .pure .nil
  | cons c rest ih =>
    cases hnamed with
    | @cons _ c' _ rest' hc hrest =>
      refine .bind (he.reduce hctx hc.term) fun t t' s₁ s₁' h₁ ht => ?_
      refine .bind (ih (h₁.scope hC hctx) (h₁.named hC hrest)) fun rest rest' s₂ s₂' h₂ hrest₂ => ?_
      exact .pure (.cons ⟨hc.name, h₂.term hC ht⟩ hrest₂)

theorem corresponds_reduceSlots {slots slots' : List (Slot TermId)}
    (hctx : C.scope s s' ctx ctx')
    (hslots : List.Forall₂ (C.like s s').Position slots slots') :
    C.Corresponds (fun s s' => List.Forall₂ (C.like s s').Position) (e.reduceSlots mode ctx slots)
      (e'.reduceSlots mode ctx' slots') s s' := by
  induction slots generalizing slots' s s' with
  | nil =>
    cases hslots
    exact .pure .nil
  | cons slot rest ih =>
    cases hslots with
    | @cons _ slot' _ rest' hslot hrest =>
      refine .bind (he.reduce hctx hslot.ty) fun ty ty' s₁ s₁' h₁ hty => ?_
      refine .bind (ih (h₁.scope hC hctx) (h₁.positions hC hrest))
        fun slots slots' s₂ s₂' h₂ hslots => ?_
      have hslot₂ := (h₁.trans h₂).position hC hslot
      exact .pure (.cons ⟨h₂.term hC hty, hslot₂.comptime, hslot₂.binds⟩ hslots)

/-! ## Calls -/

omit he hC in
theorem valueOf_like {L : Likeness} {r r' : Resolution} (hr : L.Resolves r r') (hL : L.Ordered)
    (hcommon : L.term Store.comptimeType Store.comptimeType) {v v' : VarId} (hv : L.var v v') :
    L.term (r.valueOf v) (r'.valueOf v') := by
  have hget := Likeness.get?_of_bindings hr.determined hL hv
  change L.term ((Frame.get? r.determined v).getD Store.comptimeType)
    ((Frame.get? r'.determined v').getD Store.comptimeType)
  generalize Frame.get? r.determined v = value, Frame.get? r'.determined v' = value' at hget ⊢
  cases hget with
  | none => exact hcommon
  | some hvalue => exact hvalue

omit he in
/-- Quantifiers are opened on both sides until none is left, since the handle of a callee bounds
their number. -/
theorem corresponds_openQuantifiers {r r' : Resolution} {bound bound' : Nat}
    {callee callee' : TermId} (hr : (C.like s s').Resolves r r')
    (hctx : C.scope s s' ctx ctx') (hcallee : (C.like s s').term callee callee')
    (hbound : callee.index < bound) (hbound' : callee'.index < bound') :
    C.Corresponds
      (fun s s' p p' => C.scope s s' p.1 p'.1 ∧ (C.like s s').term p.2 p'.2)
      (openQuantifiers r bound ctx callee) (openQuantifiers r' bound' ctx' callee') s s' := by
  induction bound generalizing bound' s s' ctx ctx' callee callee' with
  | zero => exact absurd hbound (Nat.not_lt_zero _)
  | succ bound ih =>
    obtain ⟨bound', rfl⟩ : ∃ n, bound' = n + 1 := ⟨bound' - 1, by omega⟩
    refine .withStores fun hs => .reads rfl rfl ?_
    obtain ⟨hlinked, hlinked'⟩ := hC.linked hs
    have hless : ∀ child ∈ (s.shape callee).children, child.index < callee.index :=
      fun _ h => hlinked.lt_of_mem_children h
    have hless' : ∀ child ∈ (s'.shape callee').children, child.index < callee'.index :=
      fun _ h => hlinked'.lt_of_mem_children h
    have hshape := hC.shape hs hcallee
    generalize s.shape callee = shape, s'.shape callee' = shape' at hshape hless hless' ⊢
    cases hshape with
    | @forAll vars vars' body body' hvars hbody =>
      have hbodyLess : body.index < callee.index := hless body (by simp [Shape.children])
      have hbodyLess' : body'.index < callee'.index := hless' body' (by simp [Shape.children])
      have hbindings : (C.like s s').Bindings (vars.map fun v => (v, r.valueOf v))
          (vars'.map fun v => (v, r'.valueOf v)) :=
        List.rel_map (fun v v' hv =>
          ⟨hv, valueOf_like hr (hC.ordered hs) (hC.common hs 4 (by decide)) hv⟩) hvars
      refine .bind (.bindAll hC (hC.child hctx) hbindings) fun inner inner' s₁ s₁' h₁ hinner => ?_
      exact ih (h₁.resolves hC hr) hinner (h₁.term hC hbody) (by omega) (by omega)
    | _ => exact .pure ⟨hctx, hcallee⟩

theorem corresponds_bindArgs {outer outer' : Context} {args args' : List (VarId × TermId)}
    (houter : C.scope s s' outer outer') (hctx : C.scope s s' ctx ctx')
    (hargs : (C.like s s').Bindings args args') :
    C.Corresponds
      (fun s s' r r' => C.scope s s' r.1 r'.1 ∧ (C.like s s').Bindings r.2 r'.2)
      (e.bindArgs mode outer ctx args) (e'.bindArgs mode outer' ctx' args') s s' := by
  induction args generalizing args' s s' ctx ctx' with
  | nil =>
    cases hargs
    exact .pure ⟨hctx, .nil⟩
  | cons b rest ih =>
    cases hargs with
    | @cons _ b' _ rest' hb hrest =>
      have hvar := hb.var
      have harg := hb.term
      refine .bind (corresponds_inlinable hC harg) fun _ canInline s₁ s₁' h₁ hsame => ?_
      dsimp only at hsame ⊢
      subst hsame
      split
      · refine .bind (.bindContext hC (by grind) (by grind) (h₁.term hC harg))
          fun ctx ctx' s₂ s₂' h₂ hctx₂ => ih (by grind) hctx₂ (by grind)
      · refine .withStores fun hs₁ => .reads rfl rfl (.reads rfl rfl ?_)
        have hvar₁ := h₁.var hC hvar
        rw [hC.comptime hs₁ hvar₁]
        refine .bind (.freshVariable hC _ (.some (hC.name hs₁ hvar₁)))
          fun fresh fresh' s₂ s₂' h₂ hfresh => ?_
        refine .bind (.variableTerm hC hfresh) fun freshTerm freshTerm' s₃ s₃' h₃ hfreshTerm => ?_
        refine .bind (he.infer (by grind) (by grind)) fun ty ty' s₄ s₄' h₄ hty => ?_
        refine .bind (.intern hC (.deferred _ hty))
          fun placeholder placeholder' s₅ s₅' h₅ hdeferred => ?_
        refine .bind (.bindContext hC (by grind) (by grind) hdeferred)
          fun ctx ctx' s₆ s₆' h₆ hctx₆ => ?_
        refine .bind (.bindContext hC hctx₆ (by grind) (by grind))
          fun ctx ctx' s₇ s₇' h₇ hctx₇ => ?_
        refine .bind (ih (by grind) hctx₇ (by grind)) fun r r' s₈ s₈' h₈ hr => ?_
        exact .pure ⟨hr.1, .cons ⟨by grind, by grind⟩ hr.2⟩

omit he in
theorem corresponds_apply {callee callee' : TermId} {args args' : List TermId}
    (hcallee : (C.like s s').term callee callee')
    (hargs : List.Forall₂ (C.like s s').term args args') :
    C.Corresponds C.Terms (Build.apply callee args) (Build.apply callee' args') s s' :=
  .intern hC (.application hcallee hargs)

theorem corresponds_callNative {callee callee' : TermId} {native native' : Native}
    {args args' : List TermId} (hctx : C.scope s s' ctx ctx')
    (hcallee : (C.like s s').term callee callee') (hnative : C.Natives s s' native native')
    (hargs : List.Forall₂ (C.like s s').term args args') :
    C.Corresponds C.Terms (e.callNative mode ctx callee native args)
      (e'.callNative mode ctx' callee' native' args') s s' := by
  refine .withStores fun hs => .reads rfl rfl ?_
  have hvalues : args.all s.isValue = args'.all s'.isValue := by
    induction hargs with
    | nil => rfl
    | cons harg _ ih => rw [List.all_cons, List.all_cons, (hC.isValue hs harg).2, ih]
  rw [hnative.isPure, hvalues]
  split
  · exact corresponds_apply hC hcallee hargs
  · exact corresponds_run hC he (hnative.call (.refl hs) hargs) hctx

theorem corresponds_callAbstraction {lets lets' params params' : List (VarId × TermId)}
    {body body' : TermId} {args args' : List TermId} (hctx : C.scope s s' ctx ctx')
    (hlets : (C.like s s').Bindings lets lets') (hparams : (C.like s s').Bindings params params')
    (hbody : (C.like s s').term body body') (hargs : List.Forall₂ (C.like s s').term args args') :
    C.Corresponds C.Terms (e.callAbstraction mode ctx lets params body args)
      (e'.callAbstraction mode ctx' lets' params' body' args') s s' := by
  unfold callAbstraction
  dsimp only
  rw [hargs.length_eq, hparams.length_eq]
  split
  · exact .fails rfl rfl (.arityMismatch _ _)
  refine .bind (corresponds_bindLets hC he (hC.child hctx) hlets) fun r r' s₁ s₁' h₁ hr => ?_
  have hnames : List.Forall₂ (C.like s₁ s₁').var (params.map (·.1)) (params'.map (·.1)) :=
    List.rel_map (fun _ _ hp => hp.var) (h₁.bindings hC hparams)
  have hzip : (C.like s₁ s₁').Bindings ((params.map (·.1)).zip args)
      ((params'.map (·.1)).zip args') :=
    (rel_zip hnames (h₁.terms hC hargs)).imp fun _ _ hb => ⟨hb.1, hb.2⟩
  refine .bind (corresponds_bindArgs hC he (h₁.scope hC hctx) hr.1 hzip)
    fun q q' s₂ s₂' h₂ hq => ?_
  refine .bind (he.reduce hq.1 (by grind)) fun value value' s₃ s₃' h₃ hvalue => ?_
  exact corresponds_wrapResidual hC (List.rel_append ((h₂.trans h₃).bindings hC hr.2)
    (h₃.bindings hC hq.2)) hvalue

omit he in
theorem corresponds_callOther {callee callee' : TermId} {args args' : List TermId}
    (hcallee : (C.like s s').term callee callee')
    (hargs : List.Forall₂ (C.like s s').term args args') :
    C.Corresponds C.Terms (callOther mode callee args) (callOther mode callee' args') s s' := by
  refine .withStores fun hs => .reads rfl rfl ?_
  rw [(hC.isValue hs hcallee).2]
  split
  · exact corresponds_apply hC hcallee hargs
  · exact .reads rfl rfl (.throws (.notAFunction (hC.display hs hcallee)))

theorem corresponds_call {r r' : Resolution} {callee callee' : TermId} {args args' : List TermId}
    (hr : (C.like s s').Resolves r r') (hctx : C.scope s s' ctx ctx')
    (hcallee : (C.like s s').term callee callee')
    (hargs : List.Forall₂ (C.like s s').term args args') :
    C.Corresponds C.Terms (e.call mode ctx r callee args) (e'.call mode ctx' r' callee' args')
      s s' := by
  refine .bind (corresponds_openQuantifiers hC hr hctx hcallee (Nat.lt_succ_self _)
    (Nat.lt_succ_self _)) fun p p' s₁ s₁' h₁ hp => ?_
  obtain ⟨ctx, callee⟩ := p
  obtain ⟨ctx', callee'⟩ := p'
  obtain ⟨hctx₁, hcallee₁⟩ := hp
  dsimp only at hctx₁ hcallee₁ ⊢
  have hargs₁ := h₁.terms hC hargs
  refine .withStores fun hs₁ => .reads rfl rfl ?_
  have hshape := hC.shape hs₁ hcallee₁
  generalize s₁.shape callee = shape, s₁'.shape callee' = shape' at hshape ⊢
  have hother : C.Corresponds C.Terms (callOther mode callee args) (callOther mode callee' args')
      s₁ s₁' := corresponds_callOther hC hcallee₁ hargs₁
  cases hshape with
  | native hid =>
    refine .reads rfl rfl ?_
    have hnative := hC.native hs₁ hid
    generalize s₁.native? _ = registered, s₁'.native? _ = registered' at hnative ⊢
    cases hnative with
    | none => exact hother
    | some h => exact corresponds_callNative hC he hctx₁ hcallee₁ h.1 hargs₁
  | abstraction hlets hparams hbody =>
    cases hparams with
    | nil => exact hother
    | cons hp hrest =>
      exact corresponds_callAbstraction hC he hctx₁ hlets (.cons hp hrest) hbody hargs₁
  | _ => exact hother

/-! ## Partial application -/

theorem corresponds_freshParams {undetermined undetermined' : List VarId}
    {slots slots' : List (Slot TermId)}
    (hundetermined : List.Forall₂ (C.like s s').var undetermined undetermined')
    (hctx : C.scope s s' ctx ctx')
    (hslots : List.Forall₂ (C.like s s').Position slots slots') :
    C.Corresponds (fun s s' => (C.like s s').Bindings) (e.freshParams undetermined ctx slots)
      (e'.freshParams undetermined' ctx' slots') s s' := by
  induction slots generalizing slots' s s' ctx ctx' with
  | nil =>
    cases hslots
    exact .pure .nil
  | cons slot rest ih =>
    cases hslots with
    | @cons _ slot' _ rest' hslot hrest =>
      refine .bind (he.compile hctx hslot.ty) fun ty ty' s₁ s₁' h₁ hty => ?_
      rw [hslot.comptime]
      refine .bind (.freshVariable hC _ .none) fun v v' s₂ s₂' h₂ hv => ?_
      refine .bind (.variableTerm hC hv) fun vTerm vTerm' s₃ s₃' h₃ hvTerm => ?_
      have hnext : ∀ (inner inner' : Context) s₄ s₄', C.Leads s₃ s₃' s₄ s₄' →
          C.scope s₄ s₄' inner inner' →
          C.Corresponds (fun s s' => (C.like s s').Bindings)
            (do return (v, ty) :: (← e.freshParams undetermined inner rest))
            (do return (v', ty') :: (← e'.freshParams undetermined' inner' rest')) s₄ s₄' := by
        intro inner inner' s₄ s₄' h₄ hinner
        refine .bind (ih (by grind) hinner (by grind)) fun params params' s₅ s₅' h₅ hparams => ?_
        exact .pure (.cons ⟨by grind, by grind⟩ hparams)
      have hbinds := ((h₁.trans (h₂.trans h₃)).position hC hslot).binds
      generalize slot.binds = binds, slot'.binds = binds' at hbinds ⊢
      cases hbinds with
      | none => exact .bind (.pure (by grind)) hnext
      | @some supplied supplied' hsupplied =>
        refine .withStores fun hs₃ => ?_
        have hmem := (hC.ordered hs₃).mem_iff ((h₁.trans (h₂.trans h₃)).vars hC hundetermined)
          hsupplied
        by_cases hopen : supplied ∈ undetermined
        · simp only [Option.filter_some, hopen, hmem.1 hopen, decide_true, if_true]
          refine .bind (.intern hC (.deferred .comptime (by grind)))
            fun placeholder placeholder' s₄ s₄' h₄ hdeferred => ?_
          refine .bind (.bindContext hC (by grind) (by grind) hdeferred)
            fun inner inner' s₅ s₅' h₅ hinner₅ => ?_
          refine .bind (.bindContext hC hinner₅ (by grind) (by grind))
            fun inner inner' s₆ s₆' h₆ hinner₆ => ?_
          exact hnext inner inner' s₆ s₆' (by grind) hinner₆
        · have hopen' : supplied' ∉ undetermined' := fun h' => hopen (hmem.2 h')
          simp only [Option.filter_some, hopen, hopen', decide_false, Bool.false_eq_true, if_false]
          exact .bind (.pure (by grind)) hnext

theorem corresponds_curry {r r' : Resolution} {callee callee' : TermId} {args args' : List TermId}
    (hr : (C.like s s').Resolves r r') (hctx : C.scope s s' ctx ctx')
    (hcallee : (C.like s s').term callee callee')
    (hargs : List.Forall₂ (C.like s s').term args args') :
    C.Corresponds C.Terms (e.curry mode ctx r callee args) (e'.curry mode ctx' r' callee' args')
      s s' := by
  refine .withStores fun hs => ?_
  have hdependent : List.Forall₂ (C.like s s').var (r.remaining.filterMap (·.binds))
      (r'.remaining.filterMap (·.binds)) :=
    List.rel_filterMap (fun _ _ hslot => hslot.binds) hr.remaining
  have hkept : List.Forall₂ (C.like s s').var
      (r.undetermined.filter (· ∉ r.remaining.filterMap (·.binds)))
      (r'.undetermined.filter (· ∉ r'.remaining.filterMap (·.binds))) :=
    List.rel_filter (fun v v' hv => by
      simpa using not_congr ((hC.ordered hs).mem_iff hdependent hv)) hr.undetermined
  refine .bind (.bindQuantified hC (hC.child hctx) hkept) fun renamed renamed' s₁ s₁' h₁ hrenamed => ?_
  refine .bind (corresponds_freshParams hC he (h₁.vars hC hr.undetermined) hrenamed
    (h₁.positions hC hr.remaining)) fun params params' s₂ s₂' h₂ hparams => ?_
  refine .bind (.variableTerms hC (List.rel_map (fun _ _ hp => hp.var) hparams))
    fun own own' s₃ s₃' h₃ hown => ?_
  have h₁₃ := h₁.trans (h₂.trans h₃)
  refine .bind (corresponds_apply hC (h₁₃.term hC hcallee)
    (List.rel_append (h₁₃.terms hC hargs) hown)) fun body body' s₄ s₄' h₄ hbody => ?_
  refine .bind (.intern hC (.abstraction .nil ((h₃.trans h₄).bindings hC hparams) hbody))
    fun function function' s₅ s₅' h₅ hfunction => ?_
  have h₁₅ := h₁₃.trans (h₄.trans h₅)
  refine .bind (.quantify hC (h₁₅.vars hC hr.undetermined) hfunction)
    fun quantified quantified' s₆ s₆' h₆ hquantified => ?_
  exact he.reduce ((h₁₅.trans h₆).scope hC hctx) hquantified

theorem corresponds_reduceArgs {args args' : List (TermId × TermId)}
    (hctx : C.scope s s' ctx ctx')
    (hargs : List.Forall₂ (fun p p' => (C.like s s').term p.1 p'.1 ∧ (C.like s s').term p.2 p'.2)
      args args') :
    C.Corresponds (fun s s' => List.Forall₂ (C.like s s').term) (e.reduceArgs mode ctx args)
      (e'.reduceArgs mode ctx' args') s s' := by
  induction args generalizing args' s s' with
  | nil =>
    cases hargs
    exact .pure .nil
  | cons p rest ih =>
    cases hargs with
    | @cons _ p' _ rest' hp hrest =>
      obtain ⟨harg, hty⟩ := hp
      refine .bind (he.reduce hctx harg) fun value value' s₁ s₁' h₁ hvalue => ?_
      refine .bind (he.infer (h₁.scope hC hctx) hvalue)
        fun valueType valueType' s₂ s₂' h₂ hvalueType => ?_
      have hnext : ∀ value value' s₃ s₃', C.Leads s₂ s₂' s₃ s₃' →
          (C.like s₃ s₃').term value value' →
          C.Corresponds (fun s s' => List.Forall₂ (C.like s s').term)
            (do return value :: (← e.reduceArgs mode ctx rest))
            (do return value' :: (← e'.reduceArgs mode ctx' rest')) s₃ s₃' := by
        intro value value' s₃ s₃' h₃ hvalue₃
        have h₁₃ := h₁.trans (h₂.trans h₃)
        refine .bind (ih (h₁₃.scope hC hctx) (hrest.imp fun _ _ hq =>
          ⟨h₁₃.term hC hq.1, h₁₃.term hC hq.2⟩)) fun values values' s₄ s₄' h₄ hvalues => ?_
        exact .pure (.cons (h₄.term hC hvalue₃) hvalues)
      refine .withStores fun hs₂ => ?_
      have hsame := hC.unique hs₂ hvalueType ((h₁.trans h₂).term hC hty)
      by_cases heq : valueType = p.2
      · rw [if_pos heq, if_pos (hsame.1 heq)]
        exact .bind (.pure (h₂.term hC hvalue)) hnext
      · rw [if_neg heq, if_neg fun h' => heq (hsame.2 h')]
        refine .bind (.intern hC (.cast (h₂.term hC hvalue) ((h₁.trans h₂).term hC hty)))
          fun cast cast' s₃ s₃' h₃ hcast => ?_
        refine .bind (he.reduce (by grind) hcast) fun value value' s₄ s₄' h₄ hvalue₄ => ?_
        exact hnext value value' s₄ s₄' (h₃.trans h₄) hvalue₄

theorem corresponds_reduceApplication {callee callee' : TermId} {args args' : List TermId}
    (hctx : C.scope s s' ctx ctx') (hcallee : (C.like s s').term callee callee')
    (hargs : List.Forall₂ (C.like s s').term args args') :
    C.Corresponds C.Terms (e.reduceApplication mode ctx callee args)
      (e'.reduceApplication mode ctx' callee' args') s s' := by
  refine .bind (corresponds_resolve hC he hctx hcallee hargs) fun r r' s₁ s₁' h₁ hr => ?_
  refine .bind (corresponds_reduceArgs hC he (h₁.scope hC hctx)
    (rel_zip (h₁.terms hC hargs) hr.supplied)) fun values values' s₂ s₂' h₂ hvalues => ?_
  have h₁₂ := h₁.trans h₂
  refine .bind (he.reduce (h₁₂.scope hC hctx) (h₁₂.term hC hcallee))
    fun callee callee' s₃ s₃' h₃ hcallee₃ => ?_
  have hr₃ := (h₂.trans h₃).resolves hC hr
  have hctx₃ := (h₁₂.trans h₃).scope hC hctx
  rw [hr.isSaturated_eq]
  split
  · exact corresponds_call hC he hr₃ hctx₃ hcallee₃ (h₃.terms hC hvalues)
  · exact corresponds_curry hC he hr₃ hctx₃ hcallee₃ (h₃.terms hC hvalues)

/-! ## The rules of reduction -/

theorem corresponds_reduceVariable {t t' : TermId} {v v' : VarId}
    (hctx : C.scope s s' ctx ctx') (ht : (C.like s s').term t t')
    (hv : (C.like s s').var v v') :
    C.Corresponds C.Terms (e.reduceVariable mode ctx t v) (e'.reduceVariable mode ctx' t' v')
      s s' := by
  refine .withStores fun hs => ?_
  have hordered := hC.ordered hs
  have hname := hC.name hs hv
  have hget := hC.get? hs hctx hv
  unfold reduceVariable
  generalize ctx.get? v = value, ctx'.get? v' = value' at hget ⊢
  cases hget with
  | none => exact .reads rfl rfl (.throws (.unboundVariable hname))
  | @some value value' hvalue =>
    refine .reads rfl rfl ?_
    have hshape := hC.shape hs hvalue
    generalize s.shape value = shape, s'.shape value' = shape' at hshape ⊢
    cases hshape with
    | deferred _ _ =>
      cases mode with
      | compile => exact .pure ht
      | evaluate => exact .reads rfl rfl (.throws (.valueNotAvailable hname))
    | @«variable» other other' hother =>
      have hsame := hordered.eq_iff hother hv
      dsimp only
      by_cases heq : other = v
      · rw [if_neg (not_not.2 heq), if_neg (not_not.2 (hsame.1 heq))]
        exact .pure hvalue
      · rw [if_pos heq, if_pos fun h' => heq (hsame.2 h')]
        exact he.reduce hctx hvalue
    | _ => exact .pure hvalue

theorem corresponds_reduceProjection {domain domain' : TermId} {field : String}
    (hctx : C.scope s s' ctx ctx') (hdomain : (C.like s s').term domain domain') :
    C.Corresponds C.Terms (e.reduceProjection mode ctx domain field)
      (e'.reduceProjection mode ctx' domain' field) s s' := by
  refine .bind (he.reduce hctx hdomain) fun domain domain' s₁ s₁' h₁ hdomain₁ => ?_
  refine .withStores fun hs₁ => .reads rfl rfl ?_
  -- What is no product waits on both sides, or fails on both.
  have hwaits : C.Corresponds C.Terms
      (do
        if mode = .compile && !(← Attempt.isValue domain) then
          let _ ← memberType (← e.infer ctx domain) field
          Build.project domain field
        else throw (.notAProduct (← display domain)))
      (do
        if mode = .compile && !(← Attempt.isValue domain') then
          let _ ← memberType (← e'.infer ctx' domain') field
          Build.project domain' field
        else throw (.notAProduct (← display domain'))) s₁ s₁' := by
    refine .reads rfl rfl ?_
    rw [(hC.isValue hs₁ hdomain₁).2]
    split
    · refine .bind (he.infer (h₁.scope hC hctx) hdomain₁) fun ty ty' s₂ s₂' h₂ hty => ?_
      refine .bind (corresponds_memberType hC hty) fun _ _ s₃ s₃' h₃ _ => ?_
      exact .intern hC (.projection field ((h₂.trans h₃).term hC hdomain₁))
    · exact .reads rfl rfl (.throws (.notAProduct (hC.display hs₁ hdomain₁)))
  have hshape := hC.shape hs₁ hdomain₁
  generalize s₁.shape domain = shape, s₁'.shape domain' = shape' at hshape ⊢
  cases hshape with
  | @productValue _ _ fields fields' _ hfields =>
    have hfind := Likeness.named_find? hfields field
    dsimp only
    rw [Likeness.named_names hfields]
    generalize fields.find? (fun f => f.1 = field) = found,
      fields'.find? (fun f => f.1 = field) = found' at hfind ⊢
    cases hfind with
    | none => exact .throws (.missingField field _)
    | some hfield => exact .pure hfield.term
  | _ => exact hwaits

theorem corresponds_reduceCast {subject subject' target target' : TermId}
    (hctx : C.scope s s' ctx ctx') (hsubject : (C.like s s').term subject subject')
    (htarget : (C.like s s').term target target') :
    C.Corresponds C.Terms (e.reduceCast mode ctx subject target)
      (e'.reduceCast mode ctx' subject' target') s s' := by
  refine .bind (he.reduce hctx hsubject) fun subject subject' s₁ s₁' h₁ hsubject₁ => ?_
  refine .bind (he.reduce (h₁.scope hC hctx) (h₁.term hC htarget))
    fun target target' s₂ s₂' h₂ htarget₂ => ?_
  refine .bind (he.infer ((h₁.trans h₂).scope hC hctx) (h₂.term hC hsubject₁))
    fun subjectType subjectType' s₃ s₃' h₃ hsubjectType => .withStores fun hs₃ => ?_
  have htarget₃ := h₃.term hC htarget₂
  have hsame := hC.unique hs₃ hsubjectType htarget₃
  have hsubject₃ := (h₂.trans h₃).term hC hsubject₁
  by_cases heq : subjectType = target
  · rw [if_pos heq, if_pos (hsame.1 heq)]
    exact .pure hsubject₃
  · rw [if_neg heq, if_neg fun h' => heq (hsame.2 h')]
    refine .reads rfl rfl ?_
    rw [(hC.isValue hs₃ hsubjectType).1, (hC.isValue hs₃ htarget₃).1]
    split
    · exact .intern hC (.cast hsubject₃ htarget₃)
    · exact .throws (.uncastableTypes (hC.display hs₃ hsubjectType) (hC.display hs₃ htarget₃))

theorem corresponds_reduceForAll {vars vars' : List VarId} {body body' : TermId}
    (hctx : C.scope s s' ctx ctx') (hvars : List.Forall₂ (C.like s s').var vars vars')
    (hbody : (C.like s s').term body body') :
    C.Corresponds C.Terms (e.reduceForAll mode ctx vars body)
      (e'.reduceForAll mode ctx' vars' body')
      s s' := by
  refine .bind (.bindQuantified hC (hC.child hctx) hvars) fun inner inner' s₁ s₁' h₁ hinner => ?_
  refine .bind (he.compile hinner (h₁.term hC hbody)) fun body body' s₂ s₂' h₂ hbody₂ => ?_
  refine .bind (.quantify hC ((h₁.trans h₂).vars hC hvars) hbody₂)
    fun function function' s₃ s₃' h₃ hfunction => ?_
  dsimp only
  split
  · exact .bind (corresponds_ensureAvailable hC (by grind) hfunction) fun _ _ s₄ s₄' h₄ _ =>
      .pure (h₄.term hC hfunction)
  · exact .pure hfunction

theorem corresponds_reduceAbstraction {lets lets' params params' : List (VarId × TermId)}
    {body body' : TermId} (hctx : C.scope s s' ctx ctx')
    (hlets : (C.like s s').Bindings lets lets') (hparams : (C.like s s').Bindings params params')
    (hbody : (C.like s s').term body body') :
    C.Corresponds C.Terms (e.reduceAbstraction mode ctx lets params body)
      (e'.reduceAbstraction mode ctx' lets' params' body') s s' := by
  refine .bind (corresponds_bindLets hC he (hC.child hctx) hlets) fun r r' s₁ s₁' h₁ hr => ?_
  obtain ⟨inner, residual⟩ := r
  obtain ⟨inner', residual'⟩ := r'
  obtain ⟨hinner, hresidual⟩ := hr
  dsimp only at hinner hresidual ⊢
  rw [rel_isEmpty hparams]
  split
  · refine .bind (he.reduce hinner (h₁.term hC hbody)) fun value value' s₂ s₂' h₂ hvalue => ?_
    exact corresponds_wrapResidual hC (h₂.bindings hC hresidual) hvalue
  · refine .bind (corresponds_bindParams hC he hinner (h₁.bindings hC hparams))
      fun q q' s₂ s₂' h₂ hq => ?_
    obtain ⟨inner, params⟩ := q
    obtain ⟨inner', params'⟩ := q'
    obtain ⟨hinner₂, hparams₂⟩ := hq
    dsimp only at hinner₂ hparams₂ ⊢
    refine .bind (he.compile hinner₂ (by grind)) fun body body' s₃ s₃' h₃ hbody₃ => ?_
    refine .bind (.intern hC (.abstraction ((h₂.trans h₃).bindings hC hresidual)
      (h₃.bindings hC hparams₂) hbody₃)) fun function function' s₄ s₄' h₄ hfunction => ?_
    split
    · exact .bind (corresponds_ensureAvailable hC (by grind) hfunction) fun _ _ s₅ s₅' h₅ _ =>
        .pure (h₅.term hC hfunction)
    · exact .pure hfunction

theorem corresponds_reduceStep {t t' : TermId} (hctx : C.scope s s' ctx ctx')
    (ht : (C.like s s').term t t') :
    C.Corresponds C.Terms (e.reduceStep mode ctx t) (e'.reduceStep mode ctx' t') s s' := by
  refine .withStores fun hs => .reads rfl rfl ?_
  have hshape := hC.shape hs ht
  have htext := hC.display hs ht
  generalize s.shape t = shape, s'.shape t' = shape' at hshape ⊢
  cases hshape with
  | «variable» hv => exact corresponds_reduceVariable hC he hctx ht hv
  | deferred _ _ =>
    cases mode with
    | compile => exact .pure ht
    | evaluate => exact .reads rfl rfl (.throws (.valueNotAvailable htext))
  | unitValue hty =>
    exact .bind (he.reduce hctx hty) fun ty ty' s₁ s₁' h₁ hty₁ => .intern hC (.unitValue hty₁)
  | productValue hty hfields =>
    refine .bind (he.reduce hctx hty) fun ty ty' s₁ s₁' h₁ hty₁ => ?_
    refine .bind (corresponds_reduceNamed hC he (h₁.scope hC hctx) (h₁.named hC hfields))
      fun fields fields' s₂ s₂' h₂ hfields₂ => ?_
    exact .intern hC (.productValue (h₂.term hC hty₁) hfields₂)
  | functionType hparams hresult =>
    refine .bind (corresponds_reduceSlots hC he hctx hparams)
      fun params params' s₁ s₁' h₁ hparams₁ => ?_
    refine .bind (he.reduce (h₁.scope hC hctx) (h₁.term hC hresult))
      fun result result' s₂ s₂' h₂ hresult₂ => ?_
    exact .intern hC (.functionType (h₂.positions hC hparams₁) hresult₂)
  | productType hmembers =>
    exact .bind (corresponds_reduceNamed hC he hctx hmembers) fun members members' s₁ s₁' h₁ hm =>
      .intern hC (.productType hm)
  | projection field hdomain => exact corresponds_reduceProjection hC he hctx hdomain
  | cast hsubject htarget => exact corresponds_reduceCast hC he hctx hsubject htarget
  | forAll hvars hbody => exact corresponds_reduceForAll hC he hctx hvars hbody
  | abstraction hlets hparams hbody =>
    exact corresponds_reduceAbstraction hC he hctx hlets hparams hbody
  | application hcallee hargs => exact corresponds_reduceApplication hC he hctx hcallee hargs
  | _ => exact .pure ht

end Rules

/-! ## The judgments -/

theorem corresponds_throwDepth (hC : C.Steady) {α : Type} {post : Post α} :
    C.Corresponds post throwDepth throwDepth s s' := by
  refine .withStores fun hs => .reads rfl rfl ?_
  rw [hC.limit hs]
  exact .throws (.depthExceeded _)

variable (hC : C.Lawful)

include hC

theorem engines_ofLevels (n : Nat) : C.Engines (.ofLevels n) (.ofLevels n) := by
  induction n with
  | zero =>
    exact ⟨rfl, fun _ _ => corresponds_throwDepth hC.toSteady,
      fun _ _ => corresponds_throwDepth hC.toSteady⟩
  | succ n ih =>
    refine ⟨rfl, fun hctx ht => ?_, fun hctx ht => corresponds_reduceStep hC.toSteady ih hctx ht⟩
    refine corresponds_inferStep hC.toSteady ih hctx ht fun h₁ h₂ _ _ hr hanswer => ?_
    exact hC.remember h₂.after ((h₁.trans h₂).term hC.toSteady ht) hr hanswer

theorem corresponds_infer {t t' : TermId} (hctx : C.scope s s' ctx ctx')
    (ht : (C.like s s').term t t') :
    C.Corresponds C.Terms (infer ctx t) (infer ctx' t') s s' := by
  refine .withStores fun hs => .reads rfl rfl ?_
  rw [hC.limit hs]
  exact (engines_ofLevels hC _).infer hctx ht

theorem corresponds_reduce {t t' : TermId} (hctx : C.scope s s' ctx ctx')
    (ht : (C.like s s').term t t') :
    C.Corresponds C.Terms (reduce mode ctx t) (reduce mode ctx' t') s s' := by
  refine .withStores fun hs => .reads rfl rfl ?_
  rw [hC.limit hs]
  exact (engines_ofLevels hC _).reduce hctx ht

theorem corresponds_resolveCallee {callee callee' : TermId} {args args' : List TermId}
    (hctx : C.scope s s' ctx ctx') (hcallee : (C.like s s').term callee callee')
    (hargs : List.Forall₂ (C.like s s').term args args') :
    C.Corresponds (fun s s' => (C.like s s').Resolves) (resolve ctx callee args)
      (resolve ctx' callee' args') s s' := by
  refine .withStores fun hs => .reads rfl rfl ?_
  rw [hC.limit hs]
  exact corresponds_resolve hC.toSteady (engines_ofLevels hC _) hctx hcallee hargs

end Correspondence

end StagedCalculus
