import StagedCalculus.Proofs.Staging.CorrespondingMatches
import StagedCalculus.Staging.Infer

/-!
# Inference in corresponding stores

This module follows the rules of inference over two engines whose own calls correspond.

- `Correspondence.Engines`: the calls of two engines correspond;
- `Correspondence.corresponds_run`: so do the scripts they run, if these are alike;
- `Correspondence.corresponds_resolve`, `Correspondence.corresponds_inferStep`: so do resolution and
  one level of inference.
-/

namespace StagedCalculus

namespace Likeness

/-- Resolutions that stand for each other. -/
structure Resolves (L : Likeness) (r r' : Resolution) : Prop where
  supplied : List.Forall₂ L.term r.supplied r'.supplied
  undetermined : List.Forall₂ L.var r.undetermined r'.undetermined
  determined : L.Bindings r.determined r'.determined
  remaining : List.Forall₂ L.Position r.remaining r'.remaining
  result : L.term r.result r'.result

theorem Resolves.isSaturated_eq {L : Likeness} {r r' : Resolution} (h : L.Resolves r r') :
    r.isSaturated = r'.isSaturated := rel_isEmpty h.remaining

theorem Le.resolves {L L' : Likeness} (h : L.Le L') {r r' : Resolution} (hr : L.Resolves r r') :
    L'.Resolves r r' :=
  ⟨h.terms hr.supplied, h.vars hr.undetermined, h.bindings hr.determined, h.positions hr.remaining,
    h.term hr.result⟩

end Likeness

/-- Resolution of a call once the type of the callee is known. -/
def Engine.resolveTyped (e : Engine) (ctx : Context) (ty : TermId) (args : List TermId) :
    Attempt Resolution := do
  let (vars, params, result) ← Engine.functionParts ty
  if params.length < args.length then
    throw (.arityMismatch params.length args.length)
  let quantified ← Attempt.bindQuantified ctx.child vars
  let (m, supplied) ← e.supplyAll ctx ⟨vars, quantified.child⟩ 0 (args.zip params)
  let remaining ← e.compileSlots m.context (params.drop args.length)
  let result ← e.compile m.context result
  let determined := (vars.filter (· ∉ m.undetermined)).filterMap fun v =>
    (m.context.get? v).map fun value => (v, value)
  return { supplied, undetermined := m.undetermined, determined, remaining, result }

theorem Engine.resolve_eq (e : Engine) (ctx : Context) (callee : TermId) (args : List TermId) :
    e.resolve ctx callee args = e.infer ctx callee >>= fun ty => e.resolveTyped ctx ty args := rfl

namespace Correspondence

open Attempt Engine

variable {C : Correspondence} {e e' : Engine} {s s' : Store} {ctx ctx' : Context}

/-- The calls of the two engines correspond, in contexts and on terms that stand for each other. -/
structure Engines (C : Correspondence) (e e' : Engine) : Prop where
  levels : e.levels = e'.levels
  infer : ∀ {s s' ctx ctx' t t'}, C.scope s s' ctx ctx' → (C.like s s').term t t' →
    C.Corresponds C.Terms (e.infer ctx t) (e'.infer ctx' t') s s'
  reduce : ∀ {s s' mode ctx ctx' t t'}, C.scope s s' ctx ctx' → (C.like s s').term t t' →
    C.Corresponds C.Terms (e.reduce mode ctx t) (e'.reduce mode ctx' t') s s'

theorem Engines.compile (he : C.Engines e e') {t t' : TermId} (hctx : C.scope s s' ctx ctx')
    (ht : (C.like s s').term t t') :
    C.Corresponds C.Terms (e.compile ctx t) (e'.compile ctx' t') s s' := he.reduce hctx ht

theorem Leads.resolves {s₁ s₁' : Store} {r r' : Resolution} (h : C.Leads s s' s₁ s₁')
    (hC : C.Steady) (hr : (C.like s s').Resolves r r') : (C.like s₁ s₁').Resolves r r' :=
  (hC.mono h).resolves hr

section Rules

variable (hC : C.Steady) (he : C.Engines e e')

include hC he

/-! ## Matching and scripts -/

theorem corresponds_unify {m m' : Matching} {expected expected' arg arg' : TermId}
    (hm : C.Matchings s s' m m') (hexpected : (C.like s s').term expected expected')
    (harg : (C.like s s').term arg arg') :
    C.Corresponds C.Matchings (e.unify m expected arg) (e'.unify m' expected' arg') s s' := by
  refine .withStores fun hs => .reads rfl rfl ?_
  have hends := C.unify hC hs e'.levels hexpected harg m m' hm
  rw [he.levels]
  generalize (s.unify e'.levels expected arg).run m = r,
    (s'.unify e'.levels expected' arg').run m' = r' at hends ⊢
  cases hends with
  | fails herr _ => exact .throws herr
  | gives hm => exact .pure hm

/-- Scripts that are alike correspond wherever they are run. -/
theorem corresponds_run {α : Type} {post : Post α} {script script' : Script α}
    (hscript : C.Scripts post s s' script script') (hctx : C.scope s s' ctx ctx') :
    C.Corresponds post (e.run ctx script) (e'.run ctx' script') s s' := by
  induction hscript with
  | done ha => exact .pure ha
  | fail herr => exact .throws herr
  | ask hquestion _ ih =>
    refine .withStores fun hs => ?_
    cases hquestion with
    | shape ht => exact .reads rfl rfl (ih (.refl hs) (hC.shape hs ht) hctx)
    | intern hshape =>
      exact .bind (.intern hC hshape) fun _ _ _ _ h₁ ht => ih h₁ ht (h₁.scope hC hctx)
    | freshVariable comptime hname =>
      exact .bind (.freshVariable hC comptime hname) fun _ _ _ _ h₁ hv =>
        ih h₁ hv (h₁.scope hC hctx)
    | infer ht => exact .bind (he.infer hctx ht) fun _ _ _ _ h₁ hty => ih h₁ hty (h₁.scope hC hctx)
    | reduce mode ht =>
      exact .bind (he.reduce hctx ht) fun _ _ _ _ h₁ hr => ih h₁ hr (h₁.scope hC hctx)
    | isValue ht => exact .reads rfl rfl (ih (.refl hs) (hC.isValue hs ht).2 hctx)
    | builtin name =>
      exact .bind (.builtin hC name) fun _ _ _ _ h₁ hleaf => ih h₁ hleaf (h₁.scope hC hctx)
    | signature hid => exact .reads rfl rfl (ih (.refl hs) (hC.signature hs hid) hctx)
    | display ht => exact .reads rfl rfl (ih (.refl hs) (hC.display hs ht) hctx)
    | write text =>
      exact .bind (.write hC text) fun _ _ _ _ h₁ hbytes => ih h₁ hbytes (h₁.scope hC hctx)

/-! ## Parameters -/

theorem corresponds_bindParams {params params' : List (VarId × TermId)}
    (hctx : C.scope s s' ctx ctx') (hparams : (C.like s s').Bindings params params') :
    C.Corresponds
      (fun s s' r r' => C.scope s s' r.1 r'.1 ∧ (C.like s s').Bindings r.2 r'.2)
      (e.bindParams ctx params) (e'.bindParams ctx' params') s s' := by
  induction params generalizing params' s s' ctx ctx' with
  | nil =>
    cases hparams
    exact .pure ⟨hctx, .nil⟩
  | cons p rest ih =>
    cases hparams with
    | @cons _ p' _ rest' hp hrest =>
      refine .bind (he.compile hctx hp.term) fun ty ty' s₁ s₁' h₁ hty => ?_
      refine .withStores fun hs₁ => .reads rfl rfl ?_
      rw [hC.comptime hs₁ (h₁.var hC hp.var)]
      refine .bind (.intern hC (.deferred _ hty))
        fun placeholder placeholder' s₂ s₂' h₂ hdeferred => ?_
      have hvar := hp.var
      refine .bind (.bindContext hC (by grind) (by grind) hdeferred)
        fun ctx ctx' s₃ s₃' h₃ hctx₃ => ?_
      refine .bind (ih hctx₃ (by grind)) fun r r' s₄ s₄' h₄ hr => ?_
      exact .pure ⟨hr.1, .cons ⟨by grind, by grind⟩ hr.2⟩

/-! ## Resolution -/

omit he in
theorem corresponds_knownAtCompileTime {value value' : TermId}
    (hctx : C.scope s s' ctx ctx') (hvalue : (C.like s s').term value value') :
    C.Corresponds (fun _ _ => Eq) (knownAtCompileTime ctx value) (knownAtCompileTime ctx' value')
      s s' := by
  refine .withStores fun hs => .reads rfl rfl ?_
  rw [(hC.isValue hs hvalue).2]
  split
  · exact .same true
  · refine .reads rfl rfl ?_
    have hshape := hC.shape hs hvalue
    generalize s.shape value = shape, s'.shape value' = shape' at hshape ⊢
    cases hshape with
    | «variable» hv =>
      have hget := hC.get? hs hctx hv
      dsimp only
      generalize ctx.get? _ = bound, ctx'.get? _ = bound' at hget ⊢
      cases hget with
      | none => exact .same false
      | @some bound bound' hbound =>
        refine .reads rfl rfl ?_
        have hshape := hC.shape hs hbound
        generalize s.shape bound = shape, s'.shape bound' = shape' at hshape ⊢
        cases hshape with
        | deferred availability _ =>
          cases availability with
          | comptime => exact .same true
          | runtime => exact .same false
        | _ => exact .same false
    | _ => exact .same false

theorem corresponds_supplyComptime {m m' : Matching} {index : Nat} {arg arg' : TermId}
    {slot slot' : Slot TermId} (hctx : C.scope s s' ctx ctx')
    (hm : C.Matchings s s' m m') (harg : (C.like s s').term arg arg')
    (hslot : (C.like s s').Position slot slot') :
    C.Corresponds C.Matchings (e.supplyComptime ctx m index arg slot)
      (e'.supplyComptime ctx' m' index arg' slot') s s' := by
  refine .bind (he.compile hctx harg) fun value value' s₁ s₁' h₁ hvalue => ?_
  refine .bind (corresponds_knownAtCompileTime hC (h₁.scope hC hctx) hvalue)
    fun known known' s₂ s₂' h₂ hknown => ?_
  have hm₂ : C.Matchings s₂ s₂' m m' := hm.mono hC (h₁.trans h₂)
  dsimp only at hknown ⊢
  subst hknown
  cases known with
  | false => exact .fails rfl rfl (.comptimeArgumentUnavailable index)
  | true =>
    simp only [Bool.not_true, Bool.false_eq_true, if_false]
    have hbinds := ((h₁.trans h₂).position hC hslot).binds
    generalize slot.binds = binds, slot'.binds = binds' at hbinds ⊢
    cases hbinds with
    | none => exact .pure hm₂
    | @some v v' hv =>
      refine .withStores fun hs₂ => ?_
      have hmem := (hC.ordered hs₂).mem_iff hm₂.undetermined hv
      dsimp only
      by_cases hopen : v ∈ m.undetermined
      · rw [if_pos hopen, if_pos (hmem.1 hopen)]
        refine .bind (.bindContext hC hm₂.context hv (h₂.term hC hvalue))
          fun context context' s₃ s₃' h₃ hcontext => .pure ?_
        exact (hm₂.mono hC h₃).determine (hC.ordered h₃.after) (h₃.var hC hv) hcontext
      · rw [if_neg hopen, if_neg fun h' => hopen (hmem.2 h')]
        exact .pure hm₂

theorem corresponds_supply {m m' : Matching} {index : Nat} {arg arg' : TermId}
    {slot slot' : Slot TermId} (hctx : C.scope s s' ctx ctx')
    (hm : C.Matchings s s' m m') (harg : (C.like s s').term arg arg')
    (hslot : (C.like s s').Position slot slot') :
    C.Corresponds
      (fun s s' r r' => C.Matchings s s' r.1 r'.1 ∧ (C.like s s').term r.2 r'.2)
      (e.supply ctx m index arg slot) (e'.supply ctx' m' index arg' slot') s s' := by
  have hty := hslot.ty
  -- Whether or not the position is comptime, the rest goes on from a state of matching.
  have hrest : ∀ (m m' : Matching) s₁ s₁', C.Leads s s' s₁ s₁' → C.Matchings s₁ s₁' m m' →
      C.Corresponds (fun s s' r r' => C.Matchings s s' r.1 r'.1 ∧ (C.like s s').term r.2 r'.2)
        (do
          let argType ← e.infer ctx arg
          let expected ← e.compile m.context slot.ty
          let m ← e.unify m expected argType
          return (m, ← e.compile m.context slot.ty))
        (do
          let argType ← e'.infer ctx' arg'
          let expected ← e'.compile m'.context slot'.ty
          let m ← e'.unify m' expected argType
          return (m, ← e'.compile m.context slot'.ty)) s₁ s₁' := by
    intro m m' s₁ s₁' h₁ hm₁
    refine .bind (he.infer (h₁.scope hC hctx) (h₁.term hC harg))
      fun argType argType' s₂ s₂' h₂ hargType => ?_
    refine .bind (he.compile (hm₁.mono hC h₂).context (by grind))
      fun expected expected' s₃ s₃' h₃ hexpected => ?_
    refine .bind (corresponds_unify hC he (by grind) hexpected (by grind))
      fun m m' s₄ s₄' h₄ hm₄ => ?_
    refine .bind (he.compile hm₄.context (by grind)) fun ty ty' s₅ s₅' h₅ hty₅ => ?_
    exact .pure ⟨hm₄.mono hC h₅, hty₅⟩
  unfold supply
  dsimp only
  rw [hslot.comptime]
  split
  · exact .bind (corresponds_supplyComptime hC he hctx hm harg hslot) hrest
  · exact .bind (.pure hm) hrest

theorem corresponds_supplyAll {m m' : Matching} {index : Nat}
    {args args' : List (TermId × Slot TermId)} (hctx : C.scope s s' ctx ctx')
    (hm : C.Matchings s s' m m')
    (hargs : List.Forall₂ (fun p p' => (C.like s s').term p.1 p'.1 ∧
      (C.like s s').Position p.2 p'.2) args args') :
    C.Corresponds
      (fun s s' r r' => C.Matchings s s' r.1 r'.1 ∧ List.Forall₂ (C.like s s').term r.2 r'.2)
      (e.supplyAll ctx m index args) (e'.supplyAll ctx' m' index args') s s' := by
  induction args generalizing args' s s' m m' index with
  | nil =>
    cases hargs
    exact .pure ⟨hm, .nil⟩
  | cons p rest ih =>
    cases hargs with
    | @cons _ p' _ rest' hp hrest =>
      refine .bind (corresponds_supply hC he hctx hm hp.1 hp.2) fun r r' s₁ s₁' h₁ hr => ?_
      refine .bind (ih (h₁.scope hC hctx) hr.1 (hrest.imp fun _ _ hq =>
        ⟨h₁.term hC hq.1, h₁.position hC hq.2⟩)) fun q q' s₂ s₂' h₂ hq => ?_
      exact .pure ⟨hq.1, .cons (h₂.term hC hr.2) hq.2⟩

theorem corresponds_compileSlots {slots slots' : List (Slot TermId)}
    (hctx : C.scope s s' ctx ctx')
    (hslots : List.Forall₂ (C.like s s').Position slots slots') :
    C.Corresponds (fun s s' => List.Forall₂ (C.like s s').Position) (e.compileSlots ctx slots)
      (e'.compileSlots ctx' slots') s s' := by
  induction slots generalizing slots' s s' with
  | nil =>
    cases hslots
    exact .pure .nil
  | cons slot rest ih =>
    cases hslots with
    | @cons _ slot' _ rest' hslot hrest =>
      refine .bind (he.compile hctx hslot.ty) fun ty ty' s₁ s₁' h₁ hty => ?_
      refine .bind (ih (h₁.scope hC hctx) (h₁.positions hC hrest))
        fun slots slots' s₂ s₂' h₂ hslots => ?_
      have hslot₂ := (h₁.trans h₂).position hC hslot
      exact .pure (.cons ⟨h₂.term hC hty, hslot₂.comptime, hslot₂.binds⟩ hslots)

omit he in
theorem corresponds_functionParts {ty ty' : TermId} (hty : (C.like s s').term ty ty') :
    C.Corresponds
      (fun s s' r r' => List.Forall₂ (C.like s s').var r.1 r'.1 ∧
        List.Forall₂ (C.like s s').Position r.2.1 r'.2.1 ∧ (C.like s s').term r.2.2 r'.2.2)
      (functionParts ty) (functionParts ty') s s' := by
  refine .withStores fun hs => ?_
  refine .reads rfl rfl ?_
  have hshape := hC.shape hs hty
  generalize hleft : s.shape ty = shape, hright : s'.shape ty' = shape' at hshape ⊢
  cases hshape with
  | forAll hvars hbody =>
    -- Below the quantifier stands a function type on both sides or on neither.
    refine .reads rfl rfl (.reads rfl rfl ?_)
    have hshape := hC.shape hs hbody
    have herr := Error.Alike.notAFunction (hC.display hs hbody)
    generalize s.shape _ = shape, s'.shape _ = shape' at hshape ⊢
    cases hshape with
    | functionType hparams hresult => exact .pure ⟨hvars, hparams, hresult⟩
    | _ => exact .reads rfl rfl (.throws herr)
  | functionType hparams hresult =>
    refine .reads rfl rfl (.reads rfl rfl ?_)
    rw [hleft, hright]
    exact .pure ⟨.nil, hparams, hresult⟩
  | _ =>
    refine .reads rfl rfl (.reads rfl rfl ?_)
    rw [hleft, hright]
    exact .reads rfl rfl (.throws (.notAFunction (hC.display hs hty)))

theorem corresponds_resolveTyped {ty ty' : TermId} {args args' : List TermId}
    (hctx : C.scope s s' ctx ctx') (hty : (C.like s s').term ty ty')
    (hargs : List.Forall₂ (C.like s s').term args args') :
    C.Corresponds (fun s s' => (C.like s s').Resolves) (e.resolveTyped ctx ty args)
      (e'.resolveTyped ctx' ty' args') s s' := by
  refine .bind (corresponds_functionParts hC hty) fun parts parts' s₁ s₁' h₁ hparts => ?_
  obtain ⟨vars, params, result⟩ := parts
  obtain ⟨vars', params', result'⟩ := parts'
  obtain ⟨hvars, hparams, hresult⟩ := hparts
  dsimp only at hvars hparams hresult ⊢
  rw [hparams.length_eq, hargs.length_eq]
  split
  · exact .fails rfl rfl (.arityMismatch _ _)
  have hctx₁ := h₁.scope hC hctx
  refine .bind (.bindQuantified hC (hC.child hctx₁) hvars)
    fun quantified quantified' s₂ s₂' h₂ hquantified => ?_
  have hzip := rel_zip ((h₁.trans h₂).terms hC hargs) (h₂.positions hC hparams)
  refine .bind (corresponds_supplyAll hC he (h₂.scope hC hctx₁)
    ⟨h₂.vars hC hvars, hC.child hquantified⟩ hzip) fun r r' s₃ s₃' h₃ hr => ?_
  obtain ⟨m, supplied⟩ := r
  obtain ⟨m', supplied'⟩ := r'
  obtain ⟨hm, hsupplied⟩ := hr
  dsimp only at hm hsupplied ⊢
  have hrest := List.forall₂_drop args'.length ((h₂.trans h₃).positions hC hparams)
  refine .bind (corresponds_compileSlots hC he hm.context hrest)
    fun remaining remaining' s₄ s₄' h₄ hremaining => ?_
  refine .bind (he.compile (h₄.scope hC hm.context) (by grind))
    fun result result' s₅ s₅' h₅ hresult₅ => .withStores fun hs₅ => .pure ?_
  have hm₅ := hm.mono hC (h₄.trans h₅)
  have hordered := hC.ordered hs₅
  refine ⟨(h₄.trans h₅).terms hC hsupplied, hm₅.undetermined, ?_, h₅.positions hC hremaining,
    hresult₅⟩
  -- Both sides determine the same variables, and these are bound to the same values.
  refine List.rel_filterMap (R := (C.like s₅ s₅').var) (fun v v' hv => ?_)
    (List.rel_filter (fun v v' hv => by
      simpa using not_congr (hordered.mem_iff hm₅.undetermined hv))
      ((h₂.trans (h₃.trans (h₄.trans h₅))).vars hC hvars))
  have hget := hC.get? hs₅ hm₅.context hv
  generalize m.context.get? v = value, m'.context.get? v' = value' at hget ⊢
  cases hget with
  | none => exact .none
  | some hvalue => exact .some ⟨hv, hvalue⟩

theorem corresponds_resolve {callee callee' : TermId} {args args' : List TermId}
    (hctx : C.scope s s' ctx ctx') (hcallee : (C.like s s').term callee callee')
    (hargs : List.Forall₂ (C.like s s').term args args') :
    C.Corresponds (fun s s' => (C.like s s').Resolves) (e.resolve ctx callee args)
      (e'.resolve ctx' callee' args') s s' := by
  rw [resolve_eq, resolve_eq]
  refine .bind (he.infer hctx hcallee) fun ty ty' s₁ s₁' h₁ hty => ?_
  exact corresponds_resolveTyped hC he (h₁.scope hC hctx) hty (h₁.terms hC hargs)

/-! ## The rules of inference -/

omit he in
theorem corresponds_memberType {ty ty' : TermId} {field : String}
    (hty : (C.like s s').term ty ty') :
    C.Corresponds C.Terms (memberType ty field) (memberType ty' field) s s' := by
  refine .withStores fun hs => .reads rfl rfl ?_
  have hshape := hC.shape hs hty
  have herr := Error.Alike.notAProduct (hC.display hs hty)
  generalize s.shape ty = shape, s'.shape ty' = shape' at hshape ⊢
  cases hshape with
  | @productType members members' hmembers =>
    have hfind := Likeness.named_find? hmembers field
    dsimp only
    rw [Likeness.named_names hmembers]
    generalize members.find? (fun e => e.1 = field) = found,
      members'.find? (fun e => e.1 = field) = found' at hfind ⊢
    cases hfind with
    | none => exact .throws (.missingField field _)
    | some hmember => exact .pure hmember.term
  | _ => exact .reads rfl rfl (.throws herr)

theorem corresponds_bindCompiled {lets lets' : List (VarId × TermId)}
    (hctx : C.scope s s' ctx ctx') (hlets : (C.like s s').Bindings lets lets') :
    C.Corresponds C.Scopes (e.bindCompiled ctx lets) (e'.bindCompiled ctx' lets') s s' := by
  induction lets generalizing lets' s s' ctx ctx' with
  | nil =>
    cases hlets
    exact .pure hctx
  | cons b rest ih =>
    cases hlets with
    | @cons _ b' _ rest' hb hrest =>
      refine .bind (he.compile hctx hb.term) fun value value' s₁ s₁' h₁ hvalue => ?_
      refine .bind (.bindContext hC (h₁.scope hC hctx) (h₁.var hC hb.var) hvalue)
        fun ctx ctx' s₂ s₂' h₂ hctx₂ => ?_
      exact ih hctx₂ ((h₁.trans h₂).bindings hC hrest)

omit he in
theorem corresponds_plainSlots {params params' : List (VarId × TermId)}
    (hparams : (C.like s s').Bindings params params') :
    C.Corresponds (fun s s' => List.Forall₂ (C.like s s').Position) (plainSlots params)
      (plainSlots params') s s' := by
  induction params generalizing params' s s' with
  | nil =>
    cases hparams
    exact .pure .nil
  | cons p rest ih =>
    cases hparams with
    | @cons _ p' _ rest' hp hrest =>
      refine .withStores fun hs => .reads rfl rfl ?_
      refine .bind (ih hrest) fun slots slots' s₁ s₁' h₁ hslots => .pure (.cons ?_ hslots)
      exact ⟨h₁.term hC hp.term, hC.comptime hs hp.var, .none⟩

omit he hC in
/-- A position is marked on both sides or on neither. -/
theorem markDependent_position {L : Likeness} (hL : L.Ordered) {free free' : FreeVariables}
    (hfree : L.Uses free free') {v v' : VarId} (hv : L.var v v') {slot slot' : Slot TermId}
    (hslot : L.Position slot slot') :
    L.Position (markDependent free v slot) (markDependent free' v' slot') := by
  have hcontains : free.contains v = free'.contains v' := Likeness.entries_any_eq hfree hL hv
  unfold markDependent
  rw [hslot.comptime, hcontains]
  split
  · exact ⟨hslot.ty, rfl, .some hv⟩
  · exact hslot

omit he in
theorem corresponds_functionTypeOf {params params' : List (VarId × TermId)}
    {result result' : TermId}
    (hparams : (C.like s s').Bindings params params')
    (hresult : (C.like s s').term result result') :
    C.Corresponds C.Terms (functionTypeOf params result) (functionTypeOf params' result') s s' := by
  refine .bind (corresponds_plainSlots hC hparams) fun slots slots' s₁ s₁' h₁ hslots => ?_
  refine .bind (.intern hC (.functionType hslots (h₁.term hC hresult)))
    fun plain plain' s₂ s₂' h₂ hplain => .withStores fun hs₂ => .reads rfl rfl ?_
  have hmarked : List.Forall₂ (C.like s₂ s₂').Position
      ((params.zip slots).map fun e => markDependent (s₂.freeVariables plain) e.1.1 e.2)
      ((params'.zip slots').map fun e => markDependent (s₂'.freeVariables plain') e.1.1 e.2) :=
    List.rel_map (fun e e' he => markDependent_position (hC.ordered hs₂) (hC.free hs₂ hplain)
      he.1.var he.2) (rel_zip ((h₁.trans h₂).bindings hC hparams) (h₂.positions hC hslots))
  refine .bind (.intern hC (.functionType hmarked ((h₁.trans h₂).term hC hresult)))
    fun function function' s₃ s₃' h₃ hfunction => .intern hC (.forAll ?_ hfunction)
  exact List.rel_filterMap (fun slot slot' hslot => hslot.binds) (h₃.positions hC hmarked)

/-- A callee is the same native on both sides, if it is one. -/
theorem corresponds_nativeCallee {callee callee' : TermId} (hctx : C.scope s s' ctx ctx')
    (hcallee : (C.like s s').term callee callee') :
    C.Corresponds (fun s s' id id' => id = id' ∧ ∀ i ∈ id, (C.like s s').native i)
      (e.nativeCallee ctx callee) (e'.nativeCallee ctx' callee') s s' := by
  refine .withStores fun hs => .reads rfl rfl ?_
  have hshape := hC.shape hs hcallee
  generalize s.shape callee = shape, s'.shape callee' = shape' at hshape ⊢
  cases hshape with
  | native hid => exact .pure ⟨rfl, fun i hi => by cases hi; exact hid⟩
  | abstraction | forAll => exact .pure ⟨rfl, by simp⟩
  | _ =>
    refine .bind (he.compile hctx hcallee) fun reduct reduct' s₁ s₁' h₁ hreduct => ?_
    refine .withStores fun hs₁ => .reads rfl rfl ?_
    have hshape := hC.shape hs₁ hreduct
    generalize s₁.shape reduct = shape, s₁'.shape reduct' = shape' at hshape ⊢
    cases hshape with
    | native hid => exact .pure ⟨rfl, fun i hi => by cases hi; exact hid⟩
    | _ => exact .pure ⟨rfl, by simp⟩

theorem corresponds_refinedType {callee callee' : TermId} {args args' : List TermId}
    (hctx : C.scope s s' ctx ctx') (hcallee : (C.like s s').term callee callee')
    (hargs : List.Forall₂ (C.like s s').term args args') :
    C.Corresponds (fun s s' => Option.Rel (C.like s s').term) (e.refinedType ctx callee args)
      (e'.refinedType ctx' callee' args') s s' := by
  refine .bind (corresponds_nativeCallee hC he hctx hcallee) fun id id' s₁ s₁' h₁ hid => ?_
  obtain ⟨rfl, hid⟩ := hid
  cases id with
  | none => exact .pure .none
  | some id =>
    refine .withStores fun hs₁ => .reads rfl rfl ?_
    have hnative := hC.native hs₁ (hid id rfl)
    generalize s₁.native? id = registered, s₁'.native? id = registered' at hnative ⊢
    cases hnative with
    | none => exact .pure .none
    | @some registered registered' h =>
      have hhook := h.1.resultType
      simp only [Option.bind_some]
      generalize registered.native.resultType = hook,
        registered'.native.resultType = hook' at hhook ⊢
      cases hhook with
      | none => exact .pure .none
      | some hscript =>
        exact corresponds_run hC he (hscript (.refl hs₁) (h₁.terms hC hargs)) (h₁.scope hC hctx)

theorem corresponds_inferApplication {callee callee' : TermId} {args args' : List TermId}
    (hctx : C.scope s s' ctx ctx') (hcallee : (C.like s s').term callee callee')
    (hargs : List.Forall₂ (C.like s s').term args args') :
    C.Corresponds C.Terms (e.inferApplication ctx callee args)
      (e'.inferApplication ctx' callee' args') s s' := by
  refine .bind (corresponds_resolve hC he hctx hcallee hargs) fun r r' s₁ s₁' h₁ hr => ?_
  rw [hr.isSaturated_eq]
  split
  · refine .bind (corresponds_refinedType hC he (h₁.scope hC hctx) (h₁.term hC hcallee)
      (h₁.terms hC hargs)) fun refined refined' s₂ s₂' h₂ hrefined => .pure ?_
    cases hrefined with
    | none => exact h₂.term hC hr.result
    | some hty => exact hty
  · refine .bind (.intern hC (.functionType hr.remaining hr.result))
      fun ty ty' s₂ s₂' h₂ hty => .quantify hC (h₂.vars hC hr.undetermined) hty

theorem corresponds_inferShape {t t' : TermId} (hctx : C.scope s s' ctx ctx')
    (ht : (C.like s s').term t t') :
    C.Corresponds C.Terms (e.inferShape ctx t) (e'.inferShape ctx' t') s s' := by
  refine .withStores fun hs => .reads rfl rfl ?_
  have hshape := hC.shape hs ht
  have htype := hC.common hs 0 (by decide)
  generalize s.shape t = shape, s'.shape t' = shape' at hshape ⊢
  cases hshape with
  | @«variable» v v' hv =>
    have hget := hC.get? hs hctx hv
    dsimp only
    generalize ctx.get? v = value, ctx'.get? v' = value' at hget ⊢
    cases hget with
    | none => exact .reads rfl rfl (.throws (.unboundVariable (hC.name hs hv)))
    | some hvalue => exact he.infer hctx hvalue
  | abstraction hlets hparams hbody =>
    refine .bind (corresponds_bindCompiled hC he (hC.child hctx) hlets)
      fun inner inner' s₁ s₁' h₁ hinner => ?_
    refine .bind (corresponds_bindParams hC he hinner (h₁.bindings hC hparams))
      fun r r' s₂ s₂' h₂ hr => ?_
    refine .bind (he.infer hr.1 (by grind)) fun bodyType bodyType' s₃ s₃' h₃ hbodyType => ?_
    rw [rel_isEmpty hr.2]
    split
    · exact .pure hbodyType
    · exact corresponds_functionTypeOf hC (h₃.bindings hC hr.2) hbodyType
  | forAll hvars hbody =>
    refine .bind (.bindQuantified hC (hC.child hctx) hvars) fun inner inner' s₁ s₁' h₁ hinner => ?_
    refine .bind (he.infer hinner (h₁.term hC hbody)) fun ty ty' s₂ s₂' h₂ hty => ?_
    exact .quantify hC ((h₁.trans h₂).vars hC hvars) hty
  | application hcallee hargs => exact corresponds_inferApplication hC he hctx hcallee hargs
  | projection field hdomain =>
    exact .bind (he.infer hctx hdomain) fun ty ty' s₁ s₁' h₁ hty => corresponds_memberType hC hty
  | cast hsubject htarget => exact he.compile hctx htarget
  | stringLiteral value => exact .intern hC (.stringLiteralType value)
  | numericLiteral value => exact .intern hC (.numericLiteralType value)
  | unitValue hty => exact he.compile hctx hty
  | productValue hty _ => exact he.compile hctx hty
  | deferred _ hty => exact he.compile hctx hty
  | native hid => exact .reads rfl rfl (.pure (hC.signature hs hid))
  | _ => exact .pure htype

/-- One level of inference, if what it remembers may be remembered. -/
theorem corresponds_inferStep {t t' : TermId} (hctx : C.scope s s' ctx ctx')
    (ht : (C.like s s').term t t')
    (hstored : ∀ {s₁ s₁' s₂ s₂' r r' answer answer'}, C.Leads s s' s₁ s₁' → C.Leads s₁ s₁' s₂ s₂' →
      (e.inferShape ctx t).run s₁ = (answer, s₂) →
      (e'.inferShape ctx' t').run s₁' = (answer', s₂') →
      (C.like s₂ s₂').Restricted r r' → C.Result (C.like s₂ s₂').term answer answer' →
      C.stores { s₂ with types := s₂.types.insert t r answer }
        { s₂' with types := s₂'.types.insert t' r' answer' }) :
    C.Corresponds C.Terms (e.inferStep ctx t) (e'.inferStep ctx' t') s s' := by
  refine .bind (.restrict hC hctx ht fun h₁ hu => he.infer (h₁.scope hC hctx) hu)
    fun r r' s₁ s₁' h₁ hr => ?_
  refine .remembered hC (h₁.term hC ht) hr (fun h₂ hrun hrun' hanswer => ?_)
    (corresponds_inferShape hC he (h₁.scope hC hctx) (h₁.term hC ht))
  exact hstored h₁ h₂ hrun hrun' ((hC.mono h₂).restricted hr) hanswer

end Rules

end Correspondence

end StagedCalculus
