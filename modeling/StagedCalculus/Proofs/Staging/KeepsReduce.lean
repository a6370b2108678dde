import Mathlib.Data.List.Find
import StagedCalculus.Proofs.Staging.KeepsInfer
import StagedCalculus.Staging.Reduce

/-!
# What reduction keeps

This module follows the rules of reduction over two engines whose own calls stay in step.

- The rules that go down a term are quiet where the subterms that they reduce make no call.
- The rules of calls are quiet in compilation only: `Engine.keeps_callNative` runs a native on
  arguments that pass as values, and evaluation may come to an effect.
- `Engine.keeps_reduceStep` puts them together: one level of reduction is quiet where the reduced
  term makes no call of its own. The term is no hidden variable, and its reduct is clear.
-/

namespace StagedCalculus.Engine

open Attempt

variable {hidden : List VarId} {e e' : Engine} {quiet : Store → Prop} {s : Store}
  {ctx ctx' : Context} {mode : Mode}

/-! ## Residual bindings -/

theorem keeps_inlinable {t : TermId} :
    Keeps quiet hidden (Same fun _ _ => True) (inlinable t) (inlinable t) s := by
  refine .reads rfl ?_
  split
  · exact .done trivial
  · exact .gives rfl trivial

theorem keeps_wrapResidual {residual : List (VarId × TermId)} {value : TermId}
    (hresidual : ∀ b ∈ residual, b.1 ∉ hidden ∧ s.Clear hidden b.2)
    (hvalue : s.Clear hidden value) :
    Keeps quiet hidden (SameClear hidden) (wrapResidual residual value)
      (wrapResidual residual value) s := by
  unfold wrapResidual
  split
  · exact .done hvalue
  · refine Keeps.intern (fun v hv => ?_) fun child hchild => ?_
    · simp only [Shape.ownVars, Shape.leaf, Shape.binders, List.nil_append, List.map_nil,
        List.append_nil, List.mem_map] at hv
      obtain ⟨b, hb, rfl⟩ := hv
      exact (hresidual b hb).1
    · simp only [Shape.children, List.map_nil, List.append_nil, List.mem_append, List.mem_map,
        List.mem_singleton] at hchild
      rcases hchild with ⟨b, hb, rfl⟩ | rfl
      · exact (hresidual b hb).2
      · exact hvalue

/-- The free variables of a clear function are bound alike, so both sides miss the same ones. -/
theorem keeps_ensureAvailable {function : TermId} (hctx : ctx.Alike hidden s ctx')
    (hfunction : s.Clear hidden function) :
    Keeps quiet hidden (Same fun _ _ => True) (ensureAvailable ctx function)
      (ensureAvailable ctx' function) s := by
  refine .withSound fun hs => .reads rfl ?_
  have hmissing : ((s.freeVariables function).vars.find? fun v =>
        (ctx'.get? v).any fun value => (s.shape value).isDeferred) =
      (s.freeVariables function).vars.find? fun v =>
        (ctx.get? v).any fun value => (s.shape value).isDeferred := by
    refine List.find?_congr fun v hv => ?_
    rw [hctx.same v (hfunction.not_free hs.toLinked hv)]
  dsimp only
  rw [hmissing]
  split
  · exact .reads rfl (.fails rfl rfl)
  · exact .done trivial

section Rules

variable (he : InStep hidden e e') (hquiet : ∀ final, quiet final → final.Honest)

include he hquiet

theorem keeps_reduceClear {t : TermId} (hctx : ctx.Alike hidden s ctx') (ht : s.Clear hidden t)
    (hcalm : ∀ final, quiet final → final.Calm mode t) :
    Keeps quiet hidden (SameClear hidden) (e.reduce mode ctx t) (e'.reduce mode ctx' t) s :=
  .withSound fun hs => keeps_reduce he hquiet hctx (ht.plain hs.toLinked) hcalm

theorem keeps_bindLets {lets : List (VarId × TermId)} (hctx : ctx.Paired hidden s ctx')
    (hlets : ∀ b ∈ lets, b.1 ∉ hidden ∧ s.Plain hidden b.2)
    (hcalm : ∀ final, quiet final → ∀ b ∈ lets, final.Calm mode b.2) :
    Keeps quiet hidden
      (fun r r' s' => r.1.Paired hidden s' r'.1 ∧ r'.2 = r.2 ∧
        ∀ b ∈ r.2, b.1 ∉ hidden ∧ s'.Clear hidden b.2)
      (e.bindLets mode ctx lets) (e'.bindLets mode ctx' lets) s := by
  induction lets generalizing s ctx ctx' with
  | nil => exact .pure ⟨hctx, rfl, by simp⟩
  | cons b rest ih =>
    obtain ⟨hv, hb⟩ := hlets b (by simp)
    have hcalmRest : ∀ final, quiet final → ∀ b ∈ rest, final.Calm mode b.2 :=
      fun final hq q hmem => hcalm final hq q (by simp [hmem])
    have hrest : ∀ s', s.GrowsTo s' → ∀ q ∈ rest, q.1 ∉ hidden ∧ s'.Plain hidden q.2 := by
      intro s' h' q hq
      obtain ⟨hv', hq'⟩ := hlets q (by simp [hq])
      exact ⟨hv', h'.plain hq'⟩
    refine .bindSame (keeps_reduce he hquiet hctx.toAlike hb fun final hq =>
      hcalm final hq b (by simp)) fun value s₁ h₁ hvalue => ?_
    refine .bindSame keeps_inlinable fun canInline s₂ h₂ _ => ?_
    have hvalue₂ : s₂.Clear hidden value := h₂.clear hvalue
    split
    · refine .bind (Keeps.bindContext (by grind) hvalue₂ hv) fun ctx ctx' s₃ h₃ hctx₃ => ?_
      exact ih hctx₃ (hrest s₃ (by grind)) hcalmRest
    · refine .bindSame (keeps_inferClear he hquiet (hctx.mono (h₁.trans h₂)).toAlike hvalue₂)
        fun ty s₃ h₃ hty => ?_
      refine .bindSame (Keeps.build rfl (by simpa [Shape.children] using hty))
        fun placeholder s₄ h₄ hplaceholder => ?_
      refine .bind (Keeps.bindContext (by grind) hplaceholder hv)
        fun ctx ctx' s₅ h₅ hctx₅ => ?_
      refine .bind (ih hctx₅ (hrest s₅ (by grind)) hcalmRest) fun r r' s₆ h₆ hr => ?_
      obtain ⟨ctx, residual⟩ := r
      obtain ⟨ctx', residual'⟩ := r'
      obtain ⟨hctx₆, hsame, hresidual⟩ := hr
      dsimp only at hctx₆ hsame hresidual ⊢
      subst hsame
      refine .pure ⟨hctx₆, rfl, fun q hq => ?_⟩
      rcases List.mem_cons.1 hq with rfl | hq
      · exact ⟨hv, by grind⟩
      · exact hresidual q hq

/-! ## Components -/

theorem keeps_reduceNamed {named : List (String × TermId)} (hctx : ctx.Alike hidden s ctx')
    (hnamed : ∀ n ∈ named, s.Plain hidden n.2)
    (hcalm : ∀ final, quiet final → ∀ n ∈ named, final.Calm mode n.2) :
    Keeps quiet hidden (Same fun r s' => ∀ n ∈ r, s'.Clear hidden n.2)
      (e.reduceNamed mode ctx named) (e'.reduceNamed mode ctx' named) s := by
  induction named generalizing s with
  | nil => exact .done (by simp)
  | cons n rest ih =>
    refine .bindSame (keeps_reduce he hquiet hctx (hnamed n (by simp)) fun final hq =>
      hcalm final hq n (by simp)) fun t s₁ h₁ ht => ?_
    refine .bindSame (ih (hctx.mono h₁) (fun q hq => h₁.plain (hnamed q (by simp [hq])))
      fun final hq q hmem => hcalm final hq q (by simp [hmem])) fun rest s₂ h₂ hrest => ?_
    refine .done fun q hq => ?_
    rcases List.mem_cons.1 hq with rfl | hq
    · exact h₂.clear ht
    · exact hrest q hq

theorem keeps_reduceSlots {slots : List (Slot TermId)} (hctx : ctx.Alike hidden s ctx')
    (hslots : ∀ slot ∈ slots, s.Clear hidden slot.ty ∧ ∀ v ∈ slot.binds, v ∉ hidden)
    (hcalm : ∀ final, quiet final → ∀ slot ∈ slots, final.Calm mode slot.ty) :
    Keeps quiet hidden
      (Same fun r s' => ∀ slot ∈ r, s'.Clear hidden slot.ty ∧ ∀ v ∈ slot.binds, v ∉ hidden)
      (e.reduceSlots mode ctx slots) (e'.reduceSlots mode ctx' slots) s := by
  induction slots generalizing s with
  | nil => exact .done (by simp)
  | cons slot rest ih =>
    obtain ⟨hslot, hbinds⟩ := hslots slot (by simp)
    refine .bindSame (keeps_reduceClear he hquiet hctx hslot fun final hq =>
      hcalm final hq slot (by simp)) fun t s₁ h₁ ht => ?_
    refine .bindSame (ih (hctx.mono h₁) (fun q hq => ?_) fun final hq q hmem =>
      hcalm final hq q (by simp [hmem])) fun rest s₂ h₂ hrest => ?_
    · obtain ⟨hq', hbinds'⟩ := hslots q (by simp [hq])
      exact ⟨h₁.clear hq', hbinds'⟩
    · refine .done fun q hq => ?_
      rcases List.mem_cons.1 hq with rfl | hq
      · exact ⟨h₂.clear ht, hbinds⟩
      · exact hrest q hq

end Rules

/-! ## Calls -/

theorem keeps_openQuantifiers {r : Resolution} {bound : Nat} {callee : TermId}
    (hr : r.Clear hidden s) (hctx : ctx.Alike hidden s ctx') (hcallee : s.Clear hidden callee) :
    Keeps quiet hidden
      (fun p p' s' => p.1.Alike hidden s' p'.1 ∧ p'.2 = p.2 ∧ s'.Clear hidden p.2)
      (openQuantifiers r bound ctx callee) (openQuantifiers r bound ctx' callee) s := by
  induction bound generalizing s ctx ctx' callee with
  | zero => exact .pure ⟨hctx, rfl, hcallee⟩
  | succ bound ih =>
    refine .withSound fun hs => .reads rfl ?_
    split
    · rename_i vars body hshape
      have hbody : s.Clear hidden body :=
        hcallee.child hs.toLinked (by simp [hshape, Shape.children])
      refine .bind (Keeps.bindAll hctx.child fun b hb => ?_) fun inner inner' s₁ h₁ hinner => ?_
      · obtain ⟨v, hv, rfl⟩ := List.mem_map.1 hb
        refine ⟨hcallee.not_mem hs.toLinked ?_, hr.clear_valueOf hs v⟩
        simpa [hshape, Shape.ownVars, Shape.leaf, Shape.binders] using hv
      · exact ih (hr.mono h₁) hinner.toAlike (h₁.clear hbody)
    · exact .pure ⟨hctx, rfl, hcallee⟩

section Calls

variable (he : InStep hidden e e')
  (hcalls : ∀ final, quiet final → final.Honest ∧ mode = .compile)

include he hcalls

/-- In compilation no reduction makes a call of its own. -/
theorem keeps_reduceCall {t : TermId} (hctx : ctx.Alike hidden s ctx') (ht : s.Plain hidden t) :
    Keeps quiet hidden (SameClear hidden) (e.reduce mode ctx t) (e'.reduce mode ctx' t) s :=
  keeps_reduce he (fun final hq => (hcalls final hq).1) hctx ht fun final hq =>
    Or.inl (hcalls final hq).2

theorem keeps_bindArgs {outer outer' : Context} {args : List (VarId × TermId)}
    (houter : outer.Alike hidden s outer') (hctx : ctx.Paired hidden s ctx')
    (hargs : ∀ b ∈ args, b.1 ∉ hidden ∧ s.Clear hidden b.2) :
    Keeps quiet hidden
      (fun r r' s' => r.1.Paired hidden s' r'.1 ∧ r'.2 = r.2 ∧
        ∀ b ∈ r.2, b.1 ∉ hidden ∧ s'.Clear hidden b.2)
      (e.bindArgs mode outer ctx args) (e'.bindArgs mode outer' ctx' args) s := by
  induction args generalizing s ctx ctx' with
  | nil => exact .pure ⟨hctx, rfl, by simp⟩
  | cons b rest ih =>
    obtain ⟨hv, harg⟩ := hargs b (by simp)
    have hrest : ∀ s', s.GrowsTo s' → ∀ q ∈ rest, q.1 ∉ hidden ∧ s'.Clear hidden q.2 := by
      intro s' h' q hq
      obtain ⟨hv', hq'⟩ := hargs q (by simp [hq])
      exact ⟨hv', h'.clear hq'⟩
    refine .bindSame keeps_inlinable fun canInline s₁ h₁ _ => ?_
    split
    · refine .bind (Keeps.bindContext (hctx.mono h₁) (h₁.clear harg) hv)
        fun ctx ctx' s₂ h₂ hctx₂ => ?_
      exact ih (by grind) hctx₂ (hrest s₂ (h₁.trans h₂))
    · refine .reads rfl (.reads rfl ?_)
      refine .bindSame (Keeps.freshVariable _ _) fun fresh s₂ h₂ hfresh => ?_
      refine .bindSame (Keeps.variableTerm hfresh) fun freshTerm s₃ h₃ hfreshTerm => ?_
      refine .bindSame (keeps_inferClear he (fun final hq => (hcalls final hq).1) (by grind)
        (by grind)) fun ty s₄ h₄ hty => ?_
      refine .bindSame (Keeps.build rfl (by simpa [Shape.children] using hty))
        fun placeholder s₅ h₅ hplaceholder => ?_
      refine .bind (Keeps.bindContext (by grind) hplaceholder hfresh)
        fun ctx ctx' s₆ h₆ hctx₆ => ?_
      refine .bind (Keeps.bindContext hctx₆ (by grind) hv) fun ctx ctx' s₇ h₇ hctx₇ => ?_
      refine .bind (ih (by grind) hctx₇ (hrest s₇ (by grind))) fun r r' s₈ h₈ hr => ?_
      obtain ⟨ctx, residual⟩ := r
      obtain ⟨ctx', residual'⟩ := r'
      obtain ⟨hctx₈, hsame, hresidual⟩ := hr
      dsimp only at hctx₈ hsame hresidual ⊢
      subst hsame
      refine .pure ⟨hctx₈, rfl, fun q hq => ?_⟩
      rcases List.mem_cons.1 hq with rfl | hq
      · exact ⟨hfresh, by grind⟩
      · exact hresidual q hq

omit he hcalls in
theorem keeps_apply {callee : TermId} {args : List TermId} (hcallee : s.Clear hidden callee)
    (hargs : ∀ arg ∈ args, s.Clear hidden arg) :
    Keeps quiet hidden (SameClear hidden) (Build.apply callee args : Attempt _)
      (Build.apply callee args : Attempt _) s := by
  refine Keeps.build rfl fun child hchild => ?_
  rcases List.mem_cons.1 hchild with rfl | hchild
  · exact hcallee
  · exact hargs child hchild

/-- Compilation runs a native only if it is pure and its arguments are values. Later stores see the
same arguments, so what a discreet native builds of them holds no call. -/
theorem keeps_callNative {callee : TermId} {registered : RegisteredNative} {id : NativeId}
    {args : List TermId} (hctx : ctx.Alike hidden s ctx') (hcallee : s.Clear hidden callee)
    (hnative : s.native? id = some registered) (hargs : ∀ arg ∈ args, s.Clear hidden arg) :
    Keeps quiet hidden (SameClear hidden) (e.callNative mode ctx callee registered.native args)
      (e'.callNative mode ctx' callee registered.native args) s := by
  refine .withSound fun hs => .reads rfl ?_
  split
  · exact keeps_apply hcallee hargs
  · rename_i hrun
    obtain ⟨captured, hcaptured, hcareful⟩ := hs.careful id registered hnative
    have hscript : (registered.native.call args).Careful hidden (fun t => [t]) []
        (args ++ captured) := by
      rcases hcareful with ⟨rfl, hconfined⟩ | hcareful
      · exact (hconfined.call args).careful (List.Subset.refl _)
      · exact hcareful.call args
    have hknown : ∀ t ∈ args ++ captured, s.Clear hidden t := by
      intro t ht
      rcases List.mem_append.1 ht with ht | ht
      · exact hargs t ht
      · exact hcaptured t ht
    have hcall : Keeps (fun final => s.Extends final ∧ quiet final) hidden
        (Same fun t s' => ∀ u ∈ [t], s'.Clear hidden u) (e.run ctx (registered.native.call args))
        (e'.run ctx' (registered.native.call args)) s :=
      keeps_run args [] he hctx hscript nofun hknown fun final hq => ?_
    · exact (hcall.quieter fun final hle _ hq => ⟨hle, hq⟩).impSame fun t s₁ _ ht => ht t (by simp)
    · obtain ⟨hhonest, hmode⟩ := hcalls final hq.2
      simp only [hmode, decide_true, Bool.true_and, Bool.not_eq_true', Bool.not_eq_false,
        Bool.and_eq_true, List.all_eq_true] at hrun
      have hdiscreet := hhonest.natives id registered (hq.1.native?_eq hnative)
      refine ⟨hhonest, hdiscreet.call hrun.1 args, fun arg harg => ?_, by simp⟩
      rw [hq.1.isValue_eq (hargs arg harg).allocated]
      exact hrun.2 arg harg

theorem keeps_callAbstraction {lets params : List (VarId × TermId)} {body : TermId}
    {args : List TermId} (hctx : ctx.Alike hidden s ctx')
    (hlets : ∀ b ∈ lets, b.1 ∉ hidden ∧ s.Plain hidden b.2) (hparams : ∀ p ∈ params, p.1 ∉ hidden)
    (hbody : s.Plain hidden body) (hargs : ∀ arg ∈ args, s.Clear hidden arg) :
    Keeps quiet hidden (SameClear hidden) (e.callAbstraction mode ctx lets params body args)
      (e'.callAbstraction mode ctx' lets params body args) s := by
  have hquiet : ∀ final, quiet final → final.Honest := fun final hq => (hcalls final hq).1
  unfold callAbstraction
  dsimp only
  split
  · exact .fails rfl rfl
  refine .bind (keeps_bindLets he hquiet hctx.child hlets fun final hq b _ =>
    Or.inl (hcalls final hq).2) fun r r' s₁ h₁ hr => ?_
  obtain ⟨inner, residual⟩ := r
  obtain ⟨inner', residual'⟩ := r'
  obtain ⟨hinner, hsame, hresidual⟩ := hr
  dsimp only at hinner hsame hresidual ⊢
  subst hsame
  refine .bind (keeps_bindArgs he hcalls (hctx.mono h₁) hinner fun b hb => ?_)
    fun r r' s₂ h₂ hr => ?_
  · have hmem := List.of_mem_zip hb
    obtain ⟨p, hp, heq⟩ := List.mem_map.1 hmem.1
    exact ⟨heq ▸ hparams p hp, h₁.clear (hargs b.2 hmem.2)⟩
  obtain ⟨inner, kept⟩ := r
  obtain ⟨inner', kept'⟩ := r'
  obtain ⟨hinner₂, hsame, hkept⟩ := hr
  dsimp only at hinner₂ hsame hkept ⊢
  subst hsame
  refine .bindSame (keeps_reduceCall he hcalls hinner₂.toAlike (by grind))
    fun value s₃ h₃ hvalue => ?_
  refine keeps_wrapResidual (fun b hb => ?_) hvalue
  rcases List.mem_append.1 hb with hb | hb
  · exact ⟨(hresidual b hb).1, (h₂.trans h₃).clear (hresidual b hb).2⟩
  · exact ⟨(hkept b hb).1, h₃.clear (hkept b hb).2⟩

omit he hcalls in
theorem keeps_callOther {callee : TermId} {args : List TermId} (hcallee : s.Clear hidden callee)
    (hargs : ∀ arg ∈ args, s.Clear hidden arg) :
    Keeps quiet hidden (SameClear hidden) (callOther mode callee args)
      (callOther mode callee args) s := by
  refine .reads rfl ?_
  split
  · exact keeps_apply hcallee hargs
  · exact .reads rfl (.fails rfl rfl)

theorem keeps_call {r : Resolution} {callee : TermId} {args : List TermId} (hr : r.Clear hidden s)
    (hctx : ctx.Alike hidden s ctx') (hcallee : s.Clear hidden callee)
    (hargs : ∀ arg ∈ args, s.Clear hidden arg) :
    Keeps quiet hidden (SameClear hidden) (e.call mode ctx r callee args)
      (e'.call mode ctx' r callee args) s := by
  refine .bind (keeps_openQuantifiers hr hctx hcallee) fun p p' s₁ h₁ hp => ?_
  obtain ⟨ctx, callee⟩ := p
  obtain ⟨ctx', callee'⟩ := p'
  obtain ⟨hctx₁, hsame, hcallee₁⟩ := hp
  dsimp only at hctx₁ hsame hcallee₁ ⊢
  subst hsame
  have hargs₁ : ∀ arg ∈ args, s₁.Clear hidden arg := fun arg harg => h₁.clear (hargs arg harg)
  refine .withSound fun hs₁ => .reads rfl ?_
  have hplain := hcallee₁.plain hs₁.toLinked
  split
  · rename_i id _
    refine .reads rfl ?_
    split
    · rename_i registered hnative
      exact keeps_callNative he hcalls hctx₁ hcallee₁ hnative hargs₁
    · exact keeps_callOther hcallee₁ hargs₁
  · exact keeps_callOther hcallee₁ hargs₁
  · rename_i lets params body _ hshape
    have hbinders : ∀ v ∈ (s₁.shape callee').binders, v ∉ hidden := fun v hv =>
      hplain.binder hs₁.toLinked hv
    have hvalues : ∀ part ∈ (s₁.shape callee').valueParts, s₁.Plain hidden part :=
      fun part hpart => hplain.valuePart hs₁.toLinked hpart
    rw [hshape] at hbinders hvalues
    refine keeps_callAbstraction he hcalls hctx₁ (fun b hb => ⟨?_, ?_⟩) (fun p hp => ?_) ?_ hargs₁
    · exact hbinders b.1 (by simp [Shape.binders]; grind)
    · exact hvalues b.2 (by simp [Shape.valueParts]; grind)
    · exact hbinders p.1 (by simp [Shape.binders]; grind)
    · exact hvalues body (by simp [Shape.valueParts])
  · exact keeps_callOther hcallee₁ hargs₁

/-! ## Partial application -/

theorem keeps_freshParams {undetermined : List VarId} {slots : List (Slot TermId)}
    (hctx : ctx.Paired hidden s ctx')
    (hslots : ∀ slot ∈ slots, s.Clear hidden slot.ty ∧ ∀ v ∈ slot.binds, v ∉ hidden) :
    Keeps quiet hidden (Same fun params s' => ∀ p ∈ params, p.1 ∉ hidden ∧ s'.Clear hidden p.2)
      (e.freshParams undetermined ctx slots) (e'.freshParams undetermined ctx' slots) s := by
  have hquiet : ∀ final, quiet final → final.Honest := fun final hq => (hcalls final hq).1
  induction slots generalizing s ctx ctx' with
  | nil => exact .done (by simp)
  | cons slot rest ih =>
    obtain ⟨hslot, hbinds⟩ := hslots slot (by simp)
    refine .bindSame (keeps_compileClear he hquiet hctx.toAlike hslot) fun ty s₁ h₁ hty => ?_
    refine .bindSame (Keeps.freshVariable _ _) fun v s₂ h₂ hv => ?_
    refine .bindSame (Keeps.variableTerm hv) fun vTerm s₃ h₃ hvTerm => ?_
    have hrest : ∀ (inner inner' : Context) s', s₃.GrowsTo s' → inner.Paired hidden s' inner' →
        Keeps quiet hidden (Same fun params s' => ∀ p ∈ params, p.1 ∉ hidden ∧ s'.Clear hidden p.2)
          (do return (v, ty) :: (← e.freshParams undetermined inner rest))
          (do return (v, ty) :: (← e'.freshParams undetermined inner' rest)) s' := by
      intro inner inner' s' h' hinner
      refine .bindSame (ih hinner fun q hq => ?_) fun params s₄ h₄ hparams => .done fun p hp => ?_
      · obtain ⟨hq', hbinds'⟩ := hslots q (by simp [hq])
        exact ⟨by grind, hbinds'⟩
      · rcases List.mem_cons.1 hp with rfl | hp
        · exact ⟨hv, by grind⟩
        · exact hparams p hp
    split
    · rename_i supplied hsupplied
      have hshown : supplied ∉ hidden := hbinds supplied (Option.filter_eq_some_iff.1 hsupplied).1
      refine .bindSame (Keeps.build rfl (by simp [Shape.children]; grind))
        fun placeholder s₄ h₄ hplaceholder => ?_
      refine .bind (Keeps.bindContext (by grind) hplaceholder hv)
        fun inner inner' s₅ h₅ hinner₅ => ?_
      refine .bind (Keeps.bindContext hinner₅ (by grind) hshown)
        fun inner inner' s₆ h₆ hinner₆ => ?_
      exact hrest inner inner' s₆ (by grind) hinner₆
    · exact .bind (.pure (by grind)) hrest

theorem keeps_curry {r : Resolution} {callee : TermId} {args : List TermId} (hr : r.Clear hidden s)
    (hctx : ctx.Alike hidden s ctx') (hcallee : s.Clear hidden callee)
    (hargs : ∀ arg ∈ args, s.Clear hidden arg) :
    Keeps quiet hidden (SameClear hidden) (e.curry mode ctx r callee args)
      (e'.curry mode ctx' r callee args) s := by
  have hkept : ∀ v ∈ r.undetermined.filter (· ∉ r.remaining.filterMap (·.binds)), v ∉ hidden :=
    fun v hv => hr.undetermined v (List.mem_filter.1 hv).1
  refine .bind (Keeps.bindQuantified hctx.child hkept) fun renamed renamed' s₁ h₁ hrenamed => ?_
  refine .bindSame (keeps_freshParams he hcalls hrenamed (hr.mono h₁).remaining)
    fun params s₂ h₂ hparams => ?_
  refine .bindSame (Keeps.variableTerms fun v hv => ?_) fun own s₃ h₃ hown => ?_
  · obtain ⟨p, hp, rfl⟩ := List.mem_map.1 hv
    exact (hparams p hp).1
  refine .bindSame (keeps_apply (by grind) fun arg harg => ?_) fun body s₄ h₄ hbody => ?_
  · rcases List.mem_append.1 harg with harg | harg
    · exact (h₁.trans (h₂.trans h₃)).clear (hargs arg harg)
    · exact hown arg harg
  refine .bindSame (Keeps.intern (fun v hv => ?_) fun child hchild => ?_)
    fun function s₅ h₅ hfunction => ?_
  · simp only [Shape.ownVars, Shape.leaf, Shape.binders, List.map_nil, List.nil_append,
      List.mem_map] at hv
    obtain ⟨p, hp, rfl⟩ := hv
    exact (hparams p hp).1
  · simp only [Shape.children, List.map_nil, List.nil_append, List.mem_append, List.mem_map,
      List.mem_singleton] at hchild
    rcases hchild with ⟨p, hp, rfl⟩ | rfl
    · exact (h₃.trans h₄).clear (hparams p hp).2
    · exact hbody
  refine .bindSame (Keeps.quantify hr.undetermined hfunction) fun quantified s₆ h₆ hquantified => ?_
  exact .withSound fun hs₆ => keeps_reduceCall he hcalls (by grind) (hquantified.plain hs₆.toLinked)

theorem keeps_reduceArgs {args : List (TermId × TermId)} (hctx : ctx.Alike hidden s ctx')
    (hargs : ∀ p ∈ args, s.Plain hidden p.1 ∧ s.Clear hidden p.2) :
    Keeps quiet hidden (Same fun values s' => ∀ t ∈ values, s'.Clear hidden t)
      (e.reduceArgs mode ctx args) (e'.reduceArgs mode ctx' args) s := by
  have hquiet : ∀ final, quiet final → final.Honest := fun final hq => (hcalls final hq).1
  induction args generalizing s with
  | nil => exact .done (by simp)
  | cons p rest ih =>
    obtain ⟨harg, hty⟩ := hargs p (by simp)
    refine .bindSame (keeps_reduceCall he hcalls hctx harg) fun value s₁ h₁ hvalue => ?_
    refine .bindSame (keeps_inferClear he hquiet (hctx.mono h₁) hvalue)
      fun valueType s₂ h₂ hvalueType => ?_
    have hrest : ∀ value s', s₂.GrowsTo s' → s'.Clear hidden value →
        Keeps quiet hidden (Same fun values s' => ∀ t ∈ values, s'.Clear hidden t)
          (do return value :: (← e.reduceArgs mode ctx rest))
          (do return value :: (← e'.reduceArgs mode ctx' rest)) s' := by
      intro value s' h' hvalue'
      refine .bindSame (ih (by grind) fun q hq => ?_) fun values s₃ h₃ hvalues =>
        .done fun t ht => ?_
      · obtain ⟨hq', hty'⟩ := hargs q (by simp [hq])
        exact ⟨by grind, by grind⟩
      · rcases List.mem_cons.1 ht with rfl | ht
        · exact h₃.clear hvalue'
        · exact hvalues t ht
    split
    · exact .reads rfl (.withSound fun hs₂ => hrest value s₂ (.refl hs₂.toLinked) (h₂.clear hvalue))
    · refine .bindSame (Keeps.build rfl (by simp [Shape.children]; grind))
        fun cast s₃ h₃ hcast => ?_
      refine .bindSame (.withSound fun hs₃ => keeps_reduceCall he hcalls (by grind)
        (hcast.plain hs₃.toLinked)) fun value s₄ h₄ hvalue₄ => ?_
      exact hrest value s₄ (h₃.trans h₄) hvalue₄

theorem keeps_reduceApplication {callee : TermId} {args : List TermId}
    (hctx : ctx.Alike hidden s ctx') (hcallee : s.Plain hidden callee)
    (hargs : ∀ arg ∈ args, s.Plain hidden arg) :
    Keeps quiet hidden (SameClear hidden) (e.reduceApplication mode ctx callee args)
      (e'.reduceApplication mode ctx' callee args) s := by
  have hquiet : ∀ final, quiet final → final.Honest := fun final hq => (hcalls final hq).1
  refine .bindSame (keeps_resolve he hquiet hctx hcallee hargs) fun r s₁ h₁ hr => ?_
  refine .bindSame (keeps_reduceArgs he hcalls (hctx.mono h₁) fun p hp => ?_)
    fun values s₂ h₂ hvalues => ?_
  · have hmem := List.of_mem_zip hp
    exact ⟨h₁.plain (hargs _ hmem.1), hr.supplied _ hmem.2⟩
  refine .bindSame (keeps_reduceCall he hcalls (by grind) (by grind))
    fun callee s₃ h₃ hcallee₃ => ?_
  have hvalues₃ : ∀ t ∈ values, s₃.Clear hidden t := fun t ht => h₃.clear (hvalues t ht)
  split
  · exact keeps_call he hcalls (hr.mono (h₂.trans h₃)) (by grind) hcallee₃ hvalues₃
  · exact keeps_curry he hcalls (hr.mono (h₂.trans h₃)) (by grind) hcallee₃ hvalues₃

end Calls

/-! ## The rules of reduction -/

section Rules

variable (he : InStep hidden e e') (hquiet : ∀ final, quiet final → final.Honest)

include he hquiet

/-- The value of a variable is another variable at most, which holds no call. -/
theorem keeps_reduceVariable {t : TermId} {v : VarId} (hctx : ctx.Alike hidden s ctx')
    (ht : s.Clear hidden t) (hv : v ∉ hidden)
    (hfinal : ∀ final, quiet final → s.Extends final ∧ final.Closed) :
    Keeps quiet hidden (SameClear hidden) (e.reduceVariable mode ctx t v)
      (e'.reduceVariable mode ctx' t v) s := by
  unfold reduceVariable
  rw [hctx.same v hv]
  split
  · exact .reads rfl (.fails rfl rfl)
  · rename_i value hget
    have hvalue := hctx.clear v value hv hget
    refine .reads rfl ?_
    split
    · cases mode with
      | compile => exact .done ht
      | evaluate => exact .reads rfl (.fails rfl rfl)
    · rename_i other hshape
      split
      · refine keeps_reduceClear he hquiet hctx hvalue fun final hq => Or.inr ?_
        obtain ⟨hle, hclosed⟩ := hfinal final hq
        rw [Store.holdsCall_eq hclosed.toLinked, hle.shape_eq hvalue.allocated, hshape]
        rfl
      · exact .done hvalue
    · exact .done hvalue

theorem keeps_reduceProjection {domain : TermId} {field : String} (hctx : ctx.Alike hidden s ctx')
    (hdomain : s.Plain hidden domain) (hcalm : ∀ final, quiet final → final.Calm mode domain) :
    Keeps quiet hidden (SameClear hidden) (e.reduceProjection mode ctx domain field)
      (e'.reduceProjection mode ctx' domain field) s := by
  refine .bindSame (keeps_reduce he hquiet hctx hdomain hcalm) fun domain s₁ h₁ hdomain => ?_
  refine .withSound fun hs₁ => .reads rfl ?_
  split
  · rename_i ty fields hshape
    split
    · rename_i name value hfind
      have hmem := List.mem_of_find?_eq_some hfind
      refine .done (hdomain.child hs₁.toLinked ?_)
      simpa [hshape, Shape.children] using Or.inr ⟨_, hmem⟩
    · exact .fails rfl rfl
  · refine .reads rfl ?_
    split
    · refine .bindSame (keeps_inferClear he hquiet (hctx.mono h₁) hdomain) fun ty s₂ h₂ hty => ?_
      refine .bindSame (keeps_memberType hty) fun _ s₃ h₃ _ => ?_
      exact Keeps.build rfl (by simp [Shape.children]; grind)
    · exact .reads rfl (.fails rfl rfl)

theorem keeps_reduceCast {subject target : TermId} (hctx : ctx.Alike hidden s ctx')
    (hsubject : s.Plain hidden subject) (htarget : s.Clear hidden target)
    (hcalm : ∀ final, quiet final → final.Calm mode subject ∧ final.Calm mode target) :
    Keeps quiet hidden (SameClear hidden) (e.reduceCast mode ctx subject target)
      (e'.reduceCast mode ctx' subject target) s := by
  refine .bindSame (keeps_reduce he hquiet hctx hsubject fun final hq => (hcalm final hq).1)
    fun subject s₁ h₁ hsubject => ?_
  refine .bindSame (keeps_reduceClear he hquiet (hctx.mono h₁) (h₁.clear htarget) fun final hq =>
    (hcalm final hq).2) fun target s₂ h₂ htarget => ?_
  refine .bindSame (keeps_inferClear he hquiet (by grind) (by grind))
    fun subjectType s₃ h₃ _ => ?_
  split
  · exact .done (by grind)
  · refine .reads rfl ?_
    split
    · exact Keeps.build rfl (by simp [Shape.children]; grind)
    · exact .fails rfl rfl

theorem keeps_reduceForAll {vars : List VarId} {body : TermId} (hctx : ctx.Alike hidden s ctx')
    (hvars : ∀ v ∈ vars, v ∉ hidden) (hbody : s.Plain hidden body) :
    Keeps quiet hidden (SameClear hidden) (e.reduceForAll mode ctx vars body)
      (e'.reduceForAll mode ctx' vars body) s := by
  refine .bind (Keeps.bindQuantified hctx.child hvars) fun inner inner' s₁ h₁ hinner => ?_
  refine .bindSame (keeps_compile he hquiet hinner.toAlike (h₁.plain hbody))
    fun body s₂ h₂ hbody => ?_
  refine .bindSame (Keeps.quantify hvars hbody) fun function s₃ h₃ hfunction => ?_
  dsimp only
  split
  · exact .bindSame (keeps_ensureAvailable (by grind) hfunction) fun _ s₄ h₄ _ =>
      .done (h₄.clear hfunction)
  · exact .done hfunction

theorem keeps_reduceAbstraction {lets params : List (VarId × TermId)} {body : TermId}
    (hctx : ctx.Alike hidden s ctx') (hlets : ∀ b ∈ lets, b.1 ∉ hidden ∧ s.Plain hidden b.2)
    (hparams : ∀ p ∈ params, p.1 ∉ hidden ∧ s.Clear hidden p.2) (hbody : s.Plain hidden body)
    (hcalm : ∀ final, quiet final → ∀ b ∈ lets, final.Calm mode b.2)
    (hcalmBody : params = [] → ∀ final, quiet final → final.Calm mode body) :
    Keeps quiet hidden (SameClear hidden) (e.reduceAbstraction mode ctx lets params body)
      (e'.reduceAbstraction mode ctx' lets params body) s := by
  refine .bind (keeps_bindLets he hquiet hctx.child hlets hcalm) fun r r' s₁ h₁ hr => ?_
  obtain ⟨inner, residual⟩ := r
  obtain ⟨inner', residual'⟩ := r'
  obtain ⟨hinner, hsame, hresidual⟩ := hr
  dsimp only at hinner hsame hresidual ⊢
  subst hsame
  split
  · rename_i hempty
    refine .bindSame (keeps_reduce he hquiet hinner.toAlike (h₁.plain hbody)
      (hcalmBody (List.isEmpty_iff.1 hempty))) fun value s₂ h₂ hvalue => ?_
    exact keeps_wrapResidual (fun b hb => ⟨(hresidual b hb).1, h₂.clear (hresidual b hb).2⟩) hvalue
  · refine .bind (keeps_bindParams he hquiet hinner fun p hp =>
      ⟨(hparams p hp).1, h₁.clear (hparams p hp).2⟩) fun r r' s₂ h₂ hr => ?_
    obtain ⟨inner, params⟩ := r
    obtain ⟨inner', params'⟩ := r'
    obtain ⟨hinner₂, hsame, hparams₂⟩ := hr
    dsimp only at hinner₂ hsame hparams₂ ⊢
    subst hsame
    refine .bindSame (keeps_compile he hquiet hinner₂.toAlike (by grind))
      fun body s₃ h₃ hbody => ?_
    refine .bindSame (Keeps.intern (fun v hv => ?_) fun child hchild => ?_)
      fun function s₄ h₄ hfunction => ?_
    · simp only [Shape.ownVars, Shape.leaf, Shape.binders, List.nil_append, List.mem_append,
        List.mem_map] at hv
      rcases hv with ⟨b, hb, rfl⟩ | ⟨p, hp, rfl⟩
      · exact (hresidual b hb).1
      · exact (hparams₂ p hp).1
    · simp only [Shape.children, List.mem_append, List.mem_map, List.mem_singleton] at hchild
      rcases hchild with (⟨b, hb, rfl⟩ | ⟨p, hp, rfl⟩) | rfl
      · exact (h₂.trans h₃).clear (hresidual b hb).2
      · exact h₃.clear (hparams₂ p hp).2
      · exact hbody
    split
    · have hinner₄ := (hinner₂.mono (h₃.trans h₄)).toAlike
      exact .bindSame (keeps_ensureAvailable hinner₄ hfunction) fun _ s₅ h₅ _ =>
        .done (h₅.clear hfunction)
    · exact .done hfunction

end Rules

/-- Reducing a term makes no call beyond those that evaluating it comes to. The reduct is clear, as
long as the term is no hidden variable itself. -/
theorem keeps_reduceStep (he : InStep hidden e e') {t : TermId} (hctx : ctx.Alike hidden s ctx')
    (ht : s.Plain hidden t) (hleaf : ∀ v ∈ (s.shape t).leaf, v ∉ hidden) :
    Keeps (fun final => final.Honest ∧ final.Calm mode t) hidden (SameClear hidden)
      (e.reduceStep mode ctx t) (e'.reduceStep mode ctx' t) s := by
  refine .withSound fun hs => ?_
  -- Later stores see the same shape, so they tell what holds of its subterms.
  let quiet := fun final : Store =>
    s.Extends final ∧ final.Closed ∧ final.Honest ∧ final.Calm mode t
  suffices h : Keeps quiet hidden (SameClear hidden) (e.reduceStep mode ctx t)
      (e'.reduceStep mode ctx' t) s from
    h.quieter fun final hle hfinal hq => ⟨hle, hfinal, hq⟩
  have hquiet : ∀ final, quiet final → final.Honest := fun final hq => hq.2.2.1
  have hcalm : ∀ final, quiet final → ∀ child ∈ (s.shape t).evaluated, final.Calm mode child := by
    intro final hq child hchild
    rw [← hq.1.shape_eq ht.allocated] at hchild
    exact hq.2.2.2.evaluated hq.2.1.toLinked hchild
  have hcalls : (s.shape t).isCall = true →
      ∀ final, quiet final → final.Honest ∧ mode = .compile := by
    intro hcall final hq
    rw [← hq.1.shape_eq ht.allocated] at hcall
    exact ⟨hquiet final hq, hq.2.2.2.compile_of_isCall hq.2.1.toLinked hcall⟩
  have htypes : ∀ part ∈ (s.shape t).typeParts, s.Clear hidden part := fun part hpart =>
    ht.typePart hs.toLinked hpart
  have hvalues : ∀ part ∈ (s.shape t).valueParts, s.Plain hidden part := fun part hpart =>
    ht.valuePart hs.toLinked hpart
  have hbinders : ∀ v ∈ (s.shape t).binders, v ∉ hidden := fun v hv => ht.binder hs.toLinked hv
  have hclear : (s.shape t).valueParts = [] → s.Clear hidden t := ht.clear hs.toLinked hleaf
  refine .reads rfl ?_
  split
  all_goals
    rename_i hshape
    rw [hshape] at hcalm hcalls htypes hvalues hbinders hclear hleaf
  · rename_i v
    exact keeps_reduceVariable he hquiet hctx (hclear rfl) (hleaf v (by simp [Shape.leaf]))
      fun final hq => ⟨hq.1, hq.2.1⟩
  · cases mode with
    | compile => exact .done (hclear rfl)
    | evaluate => exact .reads rfl (.fails rfl rfl)
  all_goals try exact .done (hclear rfl)
  · rename_i ty
    refine .bindSame (keeps_reduceClear he hquiet hctx (htypes ty (by simp [Shape.typeParts]))
      fun final hq => hcalm final hq ty (by simp [Shape.evaluated])) fun ty s₁ h₁ hty => ?_
    exact Keeps.build rfl (by simpa [Shape.children] using hty)
  · rename_i ty fields
    refine .bindSame (keeps_reduceClear he hquiet hctx (htypes ty (by simp [Shape.typeParts]))
      fun final hq => hcalm final hq ty (by simp [Shape.evaluated])) fun ty s₁ h₁ hty => ?_
    refine .bindSame (keeps_reduceNamed he hquiet (hctx.mono h₁)
      (fun n hn => h₁.plain (hvalues n.2 (List.mem_map_of_mem hn)))
      fun final hq n hn => hcalm final hq n.2 (by simp [Shape.evaluated]; grind))
      fun fields s₂ h₂ hfields => ?_
    exact Keeps.build rfl (by simp [Shape.children]; grind)
  · rename_i params result
    refine .bindSame (keeps_reduceSlots he hquiet hctx (fun slot hslot => ⟨?_, fun v hv => ?_⟩)
      fun final hq slot hslot => hcalm final hq slot.ty (by simp [Shape.evaluated]; grind))
      fun params s₁ h₁ hparams => ?_
    · exact htypes slot.ty (by simp [Shape.typeParts]; grind)
    · exact hbinders v (List.mem_filterMap.2 ⟨slot, hslot, hv⟩)
    refine .bindSame (keeps_reduceClear he hquiet (hctx.mono h₁)
      (h₁.clear (htypes result (by simp [Shape.typeParts])))
      fun final hq => hcalm final hq result (by simp [Shape.evaluated]))
      fun result s₂ h₂ hresult => ?_
    refine Keeps.intern (fun v hv => ?_) (by simp [Shape.children]; grind)
    obtain ⟨slot, hslot, hv⟩ := Shape.mem_ownVars_functionType.1 hv
    exact (hparams slot hslot).2 v hv
  · rename_i members
    refine .bindSame (keeps_reduceNamed he hquiet hctx
      (fun n hn => (htypes n.2 (List.mem_map_of_mem hn)).plain hs.toLinked)
      fun final hq n hn => hcalm final hq n.2 (by simp [Shape.evaluated]; grind))
      fun members s₁ h₁ hmembers => ?_
    exact Keeps.build rfl (by simp [Shape.children]; grind)
  · exact keeps_reduceProjection he hquiet hctx (hvalues _ (by simp [Shape.valueParts]))
      fun final hq => hcalm final hq _ (by simp [Shape.evaluated])
  · exact keeps_reduceCast he hquiet hctx (hvalues _ (by simp [Shape.valueParts]))
      (htypes _ (by simp [Shape.typeParts])) fun final hq =>
        ⟨hcalm final hq _ (by simp [Shape.evaluated]), hcalm final hq _ (by simp [Shape.evaluated])⟩
  · exact keeps_reduceForAll he hquiet hctx (fun v hv => hbinders v hv)
      (hvalues _ (by simp [Shape.valueParts]))
  · rename_i lets params body
    refine keeps_reduceAbstraction he hquiet hctx (fun b hb => ⟨?_, ?_⟩) (fun p hp => ⟨?_, ?_⟩) ?_
      (fun final hq b hb => ?_) fun hempty final hq => ?_
    · exact hbinders b.1 (by simp [Shape.binders]; grind)
    · exact hvalues b.2 (by simp [Shape.valueParts]; grind)
    · exact hbinders p.1 (by simp [Shape.binders]; grind)
    · exact htypes p.2 (List.mem_map_of_mem hp)
    · exact hvalues body (by simp [Shape.valueParts])
    · exact hcalm final hq b.2 (by cases params <;> simp [Shape.evaluated] <;> grind)
    · subst hempty
      exact hcalm final hq body (by simp [Shape.evaluated])
  · exact keeps_reduceApplication he (hcalls rfl) hctx (hvalues _ (by simp [Shape.valueParts]))
      fun arg harg => hvalues arg (by simp [Shape.valueParts, harg])

end StagedCalculus.Engine
