import StagedCalculus.Proofs.Staging.CleanInfer
import StagedCalculus.Staging.Judgment

/-!
# Reduction binds no variable twice

This module goes through the rules of reduction over an engine that is clean
(`Engine.clean_reduceStep`), and climbs the levels (`Engine.clean_ofLevels`). Three frames are
filled from several sources:

* the frame of a call takes the bindings of the callee, its parameters, and the fresh variables that
  keep arguments (`Engine.clean_callAbstraction`);
* the frame of a partial application takes placeholders for open variables, fresh parameters, and
  the variables that are renamed to them (`Engine.clean_freshParams`, `Engine.clean_curry`);
* the frame of a function takes its bindings and parameters (`Engine.clean_reduceAbstraction`).
-/

namespace StagedCalculus

namespace Attempt.Clean

variable {s : Store}

/-- A function, or a block, whose variables are distinct. -/
theorem abstraction {lets params : List (VarId × TermId)} {body : TermId}
    (h : s.Abstracts lets params body) :
    Clean Term (Build.abstraction lets params body) s := by
  refine .binds rfl (fun v hv => ?_) ?_ fun child hchild => ?_
  · have hv : v ∈ lets.map (·.1) ++ params.map (·.1) := hv
    rcases List.mem_append.1 hv with hv | hv <;> obtain ⟨b, hb, rfl⟩ := List.mem_map.1 hv
    · exact (h.lets b hb).1
    · exact (h.params b hb).1
  · refine List.nodup_append.2 ⟨h.letsDistinct, h.paramsDistinct, fun v hv w hw heq => ?_⟩
    obtain ⟨p, hp, rfl⟩ := List.mem_map.1 hw
    exact h.apart p hp (heq ▸ hv)
  · simp only [Shape.children, List.mem_append, List.mem_map, List.mem_singleton] at hchild
    rcases hchild with (⟨b, hb, rfl⟩ | ⟨p, hp, rfl⟩) | rfl
    · exact (h.lets b hb).2
    · exact (h.params p hp).2
    · exact h.body

end Attempt.Clean

namespace Store

variable {s s' s₁ : Store} {bindings : List (VarId × TermId)}

/-- A variable that is new in a later store is none of those of the earlier one. -/
theorem Extends.ne_of_new (hle : s.Extends s') {fresh : VarId} (hfresh : s'.vars.size ≤ fresh.index)
    (w : VarId) (hw : w.index < s.vars.size) : w ≠ fresh := by
  rintro rfl
  exact absurd (hle.lt_vars hw) (Nat.not_lt.2 hfresh)

/-- Bindings of well-bound terms to distinct variables that are new since a store. -/
structure BindsNew (s s' : Store) (bindings : List (VarId × TermId)) : Prop where
  distinct : (bindings.map (·.1)).Nodup
  new : ∀ b ∈ bindings, s.vars.size ≤ b.1.index
  owned : ∀ b ∈ bindings, b.1.index < s'.vars.size ∧ s'.WellBound b.2

namespace BindsNew

theorem nil (s s' : Store) : BindsNew s s' [] := ⟨List.nodup_nil, by simp, by simp⟩

theorem since (h : BindsNew s₁ s' bindings) (hle : s.Extends s₁) : BindsNew s s' bindings :=
  ⟨h.distinct, fun b hb => Nat.le_trans hle.size_vars (h.new b hb), h.owned⟩

/-- A variable that is newer than the first store, before others that are newer than itself. -/
theorem cons (h : BindsNew s₁ s' bindings) (hle : s.Extends s₁) (hle' : s₁.Extends s') {v : VarId}
    {t : TermId} (hnew : s.vars.size ≤ v.index) (hv : v.index < s₁.vars.size)
    (ht : s'.WellBound t) : BindsNew s s' ((v, t) :: bindings) := by
  refine ⟨List.nodup_cons.2 ⟨fun hmem => ?_, h.distinct⟩,
    List.forall_mem_cons.2 ⟨hnew, (h.since hle).new⟩,
    List.forall_mem_cons.2 ⟨⟨hle'.lt_vars hv, ht⟩, h.owned⟩⟩
  obtain ⟨b, hb, heq⟩ := List.mem_map.1 hmem
  have hlater := h.new b hb
  rw [heq] at hlater
  exact absurd hv (Nat.not_lt.2 hlater)

end BindsNew

end Store

namespace Engine

open Attempt

variable {e : Engine} {s : Store} {ctx : Context} {mode : Mode}

/-! ## Residual bindings -/

theorem clean_inlinable (t : TermId) : Attempt.Clean Anything (inlinable t) s := by
  refine .reads rfl ?_
  split
  · exact .pure trivial
  · exact .reads rfl (.pure trivial)

theorem clean_wrapResidual {residual : List (VarId × TermId)} {value : TermId}
    (h : s.Abstracts residual [] value) :
    Attempt.Clean Term (wrapResidual residual value) s := by
  unfold wrapResidual
  split
  · exact .pure h.body
  · exact .abstraction h

theorem clean_ensureAvailable (function : TermId) :
    Attempt.Clean Anything (ensureAvailable ctx function) s := by
  refine .reads rfl ?_
  dsimp only
  split
  · exact .reads rfl (.throws fun _ h => by cases h)
  · exact .pure trivial

/-- Each quantifier is opened in a frame of its own. -/
theorem clean_openQuantifiers {r : Resolution} {callee : TermId} (bound : Nat) (hctx : ctx.Tidy s)
    (hr : r.Tidy s) (hcallee : s.WellBound callee) :
    Attempt.Clean (fun opened s' => opened.1.Tidy s' ∧ s'.WellBound opened.2)
      (openQuantifiers r bound ctx callee) s := by
  induction bound generalizing s ctx callee with
  | zero => exact .pure ⟨hctx, hcallee⟩
  | succ bound ih =>
    refine .withNeat fun hs => .reads rfl ?_
    split
    · rename_i vars body hshape
      have hvars := hcallee.owns_binders hs.toCanonical hshape
      have hnames : (vars.map fun v => (v, r.valueOf v)).map (·.1) = vars := by
        simp [Function.comp_def]
      refine .bind (.bindAll hctx.child (by rw [hnames]; exact (hcallee.parts hshape).1)
        (fun b _ => ctx.vacant_child b.1) fun b hb => ?_) fun inner s₁ h₁ hinner => ?_
      · obtain ⟨v, hv, rfl⟩ := List.mem_map.1 hb
        exact ⟨hvars v hv, hr.valueOf hs v⟩
      · exact ih hinner (hr.mono h₁) ((hcallee.child hshape (List.mem_singleton_self body)).mono h₁)
    · exact .pure ⟨hctx, hcallee⟩

theorem clean_callOther {callee : TermId} {args : List TermId} (hcallee : s.WellBound callee)
    (hargs : ∀ arg ∈ args, s.WellBound arg) :
    Attempt.Clean Term (callOther mode callee args) s := by
  refine .reads rfl ?_
  split
  · exact .build rfl rfl (List.forall_mem_cons.2 ⟨hcallee, hargs⟩)
  · exact .reads rfl (.throws fun _ h => by cases h)

section Rules

variable (he : e.Clean)

include he

/-- Bindings are made in the order in which they stand; those that are kept are some of them. -/
theorem clean_bindLets {lets : List (VarId × TermId)} (hctx : ctx.Tidy s)
    (hdistinct : (lets.map (·.1)).Nodup) (hvacant : ∀ b ∈ lets, ctx.Vacant b.1)
    (hlets : ∀ b ∈ lets, b.1.index < s.vars.size ∧ s.WellBound b.2) :
    Attempt.Clean (fun r s' => r.1.Tidy s' ∧
        (∀ w, w ∉ lets.map (·.1) → ctx.Vacant w → r.1.Vacant w) ∧
        List.Sublist (r.2.map (·.1)) (lets.map (·.1)) ∧ ∀ b ∈ r.2, s'.WellBound b.2)
      (e.bindLets mode ctx lets) s := by
  induction lets generalizing s ctx with
  | nil => exact .pure ⟨hctx, fun _ _ hw => hw, List.Sublist.slnil, by simp⟩
  | cons b rest ih =>
    obtain ⟨v, t⟩ := b
    obtain ⟨hnew, hrest⟩ := List.nodup_cons.1 hdistinct
    obtain ⟨hfirst, hvacant⟩ := List.forall_mem_cons.1 hvacant
    obtain ⟨⟨hv, ht⟩, hlets⟩ := List.forall_mem_cons.1 hlets
    -- What the variable is bound to makes no difference to the bindings after it.
    have hafter : ∀ {s₁ : Store} {inner : Context}, s.Extends s₁ →
        inner.Tidy s₁ ∧ (∀ w, w ≠ v → ctx.Vacant w → inner.Vacant w) →
        Attempt.Clean (fun r s' => r.1.Tidy s' ∧
          (∀ w, w ∉ v :: rest.map (·.1) → ctx.Vacant w → r.1.Vacant w) ∧
          List.Sublist (r.2.map (·.1)) (rest.map (·.1)) ∧ ∀ b ∈ r.2, s'.WellBound b.2)
        (e.bindLets mode inner rest) s₁ := by
      intro s₁ inner h₁ hinner
      refine (ih hinner.1 hrest (fun b hb => hinner.2 b.1 ?_ (hvacant b hb)) fun b hb =>
        ⟨h₁.lt_vars (hlets b hb).1, (hlets b hb).2.mono h₁⟩).imp fun r s₂ _ hr =>
          ⟨hr.1, fun w hw hold => ?_, hr.2.2⟩
      · exact fun heq => hnew (List.mem_map.2 ⟨b, hb, heq⟩)
      · obtain ⟨hne, hw⟩ := not_or.1 (mt List.mem_cons.2 hw)
        exact hr.2.1 w hw (hinner.2 w hne hold)
    refine .bind (he.reduce hctx ht) fun value s₁ h₁ hvalue => ?_
    refine .bind (clean_inlinable value) fun canInline s₂ h₂ _ => ?_
    have h₁₂ := h₁.trans h₂
    split
    · refine .bind (.bindContext (hctx.mono h₁₂) (h₁₂.lt_vars hv) hfirst (hvalue.mono h₂))
        fun inner s₃ h₃ hinner => (hafter (h₁₂.trans h₃) hinner).imp fun r s₄ _ hr => ?_
      exact ⟨hr.1, hr.2.1, hr.2.2.1.cons v, hr.2.2.2⟩
    · refine .bind (he.infer (hctx.mono h₁₂) (hvalue.mono h₂)) fun ty s₃ h₃ hty => ?_
      refine .bind (.build rfl rfl (by simpa [Shape.children] using hty))
        fun placeholder s₄ h₄ hplaceholder => ?_
      have h₁₄ := (h₁₂.trans h₃).trans h₄
      refine .bind (.bindContext (hctx.mono h₁₄) (h₁₄.lt_vars hv) hfirst hplaceholder)
        fun inner s₅ h₅ hinner => ?_
      refine .bind (hafter (h₁₄.trans h₅) hinner) fun r s₆ h₆ hr => .pure ?_
      have hkept := hvalue.mono (((h₂.trans h₃).trans h₄).trans (h₅.trans h₆))
      exact ⟨hr.1, hr.2.1, hr.2.2.1.cons_cons v, List.forall_mem_cons.2 ⟨hkept, hr.2.2.2⟩⟩

/-! ## Components -/

theorem clean_reduceNamed {named : List (String × TermId)} (hctx : ctx.Tidy s)
    (hnamed : ∀ c ∈ named, s.WellBound c.2) :
    Attempt.Clean (fun named' s' => ∀ c ∈ named', s'.WellBound c.2)
      (e.reduceNamed mode ctx named) s := by
  induction named generalizing s with
  | nil => exact .pure (by simp)
  | cons c rest ih =>
    obtain ⟨hc, hnamed⟩ := List.forall_mem_cons.1 hnamed
    refine .bind (he.reduce hctx hc) fun t s₁ h₁ ht => ?_
    refine .bind (ih (hctx.mono h₁) fun c' hc' => (hnamed c' hc').mono h₁)
      fun rest' s₂ h₂ hrest => .pure ?_
    exact List.forall_mem_cons.2 ⟨ht.mono h₂, hrest⟩

/-! ## Calls -/

/-- Parameters and the variables that keep arguments are bound in one frame. The latter are new. -/
theorem clean_bindArgs {outer : Context} {args : List (VarId × TermId)} (houter : outer.Tidy s)
    (hctx : ctx.Tidy s) (hdistinct : (args.map (·.1)).Nodup) (hvacant : ∀ b ∈ args, ctx.Vacant b.1)
    (hargs : ∀ b ∈ args, b.1.index < s.vars.size ∧ s.WellBound b.2) :
    Attempt.Clean (fun r s' => r.1.Tidy s' ∧ s.BindsNew s' r.2)
      (e.bindArgs mode outer ctx args) s := by
  induction args generalizing s ctx with
  | nil => exact .pure ⟨hctx, .nil s s⟩
  | cons b rest ih =>
    obtain ⟨v, arg⟩ := b
    obtain ⟨hnew, hrest⟩ := List.nodup_cons.1 hdistinct
    obtain ⟨hfirst, hvacant⟩ := List.forall_mem_cons.1 hvacant
    obtain ⟨⟨hv, harg⟩, hargs⟩ := List.forall_mem_cons.1 hargs
    have hne : ∀ b ∈ rest, b.1 ≠ v := fun b hb heq => hnew (List.mem_map.2 ⟨b, hb, heq⟩)
    refine .bind (clean_inlinable arg) fun canInline s₁ h₁ _ => ?_
    split
    · refine .reads (run_bind_vacant hfirst arg) ?_
      refine (ih (houter.mono h₁) ((hctx.mono h₁).bind (h₁.lt_vars hv) (harg.mono h₁)) hrest
        (fun b hb => (hvacant b hb).cons (hne b hb) arg) fun b hb =>
          ⟨h₁.lt_vars (hargs b hb).1, (hargs b hb).2.mono h₁⟩).imp fun r s₂ _ hr =>
            ⟨hr.1, hr.2.since h₁⟩
    · refine .reads rfl (.reads rfl ?_)
      refine .bind (.freshVariable _ _) fun fresh s₂ h₂ hfresh => ?_
      refine .bind (.variableTerm hfresh.2) fun freshTerm s₃ h₃ hfreshTerm => ?_
      have h₁₃ := h₁.trans (h₂.trans h₃)
      refine .bind (he.infer (houter.mono h₁₃) (harg.mono h₁₃)) fun ty s₄ h₄ hty => ?_
      refine .bind (.build rfl rfl (by simpa [Shape.children] using hty))
        fun placeholder s₅ h₅ hplaceholder => ?_
      have h₃₅ := h₄.trans h₅
      have h₁₅ := h₁₃.trans h₃₅
      have hlt : fresh.index < s₅.vars.size := (h₃.trans h₃₅).lt_vars hfresh.2
      -- The fresh variable is none of those that the frame binds or is still to bind.
      have hbelow := h₁.ne_of_new hfresh.1
      have hvacant₁ : ctx.Vacant fresh := (hctx.mono h₁).vacant hfresh.1
      refine .reads (run_bind_vacant hvacant₁ placeholder)
        (.reads (run_bind_vacant (hfirst.cons (hbelow v hv) placeholder) freshTerm) ?_)
      have hinner := ((hctx.mono h₁₅).bind hlt hplaceholder).bind (h₁₅.lt_vars hv)
        (hfreshTerm.mono h₃₅)
      refine .bind (ih (houter.mono h₁₅) hinner hrest (fun b hb => ?_) fun b hb =>
          ⟨h₁₅.lt_vars (hargs b hb).1, (hargs b hb).2.mono h₁₅⟩) fun r s₆ h₆ hr => .pure ?_
      · exact ((hvacant b hb).cons (hbelow b.1 (hargs b hb).1) _).cons (hne b hb) _
      · exact ⟨hr.1, hr.2.cons h₁₅ h₆ (Nat.le_trans h₁.size_vars hfresh.1) hlt
          (harg.mono (h₁₅.trans h₆))⟩

theorem clean_callNative {native : Native} {captured : List Handle} {callee : TermId}
    {args : List TermId} (hcaptured : ∀ handle ∈ captured, s.Holds handle)
    (hnative : native.Orderly captured) (hctx : ctx.Tidy s) (hcallee : s.WellBound callee)
    (hargs : ∀ arg ∈ args, s.WellBound arg) :
    Attempt.Clean Term (e.callNative mode ctx callee native args) s := by
  refine .reads rfl ?_
  split
  · exact .build rfl rfl (List.forall_mem_cons.2 ⟨hcallee, hargs⟩)
  · refine (clean_run he (hnative.call args) hctx fun handle hhandle => ?_).imp fun t s₁ _ ht =>
      ht (.term t) (by simp)
    rcases List.mem_append.1 hhandle with harg | hcapture
    · obtain ⟨arg, hmem, rfl⟩ := List.mem_map.1 harg
      exact hargs arg hmem
    · exact hcaptured handle hcapture

theorem clean_callAbstraction {lets params : List (VarId × TermId)} {body : TermId}
    {args : List TermId} (hctx : ctx.Tidy s) (hparts : s.Abstracts lets params body)
    (hargs : ∀ arg ∈ args, s.WellBound arg) :
    Attempt.Clean Term (e.callAbstraction mode ctx lets params body args) s := by
  unfold callAbstraction
  dsimp only
  split
  · exact .fails rfl fun _ h => by cases h
  rename_i hlength
  have hnames : (((params.map (·.1)).zip args).map (·.1)) = params.map (·.1) :=
    List.map_fst_zip (by simpa using Nat.le_of_eq (Decidable.not_not.1 hlength).symm)
  have hmem : ∀ b ∈ (params.map (·.1)).zip args, ∃ p ∈ params, p.1 = b.1 := fun b hb =>
    List.mem_map.1 (List.of_mem_zip hb).1
  refine .bind (clean_bindLets he hctx.child hparts.letsDistinct (fun b _ => ctx.vacant_child b.1)
    hparts.lets) fun r s₁ h₁ hr => ?_
  obtain ⟨inner, residual⟩ := r
  obtain ⟨hinner, hvacant, hsub, hresidual⟩ := hr
  dsimp only at hinner hvacant hsub hresidual ⊢
  refine .bind (clean_bindArgs he (hctx.mono h₁) hinner
    (by rw [hnames]; exact hparts.paramsDistinct) (fun b hb => ?_) fun b hb => ⟨?_, (hargs b.2 (List.of_mem_zip hb).2).mono h₁⟩)
    fun q s₂ h₂ hq => ?_
  · obtain ⟨p, hp, heq⟩ := hmem b hb
    rw [← heq]
    exact hvacant p.1 (hparts.apart p hp) (ctx.vacant_child p.1)
  · obtain ⟨p, hp, heq⟩ := hmem b hb
    rw [← heq]
    exact h₁.lt_vars (hparts.params p hp).1
  obtain ⟨inner, kept⟩ := q
  obtain ⟨hinner, hkept⟩ := hq
  dsimp only at hinner hkept ⊢
  have h₁₂ := h₁.trans h₂
  refine .bind (he.reduce hinner (hparts.body.mono h₁₂)) fun value s₃ h₃ hvalue => ?_
  -- Variables of the callee are older than those that keep arguments.
  have hold : ∀ v ∈ residual.map (·.1), v.index < s₁.vars.size := fun v hv => by
    obtain ⟨b, hb, rfl⟩ := List.mem_map.1 (hsub.subset hv)
    exact h₁.lt_vars (hparts.lets b hb).1
  refine clean_wrapResidual ⟨?_, List.nodup_nil, by simp, fun b hb => ?_, by simp, hvalue⟩
  · rw [List.map_append]
    refine List.nodup_append.2 ⟨hparts.letsDistinct.sublist hsub, hkept.distinct, ?_⟩
    rintro v hv w hw rfl
    obtain ⟨b, hb, rfl⟩ := List.mem_map.1 hw
    exact absurd (hold _ hv) (Nat.not_lt.2 (hkept.new b hb))
  · rcases List.mem_append.1 hb with hb | hb
    · exact ⟨(h₂.trans h₃).lt_vars (hold b.1 (List.mem_map_of_mem hb)),
        (hresidual b hb).mono (h₂.trans h₃)⟩
    · exact ⟨h₃.lt_vars (hkept.owned b hb).1, (hkept.owned b hb).2.mono h₃⟩

theorem clean_call {r : Resolution} {callee : TermId} {args : List TermId} (hctx : ctx.Tidy s)
    (hr : r.Tidy s) (hcallee : s.WellBound callee) (hargs : ∀ arg ∈ args, s.WellBound arg) :
    Attempt.Clean Term (e.call mode ctx r callee args) s := by
  refine .bind (clean_openQuantifiers _ hctx hr hcallee) fun opened s₁ h₁ hopened => ?_
  obtain ⟨ctx, callee⟩ := opened
  obtain ⟨hctx, hcallee⟩ := hopened
  dsimp only at hctx hcallee ⊢
  have hargs₁ : ∀ arg ∈ args, s₁.WellBound arg := fun arg harg => (hargs arg harg).mono h₁
  refine .withNeat fun hs => .reads rfl ?_
  split
  · rename_i id _
    refine .reads rfl ?_
    split
    · rename_i registered hnative
      obtain ⟨captured, hcaptured, horderly⟩ := hs.orderly id registered hnative
      exact clean_callNative he hcaptured horderly hctx hcallee hargs₁
    · exact clean_callOther hcallee hargs₁
  · exact clean_callOther hcallee hargs₁
  · rename_i hshape
    exact clean_callAbstraction he hctx (hcallee.abstracts hs.toCanonical hshape) hargs₁
  · exact clean_callOther hcallee hargs₁

/-! ## Partial application -/

/-- The frame takes a new parameter for each position, and the open variables that positions
supply, none of which it binds yet. -/
theorem clean_freshParams {undetermined : List VarId} {slots : List (Slot TermId)}
    (hctx : ctx.Tidy s) (hslots : s.Positions slots)
    (hvacant : ∀ v ∈ slots.filterMap (·.binds), v ∈ undetermined → ctx.Vacant v) :
    Attempt.Clean (fun params s' => s.BindsNew s' params)
      (e.freshParams undetermined ctx slots) s := by
  induction slots generalizing s ctx with
  | nil => exact .pure (.nil s s)
  | cons slot rest ih =>
    have htail : s.Positions rest := hslots.drop 1
    refine .bind (he.compile hctx (hslots.types slot List.mem_cons_self)) fun ty s₁ h₁ hty => ?_
    refine .bind (.freshVariable _ _) fun v s₂ h₂ hv => ?_
    refine .bind (.variableTerm hv.2) fun vTerm s₃ h₃ hvTerm => ?_
    have h₁₃ := h₁.trans (h₂.trans h₃)
    have hrest : ∀ (ctx : Context) s₄, s₃.Extends s₄ →
        ctx.Tidy s₄ ∧ (∀ w ∈ rest.filterMap (·.binds), w ∈ undetermined → ctx.Vacant w) →
        Attempt.Clean (fun params s' => s.BindsNew s' params)
          (do return (v, ty) :: (← e.freshParams undetermined ctx rest)) s₄ := by
      intro ctx s₄ h₄ hctx
      have h₁₄ := h₁₃.trans h₄
      refine .bind (ih hctx.1 (htail.mono h₁₄) hctx.2) fun params s₅ h₅ hparams => .pure ?_
      exact hparams.cons h₁₄ h₅ (Nat.le_trans h₁.size_vars hv.1) ((h₃.trans h₄).lt_vars hv.2)
        (hty.mono ((h₂.trans h₃).trans (h₄.trans h₅)))
    have hsubset : ∀ w ∈ rest.filterMap (·.binds), w ∈ (slot :: rest).filterMap (·.binds) :=
      fun w hw => ((List.sublist_cons_self slot rest).filterMap (·.binds)).subset hw
    cases hbinds : slot.binds.filter (· ∈ undetermined) with
    | none =>
      exact .bind (.pure ⟨hctx.mono h₁₃, fun w hw => hvacant w (hsubset w hw)⟩) hrest
    | some supplied =>
      obtain ⟨hsome, hopen⟩ := Option.filter_eq_some_iff.1 hbinds
      have hcons : (slot :: rest).filterMap (·.binds) = supplied :: rest.filterMap (·.binds) :=
        List.filterMap_cons_some hsome
      have hmem : supplied ∈ (slot :: rest).filterMap (·.binds) := by
        rw [hcons]
        exact List.mem_cons_self
      have hfirst : ctx.Vacant supplied := hvacant supplied hmem (by simpa using hopen)
      have hnew : supplied ∉ rest.filterMap (·.binds) :=
        (List.nodup_cons.1 (hcons ▸ hslots.distinct)).1
      -- The new parameter is none of the variables of the store before.
      have hbelow := h₁.ne_of_new hv.1
      have hvacant₁ : ctx.Vacant v := (hctx.mono h₁).vacant hv.1
      refine .bind (.build rfl rfl ?_) fun placeholder s₄ h₄ hplaceholder => ?_
      · simpa [Shape.children] using hty.mono (h₂.trans h₃)
      have h₁₄ := h₁₃.trans h₄
      refine .reads (run_bind_vacant hvacant₁ placeholder) ?_
      refine .reads (run_bind_vacant (hfirst.cons (hbelow supplied (hslots.owned supplied hmem)) _)
        vTerm) (hrest _ s₄ h₄ ⟨?_, fun w hw hundetermined => ?_⟩)
      · exact ((hctx.mono h₁₄).bind ((h₃.trans h₄).lt_vars hv.2) hplaceholder).bind
          (h₁₄.lt_vars (hslots.owned supplied hmem)) (hvTerm.mono h₄)
      · have hw' := hsubset w hw
        have hne : w ≠ supplied := fun heq => hnew (heq ▸ hw)
        exact ((hvacant w hw' hundetermined).cons (hbelow w (hslots.owned w hw')) _).cons hne _

theorem clean_curry {r : Resolution} {callee : TermId} {args : List TermId} (hctx : ctx.Tidy s)
    (hr : r.Tidy s) (hcallee : s.WellBound callee) (hargs : ∀ arg ∈ args, s.WellBound arg) :
    Attempt.Clean Term (e.curry mode ctx r callee args) s := by
  refine .bind (.bindQuantified hctx (hr.distinct.filter _) fun v hv => ?_)
    fun renamed s₁ h₁ hrenamed => ?_
  · exact hr.owned v (List.mem_of_mem_filter hv)
  refine .bind (clean_freshParams he hrenamed.1 (hr.remaining.mono h₁) fun v hv _ =>
    hrenamed.2 v fun hmem => ?_) fun params s₂ h₂ hparams => ?_
  · -- A variable that a position supplies is left out of the placeholders.
    simp only [List.mem_filter, decide_eq_true_eq] at hmem
    exact hmem.2 hv
  refine .bind (.variableTerms fun v hv => ?_) fun own s₃ h₃ hown => ?_
  · obtain ⟨p, hp, rfl⟩ := List.mem_map.1 hv
    exact (hparams.owned p hp).1
  have h₁₃ := h₁.trans (h₂.trans h₃)
  refine .bind (.build rfl rfl (List.forall_mem_cons.2 ⟨hcallee.mono h₁₃, fun t ht => ?_⟩))
    fun body s₄ h₄ hbody => ?_
  · rcases List.mem_append.1 ht with ht | ht
    · exact (hargs t ht).mono h₁₃
    · exact hown t ht
  have h₃₄ := h₃.trans h₄
  refine .bind (.abstraction ⟨List.nodup_nil, hparams.distinct, by simp, by simp, fun p hp =>
    ⟨h₃₄.lt_vars (hparams.owned p hp).1, (hparams.owned p hp).2.mono h₃₄⟩, hbody⟩)
    fun function s₅ h₅ hfunction => ?_
  have h₁₅ := (h₁₃.trans h₄).trans h₅
  refine .bind (.quantify hr.distinct (fun v hv => h₁₅.lt_vars (hr.owned v hv)) hfunction)
    fun quantified s₆ h₆ hquantified => ?_
  exact he.reduce (hctx.mono (h₁₅.trans h₆)) hquantified

theorem clean_reduceArgs {args : List (TermId × TermId)} (hctx : ctx.Tidy s)
    (hargs : ∀ p ∈ args, s.WellBound p.1 ∧ s.WellBound p.2) :
    Attempt.Clean (fun values s' => ∀ t ∈ values, s'.WellBound t)
      (e.reduceArgs mode ctx args) s := by
  induction args generalizing s with
  | nil => exact .pure (by simp)
  | cons p rest ih =>
    obtain ⟨arg, ty⟩ := p
    obtain ⟨⟨harg, hty⟩, hargs⟩ := List.forall_mem_cons.1 hargs
    refine .bind (he.reduce hctx harg) fun value s₁ h₁ hvalue => ?_
    refine .bind (he.infer (hctx.mono h₁) hvalue) fun valueType s₂ h₂ _ => ?_
    have h₁₂ := h₁.trans h₂
    have hrest : ∀ value s₃, s₂.Extends s₃ → s₃.WellBound value →
        Attempt.Clean (fun values s' => ∀ t ∈ values, s'.WellBound t)
          (do return value :: (← e.reduceArgs mode ctx rest)) s₃ := by
      intro value s₃ h₃ hvalue
      have h₁₃ := h₁₂.trans h₃
      refine .bind (ih (hctx.mono h₁₃) fun q hq => ⟨(hargs q hq).1.mono h₁₃,
        (hargs q hq).2.mono h₁₃⟩) fun values s₄ h₄ hvalues => .pure ?_
      exact List.forall_mem_cons.2 ⟨hvalue.mono h₄, hvalues⟩
    dsimp only
    split
    · exact .bind (.pure (hvalue.mono h₂)) hrest
    · refine .bind (.build rfl rfl ?_) fun cast s₃ h₃ hcast => ?_
      · simpa [Shape.children] using ⟨hvalue.mono h₂, hty.mono h₁₂⟩
      · exact .bind (he.reduce (hctx.mono (h₁₂.trans h₃)) hcast) fun value s₄ h₄ =>
          hrest value s₄ (h₃.trans h₄)

/-! ## The rules of reduction -/

theorem clean_reduceVariable {t : TermId} {v : VarId} (hctx : ctx.Tidy s) (ht : s.WellBound t) :
    Attempt.Clean Term (e.reduceVariable mode ctx t v) s := by
  unfold reduceVariable
  cases hget : ctx.get? v with
  | none => exact .reads rfl (.throws fun _ h => by cases h)
  | some value =>
    refine .reads rfl ?_
    split
    · cases mode with
      | compile => exact .pure ht
      | evaluate => exact .reads rfl (.throws fun _ h => by cases h)
    · split
      · exact he.reduce hctx (hctx.get? hget)
      · exact .pure (hctx.get? hget)
    · exact .pure (hctx.get? hget)

theorem clean_reduceProjection {domain : TermId} (hctx : ctx.Tidy s) (hdomain : s.WellBound domain)
    (field : String) : Attempt.Clean Term (e.reduceProjection mode ctx domain field) s := by
  refine .bind (he.reduce hctx hdomain) fun domain s₁ h₁ hdomain => .reads rfl ?_
  split
  · rename_i ty fields hshape
    split
    · rename_i name value hfind
      refine .pure (hdomain.child hshape (List.mem_cons_of_mem _ ?_))
      exact List.mem_map_of_mem (List.mem_of_find?_eq_some hfind)
    · exact .throws fun _ h => by cases h
  · refine .reads rfl ?_
    split
    · refine .bind (he.infer (hctx.mono h₁) hdomain) fun ty s₂ h₂ hty => ?_
      refine .bind (clean_memberType hty field) fun _ s₃ h₃ _ => .build rfl rfl ?_
      simpa [Shape.children] using hdomain.mono (h₂.trans h₃)
    · exact .reads rfl (.throws fun _ h => by cases h)

theorem clean_reduceCast {subject target : TermId} (hctx : ctx.Tidy s)
    (hsubject : s.WellBound subject) (htarget : s.WellBound target) :
    Attempt.Clean Term (e.reduceCast mode ctx subject target) s := by
  refine .bind (he.reduce hctx hsubject) fun subject s₁ h₁ hsubject => ?_
  refine .bind (he.reduce (hctx.mono h₁) (htarget.mono h₁)) fun target s₂ h₂ htarget => ?_
  refine .bind (he.infer (hctx.mono (h₁.trans h₂)) (hsubject.mono h₂))
    fun subjectType s₃ h₃ _ => ?_
  have hsubject₃ := hsubject.mono (h₂.trans h₃)
  split
  · exact .pure hsubject₃
  · refine .reads rfl ?_
    split
    · exact .build rfl rfl (by simpa [Shape.children] using ⟨hsubject₃, htarget.mono h₃⟩)
    · exact .throws fun _ h => by cases h

theorem clean_reduceForAll {vars : List VarId} {body : TermId} (hctx : ctx.Tidy s)
    (hdistinct : vars.Nodup) (hvars : ∀ v ∈ vars, v.index < s.vars.size)
    (hbody : s.WellBound body) :
    Attempt.Clean Term (e.reduceForAll mode ctx vars body) s := by
  refine .bind (.bindQuantified hctx hdistinct hvars) fun inner s₁ h₁ hinner => ?_
  refine .bind (he.compile hinner.1 (hbody.mono h₁)) fun body s₂ h₂ hbody => ?_
  refine .bind (.quantify hdistinct (fun v hv => (h₁.trans h₂).lt_vars (hvars v hv)) hbody)
    fun function s₃ h₃ hfunction => ?_
  split
  · exact .bind (clean_ensureAvailable function) fun _ s₄ h₄ _ => .pure (hfunction.mono h₄)
  · exact .pure hfunction

theorem clean_reduceAbstraction {lets params : List (VarId × TermId)} {body : TermId}
    (hctx : ctx.Tidy s) (hparts : s.Abstracts lets params body) :
    Attempt.Clean Term (e.reduceAbstraction mode ctx lets params body) s := by
  refine .bind (clean_bindLets he hctx.child hparts.letsDistinct (fun b _ => ctx.vacant_child b.1)
    hparts.lets) fun r s₁ h₁ hr => ?_
  obtain ⟨inner, residual⟩ := r
  obtain ⟨hinner, hvacant, hsub, hresidual⟩ := hr
  dsimp only at hinner hvacant hsub hresidual ⊢
  have hkept : ∀ {s₂}, s₁.Extends s₂ → ∀ b ∈ residual,
      b.1.index < s₂.vars.size ∧ s₂.WellBound b.2 := by
    intro s₂ h₂ b hb
    obtain ⟨b', hb', heq⟩ := List.mem_map.1 (hsub.subset (List.mem_map_of_mem hb))
    rw [← heq]
    exact ⟨(h₁.trans h₂).lt_vars (hparts.lets b' hb').1, (hresidual b hb).mono h₂⟩
  split
  · refine .bind (he.reduce hinner (hparts.body.mono h₁)) fun value s₂ h₂ hvalue => ?_
    exact clean_wrapResidual ⟨hparts.letsDistinct.sublist hsub, List.nodup_nil, by simp, hkept h₂,
      by simp, hvalue⟩
  · refine .bind (clean_bindParams he hinner hparts.paramsDistinct (fun p hp =>
      hvacant p.1 (hparts.apart p hp) (ctx.vacant_child p.1)) fun p hp =>
        ⟨h₁.lt_vars (hparts.params p hp).1, (hparts.params p hp).2.mono h₁⟩) fun q s₂ h₂ hq => ?_
    obtain ⟨inner, params'⟩ := q
    obtain ⟨hinner, hnames, htypes⟩ := hq
    dsimp only at hinner hnames htypes ⊢
    have h₁₂ := h₁.trans h₂
    refine .bind (he.compile hinner (hparts.body.mono h₁₂)) fun body s₃ h₃ hbody => ?_
    have hfind : ∀ p ∈ params', ∃ q ∈ params, q.1 = p.1 := fun p hp =>
      List.mem_map.1 (hnames ▸ List.mem_map_of_mem hp)
    have hfunction : s₃.Abstracts residual params' body := by
      refine ⟨hparts.letsDistinct.sublist hsub, by rw [hnames]; exact hparts.paramsDistinct,
        fun p hp hmem => ?_, hkept (h₂.trans h₃), fun p hp => ⟨?_, (htypes p hp).mono h₃⟩, hbody⟩
      · obtain ⟨q, hq, heq⟩ := hfind p hp
        exact hparts.apart q hq (heq ▸ hsub.subset hmem)
      · obtain ⟨q, hq, heq⟩ := hfind p hp
        rw [← heq]
        exact (h₁₂.trans h₃).lt_vars (hparts.params q hq).1
    refine .bind (.abstraction hfunction) fun function s₄ h₄ hfunction => ?_
    split
    · exact .bind (clean_ensureAvailable function) fun _ s₅ h₅ _ => .pure (hfunction.mono h₅)
    · exact .pure hfunction

theorem clean_reduceApplication {callee : TermId} {args : List TermId} (hctx : ctx.Tidy s)
    (hcallee : s.WellBound callee) (hargs : ∀ arg ∈ args, s.WellBound arg) :
    Attempt.Clean Term (e.reduceApplication mode ctx callee args) s := by
  refine .bind (clean_resolve he hctx hcallee hargs) fun r s₁ h₁ hr => ?_
  refine .bind (clean_reduceArgs he (hctx.mono h₁) fun p hp => ?_) fun values s₂ h₂ hvalues => ?_
  · obtain ⟨harg, hty⟩ := List.of_mem_zip hp
    exact ⟨(hargs p.1 harg).mono h₁, hr.supplied p.2 hty⟩
  have h₁₂ := h₁.trans h₂
  refine .bind (he.reduce (hctx.mono h₁₂) (hcallee.mono h₁₂)) fun callee s₃ h₃ hcallee => ?_
  have hvalues₃ : ∀ value ∈ values, s₃.WellBound value := fun value hvalue =>
    (hvalues value hvalue).mono h₃
  split
  · exact clean_call he (hctx.mono (h₁₂.trans h₃)) (hr.mono (h₂.trans h₃)) hcallee hvalues₃
  · exact clean_curry he (hctx.mono (h₁₂.trans h₃)) (hr.mono (h₂.trans h₃)) hcallee hvalues₃

theorem clean_reduceStep {t : TermId} (hctx : ctx.Tidy s) (ht : s.WellBound t) :
    Attempt.Clean Term (e.reduceStep mode ctx t) s := by
  refine .withNeat fun hs => .reads rfl ?_
  cases hshape : s.shape t with
  | «variable» v => exact clean_reduceVariable he hctx ht
  | deferred ty availability =>
    cases mode with
    | compile => exact .pure ht
    | evaluate => exact .reads rfl (.throws fun _ h => by cases h)
  | unitValue ty =>
    have hty := ht.child hshape (List.mem_singleton_self ty)
    refine .bind (he.reduce hctx hty) fun ty s₁ _ hty => .build rfl rfl ?_
    simpa [Shape.children] using hty
  | productValue ty fields =>
    have hchildren := (ht.parts hshape).2
    refine .bind (he.reduce hctx (hchildren ty List.mem_cons_self)) fun ty s₁ h₁ hty => ?_
    refine .bind (clean_reduceNamed he (hctx.mono h₁) fun field hfield => ?_)
      fun fields s₂ h₂ hfields => .build rfl rfl ?_
    · exact (hchildren field.2 (List.mem_cons_of_mem _ (List.mem_map_of_mem hfield))).mono h₁
    · refine List.forall_mem_cons.2 ⟨hty.mono h₂, fun child hchild => ?_⟩
      obtain ⟨field, hfield, rfl⟩ := List.mem_map.1 hchild
      exact hfields field hfield
  | functionType params result =>
    have hpositions := Store.Positions.of_functionType ht hs.toCanonical hshape
    have hresult := ht.child hshape (List.mem_append_right _ (List.mem_singleton_self result))
    refine .bind (clean_reduceSlots he hctx hpositions) fun params s₁ h₁ hparams => ?_
    refine .bind (he.reduce (hctx.mono h₁) (hresult.mono h₁)) fun result s₂ h₂ hresult => ?_
    exact (hparams.mono h₂).build hresult
  | productType members =>
    refine .bind (clean_reduceNamed he hctx fun member hmember => ?_)
      fun members s₁ _ hmembers => .build rfl rfl fun child hchild => ?_
    · exact ht.child hshape (List.mem_map_of_mem hmember)
    · obtain ⟨member, hmember, rfl⟩ := List.mem_map.1 hchild
      exact hmembers member hmember
  | projection domain field =>
    exact clean_reduceProjection he hctx (ht.child hshape (List.mem_singleton_self domain)) field
  | cast subject target =>
    exact clean_reduceCast he hctx (ht.child hshape (by simp [Shape.children]))
      (ht.child hshape (by simp [Shape.children]))
  | forAll vars body =>
    exact clean_reduceForAll he hctx (ht.parts hshape).1 (ht.owns_binders hs.toCanonical hshape)
      (ht.child hshape (List.mem_singleton_self body))
  | abstraction lets params body =>
    exact clean_reduceAbstraction he hctx (ht.abstracts hs.toCanonical hshape)
  | application callee args =>
    have hchildren := (ht.parts hshape).2
    exact clean_reduceApplication he hctx (hchildren callee List.mem_cons_self) fun arg harg =>
      hchildren arg (List.mem_cons_of_mem _ harg)
  | _ => exact .pure ht

end Rules

/-! ## Levels -/

/-- At every number of levels the judgments come to bind no variable twice. -/
theorem clean_ofLevels (n : Nat) : (ofLevels n).Clean := by
  induction n with
  | zero =>
    have hdepth : ∀ {s : Store}, Attempt.Clean Term throwDepth s := fun {s} =>
      .reads rfl (.throws fun _ h => by cases h)
    exact ⟨fun _ _ => hdepth, fun _ _ => hdepth⟩
  | succ n ih => exact ⟨fun hctx ht => clean_inferStep ih hctx ht, fun hctx ht =>
      clean_reduceStep ih hctx ht⟩

end Engine

end StagedCalculus
