import StagedCalculus.Proofs.Staging.Clean
import StagedCalculus.Staging.Reduce

/-!
# Inference binds no variable twice

This module goes through the resolution of callees and the rules of inference, over an engine that
is clean (`Engine.clean_resolve`, `Engine.clean_inferStep`).

* `Store.Positions`: the positions of a function type, which supply distinct variables;
* `Resolution.Tidy`: what a resolution is made of.
-/

namespace StagedCalculus

/-! ## Positions -/

namespace Store

variable {s s' : Store} {slots slots' : List (Slot TermId)} {t result : TermId}

/-- Positions of well-bound types that supply distinct variables of the store. -/
structure Positions (s : Store) (slots : List (Slot TermId)) : Prop where
  distinct : (slots.filterMap (·.binds)).Nodup
  owned : ∀ v ∈ slots.filterMap (·.binds), v.index < s.vars.size
  types : ∀ slot ∈ slots, s.WellBound slot.ty

namespace Positions

theorem of_functionType (ht : s.WellBound t) (hs : s.Canonical)
    (hshape : s.shape t = .functionType slots result) : s.Positions slots :=
  ⟨(ht.parts hshape).1, ht.owns_binders hs hshape, fun _ hslot =>
    ht.child hshape (List.mem_append_left _ (List.mem_map_of_mem hslot))⟩

theorem drop (h : s.Positions slots) (n : Nat) : s.Positions (slots.drop n) := by
  have hsub := (List.drop_sublist n slots).filterMap (·.binds)
  exact ⟨h.distinct.sublist hsub, fun v hv => h.owned v (hsub.subset hv),
    fun slot hslot => h.types slot (List.mem_of_mem_drop hslot)⟩

/-- Positions with other types supply the same variables. -/
theorem retype (h : s.Positions slots) (hle : s.Extends s')
    (hbinds : slots'.map (·.binds) = slots.map (·.binds))
    (htypes : ∀ slot ∈ slots', s'.WellBound slot.ty) : s'.Positions slots' := by
  have heq : slots'.filterMap (·.binds) = slots.filterMap (·.binds) := by
    have hmap : ∀ l : List (Slot TermId), l.filterMap (·.binds) = (l.map (·.binds)).filterMap id :=
      fun l => by rw [List.filterMap_map]; rfl
    rw [hmap, hmap, hbinds]
  refine ⟨heq ▸ h.distinct, fun v hv => hle.lt_vars (h.owned v (heq ▸ hv)), htypes⟩

/-- Positions that supply nothing. -/
theorem plain (h : ∀ slot ∈ slots, slot.binds = none ∧ s.WellBound slot.ty) :
    s.Positions slots := by
  have hnone : slots.filterMap (·.binds) = [] :=
    List.filterMap_eq_nil_iff.2 fun slot hslot => (h slot hslot).1
  exact ⟨by simp [hnone], by simp [hnone], fun slot hslot => (h slot hslot).2⟩

/-- The type of functions with these positions. -/
theorem build (h : s.Positions slots) (hresult : s.WellBound result) :
    Attempt.Clean Attempt.Term (Build.functionType slots result) s := by
  refine .binds rfl (fun v hv => h.owned v hv) h.distinct fun child hchild => ?_
  rcases List.mem_append.1 hchild with hchild | hchild
  · obtain ⟨slot, hslot, rfl⟩ := List.mem_map.1 hchild
    exact h.types slot hslot
  · rw [List.mem_singleton.1 hchild]
    exact hresult

end Positions

end Store

/-! ## Resolutions -/

/-- The variables that a resolution leaves open are distinct, and so are those that the remaining
positions supply; all terms in it are well-bound. -/
structure Resolution.Tidy (s : Store) (r : Resolution) : Prop where
  supplied : ∀ ty ∈ r.supplied, s.WellBound ty
  distinct : r.undetermined.Nodup
  owned : ∀ v ∈ r.undetermined, v.index < s.vars.size
  determined : ∀ e ∈ r.determined, s.WellBound e.2
  remaining : s.Positions r.remaining
  result : s.WellBound r.result

theorem Store.Positions.mono {s s' : Store} {slots : List (Slot TermId)} (h : s.Positions slots)
    (hle : s.Extends s') : s'.Positions slots :=
  h.retype hle rfl fun slot hslot => (h.types slot hslot).mono hle

namespace Resolution

variable {s s' : Store} {r : Resolution}

theorem Tidy.mono (h : r.Tidy s) (hle : s.Extends s') : r.Tidy s' :=
  ⟨fun ty hty => (h.supplied ty hty).mono hle, h.distinct, fun v hv => hle.lt_vars (h.owned v hv),
    fun e he => (h.determined e he).mono hle, h.remaining.mono hle, h.result.mono hle⟩

theorem Tidy.valueOf (h : r.Tidy s) (hs : s.Neat) (v : VarId) : s.WellBound (r.valueOf v) := by
  unfold Resolution.valueOf
  cases hfind : r.determined.find? fun e => e.1 = v with
  | none => exact hs.basic 4 (by decide)
  | some e => exact h.determined e (List.mem_of_find?_eq_some hfind)

end Resolution

namespace Engine

open Attempt

variable {e : Engine} {s : Store} {ctx : Context}

/-! ## Functions and their types -/

theorem clean_functionParts {ty : TermId} (hty : s.WellBound ty) :
    Attempt.Clean (fun parts s' => parts.1.Nodup ∧ (∀ v ∈ parts.1, v.index < s'.vars.size) ∧
        s'.Positions parts.2.1 ∧ s'.WellBound parts.2.2)
      (functionParts ty) s := by
  refine .withNeat fun hs => .reads rfl ?_
  -- The function type stands below the quantifier, if there is one.
  have hfunction : ∀ {function params result}, s.WellBound function →
      s.shape function = .functionType params result →
      s.Positions params ∧ s.WellBound result := fun hfunction hshape =>
    ⟨.of_functionType hfunction hs.toCanonical hshape,
      hfunction.child hshape (List.mem_append_right _ (List.mem_singleton_self _))⟩
  dsimp only
  split
  · rename_i vars body hquantified
    have hbody : s.WellBound body := hty.child hquantified (by simp [Shape.children])
    refine .reads rfl (.reads rfl ?_)
    split
    · rename_i hshape
      exact .pure ⟨(hty.parts hquantified).1, hty.owns_binders hs.toCanonical hquantified,
        hfunction hbody hshape⟩
    · exact .reads rfl (.throws fun _ h => by cases h)
  · refine .reads rfl (.reads rfl ?_)
    split
    · rename_i hshape
      exact .pure ⟨List.nodup_nil, List.forall_mem_nil _, hfunction hty hshape⟩
    · exact .reads rfl (.throws fun _ h => by cases h)

theorem clean_plainSlots {params : List (VarId × TermId)}
    (hparams : ∀ p ∈ params, s.WellBound p.2) :
    Attempt.Clean (fun slots s' => ∀ slot ∈ slots, slot.binds = none ∧ s'.WellBound slot.ty)
      (plainSlots params) s := by
  induction params with
  | nil => exact .pure (by simp)
  | cons p rest ih =>
    obtain ⟨hp, hparams⟩ := List.forall_mem_cons.1 hparams
    refine .reads rfl (.bind (ih hparams) fun slots s₁ h₁ hslots => .pure ?_)
    exact List.forall_mem_cons.2 ⟨⟨rfl, hp.mono h₁⟩, hslots⟩

/-- Dependent positions supply the variables of some of the parameters, in their order. -/
theorem binds_marked_sublist (free : FreeVariables) (params : List (VarId × TermId))
    {slots : List (Slot TermId)} (hslots : ∀ slot ∈ slots, slot.binds = none) :
    List.Sublist
      (((params.zip slots).map fun e => markDependent free e.1.1 e.2).filterMap (·.binds))
      (params.map (·.1)) := by
  induction params generalizing slots with
  | nil => exact List.Sublist.slnil
  | cons p rest ih =>
    cases slots with
    | nil => exact List.nil_sublist _
    | cons slot slots =>
      obtain ⟨hslot, hslots⟩ := List.forall_mem_cons.1 hslots
      have hrest := ih hslots
      rw [List.zip_cons_cons, List.map_cons, List.filterMap_cons, List.map_cons]
      cases hbinds : (markDependent free p.1 slot).binds with
      | none => exact hrest.cons p.1
      | some w =>
        rw [markDependent_binds hslot hbinds]
        exact hrest.cons_cons p.1

theorem clean_functionTypeOf {params : List (VarId × TermId)} {result : TermId}
    (hdistinct : (params.map (·.1)).Nodup)
    (hparams : ∀ p ∈ params, p.1.index < s.vars.size ∧ s.WellBound p.2)
    (hresult : s.WellBound result) :
    Attempt.Clean Term (functionTypeOf params result) s := by
  refine .bind (clean_plainSlots fun p hp => (hparams p hp).2) fun slots s₁ h₁ hslots => ?_
  refine .bind ((Store.Positions.plain hslots).build (hresult.mono h₁)) fun plain s₂ h₂ _ =>
    .reads rfl ?_
  have h₁₂ := h₁.trans h₂
  dsimp only
  generalize hmarked : ((params.zip slots).map fun e =>
    markDependent (s₂.freeVariables plain) e.1.1 e.2) = marked
  have hsub : List.Sublist (marked.filterMap (·.binds)) (params.map (·.1)) :=
    hmarked ▸ binds_marked_sublist _ params fun slot hslot => (hslots slot hslot).1
  have hpositions : s₂.Positions marked := by
    refine ⟨hdistinct.sublist hsub, fun v hv => ?_, fun slot hslot => ?_⟩
    · obtain ⟨p, hp, rfl⟩ := List.mem_map.1 (hsub.subset hv)
      exact h₁₂.lt_vars (hparams p hp).1
    · rw [← hmarked] at hslot
      obtain ⟨p, hp, rfl⟩ := List.mem_map.1 hslot
      rw [markDependent_ty]
      exact (hslots p.2 (List.of_mem_zip hp).2).2.mono h₂
  refine .bind (hpositions.build (hresult.mono h₁₂)) fun function s₃ h₃ hfunction => ?_
  exact .binds rfl (fun v hv => h₃.lt_vars (hpositions.owned v hv)) hpositions.distinct
    (by simpa [Shape.children] using hfunction)

theorem clean_memberType {ty : TermId} (hty : s.WellBound ty) (field : String) :
    Attempt.Clean Term (memberType ty field) s := by
  refine .reads rfl ?_
  split
  · rename_i members hshape
    split
    · rename_i name memberTy hfind
      exact .pure (hty.child hshape (List.mem_map_of_mem (List.mem_of_find?_eq_some hfind)))
    · exact .throws fun _ h => by cases h
  · exact .reads rfl (.throws fun _ h => by cases h)

theorem clean_knownAtCompileTime (value : TermId) :
    Attempt.Clean Anything (knownAtCompileTime ctx value) s := by
  refine .reads rfl ?_
  split
  · exact .pure trivial
  · refine .reads rfl ?_
    split
    · split
      · refine .reads rfl ?_
        split <;> exact .pure trivial
      · exact .pure trivial
    · exact .pure trivial

section Rules

variable (he : e.Clean)

include he

/-! ## Resolution -/

theorem clean_supplyComptime {m : Matching} {arg : TermId} (hctx : ctx.Tidy s) (hm : m.Tidy s)
    (harg : s.WellBound arg) (index : Nat) (slot : Slot TermId) :
    Attempt.Clean (fun m s' => m.Tidy s') (e.supplyComptime ctx m index arg slot) s := by
  refine .bind (he.compile hctx harg) fun value s₁ h₁ hvalue => ?_
  refine .bind (clean_knownAtCompileTime value) fun known s₂ h₂ _ => ?_
  have h₁₂ := h₁.trans h₂
  have hm₂ := hm.mono h₁₂
  cases known with
  | false => exact .fails rfl fun _ h => by cases h
  | true =>
    simp only [Bool.not_true, Bool.false_eq_true, if_false]
    split
    · rename_i v _
      split
      · rename_i hv
        refine .bind (.bindContext hm₂.context (hm₂.owned v hv) (hm₂.vacant v hv) (hvalue.mono h₂))
          fun bound s₃ h₃ hbound => .pure ?_
        exact (hm₂.mono h₃).determine hbound.1 hbound.2
      · exact .pure hm₂
    · exact .pure hm₂

theorem clean_supply {m : Matching} {arg : TermId} {slot : Slot TermId} (hctx : ctx.Tidy s)
    (hm : m.Tidy s) (harg : s.WellBound arg) (hslot : s.WellBound slot.ty) (index : Nat) :
    Attempt.Clean (fun r s' => r.1.Tidy s' ∧ s'.WellBound r.2)
      (e.supply ctx m index arg slot) s := by
  -- Whether or not the position is comptime, the rest goes on from a tidy state of matching.
  have hrest : ∀ (m : Matching) s₁, s.Extends s₁ → m.Tidy s₁ →
      Attempt.Clean (fun r s' => r.1.Tidy s' ∧ s'.WellBound r.2)
        (do
          let argType ← e.infer ctx arg
          let expected ← e.compile m.context slot.ty
          let m ← e.unify m expected argType
          return (m, ← e.compile m.context slot.ty)) s₁ := by
    intro m s₁ h₁ hm
    refine .bind (he.infer (hctx.mono h₁) (harg.mono h₁)) fun argType s₂ h₂ hargType => ?_
    have h₁₂ := h₁.trans h₂
    refine .bind (he.compile (hm.mono h₂).context (hslot.mono h₁₂)) fun expected s₃ h₃ _ => ?_
    have h₁₃ := h₁₂.trans h₃
    refine .bind (clean_unify (hm.mono (h₂.trans h₃)) expected (hargType.mono h₃))
      fun m s₄ h₄ hm => ?_
    refine .bind (he.compile hm.context (hslot.mono (h₁₃.trans h₄))) fun ty s₅ h₅ hty => ?_
    exact .pure ⟨hm.mono h₅, hty⟩
  unfold supply
  dsimp only
  split
  · exact .bind (clean_supplyComptime he hctx hm harg index slot) hrest
  · exact .bind (.pure hm) hrest

theorem clean_supplyAll {m : Matching} {args : List (TermId × Slot TermId)} (hctx : ctx.Tidy s)
    (hm : m.Tidy s) (hargs : ∀ p ∈ args, s.WellBound p.1 ∧ s.WellBound p.2.ty) (index : Nat) :
    Attempt.Clean (fun r s' => r.1.Tidy s' ∧ ∀ ty ∈ r.2, s'.WellBound ty)
      (e.supplyAll ctx m index args) s := by
  induction args generalizing s m index with
  | nil => exact .pure ⟨hm, by simp⟩
  | cons p rest ih =>
    obtain ⟨⟨harg, hslot⟩, hargs⟩ := List.forall_mem_cons.1 hargs
    refine .bind (clean_supply he hctx hm harg hslot index) fun r s₁ h₁ hr => ?_
    refine .bind (ih (hctx.mono h₁) hr.1 (fun q hq => ⟨(hargs q hq).1.mono h₁,
      (hargs q hq).2.mono h₁⟩) (index + 1)) fun q s₂ h₂ hq => .pure ⟨hq.1, ?_⟩
    exact List.forall_mem_cons.2 ⟨hr.2.mono h₂, hq.2⟩

theorem clean_reduceSlots {mode : Mode} {slots : List (Slot TermId)} (hctx : ctx.Tidy s)
    (hslots : s.Positions slots) :
    Attempt.Clean (fun slots' s' => s'.Positions slots') (e.reduceSlots mode ctx slots) s := by
  suffices htypes : ∀ {slots : List (Slot TermId)} {s : Store}, ctx.Tidy s →
      (∀ slot ∈ slots, s.WellBound slot.ty) →
      Attempt.Clean (fun slots' s' => slots'.map (·.binds) = slots.map (·.binds) ∧
        ∀ slot ∈ slots', s'.WellBound slot.ty) (e.reduceSlots mode ctx slots) s from
    (htypes hctx hslots.types).imp fun slots' s₁ h₁ h => hslots.retype h₁ h.1 h.2
  clear hslots hctx
  intro slots
  induction slots with
  | nil => exact fun _ _ => .pure ⟨rfl, by simp⟩
  | cons slot rest ih =>
    intro s hctx hslots
    obtain ⟨hslot, hslots⟩ := List.forall_mem_cons.1 hslots
    refine .bind (he.reduce hctx hslot) fun ty s₁ h₁ hty => ?_
    refine .bind (ih (hctx.mono h₁) fun slot' hslot' => (hslots slot' hslot').mono h₁)
      fun rest' s₂ h₂ hrest => .pure ⟨by simp [hrest.1], ?_⟩
    exact List.forall_mem_cons.2 ⟨hty.mono h₂, hrest.2⟩

omit he in
/-- The types of positions are compiled as they are in reduction. -/
theorem compileSlots_eq (ctx : Context) (slots : List (Slot TermId)) :
    e.compileSlots ctx slots = e.reduceSlots .compile ctx slots := by
  induction slots with
  | nil => rfl
  | cons slot rest ih =>
    unfold compileSlots reduceSlots
    rw [ih]
    rfl

theorem clean_resolve {callee : TermId} {args : List TermId} (hctx : ctx.Tidy s)
    (hcallee : s.WellBound callee) (hargs : ∀ arg ∈ args, s.WellBound arg) :
    Attempt.Clean (fun r s' => r.Tidy s') (e.resolve ctx callee args) s := by
  refine .bind (he.infer hctx hcallee) fun ty s₁ h₁ hty => ?_
  refine .bind (clean_functionParts hty) fun parts s₂ h₂ hparts => ?_
  obtain ⟨vars, params, result⟩ := parts
  obtain ⟨hdistinct, hvars, hparams, hresult⟩ := hparts
  have h₁₂ := h₁.trans h₂
  dsimp only at hdistinct hvars hparams hresult ⊢
  split
  · exact .fails rfl fun _ h => by cases h
  refine .bind (.bindQuantified (hctx.mono h₁₂) hdistinct hvars)
    fun quantified s₃ h₃ hquantified => ?_
  have h₁₃ := h₁₂.trans h₃
  have hstart : Matching.Tidy s₃ ⟨vars, quantified.child⟩ :=
    ⟨hquantified.1.child, hdistinct, fun v hv => h₃.lt_vars (hvars v hv),
      fun v _ => quantified.vacant_child v⟩
  refine .bind (clean_supplyAll he (hctx.mono h₁₃) hstart (fun p hp => ?_) 0)
    fun r s₄ h₄ hr => ?_
  · obtain ⟨harg, hslot⟩ := List.of_mem_zip hp
    exact ⟨(hargs p.1 harg).mono h₁₃, (hparams.types p.2 hslot).mono h₃⟩
  obtain ⟨hm, hsupplied⟩ := hr
  rw [compileSlots_eq]
  refine .bind (clean_reduceSlots he hm.context ((hparams.drop args.length).mono (h₃.trans h₄)))
    fun remaining s₅ h₅ hremaining => ?_
  have hcontext := hm.context.mono h₅
  refine .bind (he.compile hcontext (hresult.mono ((h₃.trans h₄).trans h₅)))
    fun result s₆ h₆ hresult => .pure ?_
  have h₅₆ := h₅.trans h₆
  refine ⟨fun ty hty => (hsupplied ty hty).mono h₅₆, hm.distinct,
    fun v hv => h₅₆.lt_vars (hm.owned v hv), fun b hb => ?_, hremaining.mono h₆, hresult⟩
  obtain ⟨v, -, hv⟩ := List.mem_filterMap.1 hb
  obtain ⟨value, hget, rfl⟩ := Option.map_eq_some_iff.1 hv
  exact (hm.context.get? hget).mono h₅₆

/-! ## The rules of inference -/

theorem clean_bindCompiled {lets : List (VarId × TermId)} (hctx : ctx.Tidy s)
    (hdistinct : (lets.map (·.1)).Nodup) (hvacant : ∀ b ∈ lets, ctx.Vacant b.1)
    (hlets : ∀ b ∈ lets, b.1.index < s.vars.size ∧ s.WellBound b.2) :
    Attempt.Clean (fun bound s' => bound.Tidy s' ∧
        ∀ w, w ∉ lets.map (·.1) → ctx.Vacant w → bound.Vacant w)
      (e.bindCompiled ctx lets) s := by
  induction lets generalizing s ctx with
  | nil => exact .pure ⟨hctx, fun _ _ hw => hw⟩
  | cons b rest ih =>
    obtain ⟨v, t⟩ := b
    obtain ⟨hnew, hrest⟩ := List.nodup_cons.1 hdistinct
    obtain ⟨hfirst, hvacant⟩ := List.forall_mem_cons.1 hvacant
    obtain ⟨⟨hv, ht⟩, hlets⟩ := List.forall_mem_cons.1 hlets
    refine .bind (he.compile hctx ht) fun value s₁ h₁ hvalue => ?_
    refine .bind (.bindContext (hctx.mono h₁) (h₁.lt_vars hv) hfirst hvalue)
      fun inner s₂ h₂ hinner => ?_
    have h₁₂ := h₁.trans h₂
    refine (ih hinner.1 hrest (fun b hb => hinner.2 b.1 ?_ (hvacant b hb)) fun b hb =>
      ⟨h₁₂.lt_vars (hlets b hb).1, (hlets b hb).2.mono h₁₂⟩).imp fun bound s₃ _ hbound =>
        ⟨hbound.1, fun w hw hold => ?_⟩
    · exact fun heq => hnew (List.mem_map.2 ⟨b, hb, heq⟩)
    · obtain ⟨hne, hw⟩ := not_or.1 (mt List.mem_cons.2 hw)
      exact hbound.2 w hw (hinner.2 w hne hold)

theorem clean_nativeCallee {callee : TermId} (hctx : ctx.Tidy s) (hcallee : s.WellBound callee) :
    Attempt.Clean Anything (e.nativeCallee ctx callee) s := by
  refine .reads rfl ?_
  split
  · exact .pure trivial
  · exact .pure trivial
  · exact .pure trivial
  · refine .bind (he.compile hctx hcallee) fun reduct s₁ _ _ => .reads rfl ?_
    split <;> exact .pure trivial

theorem clean_refinedType {callee : TermId} {args : List TermId} (hctx : ctx.Tidy s)
    (hcallee : s.WellBound callee) (hargs : ∀ arg ∈ args, s.WellBound arg) :
    Attempt.Clean (fun ty s' => ∀ t ∈ ty, s'.WellBound t) (e.refinedType ctx callee args) s := by
  refine .bind (clean_nativeCallee he hctx hcallee) fun id s₁ h₁ _ => ?_
  cases id with
  | none => exact .pure (by simp)
  | some id =>
    refine .withNeat fun hs => .reads rfl ?_
    cases hnative : s₁.native? id with
    | none => exact .pure (by simp)
    | some registered =>
      simp only [Option.bind_some]
      cases hhook : registered.native.resultType with
      | none => exact .pure (by simp)
      | some hook =>
        obtain ⟨captured, hcaptured, horderly⟩ := hs.orderly id registered hnative
        refine (clean_run he (horderly.resultType hook hhook args) (hctx.mono h₁)
          fun handle hhandle => ?_).imp fun ty s₂ _ hty t ht => ?_
        · rcases List.mem_append.1 hhandle with harg | hcapture
          · obtain ⟨arg, hmem, rfl⟩ := List.mem_map.1 harg
            exact (hargs arg hmem).mono h₁
          · exact hcaptured handle hcapture
        · obtain rfl : ty = some t := ht
          exact hty (.term t) (by simp)

theorem clean_inferApplication {callee : TermId} {args : List TermId} (hctx : ctx.Tidy s)
    (hcallee : s.WellBound callee) (hargs : ∀ arg ∈ args, s.WellBound arg) :
    Attempt.Clean Term (e.inferApplication ctx callee args) s := by
  refine .bind (clean_resolve he hctx hcallee hargs) fun r s₁ h₁ hr => ?_
  split
  · refine .bind (clean_refinedType he (hctx.mono h₁) (hcallee.mono h₁)
      fun arg harg => (hargs arg harg).mono h₁) fun ty s₂ h₂ hty => .pure ?_
    cases ty with
    | none => exact hr.result.mono h₂
    | some ty => exact hty ty rfl
  · refine .bind (hr.remaining.build hr.result) fun ty s₂ h₂ hty => ?_
    exact .quantify hr.distinct (fun v hv => h₂.lt_vars (hr.owned v hv)) hty

theorem clean_inferShape {t : TermId} (hctx : ctx.Tidy s) (ht : s.WellBound t) :
    Attempt.Clean Term (e.inferShape ctx t) s := by
  refine .withNeat fun hs => .reads rfl ?_
  cases hshape : s.shape t with
  | «variable» v =>
    dsimp only
    cases hget : ctx.get? v with
    | none => exact .reads rfl (.throws fun _ h => by cases h)
    | some value => exact he.infer hctx (hctx.get? hget)
  | abstraction lets params body =>
    have hparts := ht.abstracts hs.toCanonical hshape
    refine .bind (clean_bindCompiled he hctx.child hparts.letsDistinct
      (fun b _ => ctx.vacant_child b.1) hparts.lets) fun inner s₁ h₁ hinner => ?_
    refine .bind (clean_bindParams he hinner.1 hparts.paramsDistinct
      (fun p hp => hinner.2 p.1 (hparts.apart p hp) (ctx.vacant_child p.1)) fun p hp =>
        ⟨h₁.lt_vars (hparts.params p hp).1, (hparts.params p hp).2.mono h₁⟩)
      fun r s₂ h₂ hr => ?_
    obtain ⟨inner, params'⟩ := r
    obtain ⟨hinner, hvars, htypes⟩ := hr
    dsimp only at hinner hvars htypes ⊢
    have h₁₂ := h₁.trans h₂
    refine .bind (he.infer hinner (hparts.body.mono h₁₂)) fun bodyType s₃ h₃ hbodyType => ?_
    split
    · exact .pure hbodyType
    · refine clean_functionTypeOf (by rw [hvars]; exact hparts.paramsDistinct)
        (fun p hp => ⟨?_, ?_⟩) hbodyType
      · have hmem : p.1 ∈ params.map (·.1) := hvars ▸ List.mem_map_of_mem hp
        obtain ⟨q, hq, heq⟩ := List.mem_map.1 hmem
        rw [← heq]
        exact (h₁₂.trans h₃).lt_vars (hparts.params q hq).1
      · exact (htypes p hp).mono h₃
  | forAll vars body =>
    have hdistinct := (ht.parts hshape).1
    have hvars := ht.owns_binders hs.toCanonical hshape
    have hbody := ht.child hshape (List.mem_singleton_self body)
    refine .bind (.bindQuantified hctx hdistinct hvars) fun inner s₁ h₁ hinner => ?_
    refine .bind (he.infer hinner.1 (hbody.mono h₁)) fun ty s₂ h₂ hty => ?_
    exact .quantify hdistinct (fun v hv => (h₁.trans h₂).lt_vars (hvars v hv)) hty
  | application callee args =>
    have hchildren := (ht.parts hshape).2
    exact clean_inferApplication he hctx (hchildren callee List.mem_cons_self) fun arg harg =>
      hchildren arg (List.mem_cons_of_mem _ harg)
  | projection domain field =>
    have hdomain := ht.child hshape (List.mem_singleton_self domain)
    exact .bind (he.infer hctx hdomain) fun ty s₁ _ hty => clean_memberType hty field
  | cast subject target => exact he.compile hctx (ht.child hshape (by simp [Shape.children]))
  | stringLiteral value => exact .build rfl rfl (by simp [Shape.children])
  | numericLiteral value => exact .build rfl rfl (by simp [Shape.children])
  | unitValue ty => exact he.compile hctx (ht.child hshape (by simp [Shape.children]))
  | productValue ty fields => exact he.compile hctx (ht.child hshape (by simp [Shape.children]))
  | deferred ty availability => exact he.compile hctx (ht.child hshape (by simp [Shape.children]))
  | native id => exact .reads rfl (.pure (hs.nativeSignature id))
  | _ => exact .pure (hs.basic 0 (by decide))

theorem clean_inferStep {t : TermId} (hctx : ctx.Tidy s) (ht : s.WellBound t) :
    Attempt.Clean Term (e.inferStep ctx t) s := by
  refine .bind (.restrict hctx fun hctx hvalue => he.infer hctx hvalue)
    fun restriction s₁ h₁ _ => ?_
  exact .remembered (clean_inferShape he (hctx.mono h₁) (ht.mono h₁))

end Rules

end Engine

end StagedCalculus
