import Mathlib.Data.List.Basic
import StagedCalculus.Proofs.Staging.HiddenCall
import StagedCalculus.Proofs.Staging.Keeps
import StagedCalculus.Proofs.Staging.MatchingAlike
import StagedCalculus.Staging.Infer

/-!
# What inference keeps

This module follows the rules of inference over two engines whose own calls stay in step.

- `Engine.InStep`: the calls of two engines stay in step in contexts that are alike, inference is
  quiet in honest stores, and reduction is where in addition it makes no call of its own;
- `Engine.keeps_run`: so does a script that is careful and discreet;
- `Engine.keeps_resolve`, `Engine.keeps_inferStep`: so do resolution and one level of inference.
-/

namespace StagedCalculus

/-- Every term of a resolution is clear, and no variable of it is hidden. -/
structure Resolution.Clear (hidden : List VarId) (s : Store) (r : Resolution) : Prop where
  supplied : ∀ ty ∈ r.supplied, s.Clear hidden ty
  undetermined : ∀ v ∈ r.undetermined, v ∉ hidden
  determined : ∀ b ∈ r.determined, s.Clear hidden b.2
  remaining : ∀ slot ∈ r.remaining, s.Clear hidden slot.ty ∧ ∀ v ∈ slot.binds, v ∉ hidden
  result : s.Clear hidden r.result

namespace Resolution.Clear

variable {hidden : List VarId} {r : Resolution} {s s' : Store}

@[grind →]
theorem mono (h : r.Clear hidden s) (hgrows : s.GrowsTo s') : r.Clear hidden s' :=
  ⟨fun ty hty => hgrows.clear (h.supplied ty hty), h.undetermined,
    fun b hb => hgrows.clear (h.determined b hb),
    fun slot hslot => ⟨hgrows.clear (h.remaining slot hslot).1, (h.remaining slot hslot).2⟩,
    hgrows.clear h.result⟩

theorem clear_valueOf (h : r.Clear hidden s) (hs : s.Sound hidden) (v : VarId) :
    s.Clear hidden (r.valueOf v) := by
  unfold Resolution.valueOf
  cases hfind : r.determined.find? fun e => e.1 = v with
  | none => exact hs.commonClear 4 (by decide)
  | some e => exact h.determined e (List.mem_of_find?_eq_some hfind)

end Resolution.Clear

namespace Engine

open Attempt

/-- The calls of the two engines stay in step on plain terms and give clear ones. They are quiet in
later honest stores; reduction is so only if it makes no call of its own. -/
structure InStep (hidden : List VarId) (e e' : Engine) : Prop where
  levels : e'.levels = e.levels
  infer : ∀ {s ctx ctx' t}, ctx.Alike hidden s ctx' → s.Plain hidden t →
    Keeps Store.Honest hidden (SameClear hidden) (e.infer ctx t) (e'.infer ctx' t) s
  /-- Values of one known type have that type in any context. -/
  known : ∀ {s ctx ctx' value value' ty}, s.Knows value ty → s.Knows value' ty →
    Keeps Store.Honest hidden (SameClear hidden) (e.infer ctx value) (e'.infer ctx' value') s
  reduce : ∀ {s mode ctx ctx' t}, ctx.Alike hidden s ctx' → s.Plain hidden t →
    Keeps (fun final => final.Honest ∧ final.Calm mode t) hidden (SameClear hidden)
      (e.reduce mode ctx t) (e'.reduce mode ctx' t) s

variable {hidden : List VarId} {e e' : Engine} {quiet : Store → Prop} {s : Store}
  {ctx ctx' : Context}

section Calls

variable (he : InStep hidden e e') (hquiet : ∀ final, quiet final → final.Honest)

include he hquiet

theorem keeps_infer {t : TermId} (hctx : ctx.Alike hidden s ctx') (ht : s.Plain hidden t) :
    Keeps quiet hidden (SameClear hidden) (e.infer ctx t) (e'.infer ctx' t) s :=
  (he.infer hctx ht).quieter fun final _ _ hq => hquiet final hq

theorem keeps_inferClear {t : TermId} (hctx : ctx.Alike hidden s ctx') (ht : s.Clear hidden t) :
    Keeps quiet hidden (SameClear hidden) (e.infer ctx t) (e'.infer ctx' t) s :=
  .withSound fun hs => keeps_infer he hquiet hctx (ht.plain hs.toLinked)

theorem keeps_known {value value' ty : TermId} (hknows : s.Knows value ty)
    (hknows' : s.Knows value' ty) :
    Keeps quiet hidden (SameClear hidden) (e.infer ctx value) (e'.infer ctx' value') s :=
  (he.known hknows hknows').quieter fun final _ _ hq => hquiet final hq

theorem keeps_reduce {mode : Mode} {t : TermId} (hctx : ctx.Alike hidden s ctx')
    (ht : s.Plain hidden t) (hcalm : ∀ final, quiet final → final.Calm mode t) :
    Keeps quiet hidden (SameClear hidden) (e.reduce mode ctx t) (e'.reduce mode ctx' t) s :=
  (he.reduce hctx ht).quieter fun final _ _ hq => ⟨hquiet final hq, hcalm final hq⟩

theorem keeps_compile {t : TermId} (hctx : ctx.Alike hidden s ctx') (ht : s.Plain hidden t) :
    Keeps quiet hidden (SameClear hidden) (e.compile ctx t) (e'.compile ctx' t) s :=
  keeps_reduce he hquiet hctx ht fun _ _ => Or.inl rfl

theorem keeps_compileClear {t : TermId} (hctx : ctx.Alike hidden s ctx') (ht : s.Clear hidden t) :
    Keeps quiet hidden (SameClear hidden) (e.compile ctx t) (e'.compile ctx' t) s :=
  .withSound fun hs => keeps_compile he hquiet hctx (ht.plain hs.toLinked)

end Calls

/-! ## Matching -/

theorem keeps_unify (he : InStep hidden e e') {m m' : Matching} {expected arg : TermId}
    (hm : m.Alike hidden s m') (hexpected : s.Clear hidden expected) (harg : s.Clear hidden arg) :
    Keeps quiet hidden (fun m m' s' => m.Alike hidden s' m') (e.unify m expected arg)
      (e'.unify m' expected arg) s := by
  refine .withSound fun hs => ?_
  have hends := Store.keeps_unify hs.toLinked e.levels hexpected harg m m' hm
  unfold unify
  rw [he.levels]
  refine .reads rfl ?_
  rcases hrun : (s.unify e.levels expected arg).run m with ⟨result, m₁⟩
  rcases hrun' : (s.unify e.levels expected arg).run m' with ⟨result', m₁'⟩
  rw [hrun, hrun'] at hends
  obtain ⟨hresult, hstate⟩ := hends
  dsimp only at hresult hstate
  subst hresult
  cases result' with
  | error err => exact .fails rfl rfl
  | ok u => exact .pure hstate

/-! ## Scripts -/

/-- An answer tells clear and plain handles as it should, and a cast or projection that is built is
one of the operands it was built from. -/
theorem keeps_answer (he : InStep hidden e e') (hquiet : ∀ final, quiet final → final.Honest)
    (hctx : ctx.Alike hidden s ctx') {query : Query} {plain clear : List TermId}
    (hquery : query.Fits hidden plain clear) (hplain : ∀ t ∈ plain, s.Plain hidden t)
    (hclear : ∀ t ∈ clear, s.Clear hidden t)
    (hsilent : ∀ final, quiet final →
      query.isSilent = true ∨ ∃ t, query = .reduce .evaluate t ∧ final.Calm .evaluate t)
    (operands : List TermId) :
    Keeps quiet hidden
      (Same fun answer s' => (∀ t ∈ query.tellsClear clear answer, s'.Clear hidden t) ∧
        (∀ t ∈ query.tellsPlain answer, s'.Plain hidden t) ∧
        ∀ t ∈ query.operation operands answer,
          (s'.shape t).isOperation = true ∧ ∀ child ∈ (s'.shape t).children, child ∈ operands)
      (e.answer ctx query) (e'.answer ctx' query) s := by
  refine .withSound fun hs => ?_
  have hknown : ∀ t ∈ plain ++ clear, s.Plain hidden t := by
    intro t ht
    rcases List.mem_append.1 ht with ht | ht
    · exact hplain t ht
    · exact (hclear t ht).plain hs.toLinked
  cases query with
  | shape t =>
    have ht := hknown t (hquery t (by simp))
    refine .gives rfl ⟨fun child hchild => ?_, fun child hchild => ?_, by simp [Query.operation]⟩
    · simp only [Query.tellsClear] at hchild
      split at hchild
      · rename_i hmem
        exact (hclear t hmem).child hs.toLinked hchild
      · exact ht.typePart hs.toLinked hchild
    · exact ht.valuePart hs.toLinked hchild
  | intern layer =>
    obtain ⟨hvariables, htypes, hvalues⟩ := hquery
    refine (Keeps.internPlain hvariables (fun part hpart => hclear part (htypes part hpart))
      fun part hpart => hknown part (hvalues part hpart)).impSame fun t s' _ h => ?_
    obtain ⟨hplain', hclear', hshape⟩ := h
    refine ⟨fun u hu => ?_, fun u hu => ?_, fun u hu => ?_⟩
    · simp only [Query.tellsClear] at hu
      split at hu
      · rename_i hall
        rw [List.mem_singleton.1 hu]
        exact hclear' fun child hchild => hclear child (hall child hchild)
      · cases hu
    · rw [List.mem_singleton.1 hu]
      exact hplain'
    · simp only [Query.operation] at hu
      split at hu
      · rename_i hop
        rw [List.mem_singleton.1 hu,
          hshape fun body hbody => by simp [hbody, Shape.isOperation] at hop]
        exact hop
      · cases hu
  | freshVariable comptime name =>
    exact (Keeps.freshVariable comptime name).impSame fun _ _ _ _ => by simp [Query.operation]
  | infer t =>
    refine (keeps_infer he hquiet hctx (hknown t (hquery t (by simp)))).impSame fun ty s' _ h => ?_
    exact ⟨by simpa using h, by simp, by simp [Query.operation]⟩
  | reduce mode t =>
    refine (keeps_reduce he hquiet hctx (hknown t (hquery t (by simp))) fun final hq => ?_).impSame
      fun r s' _ h => ⟨by simpa using h, by simp, by simp [Query.operation]⟩
    cases mode with
    | compile => exact Or.inl rfl
    | evaluate =>
      rcases hsilent final hq with hsilent | ⟨u, hu, hcalm⟩
      · cases hsilent
      · cases hu
        exact hcalm
  | isValue t => exact .gives rfl (by simp [Query.operation])
  | builtin name =>
    refine (Keeps.builtin name).impSame fun leaf s' _ h => ⟨?_, by simp, by simp [Query.operation]⟩
    exact fun t ht => h t (by simpa using ht)
  | signature id =>
    refine .gives rfl ⟨fun t ht => ?_, by simp, by simp [Query.operation]⟩
    rw [List.mem_singleton.1 ht]
    exact hs.clear_signature id
  | display t => exact .gives rfl (by simp [Query.operation])
  | write text =>
    refine (Keeps.write fun final _ _ hq => ?_).impSame fun _ _ _ _ => by simp [Query.operation]
    rcases hsilent final hq with hsilent | ⟨t, ht, -⟩
    · cases hsilent
    · cases ht

/-- A careful script stays in step; it is quiet where it is discreet, its operands are values, and
what it has built of them so far holds no call. -/
theorem keeps_run {α : Type} {handles : α → List TermId} {script : Script α}
    {plain clear : List TermId} (operands built : List TermId) (he : InStep hidden e e')
    (hctx : ctx.Alike hidden s ctx') (hcareful : script.Careful hidden handles plain clear)
    (hplain : ∀ t ∈ plain, s.Plain hidden t) (hclear : ∀ t ∈ clear, s.Clear hidden t)
    (hquiet : ∀ final, quiet final → final.Honest ∧ script.Discreet operands built ∧
      (∀ t ∈ operands, final.isValue t = true) ∧ ∀ t ∈ built, final.holdsCall t = false) :
    Keeps quiet hidden (Same fun value s' => ∀ t ∈ handles value, s'.Clear hidden t)
      (e.run ctx script) (e'.run ctx' script) s := by
  induction script generalizing s plain clear built quiet with
  | done value => exact .done fun t ht => hclear t (hcareful t ht)
  | fail error => exact .fails rfl rfl
  | ask query next ih =>
    have hsilent : ∀ final, quiet final →
        query.isSilent = true ∨ ∃ t, query = .reduce .evaluate t ∧ final.Calm .evaluate t := by
      intro final hq
      obtain ⟨hhonest, hdiscreet, hvalues, hbuilt⟩ := hquiet final hq
      rcases hdiscreet.1 with hsilent | ⟨t, ht, hreduce⟩
      · exact Or.inl hsilent
      · exact Or.inr ⟨t, hreduce, Or.inr (hbuilt t ht)⟩
    have hhonest : ∀ final, quiet final → final.Honest := fun final hq => (hquiet final hq).1
    refine .bindSame (keeps_answer he hhonest hctx hcareful.1 hplain hclear hsilent operands)
      fun answer s₁ h₁ hfacts => ?_
    have hmorePlain : ∀ t ∈ query.tellsPlain answer ++ plain, s₁.Plain hidden t := by
      intro t ht
      rcases List.mem_append.1 ht with ht | ht
      · exact hfacts.2.1 t ht
      · exact h₁.plain (hplain t ht)
    have hmoreClear : ∀ t ∈ query.tellsClear clear answer ++ clear, s₁.Clear hidden t := by
      intro t ht
      rcases List.mem_append.1 ht with ht | ht
      · exact hfacts.1 t ht
      · exact h₁.clear (hclear t ht)
    -- What the answer built is still there in any later store, and holds no call there.
    have hlater : ∀ final, s₁.Extends final ∧ quiet final → final.Honest ∧
        (next answer).Discreet operands (query.operation operands answer ++ built) ∧
        (∀ t ∈ operands, final.isValue t = true) ∧
        ∀ t ∈ query.operation operands answer ++ built, final.holdsCall t = false := by
      intro final hq
      obtain ⟨hhonest, hdiscreet, hvalues, hbuilt⟩ := hquiet final hq.2
      refine ⟨hhonest, hdiscreet.2 answer, hvalues, fun t ht => ?_⟩
      rcases List.mem_append.1 ht with ht | ht
      · obtain ⟨hop, hoperands⟩ := hfacts.2.2 t ht
        have hshape : final.shape t = s₁.shape t :=
          hq.1.shape_eq
            (Store.allocated_of_shape fun heq => by simp [heq, Shape.isOperation] at hop)
        rw [← hshape] at hop hoperands
        exact Store.holdsCall_operation hhonest.smugglers hop fun child hchild =>
          hvalues child (hoperands child hchild)
      · exact hbuilt t ht
    have hrest : Keeps (fun final => s₁.Extends final ∧ quiet final) hidden
        (Same fun value s' => ∀ t ∈ handles value, s'.Clear hidden t) (e.run ctx (next answer))
        (e'.run ctx' (next answer)) s₁ :=
      ih answer _ (hctx.mono h₁) (hcareful.2 answer) hmorePlain hmoreClear hlater
    exact hrest.quieter fun final hle _ hq => ⟨hle, hq⟩

section Rules

variable (he : InStep hidden e e') (hquiet : ∀ final, quiet final → final.Honest)

/-! ## Parameters -/

include he hquiet

theorem keeps_bindParams {params : List (VarId × TermId)} (hctx : ctx.Paired hidden s ctx')
    (hparams : ∀ p ∈ params, p.1 ∉ hidden ∧ s.Clear hidden p.2) :
    Keeps quiet hidden
      (fun r r' s' => r.1.Paired hidden s' r'.1 ∧ r'.2 = r.2 ∧
        ∀ p ∈ r.2, p.1 ∉ hidden ∧ s'.Clear hidden p.2)
      (e.bindParams ctx params) (e'.bindParams ctx' params) s := by
  induction params generalizing s ctx ctx' with
  | nil => exact .pure ⟨hctx, rfl, by simp⟩
  | cons p rest ih =>
    obtain ⟨hv, hp⟩ := hparams p (by simp)
    refine .bindSame (keeps_compileClear he hquiet hctx.toAlike hp) fun ty s₁ h₁ hty => ?_
    refine .reads rfl (.bindSame (Keeps.build rfl (by simpa [Shape.children] using hty))
      fun placeholder s₂ h₂ hplaceholder => ?_)
    refine .bind (Keeps.bindContext (by grind) hplaceholder hv) fun ctx ctx' s₃ h₃ hctx₃ => ?_
    refine .bind (ih hctx₃ fun q hq => ?_) fun r r' s₄ h₄ hr => ?_
    · obtain ⟨hv', hq'⟩ := hparams q (by simp [hq])
      exact ⟨hv', by grind⟩
    · obtain ⟨ctx, params⟩ := r
      obtain ⟨ctx', params'⟩ := r'
      obtain ⟨hctx₄, hsame, hrest⟩ := hr
      dsimp only at hsame
      subst hsame
      refine .pure ⟨hctx₄, rfl, fun q hq => ?_⟩
      rcases List.mem_cons.1 hq with rfl | hq
      · exact ⟨hv, by grind⟩
      · exact hrest q hq

/-! ## Resolution -/

omit he hquiet in
theorem keeps_knownAtCompileTime {value : TermId} (hctx : ctx.Alike hidden s ctx')
    (hvalue : s.Clear hidden value) :
    Keeps quiet hidden (Same fun _ _ => True) (knownAtCompileTime ctx value)
      (knownAtCompileTime ctx' value) s := by
  refine .withSound fun hs => .reads rfl ?_
  split
  · exact .done trivial
  · refine .reads rfl ?_
    split
    · rename_i v hshape
      have hv : v ∉ hidden := hvalue.not_mem hs.toLinked (by
        simp [hshape, Shape.ownVars, Shape.leaf])
      rw [hctx.same v hv]
      split
      · refine .reads rfl ?_
        split
        · exact .done trivial
        · exact .done trivial
      · exact .done trivial
    · exact .done trivial

theorem keeps_supplyComptime {m m' : Matching} {index : Nat} {arg : TermId} {slot : Slot TermId}
    (hctx : ctx.Alike hidden s ctx') (hm : m.Alike hidden s m') (harg : s.Plain hidden arg) :
    Keeps quiet hidden (fun m m' s' => m.Alike hidden s' m') (e.supplyComptime ctx m index arg slot)
      (e'.supplyComptime ctx' m' index arg slot) s := by
  refine .bindSame (keeps_compile he hquiet hctx harg) fun value s₁ h₁ hvalue => ?_
  refine .bindSame (keeps_knownAtCompileTime (hctx.mono h₁) hvalue) fun known s₂ h₂ _ => ?_
  have hm₂ : m.Alike hidden s₂ m' := hm.mono (h₁.trans h₂)
  dsimp only
  cases known with
  | false => exact .fails rfl rfl
  | true =>
    simp only [Bool.not_true, Bool.false_eq_true, if_false]
    split
    · rename_i v _
      rw [hm₂.undetermined]
      split
      · rename_i hv
        refine .bind (Keeps.bindContext hm₂.context (h₂.clear hvalue) (hm₂.shown v hv))
          fun context context' s₃ h₃ hcontext => .pure ?_
        exact (hm₂.mono h₃).determine hcontext v
      · exact .pure hm₂
    · exact .pure hm₂

theorem keeps_supply {m m' : Matching} {index : Nat} {arg : TermId} {slot : Slot TermId}
    (hctx : ctx.Alike hidden s ctx') (hm : m.Alike hidden s m') (harg : s.Plain hidden arg)
    (hslot : s.Clear hidden slot.ty) :
    Keeps quiet hidden (fun r r' s' => r.1.Alike hidden s' r'.1 ∧ r'.2 = r.2 ∧ s'.Clear hidden r.2)
      (e.supply ctx m index arg slot) (e'.supply ctx' m' index arg slot) s := by
  -- Whether or not the position is comptime, the rest goes on from a state of matching.
  have hrest : ∀ (m m' : Matching) s₁, s.GrowsTo s₁ → m.Alike hidden s₁ m' →
      Keeps quiet hidden
        (fun (r r' : Matching × TermId) s' =>
          r.1.Alike hidden s' r'.1 ∧ r'.2 = r.2 ∧ s'.Clear hidden r.2)
        (do
          let argType ← e.infer ctx arg
          let expected ← e.compile m.context slot.ty
          let m ← e.unify m expected argType
          return (m, ← e.compile m.context slot.ty))
        (do
          let argType ← e'.infer ctx' arg
          let expected ← e'.compile m'.context slot.ty
          let m ← e'.unify m' expected argType
          return (m, ← e'.compile m.context slot.ty)) s₁ := by
    intro m m' s₁ h₁ hm₁
    refine .bindSame (keeps_infer he hquiet (hctx.mono h₁) (h₁.plain harg))
      fun argType s₂ h₂ hargType => ?_
    refine .bindSame (keeps_compileClear he hquiet (hm₁.mono h₂).context.toAlike (by grind))
      fun expected s₃ h₃ hexpected => ?_
    refine .bind (keeps_unify he (by grind) hexpected (by grind)) fun m m' s₄ h₄ hm₄ => ?_
    refine .bindSame (keeps_compileClear he hquiet hm₄.context.toAlike (by grind))
      fun ty s₅ h₅ hty => ?_
    exact .pure ⟨hm₄.mono h₅, rfl, hty⟩
  unfold supply
  dsimp only
  split
  · exact .bind (keeps_supplyComptime he hquiet hctx hm harg) hrest
  · exact .bind (.pure hm) hrest

theorem keeps_supplyAll {m m' : Matching} {index : Nat} {args : List (TermId × Slot TermId)}
    (hctx : ctx.Alike hidden s ctx') (hm : m.Alike hidden s m')
    (hargs : ∀ p ∈ args, s.Plain hidden p.1 ∧ s.Clear hidden p.2.ty) :
    Keeps quiet hidden
      (fun r r' s' => r.1.Alike hidden s' r'.1 ∧ r'.2 = r.2 ∧ ∀ ty ∈ r.2, s'.Clear hidden ty)
      (e.supplyAll ctx m index args) (e'.supplyAll ctx' m' index args) s := by
  induction args generalizing s m m' index with
  | nil => exact .pure ⟨hm, rfl, by simp⟩
  | cons p rest ih =>
    obtain ⟨harg, hslot⟩ := hargs p (by simp)
    refine .bind (keeps_supply he hquiet hctx hm harg hslot) fun r r' s₁ h₁ hr => ?_
    obtain ⟨m, ty⟩ := r
    obtain ⟨m', ty'⟩ := r'
    obtain ⟨hm₁, hsame, hty⟩ := hr
    dsimp only at hsame
    subst hsame
    refine .bind (ih (hctx.mono h₁) hm₁ fun q hq => ?_) fun r r' s₂ h₂ hr => ?_
    · obtain ⟨harg', hslot'⟩ := hargs q (by simp [hq])
      exact ⟨h₁.plain harg', h₁.clear hslot'⟩
    · obtain ⟨m, types⟩ := r
      obtain ⟨m', types'⟩ := r'
      obtain ⟨hm₂, hsame, htypes⟩ := hr
      dsimp only at hsame
      subst hsame
      refine .pure ⟨hm₂, rfl, fun u hu => ?_⟩
      rcases List.mem_cons.1 hu with rfl | hu
      · exact h₂.clear hty
      · exact htypes u hu

theorem keeps_compileSlots {slots : List (Slot TermId)} (hctx : ctx.Alike hidden s ctx')
    (hslots : ∀ slot ∈ slots, s.Clear hidden slot.ty ∧ ∀ v ∈ slot.binds, v ∉ hidden) :
    Keeps quiet hidden
      (Same fun slots s' => ∀ slot ∈ slots, s'.Clear hidden slot.ty ∧ ∀ v ∈ slot.binds, v ∉ hidden)
      (e.compileSlots ctx slots) (e'.compileSlots ctx' slots) s := by
  induction slots generalizing s with
  | nil => exact .done (by simp)
  | cons slot rest ih =>
    obtain ⟨hslot, hbinds⟩ := hslots slot (by simp)
    refine .bindSame (keeps_compileClear he hquiet hctx hslot) fun ty s₁ h₁ hty => ?_
    refine .bindSame (ih (hctx.mono h₁) fun q hq => ?_) fun rest s₂ h₂ hrest => ?_
    · obtain ⟨hq', hbinds'⟩ := hslots q (by simp [hq])
      exact ⟨h₁.clear hq', hbinds'⟩
    · refine .done fun q hq => ?_
      rcases List.mem_cons.1 hq with rfl | hq
      · exact ⟨h₂.clear hty, hbinds⟩
      · exact hrest q hq

omit he hquiet in
/-- The parts of a clear function type are clear. -/
theorem keeps_functionParts {ty : TermId} (hty : s.Clear hidden ty) :
    Keeps quiet hidden
      (Same fun r s' => (∀ v ∈ r.1, v ∉ hidden) ∧
        (∀ slot ∈ r.2.1, s'.Clear hidden slot.ty ∧ ∀ v ∈ slot.binds, v ∉ hidden) ∧
        s'.Clear hidden r.2.2)
      (functionParts ty) (functionParts ty) s := by
  refine .withSound fun hs => .reads rfl ?_
  have hfunction : ∀ function params result, s.Clear hidden function →
      s.shape function = .functionType params result →
      (∀ slot ∈ params, s.Clear hidden slot.ty ∧ ∀ v ∈ slot.binds, v ∉ hidden) ∧
        s.Clear hidden result := by
    intro function params result hclear hshape
    refine ⟨fun slot hslot => ⟨hclear.child hs.toLinked ?_, fun v hv => ?_⟩,
      hclear.child hs.toLinked (by simp [hshape, Shape.children])⟩
    · simpa [hshape, Shape.children] using Or.inl ⟨slot, hslot, rfl⟩
    · refine hclear.not_mem hs.toLinked ?_
      simpa [hshape, Shape.ownVars, Shape.leaf, Shape.binders] using ⟨slot, hslot, hv⟩
  dsimp only
  split
  · rename_i vars body hquantified
    have hvars : ∀ v ∈ vars, v ∉ hidden := fun v hv => hty.not_mem hs.toLinked (by
      simpa [hquantified, Shape.ownVars, Shape.leaf, Shape.binders] using hv)
    have hbody : s.Clear hidden body :=
      hty.child hs.toLinked (by simp [hquantified, Shape.children])
    refine .reads rfl (.reads rfl ?_)
    split
    · rename_i hshape
      exact .done ⟨hvars, hfunction body _ _ hbody hshape⟩
    · exact .reads rfl (.fails rfl rfl)
  · refine .reads rfl (.reads rfl ?_)
    split
    · rename_i hshape
      exact .done ⟨by simp, hfunction ty _ _ hty hshape⟩
    · exact .reads rfl (.fails rfl rfl)

theorem keeps_resolve {callee : TermId} {args : List TermId} (hctx : ctx.Alike hidden s ctx')
    (hcallee : s.Plain hidden callee) (hargs : ∀ arg ∈ args, s.Plain hidden arg) :
    Keeps quiet hidden (Same fun r s' => r.Clear hidden s') (e.resolve ctx callee args)
      (e'.resolve ctx' callee args) s := by
  refine .bindSame (keeps_infer he hquiet hctx hcallee) fun ty s₁ h₁ hty => ?_
  refine .bindSame (keeps_functionParts hty) fun parts s₂ h₂ hparts => ?_
  obtain ⟨vars, params, result⟩ := parts
  obtain ⟨hvars, hparams, hresult⟩ := hparts
  dsimp only at hvars hparams hresult ⊢
  split
  · exact .fails rfl rfl
  refine .bind (Keeps.bindQuantified (hctx.mono (h₁.trans h₂)).child hvars)
    fun quantified quantified' s₃ h₃ hquantified => ?_
  refine .bind (keeps_supplyAll he hquiet (by grind)
    ⟨rfl, hvars, hquantified.toAlike.child⟩ fun p hp => ?_) fun r r' s₄ h₄ hr => ?_
  · have hmem := List.of_mem_zip hp
    exact ⟨by grind, h₃.clear (hparams p.2 hmem.2).1⟩
  obtain ⟨m, supplied⟩ := r
  obtain ⟨m', supplied'⟩ := r'
  obtain ⟨hm, hsame, hsupplied⟩ := hr
  dsimp only at hsame hm hsupplied ⊢
  subst hsame
  refine .bindSame (keeps_compileSlots he hquiet hm.context.toAlike fun slot hslot => ?_)
    fun remaining s₅ h₅ hremaining => ?_
  · obtain ⟨hslot', hbinds⟩ := hparams slot (List.mem_of_mem_drop hslot)
    exact ⟨by grind, hbinds⟩
  refine .bindSame (keeps_compileClear he hquiet (hm.context.mono h₅).toAlike (by grind))
    fun result s₆ h₆ hresult => ?_
  -- Both sides determine the same variables, and these are bound to the same values.
  have hdetermined : ∀ undetermined : List VarId,
      ((vars.filter (· ∉ undetermined)).filterMap fun v =>
        (m'.context.get? v).map fun value => (v, value)) =
      (vars.filter (· ∉ undetermined)).filterMap fun v =>
        (m.context.get? v).map fun value => (v, value) := by
    refine fun undetermined => List.filterMap_congr fun v hv => ?_
    rw [hm.context.same v (hvars v (List.mem_filter.1 hv).1)]
  rw [hm.undetermined, hdetermined]
  have hgrows : s₄.GrowsTo s₆ := h₅.trans h₆
  refine .done ⟨fun u hu => hgrows.clear (hsupplied u hu), hm.shown, fun b hb => ?_,
    fun slot hslot => ⟨h₆.clear (hremaining slot hslot).1, (hremaining slot hslot).2⟩, hresult⟩
  simp only [List.mem_filterMap, Option.map_eq_some_iff] at hb
  obtain ⟨v, hv, value, hvalue, rfl⟩ := hb
  exact hgrows.clear (hm.context.clear v value (hvars v (List.mem_filter.1 hv).1) hvalue)

/-! ## The rules of inference -/

omit he hquiet in
theorem keeps_memberType {ty : TermId} {field : String} (hty : s.Clear hidden ty) :
    Keeps quiet hidden (SameClear hidden) (memberType ty field) (memberType ty field) s := by
  refine .withSound fun hs => .reads rfl ?_
  split
  · rename_i members hshape
    split
    · rename_i name memberTy hfind
      refine .done (hty.child hs.toLinked ?_)
      have hmem := List.mem_of_find?_eq_some hfind
      simpa [hshape, Shape.children] using ⟨_, hmem⟩
    · exact .fails rfl rfl
  · exact .reads rfl (.fails rfl rfl)

theorem keeps_bindCompiled {lets : List (VarId × TermId)} (hctx : ctx.Paired hidden s ctx')
    (hlets : ∀ b ∈ lets, b.1 ∉ hidden ∧ s.Plain hidden b.2) :
    Keeps quiet hidden (fun ctx ctx' s' => ctx.Paired hidden s' ctx') (e.bindCompiled ctx lets)
      (e'.bindCompiled ctx' lets) s := by
  induction lets generalizing s ctx ctx' with
  | nil => exact .pure hctx
  | cons b rest ih =>
    obtain ⟨hv, hb⟩ := hlets b (by simp)
    refine .bindSame (keeps_compile he hquiet hctx.toAlike hb) fun value s₁ h₁ hvalue => ?_
    refine .bind (Keeps.bindContext (hctx.mono h₁) hvalue hv) fun ctx ctx' s₂ h₂ hctx₂ => ?_
    refine ih hctx₂ fun q hq => ?_
    obtain ⟨hv', hq'⟩ := hlets q (by simp [hq])
    exact ⟨hv', by grind⟩

omit he hquiet in
theorem keeps_plainSlots {params : List (VarId × TermId)}
    (hparams : ∀ p ∈ params, s.Clear hidden p.2) :
    Keeps quiet hidden
      (Same fun slots s' => ∀ slot ∈ slots, s'.Clear hidden slot.ty ∧ slot.binds = none)
      (plainSlots params) (plainSlots params) s := by
  induction params generalizing s with
  | nil => exact .done (by simp)
  | cons p rest ih =>
    refine .reads rfl (.bindSame (ih fun q hq => hparams q (by simp [hq]))
      fun slots s₁ h₁ hslots => .done fun slot hslot => ?_)
    rcases List.mem_cons.1 hslot with rfl | hslot
    · exact ⟨h₁.clear (hparams p (by simp)), rfl⟩
    · exact hslots slot hslot

omit he hquiet in
theorem markDependent_ty (free : FreeVariables) (v : VarId) (slot : Slot TermId) :
    (markDependent free v slot).ty = slot.ty := by
  unfold markDependent
  split <;> rfl

omit he hquiet in
/-- A position is marked with its own parameter only. -/
theorem markDependent_binds {free : FreeVariables} {v w : VarId} {slot : Slot TermId}
    (hslot : slot.binds = none) (hw : w ∈ (markDependent free v slot).binds) : w = v := by
  unfold markDependent at hw
  split at hw
  · exact (Option.some.inj hw).symm
  · rw [hslot] at hw
    cases hw

omit he hquiet in
theorem keeps_functionTypeOf {params : List (VarId × TermId)} {result : TermId}
    (hparams : ∀ p ∈ params, p.1 ∉ hidden ∧ s.Clear hidden p.2) (hresult : s.Clear hidden result) :
    Keeps quiet hidden (SameClear hidden) (functionTypeOf params result)
      (functionTypeOf params result) s := by
  refine .bindSame (keeps_plainSlots fun p hp => (hparams p hp).2) fun slots s₁ h₁ hslots => ?_
  refine .bindSame (Keeps.intern (fun v hv => ?_) fun child hchild => ?_)
    fun plain s₂ h₂ _ => .reads rfl ?_
  · obtain ⟨slot, hslot, hv⟩ := Shape.mem_ownVars_functionType.1 hv
    rw [(hslots slot hslot).2] at hv
    cases hv
  · simp only [Shape.children, List.mem_append, List.mem_map, List.mem_singleton] at hchild
    rcases hchild with ⟨slot, hslot, rfl⟩ | rfl
    · exact (hslots slot hslot).1
    · exact h₁.clear hresult
  -- Every variable that the marked positions supply is a parameter.
  have hmarked : ∀ (free : FreeVariables) slot,
      slot ∈ (params.zip slots).map (fun e => markDependent free e.1.1 e.2) →
      s₂.Clear hidden slot.ty ∧ ∀ v ∈ slot.binds, v ∉ hidden := by
    intro free slot hslot
    obtain ⟨⟨p, plainSlot⟩, hmem, rfl⟩ := List.mem_map.1 hslot
    obtain ⟨hp, hplain⟩ := List.of_mem_zip hmem
    refine ⟨?_, fun v hv => ?_⟩
    · rw [markDependent_ty]
      exact h₂.clear (hslots plainSlot hplain).1
    · rw [markDependent_binds (hslots plainSlot hplain).2 hv]
      exact (hparams p hp).1
  refine .bindSame (Keeps.intern (fun v hv => ?_) fun child hchild => ?_)
    fun marked s₃ h₃ hclear => ?_
  · obtain ⟨slot, hslot, hv⟩ := Shape.mem_ownVars_functionType.1 hv
    exact (hmarked _ slot hslot).2 v hv
  · simp only [Shape.children, List.mem_append, List.mem_map, List.mem_singleton] at hchild
    rcases hchild with ⟨slot, ⟨e, hmem, rfl⟩, rfl⟩ | rfl
    · exact (hmarked _ _ (List.mem_map_of_mem hmem)).1
    · exact (h₁.trans h₂).clear hresult
  · refine Keeps.intern (fun v hv => ?_) (by simpa [Shape.children] using hclear)
    obtain ⟨slot, hslot, hv⟩ := List.mem_filterMap.1 hv
    exact (hmarked _ slot hslot).2 v hv

theorem keeps_nativeCallee {callee : TermId} (hctx : ctx.Alike hidden s ctx')
    (hcallee : s.Plain hidden callee) :
    Keeps quiet hidden (Same fun _ _ => True) (e.nativeCallee ctx callee)
      (e'.nativeCallee ctx' callee) s := by
  refine .reads rfl ?_
  split
  · exact .done trivial
  · exact .done trivial
  · exact .done trivial
  · refine .bindSame (keeps_compile he hquiet hctx hcallee) fun reduct s₁ h₁ _ => .reads rfl ?_
    split
    · exact .done trivial
    · exact .done trivial

/-- The hook of a native asks for no evaluation, so it needs no operands. Its arguments are not
reduced, so they are plain at most. -/
theorem keeps_refinedType {callee : TermId} {args : List TermId} (hctx : ctx.Alike hidden s ctx')
    (hcallee : s.Plain hidden callee) (hargs : ∀ arg ∈ args, s.Plain hidden arg) :
    Keeps quiet hidden (Same fun ty s' => ∀ t ∈ ty, s'.Clear hidden t)
      (e.refinedType ctx callee args) (e'.refinedType ctx' callee args) s := by
  refine .bindSame (keeps_nativeCallee he hquiet hctx hcallee) fun id s₁ h₁ _ => ?_
  split
  · exact .done (by simp)
  · rename_i id
    refine .withSound fun hs₁ => .reads rfl ?_
    split
    · rename_i hook hhook
      obtain ⟨registered, hregistered, hhook⟩ := Option.bind_eq_some_iff.1 hhook
      obtain ⟨captured, hcaptured, hcareful⟩ := hs₁.careful id registered hregistered
      have hdiscreet : ∀ final, s₁.Extends final ∧ quiet final → final.Honest ∧
          (hook args).Discreet [] [] ∧ (∀ t ∈ [], final.isValue t = true) ∧
          ∀ t ∈ [], final.holdsCall t = false := by
        intro final hq
        have hhonest := hquiet final hq.2
        have hnative := hhonest.natives id registered (hq.1.native?_eq hregistered)
        exact ⟨hhonest, hnative.resultType hook hhook args, by simp, by simp⟩
      have hrun : Keeps (fun final => s₁.Extends final ∧ quiet final) hidden
          (Same fun ty s' => ∀ t ∈ ty.toList, s'.Clear hidden t) (e.run ctx (hook args))
          (e'.run ctx' (hook args)) s₁ := by
        rcases hcareful with ⟨rfl, hconfined⟩ | hcareful
        · refine keeps_run [] [] he (hctx.mono h₁)
            ((hconfined.resultType hook hhook args).careful (List.Subset.refl _)) nofun
            (fun t ht => ?_) hdiscreet
          rcases List.mem_append.1 ht with ht | ht
          · exact .nil (h₁.allocated (hargs t ht).allocated)
          · exact hcaptured t ht
        · exact keeps_run [] [] he (hctx.mono h₁) (hcareful.resultType hook hhook args)
            (fun t ht => h₁.plain (hargs t ht)) hcaptured hdiscreet
      exact (hrun.quieter fun final hle _ hq => ⟨hle, hq⟩).impSame fun ty s₂ _ hty t ht =>
        hty t (by simpa using ht)
    · exact .done (by simp)

theorem keeps_inferApplication {callee : TermId} {args : List TermId}
    (hctx : ctx.Alike hidden s ctx') (hcallee : s.Plain hidden callee)
    (hargs : ∀ arg ∈ args, s.Plain hidden arg) :
    Keeps quiet hidden (SameClear hidden) (e.inferApplication ctx callee args)
      (e'.inferApplication ctx' callee args) s := by
  refine .bindSame (keeps_resolve he hquiet hctx hcallee hargs) fun r s₁ h₁ hr => ?_
  split
  · refine .bindSame (keeps_refinedType he hquiet (hctx.mono h₁) (h₁.plain hcallee)
      fun arg harg => h₁.plain (hargs arg harg)) fun refined s₂ h₂ hrefined => .done ?_
    cases refined with
    | none => exact h₂.clear hr.result
    | some ty => exact hrefined ty rfl
  · refine .bindSame (Keeps.intern (fun v hv => ?_) fun child hchild => ?_)
      fun ty s₂ h₂ hty => Keeps.quantify hr.undetermined hty
    · obtain ⟨slot, hslot, hv⟩ := Shape.mem_ownVars_functionType.1 hv
      exact (hr.remaining slot hslot).2 v hv
    · simp only [Shape.children, List.mem_append, List.mem_map, List.mem_singleton] at hchild
      rcases hchild with ⟨slot, hslot, rfl⟩ | rfl
      · exact (hr.remaining slot hslot).1
      · exact hr.result

/-- The type of a hidden variable is that of its values. Every other variable is bound to the same
clear term on both sides. -/
theorem keeps_inferShape {t : TermId} (hctx : ctx.Alike hidden s ctx') (ht : s.Plain hidden t) :
    Keeps quiet hidden (SameClear hidden) (e.inferShape ctx t) (e'.inferShape ctx' t) s := by
  refine .withSound fun hs => .reads rfl ?_
  have htypes : ∀ part ∈ (s.shape t).typeParts, s.Clear hidden part := fun part hpart =>
    ht.typePart hs.toLinked hpart
  have hvalues : ∀ part ∈ (s.shape t).valueParts, s.Plain hidden part := fun part hpart =>
    ht.valuePart hs.toLinked hpart
  have hbinders : ∀ v ∈ (s.shape t).binders, v ∉ hidden := fun v hv => ht.binder hs.toLinked hv
  split
  all_goals
    rename_i hshape
    rw [hshape] at htypes hvalues hbinders
  · rename_i v
    by_cases hv : v ∈ hidden
    · have htwins := hctx.twins v hv
      generalize ctx.get? v = value, ctx'.get? v = value' at htwins ⊢
      cases htwins with
      | unbound => exact .reads rfl (.fails rfl rfl)
      | typed hknows hknows' => exact keeps_known he hquiet hknows hknows'
    · rw [hctx.same v hv]
      split
      · rename_i value hvalue
        exact keeps_inferClear he hquiet hctx (hctx.clear v value hv hvalue)
      · exact .reads rfl (.fails rfl rfl)
  · rename_i lets params body
    have hlets : ∀ b ∈ lets, b.1 ∉ hidden ∧ s.Plain hidden b.2 := fun b hb =>
      ⟨hbinders b.1 (by simp [Shape.binders]; grind),
        hvalues b.2 (by simp [Shape.valueParts]; grind)⟩
    have hparams : ∀ p ∈ params, p.1 ∉ hidden ∧ s.Clear hidden p.2 := fun p hp =>
      ⟨hbinders p.1 (by simp [Shape.binders]; grind), htypes p.2 (List.mem_map_of_mem hp)⟩
    have hbody : s.Plain hidden body := hvalues body (by simp [Shape.valueParts])
    refine .bind (keeps_bindCompiled he hquiet hctx.child hlets)
      fun inner inner' s₁ h₁ hinner => ?_
    refine .bind (keeps_bindParams he hquiet hinner fun p hp => ?_) fun r r' s₂ h₂ hr => ?_
    · exact ⟨(hparams p hp).1, h₁.clear (hparams p hp).2⟩
    obtain ⟨inner, params⟩ := r
    obtain ⟨inner', params'⟩ := r'
    obtain ⟨hinner₂, hsame, hparams₂⟩ := hr
    dsimp only at hinner₂ hsame hparams₂ ⊢
    subst hsame
    refine .bindSame (keeps_infer he hquiet hinner₂.toAlike (by grind))
      fun bodyType s₃ h₃ hbodyType => ?_
    split
    · exact .done hbodyType
    · refine keeps_functionTypeOf (fun p hp => ?_) hbodyType
      exact ⟨(hparams₂ p hp).1, h₃.clear (hparams₂ p hp).2⟩
  · rename_i vars body
    have hvars : ∀ v ∈ vars, v ∉ hidden := fun v hv => hbinders v hv
    refine .bind (Keeps.bindQuantified hctx.child hvars) fun inner inner' s₁ h₁ hinner => ?_
    have hbody := h₁.plain (hvalues body (by simp [Shape.valueParts]))
    exact .bindSame (keeps_infer he hquiet hinner.toAlike hbody) fun ty s₂ _ hty =>
      Keeps.quantify hvars hty
  · refine keeps_inferApplication he hquiet hctx (hvalues _ (by simp [Shape.valueParts]))
      fun arg harg => ?_
    exact hvalues _ (by simp [Shape.valueParts, harg])
  · exact .bindSame (keeps_infer he hquiet hctx (hvalues _ (by simp [Shape.valueParts])))
      fun ty s₁ _ hty => keeps_memberType hty
  · exact keeps_compileClear he hquiet hctx (htypes _ (by simp [Shape.typeParts]))
  · exact Keeps.build rfl (by simp [Shape.children])
  · exact Keeps.build rfl (by simp [Shape.children])
  · exact keeps_compileClear he hquiet hctx (htypes _ (by simp [Shape.typeParts]))
  · exact keeps_compileClear he hquiet hctx (htypes _ (by simp [Shape.typeParts]))
  · exact keeps_compileClear he hquiet hctx (htypes _ (by simp [Shape.typeParts]))
  · exact .gives rfl (hs.clear_signature _)
  all_goals exact .done (hs.commonClear 0 (by decide))

theorem keeps_restrict {t : TermId} (hctx : ctx.Alike hidden s ctx') (ht : s.Plain hidden t) :
    Keeps quiet hidden (Same fun _ _ => True) (restrict (e.infer ctx) ctx t)
      (restrict (e'.infer ctx') ctx' t) s := by
  refine Keeps.restrict hctx ht (fun s' u h' hu => ?_) fun s' value value' ty h' hv hv' => ?_
  · exact (keeps_inferClear he hquiet (hctx.mono h') hu).impSame fun _ _ _ _ => trivial
  · exact (keeps_known he hquiet hv hv').impSame fun _ _ _ _ => trivial

theorem keeps_inferStep {t : TermId} (hctx : ctx.Alike hidden s ctx') (ht : s.Plain hidden t) :
    Keeps quiet hidden (SameClear hidden) (e.inferStep ctx t) (e'.inferStep ctx' t) s := by
  refine .bindSame (keeps_restrict he hquiet hctx ht) fun restriction s₁ h₁ _ => ?_
  exact Keeps.remembered (keeps_inferShape he hquiet (hctx.mono h₁) (h₁.plain ht))

end Rules

end Engine

end StagedCalculus
