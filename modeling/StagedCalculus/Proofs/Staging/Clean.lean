import StagedCalculus.Proofs.Staging.MatchingInvariant
import StagedCalculus.Proofs.Staging.WellBound

/-!
# Computations that bind no variable twice

This module is a small logic for one property of computations.

* `Attempt.Clean`: on a neat store the computation does not fail because a variable is bound
  already; however it ends, it leaves a neat store, and a result satisfies a condition;
* `Matching.Tidy`, `Engine.clean_unify`: the same for matching, whose state is tidy if the variables
  that are not determined yet are distinct and vacant;
* `Engine.Clean`: what the two judgments one level further down are taken to satisfy;
* `Engine.clean_run`: orderly scripts are clean.

The rules follow the constructs that computations are made of.
-/

namespace StagedCalculus

namespace Attempt

variable {α β : Type} {s : Store} {post : α → Store → Prop} {post' : β → Store → Prop}
  {c : Attempt α} {f : α → Attempt β}

/-- A vacant variable can be bound. -/
theorem run_bind_vacant {ctx : Context} {v : VarId} (hv : ctx.Vacant v) (t : TermId) :
    (Attempt.bind ctx v t).run s = (.ok { ctx with innermost := (v, t) :: ctx.innermost }, s) := by
  unfold Attempt.bind Context.bind?
  rw [hv]
  rfl

/-- How a run may end. -/
inductive EndsClean (post : α → Store → Prop) (s : Store) : Except Error α × Store → Prop
  | fails {e : Error} {s' : Store} : s.Extends s' → s'.Neat →
      (∀ name, e ≠ .alreadyBound name) → EndsClean post s (.error e, s')
  | gives {a : α} {s' : Store} : s.Extends s' → s'.Neat → post a s' →
      EndsClean post s (.ok a, s')

/-- If the store is neat, then the computation does not come to bind a variable twice. -/
def Clean (post : α → Store → Prop) (c : Attempt α) (s : Store) : Prop :=
  s.Neat → EndsClean post s (c.run s)

/-- The result is a well-bound term. -/
abbrev Term : TermId → Store → Prop := fun t s => s.WellBound t

/-- Any result. -/
abbrev Anything : α → Store → Prop := fun _ _ => True

namespace Clean

/-! ## Rules -/

theorem pure {a : α} (h : post a s) : Clean post (Pure.pure a) s :=
  fun hs => .gives (.refl s) hs h

theorem bind (hc : Clean post c s)
    (hf : ∀ a s₁, s.Extends s₁ → post a s₁ → Clean post' (f a) s₁) :
    Clean post' (c >>= f) s := by
  intro hs
  have hends := hc hs
  rw [run_bind]
  generalize c.run s = r at hends ⊢
  cases hends with
  | fails hle hs₁ he => exact .fails hle hs₁ he
  | @gives a s₁ hle hs₁ hpost =>
    have hrest := hf a s₁ hle hpost hs₁
    change EndsClean post' s ((f a).run s₁)
    generalize (f a).run s₁ = r at hrest ⊢
    cases hrest with
    | fails hle' hs₂ he => exact .fails (hle.trans hle') hs₂ he
    | gives hle' hs₂ hpost' => exact .gives (hle.trans hle') hs₂ hpost'

theorem reads {a : α} (h : c.run s = (.ok a, s)) (hf : Clean post' (f a) s) :
    Clean post' (c >>= f) s := by
  intro hs
  rw [run_bind, h]
  exact hf hs

theorem imp {post₁ : α → Store → Prop} (hc : Clean post c s)
    (h : ∀ a s₁, s.Extends s₁ → post a s₁ → post₁ a s₁) : Clean post₁ c s := by
  intro hs
  have hends := hc hs
  generalize c.run s = r at hends ⊢
  cases hends with
  | fails hle hs₁ he => exact .fails hle hs₁ he
  | gives hle hs₁ hpost => exact .gives hle hs₁ (h _ _ hle hpost)

/-- The store may be taken to be neat. -/
theorem withNeat (h : s.Neat → Clean post c s) : Clean post c s := fun hs => h hs hs

theorem throws {e : Error} (h : ∀ name, e ≠ .alreadyBound name) : Clean post (throw e) s :=
  fun hs => .fails (.refl s) hs h

/-- Computations that fail with a message and leave the store alone. -/
theorem fails {e : Error} (h : c.run s = (.error e, s)) (he : ∀ name, e ≠ .alreadyBound name) :
    Clean post c s := by
  intro hs
  rw [h]
  exact .fails (.refl s) hs he

/-! ## Building -/

theorem intern {shape : Shape TermId} (hcovers : s.Covers shape) (hbinders : shape.binders.Nodup)
    (hchildren : ∀ child ∈ shape.children, s.WellBound child) :
    Clean Term (Build.intern shape) s := fun hs =>
  .gives (Store.extends_intern s shape) (hs.intern hcovers)
    (Store.wellBound_intern hs.toLinked hbinders hchildren)

/-- A node that mentions subterms and variables only. -/
theorem binds {shape : Shape TermId} (hconstants : shape.constants = [])
    (hvars : ∀ v ∈ shape.ownVars, v.index < s.vars.size) (hbinders : shape.binders.Nodup)
    (hchildren : ∀ child ∈ shape.children, s.WellBound child) :
    Clean Term (Build.intern shape) s := by
  refine .intern (Shape.forall_mem_handles.2 ⟨fun child hchild => ?_, hvars, ?_⟩) hbinders hchildren
  · exact (hchildren child hchild).allocated
  · simp [hconstants]

/-- A node that mentions subterms only. -/
theorem build {shape : Shape TermId} (hvars : shape.ownVars = [])
    (hconstants : shape.constants = []) (hchildren : ∀ child ∈ shape.children, s.WellBound child) :
    Clean Term (Build.intern shape) s := by
  refine .binds hconstants (by simp [hvars]) ?_ hchildren
  rw [(List.append_eq_nil_iff.1 hvars).2]
  exact List.nodup_nil

theorem freshVariable (comptime : Bool) (name : Option String) :
    Clean (fun v s' => s.vars.size ≤ v.index ∧ v.index < s'.vars.size)
      (Build.freshVariable comptime name) s := fun hs =>
  .gives (Store.extends_freshVariable s comptime name) (hs.freshVariable comptime name)
    (by simp)

theorem variableTerm {v : VarId} (hv : v.index < s.vars.size) :
    Clean Term (Build.variableTerm v) s :=
  .binds rfl (by simpa [Shape.ownVars, Shape.leaf, Shape.binders] using hv)
    (by simp [Shape.binders]) (by simp [Shape.children])

theorem variableTerms {vars : List VarId} (hvars : ∀ v ∈ vars, v.index < s.vars.size) :
    Clean (fun terms s' => ∀ t ∈ terms, s'.WellBound t) (Build.variableTerms vars) s := by
  induction vars generalizing s with
  | nil => exact .pure (List.forall_mem_nil _)
  | cons v rest ih =>
    obtain ⟨hv, hrest⟩ := List.forall_mem_cons.1 hvars
    let rest' := fun t => (do return t :: (← Build.variableTerms rest) : Attempt _)
    change Clean _ (Build.variableTerm v >>= rest') s
    refine .bind (variableTerm hv) fun t s₁ h₁ ht => ?_
    refine .bind (ih fun w hw => h₁.lt_vars (hrest w hw)) fun terms s₂ h₂ hterms => .pure ?_
    exact List.forall_mem_cons.2 ⟨ht.mono h₂, hterms⟩

theorem builtin (name : String) :
    Clean (fun leaf s' => ∀ t ∈ leaf, s'.WellBound t) (Build.builtin name) s := by
  intro hs
  have hrun : (Build.builtin name : Attempt _).run s =
      (.ok (s.builtin name).1, (s.builtin name).2) := rfl
  rw [hrun]
  unfold Store.builtin
  cases hfind : s.findNative? name with
  | none => exact .gives (.refl s) hs (by simp)
  | some id =>
    have hcovers := Store.covers_native (Store.lt_of_findNative? hfind)
    refine .gives (Store.extends_intern s _) (hs.intern hcovers) ?_
    rintro t ⟨⟩
    exact Store.wellBound_intern hs.toLinked (by simp [Shape.binders]) (by simp [Shape.children])

/-! ## Output -/

theorem write (text : String) : Clean Anything (Attempt.write text) s := by
  intro hs
  change EndsClean Anything s (s.write text)
  have hneat := hs.write text
  have hle : s.Extends (s.write text).2 := by
    obtain ⟨output, houtput⟩ := Store.write_cases s text
    rw [houtput]
    exact .of_eq rfl rfl rfl
  have hrefusal : ∀ e, (s.write text).1 = .error e → ∀ name, e ≠ .alreadyBound name := by
    intro e he name
    unfold Store.write Output.write at he
    grind
  generalize s.write text = r at hneat hle hrefusal ⊢
  obtain ⟨e | bytes, s₁⟩ := r
  · exact .fails hle hneat (hrefusal e rfl)
  · exact .gives hle hneat trivial

/-! ## Contexts -/

section Contexts

variable {ctx : Context} {vars : List VarId}

/-- A vacant variable is bound, and every other one is as vacant as before. -/
theorem bindContext (hctx : ctx.Tidy s) {v : VarId} {t : TermId} (hv : v.index < s.vars.size)
    (hvacant : ctx.Vacant v) (ht : s.WellBound t) :
    Clean (fun bound s' => bound.Tidy s' ∧ ∀ w, w ≠ v → ctx.Vacant w → bound.Vacant w)
      (Attempt.bind ctx v t) s := by
  intro hs
  rw [run_bind_vacant hvacant]
  exact .gives (.refl s) hs ⟨hctx.bind hv ht, fun w hne hw => hw.cons hne t⟩

theorem bindAll {bindings : List (VarId × TermId)} (hctx : ctx.Tidy s)
    (hdistinct : (bindings.map (·.1)).Nodup) (hvacant : ∀ b ∈ bindings, ctx.Vacant b.1)
    (hbindings : ∀ b ∈ bindings, b.1.index < s.vars.size ∧ s.WellBound b.2) :
    Clean (fun bound s' => bound.Tidy s') (Attempt.bindAll ctx bindings) s := by
  induction bindings generalizing s ctx with
  | nil => exact .pure hctx
  | cons b rest ih =>
    obtain ⟨hnew, hrest⟩ := List.nodup_cons.1 hdistinct
    obtain ⟨hb, hbindings⟩ := List.forall_mem_cons.1 hbindings
    obtain ⟨hfirst, hvacant⟩ := List.forall_mem_cons.1 hvacant
    refine .bind (bindContext hctx hb.1 hfirst hb.2) fun bound s₁ h₁ hbound => ?_
    refine ih hbound.1 hrest (fun b' hb' => hbound.2 _ ?_ (hvacant b' hb')) fun b' hb' => ?_
    · exact fun heq => hnew (List.mem_map.2 ⟨b', hb', heq⟩)
    · exact ⟨h₁.lt_vars (hbindings b' hb').1, (hbindings b' hb').2.mono h₁⟩

/-- Quantified variables are bound in a frame of their own. -/
theorem bindQuantified (hctx : ctx.Tidy s) (hdistinct : vars.Nodup)
    (hvars : ∀ v ∈ vars, v.index < s.vars.size) :
    Clean (fun bound s' => bound.Tidy s' ∧ ∀ w, w ∉ vars → bound.Vacant w)
      (Attempt.bindQuantified ctx.child vars) s := by
  suffices hall : ∀ {s : Store} {ctx : Context}, ctx.Tidy s → (∀ v ∈ vars, ctx.Vacant v) →
      (∀ v ∈ vars, v.index < s.vars.size) →
      Clean (fun bound s' => bound.Tidy s' ∧ ∀ w, w ∉ vars → ctx.Vacant w → bound.Vacant w)
        (Attempt.bindQuantified ctx vars) s from
    (hall hctx.child (fun v _ => ctx.vacant_child v) hvars).imp fun bound s₁ _ hbound =>
      ⟨hbound.1, fun w hw => hbound.2 w hw (ctx.vacant_child w)⟩
  clear hctx hvars
  induction vars with
  | nil => exact fun hctx _ _ => .pure ⟨hctx, fun _ _ hw => hw⟩
  | cons v rest ih =>
    intro s ctx hctx hvacant hvars
    obtain ⟨hnew, hrest⟩ := List.nodup_cons.1 hdistinct
    obtain ⟨hv, hvars⟩ := List.forall_mem_cons.1 hvars
    obtain ⟨hfirst, hvacant⟩ := List.forall_mem_cons.1 hvacant
    refine .withNeat fun hs => ?_
    refine .bind (bindContext hctx hv hfirst (hs.basic 4 (by decide))) fun bound s₁ h₁ hbound => ?_
    refine (ih hrest hbound.1 (fun w hw => hbound.2 w ?_ (hvacant w hw)) fun w hw =>
      h₁.lt_vars (hvars w hw)).imp fun inner s₂ h₂ hinner => ⟨hinner.1, fun w hw hold => ?_⟩
    · rintro rfl
      exact hnew hw
    · obtain ⟨hne, hw⟩ := not_or.1 (mt List.mem_cons.2 hw)
      exact hinner.2 w hw (hbound.2 w hne hold)

theorem quantify {body : TermId} (hdistinct : vars.Nodup)
    (hvars : ∀ v ∈ vars, v.index < s.vars.size) (hbody : s.WellBound body) :
    Clean Term (Attempt.quantify vars body) s := by
  refine .reads rfl (.binds rfl (fun v hv => hvars v ?_) (hdistinct.filter _) ?_)
  · exact List.mem_of_mem_filter (by simpa [Shape.ownVars, Shape.leaf, Shape.binders] using hv)
  · simpa [Shape.children] using hbody

/-! ## Restrictions -/

theorem restrict {typeOf : TermId → Attempt TermId} {t : TermId} (hctx : ctx.Tidy s)
    (htypeOf : ∀ {s value}, ctx.Tidy s → s.WellBound value → Clean Term (typeOf value) s) :
    Clean Anything (Attempt.restrict typeOf ctx t) s := by
  suffices hall : ∀ bound found pending {s}, ctx.Tidy s →
      Clean Anything (observe typeOf ctx bound found pending) s from
    .reads rfl (.bind (hall _ _ _ hctx) fun _ _ _ _ => .pure trivial)
  intro bound
  induction bound with
  | zero => exact fun _ _ _ _ => .pure trivial
  | succ bound ih =>
    intro found pending s hctx
    unfold observe
    generalize pending.dropWhile (fun e => found.contains e.1) = left
    cases left with
    | nil => exact .pure trivial
    | cons e pending =>
      obtain ⟨v, usage⟩ := e
      dsimp only
      cases hget : ctx.get? v with
      | none => exact ih _ _ hctx
      | some value =>
        refine .reads rfl ?_
        split
        · exact .bind (htypeOf hctx (hctx.get? hget)) fun ty s₁ h₁ _ => ih _ _ (hctx.mono h₁)
        · exact .reads rfl (ih _ _ hctx)

end Contexts

/-- Remembered types are well-bound, and what is computed anew is remembered. -/
theorem remembered {t : TermId} {restriction : Restriction} {compute : Attempt TermId}
    (h : Clean Term compute s) : Clean Term (Attempt.remembered t restriction compute) s := by
  intro hs
  cases hget : s.types.get? t restriction with
  | some answer =>
    rw [run_remembered_hit hget]
    cases answer with
    | ok ty => exact .gives (.refl s) hs (hs.answers t restriction ty hget)
    | error e =>
      refine .fails (.refl s) hs fun name heq => hs.refusals t restriction name ?_
      rw [hget, heq]
  | none =>
    have hends := h hs
    rcases hrun : compute.run s with ⟨answer, s₁⟩
    rw [hrun] at hends
    by_cases hdepth : ∃ limit, answer = .error (.depthExceeded limit)
    · obtain ⟨limit, rfl⟩ := hdepth
      rw [run_remembered_depth hget hrun]
      exact hends
    · rw [run_remembered_miss hget hrun fun limit heq => hdepth ⟨limit, heq⟩]
      have hle : s₁.Extends { s₁ with types := s₁.types.insert t restriction answer } :=
        .of_eq rfl rfl rfl
      cases hends with
      | @fails e _ hold hs₁ he =>
        refine .fails (hold.trans hle) (hs₁.remember (fun ty heq => by cases heq) ?_) he
        exact fun name heq => he name (Except.error.inj heq)
      | @gives ty _ hold hs₁ hty =>
        refine .gives (hold.trans hle) (hs₁.remember ?_ fun name heq => by cases heq) (hty.mono hle)
        rintro _ ⟨⟩
        exact hty

end Clean

end Attempt

/-! ## Matching -/

namespace Matching

variable {s s' : Store} {m : Matching} {v : VarId} {t : TermId}

/-- The variables that are not determined yet are distinct and can be bound. -/
structure Tidy (s : Store) (m : Matching) : Prop where
  context : m.context.Tidy s
  distinct : m.undetermined.Nodup
  owned : ∀ v ∈ m.undetermined, v.index < s.vars.size
  vacant : ∀ v ∈ m.undetermined, m.context.Vacant v

theorem Tidy.mono (h : m.Tidy s) (hle : s.Extends s') : m.Tidy s' :=
  ⟨h.context.mono hle, h.distinct, fun v hv => hle.lt_vars (h.owned v hv), h.vacant⟩

/-- A variable that was bound is determined. -/
theorem Tidy.determine (h : m.Tidy s) {bound : Context} (hbound : bound.Tidy s)
    (hvacant : ∀ w, w ≠ v → m.context.Vacant w → bound.Vacant w) :
    Tidy s { m.determine v with context := bound } := by
  have hmem : ∀ w ∈ (m.determine v).undetermined, w ∈ m.undetermined ∧ w ≠ v := fun w hw => by
    simpa [Matching.determine] using hw
  refine ⟨hbound, h.distinct.filter _, fun w hw => h.owned w (hmem w hw).1, fun w hw => ?_⟩
  exact hvacant w (hmem w hw).2 (h.vacant w (hmem w hw).1)

end Matching

/-- Binding an open variable to a well-bound term keeps the state of matching tidy. -/
theorem Store.tidy_invariant (s : Store) : Match.Invariant s s.WellBound (Matching.Tidy s) where
  parts ht hchild := (ht.parts rfl).2 _ hchild
  vacant hm hv := hm.vacant _ hv
  assign hm hv ht := hm.determine (hm.context.bind (hm.owned _ hv) ht) fun _ hne hw => hw.cons hne _

/-! ## Engines -/

namespace Engine

open Attempt

/-- In a tidy context the judgments come to bind no variable twice and give well-bound terms. -/
structure Clean (e : Engine) : Prop where
  infer : ∀ {s ctx t}, ctx.Tidy s → s.WellBound t → Attempt.Clean Term (e.infer ctx t) s
  reduce : ∀ {mode s ctx t}, ctx.Tidy s → s.WellBound t →
    Attempt.Clean Term (e.reduce mode ctx t) s

theorem Clean.compile {e : Engine} (he : e.Clean) {s : Store} {ctx : Context} {t : TermId}
    (hctx : ctx.Tidy s) (ht : s.WellBound t) : Attempt.Clean Term (e.compile ctx t) s :=
  he.reduce hctx ht

variable {e : Engine} {s : Store} {ctx : Context}

theorem clean_unify {m : Matching} (hm : m.Tidy s) (expected : TermId) {arg : TermId}
    (harg : s.WellBound arg) :
    Attempt.Clean (fun m s => m.Tidy s) (e.unify m expected arg) s := by
  refine .reads rfl ?_
  obtain ⟨hm', herror⟩ := (Store.tidy_invariant s).keeps_unify e.levels expected harg m hm
  generalize (s.unify e.levels expected arg).run m = r at hm' herror ⊢
  obtain ⟨err | u, m'⟩ := r
  · exact .throws fun name heq => herror name (congrArg Except.error heq)
  · exact .pure hm'

section Rules

variable (he : e.Clean)

include he

/-! ## Scripts -/

/-- A question about handles of a neat store is answered with such handles. -/
theorem clean_answer {query : Query} (hctx : ctx.Tidy s)
    (hmentions : ∀ handle ∈ query.mentions, s.Holds handle) (hapart : query.Apart) :
    Attempt.Clean (fun answer s' =>
        (∀ handle ∈ query.tells answer, s'.Holds handle) ∧ query.AnswersApart answer)
      (e.answer ctx query) s := by
  cases query with
  | shape t =>
    have ht : s.WellBound t := hmentions (.term t) (by simp)
    exact .withNeat fun hs => .pure ⟨ht.handles hs.toCanonical, (ht.parts rfl).1⟩
  | intern layer =>
    have hcovers : s.Covers layer := fun handle hhandle => (hmentions handle hhandle).owns
    refine (Clean.intern hcovers hapart (Shape.forall_mem_handles.1 hmentions).1).imp
      fun t s₁ _ ht => ⟨?_, trivial⟩
    simpa using ht
  | freshVariable comptime name =>
    refine (Clean.freshVariable comptime name).imp fun v s₁ _ hv => ⟨?_, trivial⟩
    simpa using hv.2
  | infer t =>
    refine (he.infer hctx (hmentions (.term t) (by simp))).imp fun ty s₁ _ hty => ⟨?_, trivial⟩
    simpa using hty
  | reduce mode t =>
    refine (he.reduce hctx (hmentions (.term t) (by simp))).imp fun u s₁ _ hu => ⟨?_, trivial⟩
    simpa using hu
  | isValue t => exact .pure ⟨by simp, trivial⟩
  | builtin name =>
    refine (Clean.builtin name).imp fun leaf s₁ _ hleaf => ⟨?_, trivial⟩
    simpa using hleaf
  | signature id =>
    refine .withNeat fun hs => .pure ⟨?_, trivial⟩
    simpa using hs.nativeSignature id
  | display t => exact .pure ⟨by simp, trivial⟩
  | write text => exact (Clean.write text).imp fun _ _ _ _ => ⟨by simp, trivial⟩

/-- An orderly script that knows handles of a neat store gives such handles. -/
theorem clean_run {α : Type} {result : α → List Handle} {known : List Handle} {script : Script α}
    (hscript : script.Orderly result known) (hctx : ctx.Tidy s)
    (hknown : ∀ handle ∈ known, s.Holds handle) :
    Attempt.Clean (fun value s' => ∀ handle ∈ result value, s'.Holds handle)
      (e.run ctx script) s := by
  induction script generalizing s known with
  | done value => exact .pure fun handle hhandle => hknown handle (hscript handle hhandle)
  | fail error => exact .throws hscript
  | ask query next ih =>
    obtain ⟨hmentions, hapart, hnext⟩ := hscript
    refine .bind (clean_answer he hctx (fun handle hhandle => hknown handle
      (hmentions handle hhandle)) hapart) fun answer s₁ h₁ hanswer => ?_
    refine ih answer (hnext answer hanswer.2) (hctx.mono h₁) fun handle hhandle => ?_
    rcases List.mem_append.1 hhandle with htells | hknew
    · exact hanswer.1 handle htells
    · exact h₁.holds (hknown handle hknew)

/-! ## Parameters -/

/-- Parameters keep their variables, in their order, and get well-bound types. -/
theorem clean_bindParams {params : List (VarId × TermId)} (hctx : ctx.Tidy s)
    (hdistinct : (params.map (·.1)).Nodup) (hvacant : ∀ p ∈ params, ctx.Vacant p.1)
    (hparams : ∀ p ∈ params, p.1.index < s.vars.size ∧ s.WellBound p.2) :
    Attempt.Clean (fun r s' => r.1.Tidy s' ∧ r.2.map (·.1) = params.map (·.1) ∧
        ∀ p ∈ r.2, s'.WellBound p.2)
      (e.bindParams ctx params) s := by
  induction params generalizing s ctx with
  | nil => exact .pure ⟨hctx, rfl, by simp⟩
  | cons p rest ih =>
    obtain ⟨v, ty⟩ := p
    obtain ⟨hnew, hrest⟩ := List.nodup_cons.1 hdistinct
    obtain ⟨hfirst, hvacant⟩ := List.forall_mem_cons.1 hvacant
    obtain ⟨⟨hv, hty⟩, hparams⟩ := List.forall_mem_cons.1 hparams
    refine .bind (he.compile hctx hty) fun ty s₁ h₁ hty => .reads rfl ?_
    refine .bind (.build rfl rfl (by simpa [Shape.children] using hty))
      fun placeholder s₂ h₂ hplaceholder => ?_
    have h₁₂ := h₁.trans h₂
    refine .bind (.bindContext (hctx.mono h₁₂) (h₁₂.lt_vars hv) hfirst hplaceholder)
      fun inner s₃ h₃ hinner => ?_
    have h₁₃ := h₁₂.trans h₃
    refine .bind (ih hinner.1 hrest (fun q hq => hinner.2 q.1 ?_ (hvacant q hq)) fun q hq =>
      ⟨h₁₃.lt_vars (hparams q hq).1, (hparams q hq).2.mono h₁₃⟩) fun r s₄ h₄ hr => .pure ?_
    · exact fun heq => hnew (List.mem_map.2 ⟨q, hq, heq⟩)
    · refine ⟨hr.1, by simp [hr.2.1], List.forall_mem_cons.2 ⟨?_, hr.2.2⟩⟩
      exact hty.mono ((h₂.trans h₃).trans h₄)

end Rules

end Engine

end StagedCalculus
