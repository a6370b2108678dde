import StagedCalculus.Proofs.Staging.BoundOnce
import StagedCalculus.Proofs.Staging.Remembered

/-!
# Laws of inferred types

What can be said of every answer of inference has to hold of remembered answers too, and these were
given in other contexts and by other levels. This module shows once that it does.

* `TypeLaw`: something that is said of an answer, and lasts while the store grows;
* `TypeLaw.Ruled`: every rule of inference follows the law if the level below does;
* `TypeLaw.obeys_ofLevels`: then so does every level, and what it remembers;
* `Attempt.obeys_infer`, `Store.Orderly.remembers`: so inference follows the law, and so does the
  memory of every store in which inference alone remembers answers.
-/

namespace StagedCalculus

open Attempt

/-- Something that is said of the answers of inference. -/
structure TypeLaw where
  holds : Store → TermId → TypeAnswer → Prop
  lasts : ∀ {s s' t answer}, s.Intact → holds s t answer → s.Extends s' → holds s' t answer
  /-- Nothing is said of a lack of depth. -/
  deep : ∀ s t limit, holds s t (.error (.depthExceeded limit))
  /-- Nothing is said of failures of terms that are open: their context may be at fault. -/
  silent : ∀ {s t} e, (s.freeVariables t).isEmpty = false → holds s t (.error e)

namespace Store

variable {L : TypeLaw} {s s' : Store}

/-- Whatever is remembered follows the law. -/
def Remembers (s : Store) (L : TypeLaw) : Prop :=
  ∀ t restriction answer, s.types.get? t restriction = some answer → L.holds s t answer

theorem Remembers.mono (h : s.Remembers L) (hs : s.Intact) (hle : s.Extends s')
    (htypes : s'.types = s.types) : s'.Remembers L := by
  intro t restriction answer hget
  rw [htypes] at hget
  exact L.lasts hs (h t restriction answer hget) hle

theorem Remembers.remember (h : s.Remembers L) (hs : s.Intact) {t : TermId}
    {restriction : Restriction} {answer : TypeAnswer} (hanswer : L.holds s t answer) :
    ({ s with types := s.types.insert t restriction answer } : Store).Remembers L := by
  have hle : s.Extends { s with types := s.types.insert t restriction answer } := .of_eq rfl rfl rfl
  intro u key other hget
  rw [TypeCache.get?_insert] at hget
  split at hget
  · rename_i hkey
    obtain rfl := Option.some.inj hget
    rw [hkey.1]
    exact L.lasts hs hanswer hle
  · exact L.lasts hs (h u key other hget) hle

/-- A new store remembers nothing. -/
theorem Built.remembers (h : s.Built) (L : TypeLaw) : s.Remembers L := by
  intro t restriction answer hget
  rw [h.types_eq, TypeCache.get?_empty] at hget
  cases hget

end Store

namespace TypeLaw

open Engine

variable {L : TypeLaw} {e : Engine} {s s' : Store} {ctx ctx' : Context} {t : TermId}
  {answer : TypeAnswer}

/-- Stores whose memory follows the law, and whatever they have handed out. -/
def typing (L : TypeLaw) : Correspondence :=
  (Correspondence.whole.given fun s => s.Remembers L).correspondence

theorem steady_typing (L : TypeLaw) : L.typing.Steady :=
  Enclosure.correspondence_steady <|
    Enclosure.steady_given Correspondence.lawful_whole.toSteady fun hs hknown hle htypes _ =>
      hknown.mono hs hle htypes

/-- The answers of the level follow the law. -/
def Obeys (L : TypeLaw) (e : Engine) : Prop :=
  ∀ {s s' ctx ctx' t answer}, L.typing.stores s s → L.typing.scope s s ctx ctx' → s.Allocated t →
    (e.infer ctx t).run s = (answer, s') → L.holds s' t answer

/-- So do those of each rule, if those of the level below do. -/
def Ruled (L : TypeLaw) : Prop :=
  ∀ {n s s' ctx ctx' t answer}, L.typing.Engines (.ofLevels n) (.ofLevels n) →
    L.Obeys (.ofLevels n) → L.typing.stores s s → L.typing.scope s s ctx ctx' → s.Allocated t →
    ((ofLevels n).inferShape ctx t).run s = (answer, s') → L.holds s' t answer

section Levels

variable {n : Nat} (hL : L.Ruled) (he : L.typing.Engines (.ofLevels n) (.ofLevels n))
  (hobeys : L.Obeys (.ofLevels n))

include hL he hobeys

/-- So what a level of inference remembers follows the law. -/
theorem corresponds_inferStep {u : TermId} {s' : Store} (hctx : L.typing.scope s s' ctx ctx')
    (ht : (L.typing.like s s').term t u) :
    L.typing.Corresponds L.typing.Terms ((ofLevels n).inferStep ctx t)
      ((ofLevels n).inferStep ctx' u) s s' := by
  refine .withStores fun hs => ?_
  obtain ⟨rfl, -⟩ := hs
  obtain ⟨rfl, hallocated⟩ := ht
  refine Correspondence.corresponds_inferStep L.steady_typing he hctx ⟨rfl, hallocated⟩ ?_
  intro s₁ s₁' s₂ s₂' r r' answer answer' h₁ h₂ hrun _ hr hanswer
  have hctx₁ := L.steady_typing.lasts h₁ hctx
  obtain ⟨rfl, hs₁⟩ := h₁.after
  obtain ⟨rfl, hs₂⟩ := h₂.after
  obtain rfl := Likeness.restricted_diagonal hr
  obtain ⟨rfl, howned⟩ := Enclosure.result_eq hanswer
  have hholds := hL he hobeys ⟨rfl, hs₁⟩ hctx₁ (h₁.left.allocated hallocated) hrun
  exact ⟨rfl, Store.intact_remember hs₂.1 howned, hs₂.2.remember hs₂.1 hholds⟩

/-- Whatever inference gives, it remembers, unless depth is lacking. -/
theorem obeys_inferStep (hs : L.typing.stores s s) (hctx : L.typing.scope s s ctx ctx')
    (ht : s.Allocated t) (hrun : ((ofLevels n).inferStep ctx t).run s = (answer, s')) :
    L.holds s' t answer := by
  have hafter : s.Extends s' ∧ s'.Remembers L := by
    have hends := corresponds_inferStep hL he hobeys hctx ⟨rfl, ht⟩ hs
    rw [hrun] at hends
    generalize ((ofLevels n).inferStep ctx' t).run s = r at hends
    cases hends with
    | fails hleads _ => exact ⟨hleads.left, hleads.after.2.2⟩
    | gives hleads _ => exact ⟨hleads.left, hleads.after.2.2⟩
  by_cases hdepth : ∃ limit, answer = .error (.depthExceeded limit)
  · obtain ⟨limit, rfl⟩ := hdepth
    exact L.deep _ _ _
  · rw [inferStep, run_bind] at hrun
    rcases hrestrict : (restrict ((ofLevels n).infer ctx) ctx t).run s with ⟨r, s₁⟩
    rw [hrestrict] at hrun
    cases r with
    | error e =>
      -- A closed term observes nothing, so that nothing which it observes can fail.
      cases hrun
      refine L.silent e (Bool.eq_false_iff.2 fun hclosed => ?_)
      rw [hafter.1.freeVariables_eq ht] at hclosed
      rw [run_restrict_closed hclosed] at hrestrict
      cases hrestrict
    | ok restriction =>
      exact hafter.2 t restriction answer
        (remembered_stores hrun fun limit heq => hdepth ⟨limit, heq⟩)

end Levels

/-- At every number of levels the answers follow the law. -/
theorem obeys_ofLevels (hL : L.Ruled) (n : Nat) :
    L.typing.Engines (.ofLevels n) (.ofLevels n) ∧ L.Obeys (.ofLevels n) := by
  -- A level may remember its answers only because those of the level below follow the law.
  induction n with
  | zero =>
    refine ⟨⟨rfl, fun _ _ => ?_, fun _ _ => ?_⟩, fun _ _ _ hrun => ?_⟩
    · exact Correspondence.corresponds_throwDepth L.steady_typing
    · exact Correspondence.corresponds_throwDepth L.steady_typing
    · cases hrun
      exact L.deep _ _ _
  | succ n ih =>
    obtain ⟨he, hobeys⟩ := ih
    refine ⟨⟨rfl, fun hctx ht => corresponds_inferStep hL he hobeys hctx ht,
      fun hctx ht => ?_⟩, ?_⟩
    · exact Correspondence.corresponds_reduceStep L.steady_typing he hctx ht
    · exact fun hs hctx ht hrun => obeys_inferStep hL he hobeys hs hctx ht hrun

end TypeLaw

/-! ## The judgments -/

namespace Attempt

variable {L : TypeLaw} (hL : L.Ruled) {s s' : Store} {ctx : Context} {t : TermId}

include hL

/-- Inference follows the law. -/
theorem obeys_infer (hs : s.Intact) (hmemory : s.Remembers L)
    (hctx : ∀ handle ∈ ctx.handles, s.Owns handle) (ht : s.Allocated t) {answer : TypeAnswer}
    (hrun : (infer ctx t).run s = (answer, s')) : L.holds s' t answer :=
  (TypeLaw.obeys_ofLevels hL s.config.maxDepth).2 ⟨rfl, hs, hmemory⟩ (Likeness.scope_diagonal hctx)
    ht hrun

omit hL in
theorem remembers_run {α : Type} {post : Correspondence.Post α} {c : Attempt α} (hs : s.Intact)
    (hmemory : s.Remembers L) (h : L.typing.Corresponds post c c s s) :
    (c.run s).2.Remembers L := by
  have hends := h ⟨rfl, hs, hmemory⟩
  generalize c.run s = r at hends
  cases hends with
  | fails hleads _ => exact hleads.after.2.2
  | gives hleads _ => exact hleads.after.2.2

/-- However a judgment ends, what is remembered afterwards follows the law. -/
theorem remembers_judgments (hs : s.Intact) (hmemory : s.Remembers L)
    (hctx : ∀ handle ∈ ctx.handles, s.Owns handle) (ht : s.Allocated t) :
    ((infer ctx t).run s).2.Remembers L ∧
      (∀ mode, ((reduce mode ctx t).run s).2.Remembers L) ∧
      (∀ args, (∀ arg ∈ args, s.Allocated arg) →
        ((resolve ctx t args).run s).2.Remembers L) ∧
      ((observed ctx t).run s).2.Remembers L := by
  have hscope : L.typing.scope s s ctx ctx := Likeness.scope_diagonal hctx
  have hlevels := fun n => (TypeLaw.obeys_ofLevels hL n).1
  have hjudgment : ∀ {s₁ s₁' u u'}, L.typing.scope s₁ s₁' ctx ctx →
      (L.typing.like s₁ s₁').term u u' → L.typing.Corresponds L.typing.Terms (infer ctx u)
        (infer ctx u') s₁ s₁' := by
    refine fun hscope hu => .withStores fun hs => .reads rfl rfl ?_
    rw [L.steady_typing.limit hs]
    exact (hlevels _).infer hscope hu
  have hobserved : L.typing.Corresponds (fun s s' => (L.typing.like s s').Restricted)
      (observed ctx t) (observed ctx t) s s :=
    .restrict L.steady_typing hscope ⟨rfl, ht⟩ fun hleads hu =>
      hjudgment (L.steady_typing.lasts hleads hscope) hu
  refine ⟨remembers_run hs hmemory (hjudgment hscope ⟨rfl, ht⟩), fun mode => ?_,
    fun args hargs => ?_, remembers_run hs hmemory hobserved⟩
  · exact remembers_run hs hmemory (.reads rfl rfl ((hlevels _).reduce hscope ⟨rfl, ht⟩))
  · exact remembers_run hs hmemory (.reads rfl rfl
      (Correspondence.corresponds_resolve L.steady_typing (hlevels _) hscope ⟨rfl, ht⟩
        (Likeness.terms_diagonal.2 ⟨rfl, hargs⟩)))

end Attempt

namespace Store

variable {s : Store} {L : TypeLaw}

/-- As long as only inference remembers answers, what is remembered follows the law. -/
theorem Orderly.remembers (h : s.Orderly) (hL : L.Ruled) : s.Remembers L := by
  have howns : ∀ {s : Store} {ctx : Context}, ctx.Tidy s → ∀ handle ∈ ctx.handles, s.Owns handle :=
    fun hctx handle hhandle => (hctx handle hhandle).owns
  induction h with
  | initial config => exact (Built.initial config).remembers L
  | @intern s shape h _ ih =>
    exact ih.mono h.neat.toIntact (extends_intern s shape) (types_intern s shape)
  | @freshVariable s comptime name h ih =>
    exact ih.mono h.neat.toIntact (extends_freshVariable s comptime name) rfl
  | @freshNamedType s name h ih =>
    exact ih.mono h.neat.toIntact (extends_freshNamedType s name) (types_intern _ _)
  | @register s native signature captured h _ _ _ _ ih =>
    exact ih.mono h.neat.toIntact (extends_register s native signature) (types_intern _ _)
  | @builtin s name h ih =>
    exact ih.mono h.neat.toIntact (extends_builtin s name) (untouched_builtin s name).types
  | @redirect s sink h ih =>
    exact ih.mono h.neat.toIntact (.of_eq rfl rfl rfl) rfl
  | @write s text h ih =>
    obtain ⟨output, houtput⟩ := write_cases s text
    rw [houtput]
    exact ih.mono h.neat.toIntact (.of_eq rfl rfl rfl) rfl
  | infer h hctx ht ih =>
    exact (remembers_judgments hL h.neat.toIntact ih (howns hctx) ht.allocated).1
  | reduce h hctx ht ih =>
    exact (remembers_judgments hL h.neat.toIntact ih (howns hctx) ht.allocated).2.1 _
  | resolve h hctx hcallee hargs ih =>
    exact (remembers_judgments hL h.neat.toIntact ih (howns hctx) hcallee.allocated).2.2.1 _
      fun arg harg => (hargs arg harg).allocated
  | observed h hctx ht ih =>
    exact (remembers_judgments hL h.neat.toIntact ih (howns hctx) ht.allocated).2.2.2

end Store

end StagedCalculus
