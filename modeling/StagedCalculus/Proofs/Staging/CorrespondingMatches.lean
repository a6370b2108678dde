import StagedCalculus.Proofs.Staging.Corresponds
import StagedCalculus.Proofs.Staging.MatchingAlike

/-!
# Matching in corresponding stores

Matching reads the store and binds variables to parts of the argument. This module proves that
matching terms that stand for each other ends alike (`Correspondence.unify`), if both sides have the
same number of levels left, or if a failure for lack of depth says nothing.
-/

namespace StagedCalculus

namespace Correspondence

variable {C : Correspondence} {s s' s₁ s₁' : Store}

/-- States of matching that stand for each other. -/
structure Matchings (C : Correspondence) (s s' : Store) (m m' : Matching) : Prop where
  undetermined : List.Forall₂ (C.like s s').var m.undetermined m'.undetermined
  context : C.scope s s' m.context m'.context

/-- How two steps of matching may end. -/
inductive MatchEnds (C : Correspondence) (s s' : Store) :
    Except Error Unit × Matching → Except Error Unit × Matching → Prop
  | fails {e e' : Error} {m m' : Matching} : e.Alike C.text e' → C.Matchings s s' m m' →
      MatchEnds C s s' (.error e, m) (.error e', m')
  | gives {m m' : Matching} : C.Matchings s s' m m' → MatchEnds C s s' (.ok (), m) (.ok (), m')

/-- From states that stand for each other the two steps of matching end alike. -/
def Matches (C : Correspondence) (s s' : Store) (c c' : Match Unit) : Prop :=
  ∀ m m', C.Matchings s s' m m' → C.MatchEnds s s' (c.run m) (c'.run m')

namespace Matchings

variable {m m' : Matching}

@[grind →]
theorem mono (h : C.Matchings s s' m m') (hC : C.Steady) (hleads : C.Leads s s' s₁ s₁') :
    C.Matchings s₁ s₁' m m' := ⟨hleads.vars hC h.undetermined, hleads.scope hC h.context⟩

/-- Determining a variable removes it on both sides. -/
theorem determine (h : C.Matchings s s' m m') (hL : (C.like s s').Ordered) {v v' : VarId}
    (hv : (C.like s s').var v v') {ctx ctx' : Context} (hctx : C.scope s s' ctx ctx') :
    C.Matchings s s' { m.determine v with context := ctx }
      { m'.determine v' with context := ctx' } := by
  refine ⟨List.rel_filter (fun w w' hw => ?_) h.undetermined, hctx⟩
  simpa using not_congr (hL.eq_iff hw hv)

end Matchings

namespace Matches

variable {c c' d d' : Match Unit}

theorem pure : C.Matches s s' (Pure.pure ()) (Pure.pure ()) := fun _ _ hm => .gives hm

theorem throws {e e' : Error} (h : e.Alike C.text e') : C.Matches s s' (throw e) (throw e') :=
  fun _ _ hm => .fails h hm

/-- A step that looks at the state first. -/
theorem reads {f f' : Matching → Match Unit}
    (hf : ∀ m m', C.Matchings s s' m m' → C.MatchEnds s s' ((f m).run m) ((f' m').run m')) :
    C.Matches s s' (get >>= f) (get >>= f') := fun m m' hm => hf m m' hm

theorem bind (hc : C.Matches s s' c c') (hd : C.Matches s s' d d') :
    C.Matches s s' (c >>= fun _ => d) (c' >>= fun _ => d') := by
  intro m m' hm
  have hends := hc m m' hm
  rw [Match.run_bind, Match.run_bind]
  generalize c.run m = r, c'.run m' = r' at hends ⊢
  cases hends with
  | fails he hm => exact .fails he hm
  | gives hm => exact hd _ _ hm

end Matches

section Matching

variable (hC : C.Steady) (hs : C.stores s s')

include hC hs

theorem matches_mismatch {expected expected' arg arg' : TermId}
    (hexpected : (C.like s s').term expected expected') (harg : (C.like s s').term arg arg') :
    C.Matches s s' (throw (s.mismatch expected arg)) (throw (s'.mismatch expected' arg')) :=
  .throws (.unificationFailure (hC.display hs hexpected) (hC.display hs harg))

theorem matches_determine {v v' : VarId} {arg arg' : TermId} (hv : (C.like s s').var v v')
    (harg : (C.like s s').term arg arg') :
    C.Matches s s' (s.determine v arg) (s'.determine v' arg') := by
  have hordered := hC.ordered hs
  refine .reads fun m m' hm => ?_
  rcases hC.bind_cases hs hm.context hv harg with
    ⟨bound, bound', hbound, hbound', hscope⟩ | ⟨hnone, hnone'⟩
  · rw [hbound, hbound']
    exact .gives (hm.determine hordered hv hscope)
  · rw [hnone, hnone']
    exact .fails (.alreadyBound (hC.name hs hv)) hm

omit hC hs in
theorem matches_lengths {expected expected' arg arg' : Nat} (hexpected : expected = expected')
    (harg : arg = arg') :
    C.Matches s s' (Store.matchLengths expected arg) (Store.matchLengths expected' arg') := by
  subst hexpected harg
  unfold Store.matchLengths
  split
  · exact .pure
  · exact .throws (.arityMismatch expected arg)

section Components

variable {matchTerms matchTerms' : TermId → TermId → Match Unit}
  (hterms : ∀ {expected expected' arg arg'}, (C.like s s').term expected expected' →
    (C.like s s').term arg arg' →
    C.Matches s s' (matchTerms expected arg) (matchTerms' expected' arg'))

include hterms

omit hs in
theorem matches_named {expected expected' args args' : List (String × TermId)}
    (hexpected : (C.like s s').Named expected expected') (hargs : (C.like s s').Named args args') :
    C.Matches s s' (Store.matchNamed matchTerms expected args)
      (Store.matchNamed matchTerms' expected' args') := by
  induction hexpected generalizing args args' with
  | nil =>
    cases hargs <;> exact .pure
  | @cons e e' rest rest' he _ ih =>
    cases hargs with
    | nil => exact .pure
    | @cons a a' argRest argRest' ha hargRest =>
      obtain ⟨name, t⟩ := e
      obtain ⟨name', t'⟩ := e'
      obtain ⟨argName, u⟩ := a
      obtain ⟨argName', u'⟩ := a'
      obtain ⟨hname, ht⟩ := he
      obtain ⟨hargName, hu⟩ := ha
      dsimp only at hname hargName ht hu
      subst hname hargName
      simp only [Store.matchNamed]
      have hrest := Matches.bind (hterms ht hu) (ih hargRest)
      split
      · exact .bind (.throws (.refl hC.text_refl _)) hrest
      · exact hrest

omit hC hs in
theorem matches_slots {refusal refusal' : Error} (hrefusal : refusal.Alike C.text refusal')
    {expected expected' args args' : List (Slot TermId)}
    (hexpected : List.Forall₂ (C.like s s').Position expected expected')
    (hargs : List.Forall₂ (C.like s s').Position args args') :
    C.Matches s s' (Store.matchSlots matchTerms refusal expected args)
      (Store.matchSlots matchTerms' refusal' expected' args') := by
  induction hexpected generalizing args args' with
  | nil =>
    cases hargs <;> exact .pure
  | @cons e e' rest rest' he _ ih =>
    cases hargs with
    | nil => exact .pure
    | @cons a a' argRest argRest' ha hargRest =>
      simp only [Store.matchSlots, he.comptime, ha.comptime]
      have hrest := Matches.bind (hterms he.ty ha.ty) (ih hargRest)
      split
      · exact .bind (.throws hrefusal) hrest
      · exact hrest

theorem matches_shapes {expected expected' arg arg' : TermId}
    (hexpected : (C.like s s').term expected expected') (harg : (C.like s s').term arg arg') :
    C.Matches s s' (s.matchShapes matchTerms expected arg)
      (s'.matchShapes matchTerms' expected' arg') := by
  have hmismatch := matches_mismatch hC hs hexpected harg
  have hordered := hC.ordered hs
  have hshape := hC.shape hs hexpected
  have hargShape := hC.shape hs harg
  unfold Store.matchShapes
  generalize s.shape expected = shape, s'.shape expected' = shape' at hshape ⊢
  generalize s.shape arg = argShape, s'.shape arg' = argShape' at hargShape ⊢
  cases hshape with
  | @«variable» v v' hv =>
    refine .reads fun m m' hm => ?_
    have hmem := hordered.mem_iff hm.undetermined hv
    by_cases hopen : v ∈ m.undetermined
    · rw [if_pos hopen, if_pos (hmem.1 hopen)]
      exact matches_determine hC hs hv harg m m' hm
    · rw [if_neg hopen, if_neg fun h' => hopen (hmem.2 h')]
      have hget := hC.get? hs hm.context hv
      generalize m.context.get? v = value, m'.context.get? v' = value' at hget ⊢
      cases hget with
      | none => exact hmismatch m m' hm
      | @some value value' hvalue =>
        have hother : decide (value ≠ expected) = decide (value' ≠ expected') :=
          decide_eq_decide.2 (not_congr (hC.unique hs hvalue hexpected))
        have hdeferred := Steady.isDeferred_eq (hC.shape hs hvalue)
        dsimp only
        rw [hother, hdeferred]
        split
        · exact hterms hvalue harg m m' hm
        · exact hmismatch m m' hm
  | productValue hty hfields =>
    cases hargShape with
    | productValue hargTy hargFields =>
      exact .bind (hterms hty hargTy) (.bind
        (matches_lengths hfields.length_eq hargFields.length_eq)
        (matches_named hC hterms hfields hargFields))
    | _ => exact hmismatch
  | productType hmembers =>
    cases hargShape with
    | productType hargMembers =>
      exact .bind (matches_lengths hmembers.length_eq hargMembers.length_eq)
        (matches_named hC hterms hmembers hargMembers)
    | _ => exact hmismatch
  | functionType hparams hresult =>
    cases hargShape with
    | functionType hargParams hargResult =>
      have hrefusal : (s.mismatch expected arg).Alike C.text (s'.mismatch expected' arg') :=
        .unificationFailure (hC.display hs hexpected) (hC.display hs harg)
      exact .bind (matches_lengths hparams.length_eq hargParams.length_eq)
        (.bind (matches_slots hterms hrefusal hparams hargParams) (hterms hresult hargResult))
    | _ => exact hmismatch
  | _ => exact hmismatch

end Components

theorem unify (n : Nat) {expected expected' arg arg' : TermId}
    (hexpected : (C.like s s').term expected expected') (harg : (C.like s s').term arg arg') :
    C.Matches s s' (s.unify n expected arg) (s'.unify n expected' arg') := by
  induction n generalizing expected expected' arg arg' with
  | zero =>
    simp only [Store.unify, hC.limit hs]
    exact .throws (.depthExceeded _)
  | succ n ih =>
    have hsame := hC.unique hs hexpected harg
    simp only [Store.unify]
    by_cases heq : expected = arg
    · rw [if_pos heq, if_pos (hsame.1 heq)]
      exact .pure
    · rw [if_neg heq, if_neg fun h' => heq (hsame.2 h')]
      exact matches_shapes hC hs (fun hexpected harg => ih hexpected harg) hexpected harg

end Matching

end Correspondence

end StagedCalculus
