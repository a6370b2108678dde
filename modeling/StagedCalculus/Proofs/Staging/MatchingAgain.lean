import StagedCalculus.Proofs.Staging.Instantiation
import StagedCalculus.Proofs.Staging.MatchingInvariant

/-!
# Matching again

A call is resolved argument by argument, so that a partial application and the call that supplies
the rest match the same types as one call with all arguments does, at other depths, in later stores
and with fewer variables still in sight. This module proves that matching comes to the same then.

* `Matching.Fits`: states in which variables are determined by closed terms or await them;
* `Matching.Tracks`: states that agree on some of the variables;
* `Store.again_unify`: what was matched once is matched again, unless depth is lacking.
-/

namespace StagedCalculus

namespace Matching

variable {s s' : Store} {vars : List VarId} {m m' : Matching} {v : VarId} {t : TermId}

/-- The terms that determine variables. -/
def filling (m : Matching) : Filling := fun v =>
  if v ∈ m.undetermined then none else m.context.get? v

theorem filling_of_mem (h : v ∈ m.undetermined) : m.filling v = none := if_pos h

theorem filling_of_not_mem (h : v ∉ m.undetermined) : m.filling v = m.context.get? v := if_neg h

theorem mem_assign {w : VarId} : w ∈ (m.assign v t).undetermined ↔ w ∈ m.undetermined ∧ w ≠ v := by
  simp [assign, determine]

theorem get?_assign (m : Matching) (v : VarId) (t : TermId) (w : VarId) :
    (m.assign v t).context.get? w = if w = v then some t else m.context.get? w := by
  by_cases hw : w = v
  · subst hw
    simp [assign, Context.get?, Context.frames, Frame.get?]
  · have hskip : Frame.get? ((v, t) :: m.context.innermost) w =
        Frame.get? m.context.innermost w := by
      simp [Frame.get?, Ne.symm hw]
    simp only [assign, Context.get?, Context.frames, List.findSome?_cons, hskip, if_neg hw]

theorem filling_assign (m : Matching) (v : VarId) (t : TermId) (w : VarId) :
    (m.assign v t).filling w = if w = v then some t else m.filling w := by
  unfold filling
  rw [get?_assign]
  by_cases hw : w = v <;> simp [mem_assign, hw]

/-- Each variable is determined by a closed term, or awaits one that the innermost frame can
bind. -/
structure Fits (m : Matching) (s : Store) (vars : List VarId) : Prop where
  within : ∀ v ∈ m.undetermined, v ∈ vars
  nodup : m.undetermined.Nodup
  vacant : ∀ v ∈ m.undetermined, m.context.innermost.get? v = none
  fills : Attempt.Fills s vars m.filling m.context
  owned : ∀ handle ∈ m.context.handles, s.Owns handle

namespace Fits

theorem mono (h : m.Fits s vars) (hle : s.Extends s') : m.Fits s' vars :=
  ⟨h.within, h.nodup, h.vacant, h.fills.mono hle,
    fun handle hhandle => hle.owns (h.owned handle hhandle)⟩

/-- What determines a variable is closed. -/
theorem value (h : m.Fits s vars) (hv : v ∈ vars) (hclosed : v ∉ m.undetermined) :
    ∃ u, m.context.get? v = some u ∧ s.Reduced [] u := by
  obtain ⟨u, hget, ⟨hnone, -⟩ | ⟨-, hu⟩⟩ := h.fills v hv
  · rw [filling_of_not_mem hclosed, hget] at hnone
    cases hnone
  · exact ⟨u, hget, hu⟩

/-- A variable that is filled by nothing is open. -/
theorem mem_of_filling (h : m.Fits s vars) (hv : v ∈ vars) (hnone : m.filling v = none) :
    v ∈ m.undetermined := by
  by_contra hclosed
  obtain ⟨u, hget, -⟩ := h.value hv hclosed
  rw [filling_of_not_mem hclosed, hget] at hnone
  cases hnone

theorem assign (h : m.Fits s vars) (hv : v ∈ m.undetermined) (ht : s.Reduced [] t) :
    (m.assign v t).Fits s vars where
  within w hw := h.within w (mem_assign.1 hw).1
  nodup := h.nodup.filter _
  vacant w hw := by
    obtain ⟨hmem, hne⟩ := mem_assign.1 hw
    have hnone := h.vacant w hmem
    simpa [Matching.assign, Frame.get?, Ne.symm hne] using hnone
  fills w hw := by
    rw [get?_assign, filling_assign]
    split
    · exact ⟨t, rfl, .inr ⟨rfl, ht⟩⟩
    · exact h.fills w hw
  owned := by
    obtain ⟨u, hget, -⟩ := h.fills v (h.within v hv)
    obtain ⟨frame, hframe, hfound⟩ := List.exists_of_findSome?_eq_some hget
    obtain ⟨b, hb, rfl⟩ := Option.map_eq_some_iff.1 hfound
    have hname : b.1 = v := by simpa using List.find?_some hb
    have howned : s.Owns (.var v) := by
      refine h.owned _ (List.mem_flatMap.2 ⟨b, List.mem_flatten.2 ⟨frame, hframe, ?_⟩, ?_⟩)
      · exact List.mem_of_find?_eq_some hb
      · simp [hname]
    intro handle hhandle
    have hcases : handle = .var v ∨ handle = .term t ∨ handle ∈ m.context.handles := by
      simpa [Matching.assign, Context.handles, Context.frames] using hhandle
    rcases hcases with rfl | rfl | hold
    · exact howned
    · exact ht.allocated
    · exact h.owned _ hold

end Fits

/-- The second state agrees with the first one on some of the variables. -/
structure Tracks (vars : List VarId) (m m' : Matching) : Prop where
  undetermined : ∀ v ∈ vars, v ∈ m'.undetermined ↔ v ∈ m.undetermined
  values : ∀ v ∈ vars, v ∉ m.undetermined → m'.context.get? v = m.context.get? v

namespace Tracks

theorem refl (vars : List VarId) (m : Matching) : Tracks vars m m :=
  ⟨fun _ _ => .rfl, fun _ _ _ => rfl⟩

theorem filling_eq (h : Tracks vars m m') (hv : v ∈ vars) : m'.filling v = m.filling v := by
  by_cases hopen : v ∈ m.undetermined
  · rw [filling_of_mem hopen, filling_of_mem ((h.undetermined v hv).2 hopen)]
  · have hopen' : v ∉ m'.undetermined := fun hmem => hopen ((h.undetermined v hv).1 hmem)
    rw [filling_of_not_mem hopen, filling_of_not_mem hopen', h.values v hv hopen]

theorem assign (h : Tracks vars m m') (v : VarId) (t : TermId) :
    Tracks vars (m.assign v t) (m'.assign v t) where
  undetermined w hw := by rw [mem_assign, mem_assign, h.undetermined w hw]
  values w hw hopen := by
    rw [get?_assign, get?_assign]
    split
    · rfl
    · rename_i hne
      exact h.values w hw fun hmem => hopen (mem_assign.2 ⟨hmem, hne⟩)

/-- A variable that is out of sight may be determined on the first side alone. -/
theorem assign_left (h : Tracks vars m m') (hv : v ∉ vars) (t : TermId) :
    Tracks vars (m.assign v t) m' where
  undetermined w hw := by
    have hne : w ≠ v := ne_of_mem_of_not_mem hw hv
    rw [mem_assign, h.undetermined w hw, and_iff_left hne]
  values w hw hopen := by
    have hne : w ≠ v := ne_of_mem_of_not_mem hw hv
    rw [get?_assign, if_neg hne]
    exact h.values w hw fun hmem => hopen (mem_assign.2 ⟨hmem, hne⟩)

end Tracks

end Matching

namespace Match

variable {p : Matching → Matching → Prop} {c c' d d' : Match Unit}

/-- Where the first step succeeds, so does the second one from states that are related, unless it
lacks depth, and the states are related again. -/
def Again (p : Matching → Matching → Prop) (c c' : Match Unit) : Prop :=
  ∀ m m' m₁, p m m' → c.run m = (.ok (), m₁) →
    (∃ limit, (c'.run m').1 = .error (.depthExceeded limit)) ∨
      ∃ m₁', c'.run m' = (.ok (), m₁') ∧ p m₁ m₁'

namespace Again

theorem pure : Again p (Pure.pure ()) (Pure.pure ()) := by
  intro m m' m₁ hm hrun
  cases hrun
  exact .inr ⟨m', rfl, hm⟩

theorem throws (e : Error) : Again p (throw e) c' := fun _ _ _ _ hrun => by cases hrun

theorem bind (hc : Again p c c') (hd : Again p d d') :
    Again p (c >>= fun _ => d) (c' >>= fun _ => d') := by
  intro m m' m₁ hm hrun
  rw [run_bind] at hrun ⊢
  rcases hfirst : c.run m with ⟨e | a, m₂⟩ <;> rw [hfirst] at hrun
  · cases hrun
  · rcases hc m m' m₂ hm hfirst with ⟨limit, hdeep⟩ | ⟨m₂', hrun', hm₂⟩
    · refine .inl ⟨limit, ?_⟩
      generalize c'.run m' = r at hdeep
      obtain ⟨e | a, m₃⟩ := r
      · exact hdeep
      · cases hdeep
    · rw [hrun']
      exact hd m₂ m₂' m₁ hm₂ hrun

end Again

end Match

namespace Store

open Match Matching

variable {s s' : Store} {vars vars' : List VarId}

/-- States that agree on the variables in sight, in a store and in a later one. -/
structure Related (s s' : Store) (vars vars' : List VarId) (m m' : Matching) : Prop where
  fits : m.Fits s vars
  fits' : m'.Fits s' vars'
  tracks : Tracks vars' m m'

theorem run_determine {m : Matching} {v : VarId} (hvacant : m.context.innermost.get? v = none)
    (arg : TermId) : (s.determine v arg).run m = (.ok (), m.assign v arg) := by
  unfold determine
  rw [Match.run_get, Context.bind?, hvacant]
  rfl

theorem again_matchLengths {p : Matching → Matching → Prop} (expected arg : Nat) :
    Again p (matchLengths expected arg) (matchLengths expected arg) := by
  unfold matchLengths
  split
  · exact .pure
  · exact .throws _

section Components

variable {terms terms' : TermId → TermId → Match Unit}
  (hterms : ∀ {expected arg}, s.Reduced vars' expected → s.Reduced [] arg →
    Again (Related s s' vars vars') (terms expected arg) (terms' expected arg))

include hterms

theorem again_matchNamed {expected args : List (String × TermId)}
    (hexpected : ∀ e ∈ expected, s.Reduced vars' e.2) (hargs : ∀ a ∈ args, s.Reduced [] a.2) :
    Again (Related s s' vars vars') (matchNamed terms expected args)
      (matchNamed terms' expected args) := by
  induction expected generalizing args with
  | nil => exact .pure
  | cons e rest ih =>
    cases args with
    | nil => exact .pure
    | cons a argRest =>
      obtain ⟨he, hrest⟩ := List.forall_mem_cons.1 hexpected
      obtain ⟨ha, hargRest⟩ := List.forall_mem_cons.1 hargs
      simp only [matchNamed]
      split
      · exact .bind (.throws _) (.bind (hterms he ha) (ih hrest hargRest))
      · exact .bind (hterms he ha) (ih hrest hargRest)

theorem again_matchSlots {refusal refusal' : Error} {expected args : List (Slot TermId)}
    (hexpected : ∀ e ∈ expected, s.Reduced vars' e.ty) (hargs : ∀ a ∈ args, s.Reduced [] a.ty) :
    Again (Related s s' vars vars') (matchSlots terms refusal expected args)
      (matchSlots terms' refusal' expected args) := by
  induction expected generalizing args with
  | nil => exact .pure
  | cons e rest ih =>
    cases args with
    | nil => exact .pure
    | cons a argRest =>
      obtain ⟨he, hrest⟩ := List.forall_mem_cons.1 hexpected
      obtain ⟨ha, hargRest⟩ := List.forall_mem_cons.1 hargs
      simp only [matchSlots]
      split
      · exact .bind (.throws _) (.bind (hterms he ha) (ih hrest hargRest))
      · exact .bind (hterms he ha) (ih hrest hargRest)

/-- An open variable is bound to the argument on both sides, a determined one stands for the same
closed term on both. -/
theorem again_matchVariable (hle : s.Extends s') (hsub : vars' ⊆ vars) {v : VarId}
    {expected arg : TermId} (hv : v ∈ vars') (harg : s.Reduced [] arg) {e e' : Error} :
    Again (Related s s' vars vars')
      (do
        let m ← get
        if v ∈ m.undetermined then s.determine v arg
        else
          match m.context.get? v with
          | some value =>
            if value ≠ expected && !(s.shape value).isDeferred then terms value arg else throw e
          | none => throw e)
      (do
        let m ← get
        if v ∈ m.undetermined then s'.determine v arg
        else
          match m.context.get? v with
          | some value =>
            if value ≠ expected && !(s'.shape value).isDeferred then terms' value arg else throw e'
          | none => throw e') := by
  intro m m' m₁ hm hrun
  rw [Match.run_get] at hrun ⊢
  by_cases hopen : v ∈ m.undetermined
  · have hopen' : v ∈ m'.undetermined := (hm.tracks.undetermined v hv).2 hopen
    rw [if_pos hopen, run_determine (hm.fits.vacant v hopen)] at hrun
    rw [if_pos hopen', run_determine (hm.fits'.vacant v hopen')]
    cases hrun
    exact .inr ⟨_, rfl, hm.fits.assign hopen harg, hm.fits'.assign hopen' (harg.mono hle),
      hm.tracks.assign v arg⟩
  · have hopen' : v ∉ m'.undetermined := fun h => hopen ((hm.tracks.undetermined v hv).1 h)
    obtain ⟨value, hget, hvalue⟩ := hm.fits.value (hsub hv) hopen
    have hget' := (hm.tracks.values v hv hopen).trans hget
    rw [if_neg hopen, hget] at hrun
    rw [if_neg hopen', hget']
    dsimp only at hrun ⊢
    rw [hle.shape_eq hvalue.allocated]
    split at hrun
    · rename_i hcondition
      rw [if_pos hcondition]
      exact hterms (hvalue.weaken (List.nil_subset _)) harg m m' m₁ hm hrun
    · cases hrun

theorem again_matchShapes (hle : s.Extends s') (hsub : vars' ⊆ vars) {expected arg : TermId}
    (hexpected : s.Reduced vars' expected) (harg : s.Reduced [] arg) :
    Again (Related s s' vars vars') (s.matchShapes terms expected arg)
      (s'.matchShapes terms' expected arg) := by
  unfold matchShapes
  rw [hle.shape_eq hexpected.allocated, hle.shape_eq harg.allocated]
  -- A shape decides what both sides match, whatever they would report.
  cases hshape : s.shape expected with
  | «variable» v => exact again_matchVariable hterms hle hsub (hexpected.mem_scope hshape) harg
  | productValue ty fields =>
    cases hargShape : s.shape arg with
    | productValue argTy argFields =>
      have hparts : ∀ child ∈ (s.shape expected).children, s.Reduced vars' child := fun _ =>
        hexpected.of_child (by simp [hshape, Shape.scopes])
      have hargParts : ∀ child ∈ (s.shape arg).children, s.Reduced [] child := fun _ =>
        harg.of_child (by simp [hargShape, Shape.scopes])
      rw [hshape] at hparts
      rw [hargShape] at hargParts
      refine .bind (hterms (hparts _ List.mem_cons_self) (hargParts _ List.mem_cons_self))
        (.bind (again_matchLengths _ _) (again_matchNamed hterms (fun e he => ?_) fun a ha => ?_))
      · exact hparts _ (List.mem_cons_of_mem _ (List.mem_map_of_mem he))
      · exact hargParts _ (List.mem_cons_of_mem _ (List.mem_map_of_mem ha))
    | _ => exact .throws _
  | productType members =>
    cases hargShape : s.shape arg with
    | productType argMembers =>
      have hparts : ∀ child ∈ (s.shape expected).children, s.Reduced vars' child := fun _ =>
        hexpected.of_child (by simp [hshape, Shape.scopes])
      have hargParts : ∀ child ∈ (s.shape arg).children, s.Reduced [] child := fun _ =>
        harg.of_child (by simp [hargShape, Shape.scopes])
      rw [hshape] at hparts
      rw [hargShape] at hargParts
      exact .bind (again_matchLengths _ _) (again_matchNamed hterms
        (fun e he => hparts _ (List.mem_map_of_mem he))
        fun a ha => hargParts _ (List.mem_map_of_mem ha))
    | _ => exact .throws _
  | functionType params result =>
    cases hargShape : s.shape arg with
    | functionType argParams argResult =>
      obtain ⟨hparams, hresult⟩ := hexpected.of_functionType hshape
      obtain ⟨hargParams, hargResult⟩ := harg.of_functionType hargShape
      exact .bind (again_matchLengths _ _)
        (.bind (again_matchSlots hterms hparams hargParams) (hterms hresult hargResult))
    | _ => exact .throws _
  | _ => exact .throws _

end Components

/-- What was matched once is matched again in a later store, at any number of levels. -/
theorem again_unify (hle : s.Extends s') (hsub : vars' ⊆ vars) (levels levels' : Nat)
    {expected arg : TermId} (hexpected : s.Reduced vars' expected) (harg : s.Reduced [] arg) :
    Again (Related s s' vars vars') (s.unify levels expected arg)
      (s'.unify levels' expected arg) := by
  induction levels' generalizing levels expected arg with
  | zero => exact fun _ _ _ _ _ => .inl ⟨_, rfl⟩
  | succ levels' ih =>
    cases levels with
    | zero => exact .throws _
    | succ levels =>
      unfold unify
      split
      · exact .pure
      · exact again_matchShapes (fun hexpected harg => ih levels hexpected harg) hle hsub
          hexpected harg

/-- Matching determines variables and leaves those as they are that are determined already. -/
theorem filling_unify {levels : Nat} {expected arg : TermId} {m₀ m₁ : Matching}
    (hvacant : ∀ v ∈ m₀.undetermined, m₀.context.innermost.get? v = none)
    (hrun : (s.unify levels expected arg).run m₀ = (.ok (), m₁)) :
    ∀ v u, m₀.filling v = some u → m₁.filling v = some u := by
  have hinvariant : Match.Invariant s (fun _ => True) fun m =>
      (∀ v ∈ m.undetermined, m.context.innermost.get? v = none) ∧
        ∀ v u, m₀.filling v = some u → m.filling v = some u := by
    refine ⟨fun _ _ => trivial, fun hm hv => hm.1 _ hv, fun {m v t} hm hv _ => ⟨?_, ?_⟩⟩
    · intro w hw
      obtain ⟨hmem, hne⟩ := mem_assign.1 hw
      have hnone := hm.1 w hmem
      simpa [Matching.assign, Frame.get?, Ne.symm hne] using hnone
    · intro w u hu
      have hfilled := hm.2 w u hu
      rw [filling_assign, if_neg]
      · exact hfilled
      · rintro rfl
        rw [filling_of_mem hv] at hfilled
        cases hfilled
  have hstart : (∀ v ∈ m₀.undetermined, m₀.context.innermost.get? v = none) ∧
      ∀ v u, m₀.filling v = some u → m₀.filling v = some u := ⟨hvacant, fun _ _ h => h⟩
  have hkeeps : Match.Preserves _ (s.unify levels expected arg) :=
    hinvariant.keeps_unify levels expected trivial
  have hkept := (hkeeps m₀ hstart).1.2
  rw [hrun] at hkept
  exact hkept

end Store

end StagedCalculus
