import StagedCalculus.Proofs.Store.Context
import StagedCalculus.Staging.Engine

/-!
# Matching in contexts that are alike

Matching reads the store and binds variables to parts of the argument. This module proves that
matching clear terms from states that are alike ends the same way, in states that are alike again
(`Store.keeps_unify`).
-/

namespace StagedCalculus

/-- States of matching whose contexts are alike and that determine the same variables, none of them
hidden. -/
structure Matching.Alike (hidden : List VarId) (s : Store) (m m' : Matching) : Prop where
  undetermined : m'.undetermined = m.undetermined
  shown : ∀ v ∈ m.undetermined, v ∉ hidden
  context : m.context.Paired hidden s m'.context

namespace Matching.Alike

variable {hidden : List VarId} {s s' : Store} {m m' : Matching}

@[grind →]
theorem mono (h : Matching.Alike hidden s m m') (hgrows : s.GrowsTo s') :
    Matching.Alike hidden s' m m' := ⟨h.undetermined, h.shown, h.context.mono hgrows⟩

/-- Determining a variable removes it on both sides. -/
theorem determine (h : Matching.Alike hidden s m m') {ctx ctx' : Context}
    (hctx : ctx.Paired hidden s ctx') (v : VarId) :
    Matching.Alike hidden s { m.determine v with context := ctx }
      { m'.determine v with context := ctx' } := by
  refine ⟨?_, fun w hw => h.shown w (List.mem_filter.1 hw).1, hctx⟩
  simp only [Matching.determine, h.undetermined]

end Matching.Alike

namespace Match

variable {α β : Type} {hidden : List VarId} {s : Store}

/-- Two runs end with the same result, in states that are alike. -/
structure Ends (hidden : List VarId) (s : Store) (r r' : Except Error α × Matching) : Prop where
  result : r'.1 = r.1
  state : Matching.Alike hidden s r.2 r'.2

/-- The step ends the same way from states that are alike. -/
def Keeps (hidden : List VarId) (s : Store) (c : Match α) : Prop :=
  ∀ m m' : Matching, Matching.Alike hidden s m m' → Ends hidden s (c.run m) (c.run m')

theorem run_bind (c : Match α) (f : α → Match β) (m : Matching) :
    (c >>= f).run m =
      match c.run m with
      | (.ok a, m') => (f a).run m'
      | (.error e, m') => (.error e, m') := by
  change (match c.run m with
    | (r, m') => (ExceptT.bindCont f r : StateM Matching (Except Error β)) m') = _
  rcases c.run m with ⟨e | a, m'⟩ <;> rfl

/-- A step that looks at the state first. -/
theorem run_get (f : Matching → Match α) (m : Matching) : (get >>= f).run m = (f m).run m := rfl

namespace Keeps

theorem pure (a : α) : Keeps hidden s (Pure.pure a) := fun _ _ h => ⟨rfl, h⟩

theorem throws (e : Error) : Keeps hidden s (throw e : Match α) := fun _ _ h => ⟨rfl, h⟩

theorem bind {c : Match α} {f : α → Match β} (hc : Keeps hidden s c)
    (hf : ∀ a, Keeps hidden s (f a)) : Keeps hidden s (c >>= f) := by
  intro m m' hm
  have hends := hc m m' hm
  rw [run_bind, run_bind]
  rcases hrun : c.run m with ⟨result, m₁⟩
  rcases hrun' : c.run m' with ⟨result', m₁'⟩
  rw [hrun, hrun'] at hends
  obtain ⟨hresult, hstate⟩ := hends
  dsimp only at hresult hstate
  subst hresult
  cases result' with
  | error e => exact ⟨rfl, hstate⟩
  | ok a => exact hf a m₁ m₁' hstate

/-- A step that looks at the state first. -/
theorem reads {f : Matching → Match α}
    (hf : ∀ m m' : Matching, Matching.Alike hidden s m m' →
      Ends hidden s ((f m).run m) ((f m').run m')) :
    Keeps hidden s (get >>= f) := fun m m' hm => hf m m' hm

end Keeps

end Match

namespace Store

open Match

variable {s : Store} {hidden : List VarId}

theorem keeps_determine {v : VarId} {arg : TermId} (hv : v ∉ hidden) (harg : s.Clear hidden arg) :
    Keeps hidden s (s.determine v arg) := by
  refine .reads fun m m' hm => ?_
  rcases hm.context.bind_cases harg hv with
    ⟨bound, bound', hbound, hbound', hpaired⟩ | ⟨hnone, hnone'⟩
  · rw [hbound, hbound']
    exact ⟨rfl, hm.determine hpaired v⟩
  · rw [hnone, hnone']
    exact ⟨rfl, hm⟩

theorem keeps_matchLengths (expected arg : Nat) : Keeps hidden s (matchLengths expected arg) := by
  unfold matchLengths
  split
  · exact .pure ()
  · exact .throws _

section Components

variable {matchTerms : TermId → TermId → Match Unit}
  (hterms : ∀ expected arg, s.Clear hidden expected → s.Clear hidden arg →
    Keeps hidden s (matchTerms expected arg))

include hterms

theorem keeps_matchNamed (expected args : List (String × TermId))
    (hexpected : ∀ e ∈ expected, s.Clear hidden e.2) (hargs : ∀ a ∈ args, s.Clear hidden a.2) :
    Keeps hidden s (matchNamed matchTerms expected args) := by
  induction expected generalizing args with
  | nil => exact .pure ()
  | cons e rest ih =>
    cases args with
    | nil => exact .pure ()
    | cons a argRest =>
      have hrest : Keeps hidden s (matchNamed matchTerms rest argRest) :=
        ih argRest (fun e' he' => hexpected e' (List.mem_cons_of_mem _ he'))
          fun a' ha' => hargs a' (List.mem_cons_of_mem _ ha')
      have hhead : Keeps hidden s (matchTerms e.2 a.2) :=
        hterms _ _ (hexpected e (by simp)) (hargs a (by simp))
      simp only [matchNamed]
      split
      · exact .bind (.throws _) fun _ => .bind hhead fun _ => hrest
      · exact .bind hhead fun _ => hrest

theorem keeps_matchSlots (refusal : Error) (expected args : List (Slot TermId))
    (hexpected : ∀ e ∈ expected, s.Clear hidden e.ty) (hargs : ∀ a ∈ args, s.Clear hidden a.ty) :
    Keeps hidden s (matchSlots matchTerms refusal expected args) := by
  induction expected generalizing args with
  | nil => exact .pure ()
  | cons e rest ih =>
    cases args with
    | nil => exact .pure ()
    | cons a argRest =>
      have hrest : Keeps hidden s (matchSlots matchTerms refusal rest argRest) :=
        ih argRest (fun e' he' => hexpected e' (List.mem_cons_of_mem _ he'))
          fun a' ha' => hargs a' (List.mem_cons_of_mem _ ha')
      have hhead : Keeps hidden s (matchTerms e.ty a.ty) :=
        hterms _ _ (hexpected e (by simp)) (hargs a (by simp))
      simp only [matchSlots]
      split
      · exact .bind (.throws _) fun _ => .bind hhead fun _ => hrest
      · exact .bind hhead fun _ => hrest

/-- A variable gives way to the argument or to its own binding; any other shape is matched part by
part, and the parts of both sides are clear. -/
theorem keeps_matchShapes (hs : s.Linked) {expected arg : TermId}
    (hexpected : s.Clear hidden expected) (harg : s.Clear hidden arg) :
    Keeps hidden s (s.matchShapes matchTerms expected arg) := by
  have hparts : ∀ child ∈ (s.shape expected).children, s.Clear hidden child := fun child hchild =>
    hexpected.child hs hchild
  have hargParts : ∀ child ∈ (s.shape arg).children, s.Clear hidden child := fun child hchild =>
    harg.child hs hchild
  unfold matchShapes
  split
  · rename_i v hshape
    have hv : v ∉ hidden := hexpected.not_mem hs (by
      simp [hshape, Shape.ownVars, Shape.leaf])
    refine .reads fun m m' hm => ?_
    rw [hm.undetermined, hm.context.same v hv]
    split
    · exact keeps_determine hv harg m m' hm
    · split
      · rename_i value hvalue
        split
        · exact hterms _ _ (hm.context.clear v value hv hvalue) harg m m' hm
        · exact ⟨rfl, hm⟩
      · exact ⟨rfl, hm⟩
  · rename_i ty fields argTy argFields hshape hargShape
    rw [hshape] at hparts
    rw [hargShape] at hargParts
    refine .bind (hterms _ _ (hparts _ (by simp [Shape.children]))
      (hargParts _ (by simp [Shape.children]))) fun _ => ?_
    refine .bind (keeps_matchLengths _ _) fun _ => keeps_matchNamed hterms _ _ (fun e he => ?_)
      fun a ha => ?_
    · exact hparts _ (by simpa [Shape.children] using Or.inr ⟨_, he⟩)
    · exact hargParts _ (by simpa [Shape.children] using Or.inr ⟨_, ha⟩)
  · rename_i members argMembers hshape hargShape
    rw [hshape] at hparts
    rw [hargShape] at hargParts
    refine .bind (keeps_matchLengths _ _) fun _ => keeps_matchNamed hterms _ _ (fun e he => ?_)
      fun a ha => ?_
    · exact hparts _ (by simpa [Shape.children] using ⟨_, he⟩)
    · exact hargParts _ (by simpa [Shape.children] using ⟨_, ha⟩)
  · rename_i params result argParams argResult hshape hargShape
    rw [hshape] at hparts
    rw [hargShape] at hargParts
    refine .bind (keeps_matchLengths _ _) fun _ => ?_
    refine .bind (keeps_matchSlots hterms _ _ _ (fun e he => ?_) fun a ha => ?_) fun _ => ?_
    · exact hparts _ (by simpa [Shape.children] using Or.inl ⟨_, he, rfl⟩)
    · exact hargParts _ (by simpa [Shape.children] using Or.inl ⟨_, ha, rfl⟩)
    · exact hterms _ _ (hparts _ (by simp [Shape.children]))
        (hargParts _ (by simp [Shape.children]))
  · exact .throws _

end Components

theorem keeps_unify (hs : s.Linked) (levels : Nat) {expected arg : TermId}
    (hexpected : s.Clear hidden expected) (harg : s.Clear hidden arg) :
    Keeps hidden s (s.unify levels expected arg) := by
  induction levels generalizing expected arg with
  | zero => exact .throws _
  | succ levels ih =>
    unfold unify
    split
    · exact .pure ()
    · exact keeps_matchShapes (fun expected arg hexpected harg => ih hexpected harg) hs
        hexpected harg

end Store

end StagedCalculus
