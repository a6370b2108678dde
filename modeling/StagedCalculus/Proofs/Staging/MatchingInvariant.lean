import StagedCalculus.Proofs.Staging.MatchingAlike

/-!
# Invariants of matching

Matching changes its state in one way only: a variable that is not determined yet is bound in the
innermost frame and is determined from then on (`Matching.assign`). So whatever this step keeps is
kept by matching as a whole (`Match.Invariant.keeps_unify`), and if a variable that is not
determined is never bound before, matching comes to bind no variable twice.
-/

namespace StagedCalculus

namespace Matching

/-- The state after a variable was bound and determined. -/
def assign (m : Matching) (v : VarId) (t : TermId) : Matching :=
  { m.determine v with context := { m.context with innermost := (v, t) :: m.context.innermost } }

end Matching

namespace Match

/-- From a state with the invariant on, the step does not come to bind a variable twice, and
however it ends, it leaves a state with the invariant. -/
def Preserves (inv : Matching → Prop) (c : Match Unit) : Prop :=
  ∀ m, inv m → inv (c.run m).2 ∧ ∀ name, (c.run m).1 ≠ .error (.alreadyBound name)

namespace Preserves

variable {inv : Matching → Prop} {c d : Match Unit}

theorem pure : Preserves inv (Pure.pure ()) := fun _ hm => ⟨hm, fun _ h => by cases h⟩

theorem throws {e : Error} (h : ∀ name, e ≠ .alreadyBound name) : Preserves inv (throw e) :=
  fun _ hm => ⟨hm, fun name heq => h name (Except.error.inj heq)⟩

theorem seq (hc : Preserves inv c) (hd : Preserves inv d) : Preserves inv (c >>= fun _ => d) := by
  intro m hm
  obtain ⟨hm₁, herror⟩ := hc m hm
  rw [run_bind]
  generalize c.run m = r at hm₁ herror ⊢
  obtain ⟨e | u, m₁⟩ := r
  · exact ⟨hm₁, fun name heq => herror name (congrArg Except.error (Except.error.inj heq))⟩
  · exact hd m₁ hm₁

end Preserves

/-- A property of the state that is kept where a variable that is not determined yet is bound to an
allowed term, as every part of an argument is. -/
structure Invariant (s : Store) (allowed : TermId → Prop) (inv : Matching → Prop) : Prop where
  parts : ∀ {t child}, allowed t → child ∈ (s.shape t).children → allowed child
  vacant : ∀ {m v}, inv m → v ∈ m.undetermined → m.context.innermost.get? v = none
  assign : ∀ {m v t}, inv m → v ∈ m.undetermined → allowed t → inv (m.assign v t)

namespace Invariant

variable {s : Store} {allowed : TermId → Prop} {inv : Matching → Prop}
  {terms : TermId → TermId → Match Unit}

theorem keeps_matchLengths (expected arg : Nat) :
    Preserves inv (Store.matchLengths expected arg) := by
  unfold Store.matchLengths
  split
  · exact .pure
  · exact .throws fun _ h => by cases h

theorem keeps_matchNamed (expected : List (String × TermId)) {args : List (String × TermId)}
    (hterms : ∀ expected, ∀ a ∈ args, Preserves inv (terms expected a.2)) :
    Preserves inv (Store.matchNamed terms expected args) := by
  induction expected generalizing args with
  | nil => exact .pure
  | cons e rest ih =>
    cases args with
    | nil => exact .pure
    | cons a argRest =>
      have hboth : Preserves inv (do terms e.2 a.2; Store.matchNamed terms rest argRest) :=
        .seq (hterms e.2 a (by simp)) (ih fun e' a' ha' => hterms e' a' (by simp [ha']))
      simp only [Store.matchNamed]
      split
      · exact .seq (.throws fun _ h => by cases h) hboth
      · exact hboth

theorem keeps_matchSlots {refusal : Error} (hrefusal : ∀ name, refusal ≠ .alreadyBound name)
    (expected : List (Slot TermId)) {args : List (Slot TermId)}
    (hterms : ∀ expected, ∀ a ∈ args, Preserves inv (terms expected a.ty)) :
    Preserves inv (Store.matchSlots terms refusal expected args) := by
  induction expected generalizing args with
  | nil => exact .pure
  | cons e rest ih =>
    cases args with
    | nil => exact .pure
    | cons a argRest =>
      have hboth : Preserves inv (do terms e.ty a.ty; Store.matchSlots terms refusal rest argRest) :=
        .seq (hterms e.ty a (by simp)) (ih fun e' a' ha' => hterms e' a' (by simp [ha']))
      simp only [Store.matchSlots]
      split
      · exact .seq (.throws hrefusal) hboth
      · exact hboth

variable (h : Invariant s allowed inv)

include h

/-- A variable that is not determined yet is bound to the argument. -/
theorem run_determine {m : Matching} {v : VarId} (hm : inv m) (hv : v ∈ m.undetermined)
    (arg : TermId) : (s.determine v arg).run m = (.ok (), m.assign v arg) := by
  unfold Store.determine
  rw [Match.run_get, Context.bind?, h.vacant hm hv]
  rfl

theorem keeps_matchShapes (hterms : ∀ expected {arg}, allowed arg →
      Preserves inv (terms expected arg)) (expected : TermId) {arg : TermId}
    (harg : allowed arg) : Preserves inv (s.matchShapes terms expected arg) := by
  have hrefusal : ∀ name, s.mismatch expected arg ≠ .alreadyBound name := fun _ h => by cases h
  have hparts : ∀ {shape}, s.shape arg = shape → ∀ child ∈ shape.children, allowed child := by
    rintro shape rfl child hchild
    exact h.parts harg hchild
  unfold Store.matchShapes
  -- Only the first case binds a variable itself, the others match parts of the argument.
  split
  · intro m hm
    rw [Match.run_get]
    split
    · rename_i hv
      rw [h.run_determine hm hv]
      exact ⟨h.assign hm hv harg, fun _ h => by cases h⟩
    · split
      · split
        · exact hterms _ harg m hm
        · exact Preserves.throws hrefusal m hm
      · exact Preserves.throws hrefusal m hm
  · rename_i hshape
    have hparts := hparts hshape
    refine .seq (hterms _ (hparts _ (by simp [Shape.children]))) (.seq (keeps_matchLengths _ _) ?_)
    refine keeps_matchNamed _ fun e a ha => hterms e (hparts _ ?_)
    exact List.mem_cons_of_mem _ (List.mem_map_of_mem ha)
  · rename_i hshape
    refine .seq (keeps_matchLengths _ _) (keeps_matchNamed _ fun e a ha => hterms e ?_)
    exact hparts hshape _ (List.mem_map_of_mem ha)
  · rename_i hshape
    have hparts := hparts hshape
    refine .seq (keeps_matchLengths _ _) (.seq ?_ (hterms _ (hparts _ (by simp [Shape.children]))))
    refine keeps_matchSlots hrefusal _ fun e a ha => hterms e (hparts _ ?_)
    exact List.mem_append_left _ (List.mem_map_of_mem ha)
  · exact .throws hrefusal

/-- Matching as a whole keeps what assigning a variable keeps. -/
theorem keeps_unify (levels : Nat) (expected : TermId) {arg : TermId} (harg : allowed arg) :
    Preserves inv (s.unify levels expected arg) := by
  induction levels generalizing expected arg with
  | zero => exact .throws fun _ h => by cases h
  | succ levels ih =>
    unfold Store.unify
    split
    · exact .pure
    · exact h.keeps_matchShapes (fun e _ ha => ih e ha) expected harg

end Invariant

end Match

end StagedCalculus
