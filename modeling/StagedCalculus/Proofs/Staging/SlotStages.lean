import StagedCalculus.Proofs.Staging.Silence

/-!
# Stages of positions

Matching compares the stages of positions in one direction only: a position of the argument that
needs its own argument at compile time stands against one that does (`Store.stages_of_matchSlots`).
The converse is not asked for, so an argument may be accepted whose type is not the type of its
position. The evaluator takes the two for different types and casts
(`Attempt.evaluate_accepted_function`).
-/

namespace StagedCalculus

namespace Store

variable {s : Store}

/-- Matched positions never fill a comptime position of the argument at run time. -/
theorem stages_of_matchSlots {matchTerms : TermId → TermId → Match Unit} {refusal : Error}
    {expected args : List (Slot TermId)} {m m' : Matching}
    (h : (matchSlots matchTerms refusal expected args).run m = (.ok (), m')) :
    ∀ p ∈ expected.zip args, p.2.comptime = true → p.1.comptime = true := by
  induction expected generalizing args m with
  | nil => simp
  | cons slot rest ih =>
    cases args with
    | nil => simp
    | cons arg argRest =>
      simp only [matchSlots] at h
      split at h
      · cases h
      · rename_i hstage
        rw [Match.run_bind] at h
        rcases hhead : (matchTerms slot.ty arg.ty).run m with ⟨err | u, m₁⟩
        · rw [hhead] at h
          cases h
        · rw [hhead] at h
          intro p hp hcomptime
          rcases List.mem_cons.1 hp with rfl | hp
          · have hslot : arg.comptime = true → slot.comptime = true := by simpa using hstage
            exact hslot hcomptime
          · exact ih h p hp hcomptime

/-- A function type that matches another asks for no more at compile time. -/
theorem stages_of_unify {levels : Nat} {expected arg : TermId} {m m' : Matching}
    {params argParams : List (Slot TermId)} {result argResult : TermId}
    (hexpected : s.shape expected = .functionType params result)
    (harg : s.shape arg = .functionType argParams argResult) (hne : expected ≠ arg)
    (h : (s.unify levels expected arg).run m = (.ok (), m')) :
    params.length = argParams.length ∧
      ∀ p ∈ params.zip argParams, p.2.comptime = true → p.1.comptime = true := by
  cases levels with
  | zero => cases h
  | succ levels =>
    simp only [unify, if_neg hne, matchShapes, hexpected, harg, Match.run_bind, matchLengths] at h
    split at h
    · rename_i hlength
      refine ⟨Classical.byContradiction fun hne' => ?_, ?_⟩
      · simp only [if_neg hne'] at hlength
        cases hlength
      · rename_i m₁
        rcases hslots : (matchSlots (s.unify levels) (s.mismatch expected arg) params
          argParams).run m₁ with ⟨err | u, m₂⟩
        · rw [hslots] at h
          cases h
        · exact stages_of_matchSlots hslots
    · cases h

end Store

namespace Sample

open Build

/-- `(fn(g: fn(comptime Unit) -> Unit) => g)(fn(x: Unit) => x)`. -/
def passedFunction : Build TermId := do
  let g ← freshVariable false (some "g")
  let x ← freshVariable false (some "x")
  let ty ← functionType [⟨Store.unitType, true, none⟩] Store.unitType
  let gTerm ← variableTerm g
  let callee ← abstraction [] [(g, ty)] gTerm
  let xTerm ← variableTerm x
  let function ← abstraction [] [(x, Store.unitType)] xTerm
  apply callee [function]

theorem reaches_passedFunction {s : Store} : Reaches Store.Allocated passedFunction s := by
  refine .bind (.freshVariable _ _) fun g s₁ h₁ _ => .bind (.freshVariable _ _) fun x s₂ h₂ _ => ?_
  refine .bind (.intern fun hcommon => ?_) fun ty s₃ h₃ hty => ?_
  · simpa [Shape.children, Store.unitType] using hcommon 1 (by decide)
  refine .bind (.leaf rfl) fun gTerm s₄ h₄ hgTerm => ?_
  refine .bind (.intern fun _ => ?_) fun callee s₅ h₅ hcallee => ?_
  · simpa [Shape.children] using ⟨h₄.allocated hty, hgTerm⟩
  refine .bind (.leaf rfl) fun xTerm s₆ h₆ hxTerm => ?_
  refine .bind (.intern fun hcommon => ?_) fun function s₇ h₇ hfunction => .intern fun _ => ?_
  · simpa [Shape.children, Store.unitType] using ⟨hcommon 1 (by decide), hxTerm⟩
  · simpa [Shape.children] using ⟨(h₆.trans h₇).allocated hcallee, hfunction⟩

end Sample

namespace Attempt

open Sample

/-- The argument has a type that its position accepts, so the call has a type; but that type is not
the type of the position, and no value of it can be cast there. -/
theorem evaluate_accepted_function :
    ∃ s : Store, s.Reachable ∧ ∃ t ty, s.Allocated t ∧ (s.freeVariables t).isEmpty = true ∧
      ((infer .root t).run s).1 = .ok ty ∧
      ((evaluate .root t).run s).1 =
        .error (.uncastableTypes "fn(Unit) -> Unit" "fn(comptime Unit) -> Unit") := by
  refine ⟨(passedFunction.run (.initial {})).2, reaches_passedFunction.reachable,
    (passedFunction.run (.initial {})).1, ⟨23⟩, reaches_passedFunction.holds, ?_⟩
  decide +kernel

end Attempt

end StagedCalculus
