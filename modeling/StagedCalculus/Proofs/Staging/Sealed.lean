import StagedCalculus.Proofs.Staging.KeepsReduce
import StagedCalculus.Staging.Judgment

/-!
# Reduction that may not look at some values

This module seals variables: the judgments run as usual, but reducing a sealed variable fails as if
its value were missing (`Engine.sealed`). Inferring its type is not affected.

At every number of levels the sealed engine stays in step with the plain one in any context that is
alike (`Engine.inStep_sealed`), until it asks for a sealed value.
-/

namespace StagedCalculus

open Attempt

namespace Engine

variable {hidden : List VarId} {s : Store} {ctx ctx' : Context}

/-- The engine with the given number of levels left whose reduction finds no value of the hidden
variables. -/
def sealed (hidden : List VarId) : Nat → Engine
  | 0 => ofLevels 0
  | n + 1 =>
    ⟨n + 1, fun ctx t => (sealed hidden n).inferStep ctx t, fun mode ctx t => do
      if (← shape t).leaf.any (· ∈ hidden) then throw (.valueNotAvailable (← display t))
      else (sealed hidden n).reduceStep mode ctx t⟩

theorem sealed_nil (n : Nat) : sealed [] n = ofLevels n := by
  induction n with
  | zero => rfl
  | succ n ih =>
    simp only [sealed, ofLevels, ih, List.not_mem_nil, decide_false, List.any_eq_true]
    simp
    rfl

theorem run_sealed (hidden : List VarId) (n : Nat) (mode : Mode) (ctx : Context) (t : TermId)
    (s : Store) :
    ((sealed hidden (n + 1)).reduce mode ctx t).run s =
      if (s.shape t).leaf.any (· ∈ hidden) then (.error (.valueNotAvailable (s.display t)), s)
      else ((sealed hidden n).reduceStep mode ctx t).run s := by
  have hrun : ((sealed hidden (n + 1)).reduce mode ctx t).run s =
      ((if (s.shape t).leaf.any (· ∈ hidden) then
        (do throw (.valueNotAvailable (← display t)))
      else (sealed hidden n).reduceStep mode ctx t : Attempt TermId)).run s := rfl
  rw [hrun]
  split <;> rfl

/-- A closed term observes nothing. -/
theorem run_restrict_closed {typeOf : TermId → Attempt TermId} {t : TermId}
    (h : (s.freeVariables t).isEmpty = true) :
    (restrict typeOf ctx t).run s = (.ok [], s) := by
  have hfree : (s.freeVariables t).toList = [] := List.isEmpty_iff.1 h
  change ((observe typeOf ctx (s.vars.size + 1) ∅ (s.freeVariables t).toList.reverse >>=
    fun found => pure found.toList).run s) = _
  rw [hfree]
  rfl

theorem run_restrict_value {typeOf : TermId → Attempt TermId} {value : TermId}
    (h : s.isValue value = true) : (restrict typeOf ctx value).run s = (.ok [], s) := by
  simp only [Store.isValue, Store.isConcrete, Bool.and_eq_true] at h
  exact run_restrict_closed h.1.2

/-- The remembered answer for a value is given in any context. -/
theorem run_inferStep_value {e : Engine} {value : TermId} {answer : TypeAnswer}
    (hvalue : s.isValue value = true) (h : s.types.get? value [] = some answer) :
    (e.inferStep ctx value).run s = (answer, s) := by
  unfold inferStep
  rw [Attempt.run_bind, run_restrict_value hvalue]
  exact run_remembered_hit h

theorem keeps_inferKnown {e e' : Engine} {value value' ty : TermId} (h : s.Knows value ty)
    (h' : s.Knows value' ty) :
    Keeps Store.Honest hidden (SameClear hidden) (e.inferStep ctx value) (e'.inferStep ctx' value')
      s := by
  intro hs
  rw [run_inferStep_value h.isValue h.remembered, run_inferStep_value h'.isValue h'.remembered]
  exact .gives (.refl hs) ⟨rfl, hs.typesClear _ _ _ h.remembered⟩

theorem levels_sealed (hidden : List VarId) (n : Nat) : (sealed hidden n).levels = n := by
  cases n with
  | zero => rfl
  | succ n => rfl

theorem inStep_sealed (hidden : List VarId) (n : Nat) :
    InStep hidden (sealed hidden n) (ofLevels n) := by
  induction n with
  | zero =>
    exact ⟨rfl, fun _ _ => .reads rfl (.fails rfl rfl), fun _ _ => .reads rfl (.fails rfl rfl),
      fun _ _ => .reads rfl (.fails rfl rfl)⟩
  | succ n ih =>
    have hlevels : (ofLevels (n + 1)).levels = (sealed hidden (n + 1)).levels := by
      rw [levels_ofLevels, levels_sealed]
    refine ⟨hlevels, fun hctx ht => keeps_inferStep ih (fun _ h => h) hctx ht, keeps_inferKnown,
      fun {s mode ctx ctx' t} hctx ht => ?_⟩
    by_cases hleaf : (s.shape t).leaf.any (· ∈ hidden) = true
    · refine .misses ?_ ((run_sealed hidden n mode ctx t s).trans (if_pos hleaf))
      rintro rfl
      simp at hleaf
    · intro hs
      rw [run_sealed, if_neg hleaf]
      refine keeps_reduceStep ih hctx ht (fun v hv hmem => hleaf ?_) hs
      exact List.any_eq_true.2 ⟨v, hv, by simpa using hmem⟩

/-- With nothing to hide the plain engine stays in step with itself. -/
theorem inStep_ofLevels (n : Nat) : InStep [] (ofLevels n) (ofLevels n) := by
  have h := inStep_sealed [] n
  rwa [sealed_nil] at h

end Engine

end StagedCalculus
