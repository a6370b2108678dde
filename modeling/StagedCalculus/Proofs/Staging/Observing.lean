import Mathlib.Data.Finset.Card
import StagedCalculus.Proofs.Staging.Keeps

/-!
# Observing again

A query that observes what an earlier one observed is given the remembered answer. This module
proves that it does observe the same, in any later store and in any context that is alike, and that
it leaves that store alone (`Attempt.restrict_again`).

The number of variables still to be observed bounds the recursion, and a later store may have more
variables. Both bounds are enough: each round finds a variable that was missing (`missing`).
-/

namespace StagedCalculus

open Attempt

namespace Attempt

/-- An answer that lacks neither a value nor depth. -/
structure Settled {α : Type} (answer : Except Error α) : Prop where
  found : ∀ name, answer ≠ .error (.valueNotAvailable name)
  deep : ∀ limit, answer ≠ .error (.depthExceeded limit)

theorem Settled.ok {α : Type} (a : α) : Settled (.ok a : Except Error α) := ⟨nofun, nofun⟩

theorem Settled.of_ok {α : Type} {answer : Except Error α} {a : α} (h : answer = .ok a) :
    Settled answer := h ▸ .ok a

theorem Settled.error {α β : Type} {e : Error} (h : Settled (.error e : Except Error α)) :
    Settled (.error e : Except Error β) :=
  ⟨fun name heq => h.found name (by simpa using heq),
    fun limit heq => h.deep limit (by simpa using heq)⟩

variable {hidden : List VarId} {s s' : Store} {ctx ctx' : Context}

/-! ## Variables still to be found -/

/-- How many of the first variables have not been observed. -/
def missing (found : Observations) (n : Nat) : Nat :=
  ((Finset.range n).filter fun i => found.contains ⟨i⟩ = false).card

theorem contains_insert (found : Observations) (v w : VarId) (seen : Observation) :
    (found.insert v seen).contains w = (decide (w = v) || found.contains w) := by
  rw [VarMap.contains_eq, VarMap.contains_eq, VarMap.get?_insert]
  by_cases hw : w = v <;> simp [hw]

theorem missing_insert_lt {found : Observations} {v : VarId} {n : Nat} (hv : v.index < n)
    (hnew : found.contains v = false) (seen : Observation) :
    missing (found.insert v seen) n < missing found n := by
  refine Finset.card_lt_card (Finset.ssubset_iff_subset_ne.2 ⟨fun i hi => ?_, fun heq => ?_⟩)
  · simp only [Finset.mem_filter, contains_insert, Bool.or_eq_false_iff] at hi ⊢
    exact ⟨hi.1, hi.2.2⟩
  · have hmem : v.index ∈ (Finset.range n).filter fun i => found.contains ⟨i⟩ = false := by
      simpa using ⟨hv, hnew⟩
    rw [← heq] at hmem
    simp [contains_insert] at hmem

theorem missing_le (found : Observations) (n : Nat) : missing found n ≤ n := by
  calc missing found n ≤ (Finset.range n).card := Finset.card_filter_le _ _
    _ = n := Finset.card_range n

/-! ## Recalled answers -/

/-- The first inference comes to this answer, and the second one recalls it in any later store. -/
structure Recalled (hidden : List VarId) (s s₁ : Store) (second : Attempt TermId)
    (answer : TypeAnswer) : Prop where
  sound : s₁.Sound hidden
  growsTo : s.GrowsTo s₁
  again : ∀ {s₂}, s₁.GrowsTo s₂ → second.run s₂ = (answer, s₂)

/-- Inference on the left settles the types of values, and inference on the right recalls them. -/
structure Recalls (hidden : List VarId) (ctx ctx' : Context)
    (typeOf typeOf' : TermId → Attempt TermId) : Prop where
  clear : ∀ {s s₁ value answer}, s.Sound hidden → ctx.Alike hidden s ctx' →
    s.Clear hidden value → s.isValue value = true → (typeOf value).run s = (answer, s₁) →
    Settled answer → Recalled hidden s s₁ (typeOf' value) answer
  known : ∀ {s s₁ value value' ty answer}, s.Sound hidden → s.Knows value ty →
    s.Knows value' ty → (typeOf value).run s = (answer, s₁) → Settled answer →
    Recalled hidden s s₁ (typeOf' value') answer

/-- What follows a recalled answer is run again after it. -/
theorem bind_again {α : Type} {c c' : Attempt TermId} {rest rest' : TermId → Attempt α}
    {result : Except Error α} {s₁ s₂ : Store} (hrun : (c >>= rest).run s = (result, s₁))
    (hsettled : Settled result) (hlater : s₁.GrowsTo s₂)
    (hrecalled : ∀ {answer s'}, c.run s = (answer, s') → Settled answer →
      Recalled hidden s s' c' answer)
    (hrest : ∀ {ty s'}, s'.Sound hidden → s.GrowsTo s' → (rest ty).run s' = (result, s₁) →
      s'.GrowsTo s₁ ∧ (rest' ty).run s₂ = (result, s₂)) :
    s.GrowsTo s₁ ∧ (c' >>= rest').run s₂ = (result, s₂) := by
  rw [run_bind] at hrun ⊢
  rcases hanswer : c.run s with ⟨e | ty, s'⟩
  · rw [hanswer] at hrun
    cases hrun
    obtain ⟨-, hgrows, hagain⟩ := hrecalled hanswer hsettled.error
    rw [hagain hlater]
    exact ⟨hgrows, rfl⟩
  · rw [hanswer] at hrun
    obtain ⟨hs', hgrows, hagain⟩ := hrecalled hanswer (.ok ty)
    obtain ⟨hgrows', hrun'⟩ := hrest hs' hgrows hrun
    rw [hagain (hgrows'.trans hlater)]
    exact ⟨hgrows.trans hgrows', hrun'⟩

theorem run_observedByType (v : VarId) (usage : Usage) (value : TermId) (s : Store) :
    (observedByType v usage value).run s =
      (.ok (usage = .intoValue && !s.isComptime v && s.isValue value), s) := rfl

/-- How a bound term is observed stays so. -/
theorem run_observedByType_later {v : VarId} {usage : Usage} {value : TermId}
    (hgrows : s.GrowsTo s') (hv : v.index < s.vars.size) (hvalue : s.Allocated value) :
    (observedByType v usage value).run s' =
      (.ok (usage = .intoValue && !s.isComptime v && s.isValue value), s') := by
  rw [run_observedByType, hgrows.isComptime_eq hv, hgrows.isValue_eq hvalue]

/-- What was observed once is observed again in a later store, which is left alone, as long as both
bounds leave room for the variables that are still missing. -/
theorem observe_again {typeOf typeOf' : TermId → Attempt TermId} {bound bound' n : Nat}
    {found : Observations} {pending : List (VarId × Usage)} {s₁ s₂ : Store}
    {result : Except Error Observations} (hrecalls : Recalls hidden ctx ctx' typeOf typeOf')
    (hs : s.Sound hidden) (hctx : ctx.Alike hidden s ctx') (hn : n ≤ s.vars.size)
    (hdeclared : ∀ v value, ctx.get? v = some value →
      ∀ w ∈ (s.freeVariables value).vars, w.index < n)
    (hpending : ∀ e ∈ pending, e.1.index < n ∧ (e.1 ∈ hidden → e.2 = .intoValue))
    (hbound : missing found n < bound) (hbound' : missing found n < bound')
    (hrun : (observe typeOf ctx bound found pending).run s = (result, s₁))
    (hsettled : Settled result) (hlater : s₁.GrowsTo s₂) :
    s.GrowsTo s₁ ∧ (observe typeOf' ctx' bound' found pending).run s₂ = (result, s₂) := by
  induction bound generalizing s found pending bound' with
  | zero => exact absurd hbound (Nat.not_lt_zero _)
  | succ bound ih =>
    obtain _ | bound' := bound'
    · exact absurd hbound' (Nat.not_lt_zero _)
    unfold observe at hrun ⊢
    have hleft : ∀ e ∈ pending.dropWhile fun e => found.contains e.1,
        e.1.index < n ∧ (e.1 ∈ hidden → e.2 = .intoValue) := fun e he =>
      hpending e ((List.dropWhile_sublist _).subset he)
    have hnew := List.head?_dropWhile_not (fun e : VarId × Usage => found.contains e.1) pending
    generalize pending.dropWhile (fun e => found.contains e.1) = left at hleft hnew hrun ⊢
    cases left with
    | nil =>
      cases hrun
      exact ⟨.refl hs.toLinked, rfl⟩
    | cons e pending =>
      obtain ⟨v, usage⟩ := e
      have hvn : v.index < n := (hleft (v, usage) (by simp)).1
      have hpending' : ∀ e ∈ pending, e.1.index < n ∧ (e.1 ∈ hidden → e.2 = .intoValue) :=
        fun e he => hleft e (List.mem_cons_of_mem _ he)
      have hfewer : ∀ seen, missing (found.insert v seen) n < missing found n :=
        missing_insert_lt hvn hnew
      have hroom : ∀ seen, missing (found.insert v seen) n < bound := fun seen =>
        Nat.lt_of_lt_of_le (hfewer seen) (Nat.le_of_lt_succ hbound)
      have hroom' : ∀ seen, missing (found.insert v seen) n < bound' := fun seen =>
        Nat.lt_of_lt_of_le (hfewer seen) (Nat.le_of_lt_succ hbound')
      -- Only a question for a type changes the store before the rest is observed.
      have hrest : ∀ {ty s'}, s'.Sound hidden → s.GrowsTo s' →
          (observe typeOf ctx bound (found.insert v (.typed ty)) pending).run s' = (result, s₁) →
          s'.GrowsTo s₁ ∧
            (observe typeOf' ctx' bound' (found.insert v (.typed ty)) pending).run s₂ =
              (result, s₂) := by
        intro ty s' hs' hgrows hrun
        refine ih hs' (hctx.mono hgrows) (Nat.le_trans hn hgrows.size_vars) (fun w u hw => ?_)
          hpending' (hroom _) (hroom' _) hrun
        rw [hgrows.freeVariables_eq (hctx.allocated hw)]
        exact hdeclared w u hw
      dsimp only at hrun ⊢
      by_cases hv : v ∈ hidden
      · have husage : usage = .intoValue := (hleft (v, usage) (by simp)).2 hv
        have hby : ∀ {value ty}, s.Knows value ty →
            (usage = .intoValue && !s.isComptime v && s.isValue value) = true := by
          intro value ty hknows
          simp [husage, hs.runtime v hv, hknows.isValue]
        have htwins := hctx.twins v hv
        generalize ctx.get? v = value, ctx'.get? v = value' at htwins hrun ⊢
        cases htwins with
        | unbound => exact ih hs hctx hn hdeclared hpending' (hroom _) (hroom' _) hrun
        | typed hknows hknows' =>
          rw [run_bind, run_observedByType, hby hknows] at hrun
          obtain ⟨hgrows, hrun'⟩ := bind_again hrun hsettled hlater (fun hanswer hsettled =>
            hrecalls.known hs hknows hknows' hanswer hsettled) hrest
          rw [run_bind, run_observedByType_later (hgrows.trans hlater) (hs.old v hv)
            hknows'.allocated, hby hknows']
          exact ⟨hgrows, hrun'⟩
      · rw [hctx.same v hv]
        cases hget : ctx.get? v with
        | none =>
          rw [hget] at hrun
          exact ih hs hctx hn hdeclared hpending' (hroom _) (hroom' _) hrun
        | some value =>
          have hvalue := hctx.clear v value hv hget
          have hlater' : ∀ hgrows : s.GrowsTo s₁, (observedByType v usage value).run s₂ = _ :=
            fun hgrows => run_observedByType_later (hgrows.trans hlater)
              (Nat.lt_of_lt_of_le hvn hn) hvalue.allocated
          rw [hget, run_bind, run_observedByType] at hrun
          cases hby : (usage = .intoValue && !s.isComptime v && s.isValue value : Bool) with
          | true =>
            have hisValue : s.isValue value = true := by
              rw [Bool.and_eq_true] at hby
              exact hby.2
            rw [hby] at hrun
            obtain ⟨hgrows, hrun'⟩ := bind_again hrun hsettled hlater (fun hanswer hsettled =>
              hrecalls.clear hs hctx hvalue hisValue hanswer hsettled) hrest
            rw [run_bind, hlater' hgrows, hby]
            exact ⟨hgrows, hrun'⟩
          | false =>
            have hinside : ∀ e ∈ (s.freeVariables value).toList.reverse ++ pending,
                e.1.index < n ∧ (e.1 ∈ hidden → e.2 = .intoValue) := by
              intro e he
              rcases List.mem_append.1 he with he | he
              · have hfree : e.1 ∈ (s.freeVariables value).vars :=
                  List.mem_map_of_mem (List.mem_reverse.1 he)
                exact ⟨hdeclared v value hget e.1 hfree,
                  fun hmem => absurd hmem (hvalue.not_free hs.toLinked hfree)⟩
              · exact hpending' e he
            rw [hby] at hrun
            obtain ⟨hgrows, hrun'⟩ := ih hs hctx hn hdeclared hinside (hroom _) (hroom' _) hrun
            rw [← (hgrows.trans hlater).freeVariables_eq hvalue.allocated] at hrun'
            rw [run_bind, hlater' hgrows, hby]
            exact ⟨hgrows, hrun'⟩

/-- A later query in a context that is alike comes to the same restriction. -/
theorem restrict_again {typeOf typeOf' : TermId → Attempt TermId} {t : TermId} {s₁ s₂ : Store}
    {result : Except Error Restriction} (hrecalls : Recalls hidden ctx ctx' typeOf typeOf')
    (hs : s.Sound hidden) (hctx : ctx.Alike hidden s ctx') (hdeclared : ctx.Declared s)
    (ht : s.Plain hidden t) (hterm : s.Declares t)
    (hrun : (restrict typeOf ctx t).run s = (result, s₁)) (hsettled : Settled result)
    (hgrows : s.GrowsTo s₁) (hlater : s₁.GrowsTo s₂) :
    (restrict typeOf' ctx' t).run s₂ = (result, s₂) := by
  have hsplit : ∀ (typeOf : TermId → Attempt TermId) (ctx : Context) (s : Store),
      (restrict typeOf ctx t).run s = ((observe typeOf ctx (s.vars.size + 1) ∅
        (s.freeVariables t).toList.reverse >>= fun found => return found.toList).run s) :=
    fun _ _ _ => rfl
  rw [hsplit, run_bind] at hrun ⊢
  have hpending : ∀ e ∈ (s.freeVariables t).toList.reverse,
      e.1.index < s.vars.size ∧ (e.1 ∈ hidden → e.2 = .intoValue) := by
    intro e he
    have hmem := List.mem_reverse.1 he
    exact ⟨hterm e.1 (List.mem_map_of_mem hmem), ht.usage_eq hs.toLinked hmem⟩
  have hroom : missing ∅ s.vars.size < s.vars.size + 1 := Nat.lt_succ_of_le (missing_le _ _)
  have hroom' : missing ∅ s.vars.size < s₂.vars.size + 1 :=
    Nat.lt_of_lt_of_le hroom (Nat.succ_le_succ (hgrows.trans hlater).size_vars)
  have hagain : ∀ {found}, Settled found → (observe typeOf ctx (s.vars.size + 1) ∅
      (s.freeVariables t).toList.reverse).run s = (found, s₁) →
      (observe typeOf' ctx' (s₂.vars.size + 1) ∅ (s₂.freeVariables t).toList.reverse).run s₂ =
        (found, s₂) := by
    intro found hsettled hfound
    rw [(hgrows.trans hlater).freeVariables_eq ht.allocated]
    exact (observe_again hrecalls hs hctx (Nat.le_refl _) hdeclared hpending hroom hroom' hfound
      hsettled hlater).2
  rcases hobserve : (observe typeOf ctx (s.vars.size + 1) ∅
    (s.freeVariables t).toList.reverse).run s with ⟨e | found, s'⟩
  all_goals
    rw [hobserve] at hrun
    cases hrun
  · rw [hagain hsettled.error hobserve]
  · rw [hagain (.ok found) hobserve]
    rfl

end Attempt

end StagedCalculus
