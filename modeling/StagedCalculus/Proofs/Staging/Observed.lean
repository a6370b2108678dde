import Mathlib.Data.List.TakeWhile
import StagedCalculus.Proofs.Staging.Observing
import StagedCalculus.Proofs.Staging.ReplayReduce
import StagedCalculus.Proofs.Staging.Session

/-!
# What a restriction observes

The variables that a term observes of a context are found by a worklist, each when it is met for
the first time. This module says what the result holds, apart from the order of the worklist:

* `Store.Observes`: the uses that count, those in the term and those in the terms that variables are
  observed by;
* `Context.Shows`: what may be observed of a variable, by its uses;
* `Attempt.restrict_observes`: a restriction holds exactly the variables with a use, in order, each
  observed in a way that one of its uses asks for.

A variable is observed by the use that is met first. If it is used as a value and inside a type,
then this may be the wrong one (`Attempt.restrict_misses_type_use`).
-/

namespace StagedCalculus

/-- The uses of variables that count for a restriction. -/
inductive Store.Observes (s : Store) (t : TermId) (r : Restriction) : VarId → Usage → Prop
  | free {v : VarId} {usage : Usage} : (s.freeVariables t).get? v = some usage →
      Observes s t r v usage
  | inside {v w : VarId} {value : TermId} {usage usage' : Usage} : Observes s t r w usage' →
      (w, .bound value) ∈ r → (s.freeVariables value).get? v = some usage → Observes s t r v usage

/-- What may be observed of a variable that is used in these ways. -/
def Context.Shows (ctx : Context) (s : Store) (typeOf : TermId → Attempt TermId)
    (uses : Usage → Prop) (v : VarId) : Observation → Prop
  | .unbound => ctx.get? v = none
  | .bound value => ctx.get? v = some value ∧
      (s.isComptime v = true ∨ s.isValue value = false ∨ uses .intoType)
  | .typed ty => uses .intoValue ∧ s.isComptime v = false ∧ ∃ value, ctx.get? v = some value ∧
      s.isValue value = true ∧ ∃ s₁ s₂, s.Extends s₁ ∧ (typeOf value).run s₁ = (.ok ty, s₂)

namespace Store.Observes

variable {s : Store} {t : TermId} {r r' : Restriction} {v : VarId} {usage : Usage}

theorem mono (h : s.Observes t r v usage) (hr : r ⊆ r') : s.Observes t r' v usage := by
  induction h with
  | free hfree => exact .free hfree
  | inside _ hmem hfree ih => exact .inside ih (hr hmem) hfree

end Store.Observes

theorem Context.Shows.mono {ctx : Context} {s : Store} {typeOf : TermId → Attempt TermId}
    {uses uses' : Usage → Prop} {v : VarId} {seen : Observation}
    (h : ctx.Shows s typeOf uses v seen) (huses : ∀ usage, uses usage → uses' usage) :
    ctx.Shows s typeOf uses' v seen := by
  cases seen with
  | unbound => exact h
  | bound value => exact ⟨h.1, h.2.imp_right (Or.imp_right (huses _))⟩
  | typed ty => exact ⟨huses _ h.1, h.2⟩

namespace Attempt

variable {s : Store} {ctx : Context} {t : TermId} {typeOf : TermId → Attempt TermId}
  {found : Observations} {pending : List (VarId × Usage)}

/-! ## The worklist -/

theorem mem_vars_insert (found : Observations) (v w : VarId) (seen : Observation) :
    w ∈ (found.insert v seen).vars ↔ w = v ∨ w ∈ found.vars := by
  rw [VarMap.mem_vars, VarMap.mem_vars, VarMap.get?_insert]
  by_cases hw : w = v <;> simp [hw]

theorem subset_insert {v : VarId} (hnew : v ∉ found.vars) (seen : Observation) :
    found.toList ⊆ (found.insert v seen).toList := by
  rintro ⟨w, old⟩ hmem
  have hold := VarMap.mem_toList.1 hmem
  rw [VarMap.mem_toList, VarMap.get?_insert, if_neg, hold]
  rintro rfl
  exact hnew (VarMap.mem_vars.2 (by simp [hold]))

/-- The state of the worklist: what was found is used and is shown by the context, what is pending
is used, and nothing else is. -/
structure Worklist (s : Store) (ctx : Context) (t : TermId) (typeOf : TermId → Attempt TermId)
    (found : Observations) (pending : List (VarId × Usage)) : Prop where
  shown : ∀ v seen, found.get? v = some seen →
    ctx.Shows s typeOf (s.Observes t found.toList v) v seen
  used : ∀ v ∈ found.vars, ∃ usage, s.Observes t found.toList v usage
  awaited : ∀ e ∈ pending, s.Observes t found.toList e.1 e.2
  covered : ∀ v usage, s.Observes t found.toList v usage → v ∈ found.vars ∨ v ∈ pending.map (·.1)

namespace Worklist

theorem initial (s : Store) (ctx : Context) (t : TermId) (typeOf : TermId → Attempt TermId) :
    Worklist s ctx t typeOf ∅ (s.freeVariables t).toList.reverse where
  shown v seen h := by cases h
  used v h := by cases h
  awaited e he := .free (VarMap.mem_toList.1 (List.mem_reverse.1 he))
  covered v usage h := by
    cases h with
    | free hfree =>
      exact Or.inr (List.mem_map_of_mem (List.mem_reverse.2 (VarMap.mem_toList.2 hfree)))
    | inside _ hmem => cases hmem

/-- Variables that were found already are passed over. -/
theorem dropWhile (h : Worklist s ctx t typeOf found pending) :
    Worklist s ctx t typeOf found (pending.dropWhile fun e => found.contains e.1) where
  shown := h.shown
  used := h.used
  awaited e he := h.awaited e ((List.dropWhile_sublist _).subset he)
  covered v usage huse := by
    refine (h.covered v usage huse).elim Or.inl fun hv => ?_
    obtain ⟨e, he, rfl⟩ := List.mem_map.1 hv
    rw [← List.takeWhile_append_dropWhile (p := fun e => found.contains e.1) (l := pending)] at he
    rcases List.mem_append.1 he with he | he
    · have hfound := List.mem_takeWhile_imp (p := fun e : VarId × Usage => found.contains e.1) he
      exact Or.inl (VarMap.mem_vars.2 (VarMap.contains_eq found e.1 ▸ hfound))
    · exact Or.inr (List.mem_map_of_mem he)

/-- A step of the worklist. The free variables of a term that is observed itself are pending from
then on. -/
theorem insert {v : VarId} {usage : Usage} (seen : Observation) (inside : List (VarId × Usage))
    (h : Worklist s ctx t typeOf found ((v, usage) :: pending)) (hnew : v ∉ found.vars)
    (hshown : ctx.Shows s typeOf (s.Observes t found.toList v) v seen)
    (hinside : ∀ w use, (w, use) ∈ inside ↔
      ∃ value, seen = .bound value ∧ (s.freeVariables value).get? w = some use) :
    Worklist s ctx t typeOf (found.insert v seen) (inside ++ pending) := by
  have hget : ∀ w, (found.insert v seen).get? w = if w = v then some seen else found.get? w :=
    fun w => found.get?_insert v w seen
  have hsub := subset_insert hnew seen
  have huse : s.Observes t (found.insert v seen).toList v usage :=
    (h.awaited _ List.mem_cons_self).mono hsub
  refine ⟨fun w old hold => ?_, fun w hw => ?_, fun e he => ?_, fun w use hwuse => ?_⟩
  · rw [hget] at hold
    split at hold
    · subst w
      cases hold
      exact hshown.mono fun _ huse => huse.mono hsub
    · exact (h.shown w old hold).mono fun _ huse => huse.mono hsub
  · rcases (mem_vars_insert found v w seen).1 hw with rfl | hw
    · exact ⟨usage, huse⟩
    · exact (h.used w hw).imp fun _ huse => huse.mono hsub
  · rcases List.mem_append.1 he with he | he
    · obtain ⟨value, rfl, hfree⟩ := (hinside e.1 e.2).1 he
      exact .inside huse (VarMap.mem_toList.2 (by rw [hget, if_pos rfl])) hfree
    · exact (h.awaited e (List.mem_cons_of_mem _ he)).mono hsub
  · rw [mem_vars_insert, List.map_append, List.mem_append]
    -- A use inside the new term is pending now, any other one was covered before.
    have hbefore : s.Observes t found.toList w use → (w = v ∨ w ∈ found.vars) ∨
        w ∈ inside.map (·.1) ∨ w ∈ pending.map (·.1) := by
      intro hold
      rcases h.covered w use hold with hw | hw
      · exact Or.inl (Or.inr hw)
      · rcases List.mem_cons.1 hw with rfl | hw
        · exact Or.inl (Or.inl rfl)
        · exact Or.inr (Or.inr hw)
    cases hwuse with
    | free hfree => exact hbefore (.free hfree)
    | @inside _ u value _ _ _ hmem hfree =>
      rw [VarMap.mem_toList, hget] at hmem
      split at hmem
      · cases hmem
        have hw := (hinside w use).2 ⟨value, rfl, hfree⟩
        exact Or.inr (Or.inl (List.mem_map_of_mem hw))
      · obtain ⟨_, hu⟩ := h.used u (VarMap.mem_vars.2 (by simp [hmem]))
        exact hbefore (.inside hu (VarMap.mem_toList.2 hmem) hfree)

section Steps

variable {v : VarId} {usage : Usage} {value : TermId}
  (h : Worklist s ctx t typeOf found ((v, usage) :: pending)) (hnew : v ∉ found.vars)

include h hnew

theorem unbound (hget : ctx.get? v = none) :
    Worklist s ctx t typeOf (found.insert v .unbound) pending :=
  h.insert .unbound [] hnew hget (by simp)

/-- Only a use as a value lets a variable be observed by its type. -/
theorem typed {s₁ s₂ : Store} {ty : TermId} (hget : ctx.get? v = some value)
    (hby : (usage = .intoValue && !s.isComptime v && s.isValue value) = true)
    (hs₁ : s.Extends s₁) (hty : (typeOf value).run s₁ = (.ok ty, s₂)) :
    Worklist s ctx t typeOf (found.insert v (.typed ty)) pending := by
  simp only [Bool.and_eq_true, decide_eq_true_eq, Bool.not_eq_true'] at hby
  obtain ⟨⟨rfl, hruntime⟩, hisValue⟩ := hby
  have huse : s.Observes t found.toList v .intoValue := h.awaited _ List.mem_cons_self
  exact h.insert (.typed ty) [] hnew ⟨huse, hruntime, value, hget, hisValue, s₁, s₂, hs₁, hty⟩
    (by simp)

theorem bound (hget : ctx.get? v = some value)
    (hby : (usage = .intoValue && !s.isComptime v && s.isValue value) = false) :
    Worklist s ctx t typeOf (found.insert v (.bound value))
      ((s.freeVariables value).toList.reverse ++ pending) := by
  have huse : s.Observes t found.toList v usage := h.awaited _ List.mem_cons_self
  refine h.insert (.bound value) _ hnew ⟨hget, ?_⟩ fun w use => by simp [VarMap.mem_toList]
  cases usage with
  | intoType => exact Or.inr (Or.inr huse)
  | intoValue =>
    rw [← or_assoc]
    exact Or.inl (by simpa [or_iff_not_imp_left] using hby)

end Steps

end Worklist

/-- The worklist runs until nothing is pending, if the bound leaves room for the variables that are
still missing. -/
theorem observe_ok {bound : Nat} {s₀ s₁ : Store} {result : Observations}
    (htypeOf : ∀ {value ty s₁ s₂}, (typeOf value).run s₁ = (.ok ty, s₂) → s₁.Extends s₂)
    (hctx : ctx.Within s) (hdeclared : ctx.Declared s) (hs₀ : s.Extends s₀)
    (h : Worklist s ctx t typeOf found pending) (hpending : ∀ e ∈ pending, e.1.index < s.vars.size)
    (hbound : missing found s.vars.size < bound)
    (hrun : (observe typeOf ctx bound found pending).run s₀ = (.ok result, s₁)) :
    Worklist s ctx t typeOf result [] := by
  induction bound generalizing s₀ found pending with
  | zero => exact absurd hbound (Nat.not_lt_zero _)
  | succ bound ih =>
    unfold observe at hrun
    have hleft : ∀ e ∈ pending.dropWhile fun e => found.contains e.1, e.1.index < s.vars.size :=
      fun e he => hpending e ((List.dropWhile_sublist _).subset he)
    have hnew := List.head?_dropWhile_not (fun e : VarId × Usage => found.contains e.1) pending
    have hstate := h.dropWhile
    generalize pending.dropWhile (fun e => found.contains e.1) = left at hleft hnew hstate hrun
    cases left with
    | nil =>
      cases hrun
      exact hstate
    | cons e pending =>
      obtain ⟨v, usage⟩ := e
      have hv : v.index < s.vars.size := hleft (v, usage) List.mem_cons_self
      have hpending : ∀ e ∈ pending, e.1.index < s.vars.size :=
        fun e he => hleft e (List.mem_cons_of_mem _ he)
      have hroom : ∀ seen, missing (found.insert v seen) s.vars.size < bound := fun seen =>
        Nat.lt_of_lt_of_le (missing_insert_lt hv hnew seen) (Nat.le_of_lt_succ hbound)
      have habsent : v ∉ found.vars := by
        rw [VarMap.mem_vars, ← VarMap.contains_eq, hnew]
        decide
      dsimp only at hrun
      cases hget : ctx.get? v with
      | none =>
        rw [hget] at hrun
        exact ih hs₀ (hstate.unbound habsent hget) hpending (hroom _) hrun
      | some value =>
        have hvalue := hctx v value hget
        rw [hget, run_bind, run_observedByType, hs₀.isComptime_eq hv, hs₀.isValue_eq hvalue] at hrun
        cases hby : (usage = .intoValue && !s.isComptime v && s.isValue value : Bool) with
        | true =>
          rw [hby] at hrun
          obtain ⟨ty, s₂, hty, hrest⟩ := run_bind_ok hrun
          have hnext := hstate.typed habsent hget hby hs₀ hty
          exact ih (hs₀.trans (htypeOf hty)) hnext hpending (hroom _) hrest
        | false =>
          rw [hby] at hrun
          have hinside : ∀ e ∈ (s.freeVariables value).toList.reverse ++ pending,
              e.1.index < s.vars.size := by
            intro e he
            rcases List.mem_append.1 he with he | he
            · exact hdeclared v value hget e.1 (List.mem_map_of_mem (List.mem_reverse.1 he))
            · exact hpending e he
          have hnext := hstate.bound habsent hget hby
          rw [← hs₀.freeVariables_eq hvalue] at hinside hnext
          exact ih hs₀ hnext hinside (hroom _) hrun

/-! ## The result -/

/-- A restriction holds the variables with a use, and no others, by increasing index. Each is
observed as unbound, by its term or by its type, in accordance with the context and with one of its
uses. So a variable that is not used both as a value and inside a type is observed by its term
exactly if it has to be, whatever order the variables were found in. -/
theorem restrict_observes {config : Config} {r : Restriction} {s' : Store}
    (hs : Store.Session (.initial config) s) (hctx : ∀ handle ∈ ctx.handles, s.Owns handle)
    (ht : s.Allocated t)
    (htypeOf : ∀ {value ty s₁ s₂}, (typeOf value).run s₁ = (.ok ty, s₂) → s₁.Extends s₂)
    (hrun : (restrict typeOf ctx t).run s = (.ok r, s')) :
    r.Pairwise (fun a b => a.1.index < b.1.index) ∧
      (∀ v, v ∈ r.map (·.1) ↔ ∃ usage, s.Observes t r v usage) ∧
      (∀ v seen, (v, seen) ∈ r → ctx.Shows s typeOf (s.Observes t r v) v seen) ∧
      ∀ v value, v ∈ r.map (·.1) → ctx.get? v = some value →
        ¬ (s.Observes t r v .intoValue ∧ s.Observes t r v .intoType) →
        ((v, .bound value) ∈ r ↔
          s.isComptime v = true ∨ s.isValue value = false ∨ s.Observes t r v .intoType) := by
  have hintact := (hs.retains (Store.intact_initial config)).1
  have hwithin := Context.within_of_handles hctx
  have hdeclares : ∀ {t}, s.Allocated t → s.Declares t :=
    hintact.toCanonical.declares hintact.toLinked
  obtain ⟨found, s₁, hobserve, hreturn⟩ := run_bind_ok
    (c := observe typeOf ctx (s.vars.size + 1) ∅ (s.freeVariables t).toList.reverse)
    (f := fun found => return found.toList) hrun
  cases hreturn
  have hstate := observe_ok htypeOf hwithin (fun v value hget => hdeclares (hwithin v value hget))
    (.refl s) (.initial s ctx t typeOf)
    (fun e he => hdeclares ht e.1 (List.mem_map_of_mem (List.mem_reverse.1 he)))
    (Nat.lt_succ_of_le (missing_le _ _)) hobserve
  have hshown : ∀ v seen, (v, seen) ∈ found.toList →
      ctx.Shows s typeOf (s.Observes t found.toList v) v seen :=
    fun v seen hmem => hstate.shown v seen (VarMap.mem_toList.1 hmem)
  refine ⟨found.sorted, fun v => ⟨hstate.used v, ?_⟩, hshown, fun v value hv hget honce => ?_⟩
  · rintro ⟨usage, huse⟩
    exact (hstate.covered v usage huse).resolve_right List.not_mem_nil
  · refine ⟨fun hmem => (hshown v _ hmem).2, fun hneeded => ?_⟩
    obtain ⟨⟨w, seen⟩, hmem, rfl⟩ := List.mem_map.1 hv
    have hseen := hshown w seen hmem
    cases seen with
    | unbound => exact absurd (hget.symm.trans hseen) nofun
    | bound value' =>
      cases Option.some.inj (hget.symm.trans hseen.1)
      exact hmem
    | typed ty =>
      -- It is a runtime variable with a value, so only a use inside a type is left.
      obtain ⟨hvalue, hruntime, value', hget', hisValue, -⟩ := hseen
      cases Option.some.inj (hget.symm.trans hget')
      rcases hneeded with hcomptime | hno | htype
      · rw [hruntime] at hcomptime
        cases hcomptime
      · rw [hisValue] at hno
        cases hno
      · exact absurd ⟨hvalue, htype⟩ honce

end Attempt

namespace Sample

open Build

/-- The variable `y` with the value `x{}`, the variable `x` with the value `Unit`, and the terms `y`
and `Top{a = x, b = y}`. -/
def dependentBindings : Build (Context × TermId × TermId × VarId) := do
  let y ← freshVariable false (some "y")
  let x ← freshVariable false (some "x")
  let yTerm ← variableTerm y
  let xTerm ← variableTerm x
  let ofTypeX ← unitValue xTerm
  let both ← product Store.topType [("a", xTerm), ("b", yTerm)]
  return (⟨[(y, ofTypeX), (x, Store.unitType)], []⟩, yTerm, both, x)

seal Store.intern Store.initial in
/-- The terms in a new store. -/
def dependent : Store.Setup (Context × TermId × TermId × VarId) := dependentBindings.setup <| by
  repeat' apply Store.Built.add
  · exact fun _ : True => .freshVariable _ _ (.freshVariable _ _ (.initial {}))
  · decide +kernel

end Sample

namespace Attempt

open Sample Replay

theorem extends_infer {ctx : Context} {t ty : TermId} {s s' : Store}
    (h : (infer ctx t).run s = (.ok ty, s')) : s.Extends s' :=
  ((engines_self s.config.maxDepth).infer ctx t s).extends h

/-- Through `y` the variable `x` is met inside a type only, and is observed by its value. -/
theorem restrict_observes_dependent :
    ∃ config s ctx t x r s', Store.Session (.initial config) s ∧ s.display t = "y" ∧
      s.variableName x = "x" ∧ (observed ctx t).run s = (.ok r, s') ∧
      (x, .bound Store.unitType) ∈ r ∧ s.Observes t r x .intoType := by
  have hsession := dependent.built.session
  have hchecks : ∃ ctx t x r, (∀ handle ∈ ctx.handles, dependent.store.Owns handle) ∧
      dependent.store.Allocated t ∧ dependent.store.display t = "y" ∧
      dependent.store.variableName x = "x" ∧ dependent.store.isComptime x = false ∧
      dependent.store.isValue Store.unitType = true ∧
      ((observed ctx t).run dependent.store).1 = .ok r ∧ (x, .bound Store.unitType) ∈ r :=
    ⟨dependent.value.1, dependent.value.2.1, dependent.value.2.2.2,
      [(⟨6⟩, .bound ⟨25⟩), (⟨7⟩, .bound Store.unitType)], by decide +kernel⟩
  generalize dependent.store = s at hsession hchecks
  obtain ⟨config, hs⟩ := hsession
  obtain ⟨ctx, t, x, r, hctx, ht, htext, hname, hruntime, hisValue, hok, hx⟩ := hchecks
  have hrun : (observed ctx t).run s = (.ok r, ((observed ctx t).run s).2) := Prod.ext hok rfl
  obtain ⟨-, -, hshown, -⟩ := restrict_observes hs hctx ht extends_infer hrun
  obtain ⟨-, hcomptime | hno | htype⟩ := hshown x _ hx
  · rw [hruntime] at hcomptime
    cases hcomptime
  · rw [hisValue] at hno
    cases hno
  · exact ⟨config, s, ctx, t, x, r, _, hs, htext, hname, hrun, hx, htype⟩

/-- In `{a = x, b = y}` the greater variable `x` is met first, as a value. It is observed by its type
although the term that `y` is observed by uses it inside a type. -/
theorem restrict_misses_type_use :
    ∃ config s ctx t x ty r s', Store.Session (.initial config) s ∧
      (∀ handle ∈ ctx.handles, s.Owns handle) ∧ s.Allocated t ∧
      s.display t = "\x7ba = x, b = y\x7d" ∧ s.variableName x = "x" ∧
      (observed ctx t).run s = (.ok r, s') ∧ (x, .typed ty) ∈ r ∧ s.Observes t r x .intoType := by
  have hsession := dependent.built.session
  have hchecks : ∃ ctx t x y value ty r, (∀ handle ∈ ctx.handles, dependent.store.Owns handle) ∧
      dependent.store.Allocated t ∧ dependent.store.display t = "\x7ba = x, b = y\x7d" ∧
      dependent.store.variableName x = "x" ∧
      ((observed ctx t).run dependent.store).1 = .ok r ∧ (x, .typed ty) ∈ r ∧
      (dependent.store.freeVariables t).get? y = some .intoValue ∧ (y, .bound value) ∈ r ∧
      (dependent.store.freeVariables value).get? x = some .intoType :=
    ⟨dependent.value.1, dependent.value.2.2.1, ⟨7⟩, ⟨6⟩, ⟨25⟩, Store.typeOfTypes,
      [(⟨6⟩, .bound ⟨25⟩), (⟨7⟩, .typed Store.typeOfTypes)], by decide +kernel⟩
  generalize dependent.store = s at hsession hchecks
  obtain ⟨config, hs⟩ := hsession
  obtain ⟨ctx, t, x, y, value, ty, r, hctx, ht, htext, hname, hok, hx, hy, hbound, hinside⟩ :=
    hchecks
  have hrun : (observed ctx t).run s = (.ok r, ((observed ctx t).run s).2) := Prod.ext hok rfl
  exact ⟨config, s, ctx, t, x, ty, r, _, hs, hctx, ht, htext, hname, hrun, hx,
    .inside (.free hy) hbound hinside⟩

end Attempt

end StagedCalculus
