import StagedCalculus.Proofs.Staging.Unmentioned
import StagedCalculus.Proofs.Store.Substitution

/-!
# Variables that leave their binder

An answer about a closed term should have no free variables. This module says which ones it may
have.

* `Store.binds`: the variables that are bound somewhere in a term;
* `Attempt.judgments_free`: in a new store, what is free in the type, the value or the residual term
  of a closed term is bound somewhere in that term, belongs to the signature of a built-in native, or
  was made on the way;
* `Attempt.judgments_free_undetermined`: a bound variable may indeed come free. A call with all
  arguments drops the quantified variables that none of them determines.
-/

namespace StagedCalculus

namespace Store

variable {base s : Store} {v : VarId} {t : TermId}

/-- Whether a variable is bound somewhere in a term. -/
def binds (s : Store) (v : VarId) (t : TermId) : Bool :=
  s.fold false (fun shape => decide (v ∈ shape.binders) || shape.children.any (·.2)) t

theorem binds_iff (hs : s.Linked) : s.binds v t = true ↔
    v ∈ (s.shape t).binders ∨ ∃ child ∈ (s.shape t).children, s.binds v child = true := by
  have hstep : s.binds v t =
      (decide (v ∈ (s.shape t).binders) || (s.shape t).children.any (s.binds v)) := by
    unfold binds
    rw [fold_eq hs, Shape.binders_map, Shape.children_map, List.any_map]
    rfl
  rw [hstep, Bool.or_eq_true, decide_eq_true_iff, List.any_eq_true]

/-- What a term mentions is free in it or bound in it. -/
theorem Linked.free_or_binds (hs : s.Linked) (ht : s.Allocated t) (h : s.mentions v t = true) :
    v ∈ (s.freeVariables t).vars ∨ s.binds v t = true := by
  induction t using hs.induct with
  | h t ih =>
    rw [mentions_eq hs, Bool.or_eq_true, decide_eq_true_iff, List.any_eq_true] at h
    rw [binds_iff hs, hs.mem_free ht]
    rcases h with hown | ⟨child, hchild, hmentions⟩
    · rcases List.mem_append.1 hown with hleaf | hbinder
      · cases hshape : s.shape t <;> rw [hshape] at hleaf <;>
          simp_all [Shape.leaf, Shape.map, Shape.freeVariables]
      · exact Or.inr (Or.inl hbinder)
    · -- What is free in the subterm may be bound by the node around it.
      rcases ih child hchild (hs.allocated_children ht hchild) hmentions with hfree | hbinds
      · have hpart : s.freeVariables child ∈ ((s.shape t).map s.freeVariables).children := by
          rw [Shape.children_map]
          exact List.mem_map_of_mem hchild
        rcases Shape.free_or_bound hpart hfree with hnode | hbinder
        · exact Or.inl hnode
        · rw [Shape.binders_map] at hbinder
          exact Or.inr (Or.inl hbinder)
      · exact Or.inr (Or.inr ⟨child, hchild, hbinds⟩)

/-- A variable that is bound in a term of a new store, that belongs to the signature of a built-in
native, or that was made since. -/
def Origin (base : Store) (t : TermId) (v : VarId) : Prop :=
  base.binds v t = true ∨ v.index < (initial base.config).vars.size ∨ base.vars.size ≤ v.index

end Store

namespace Attempt

open Store Correspondence Enclosure

variable {s s' : Store} {t r : TermId} {c : Attempt TermId}

/-- What an answer mentions is mentioned in the question, or has another origin. -/
theorem origin_of_unaffected (hs : s.Built) (ht : s.Allocated t)
    (hclosed : (s.freeVariables t).isEmpty = true)
    (hc : ∀ v, s.Hides [v] → s.Clear [v] t → Unaffected s [v] s c c)
    (hrun : c.run s = (.ok r, s')) {v : VarId} (hv : v ∈ (s'.freeVariables r).vars) :
    s.Origin t v := by
  by_contra horigin
  obtain ⟨hbinds, hold, hnew⟩ : s.binds v t ≠ true ∧ _ ∧ _ := by
    simpa only [Origin, not_or] using horigin
  have hnone : s.mentions v t = false := by
    refine Bool.eq_false_iff.2 fun hmentions => ?_
    rcases hs.genuine.intact.toLinked.free_or_binds ht hmentions with hfree | hbound
    · rw [FreeVariables.mem_vars_iff, FreeVariables.isEmpty_iff_rank.1 hclosed v] at hfree
      exact absurd hfree (by decide)
    · exact hbinds hbound
  have hhides : s.Hides [v] := List.forall_mem_singleton.2 ⟨not_lt.1 hold, not_le.1 hnew⟩
  have hunaffected := hc v hhides ⟨ht, List.forall_mem_singleton.2 hnone⟩
  have hclear := hunaffected.clear r (by rw [hrun])
  have hveils := hunaffected.veils
  rw [hrun] at hclear hveils
  exact hclear.not_free hveils.intact.toLinked hv (List.mem_singleton_self v)

/-- In a new store, what is free in the type, the value or the residual term of a closed term is
bound in the term, belongs to a built-in signature, or was made on the way. -/
theorem judgments_free (hs : s.Built) (ht : s.Allocated t)
    (hclosed : (s.freeVariables t).isEmpty = true) :
    (∀ r s', (infer .root t).run s = (.ok r, s') →
      ∀ v ∈ (s'.freeVariables r).vars, s.Origin t v) ∧
    ∀ mode r s', (reduce mode .root t).run s = (.ok r, s') →
      ∀ v ∈ (s'.freeVariables r).vars, s.Origin t v := by
  have hroot := fun v => Context.root_agreeBut [v] s
  have hlawful := fun {v} (hhides : s.Hides [v]) => correspondence_lawful (lawful_veiled hs hhides)
  refine ⟨fun r s' hrun v hv => ?_, fun mode r s' hrun v hv => ?_⟩
  · refine origin_of_unaffected hs ht hclosed (fun v hhides hclear => ?_) hrun hv
    refine unaffected_of_corresponds (.refl hs) ?_
    exact corresponds_infer (hlawful hhides) (hroot v) ⟨rfl, hclear⟩
  · refine origin_of_unaffected hs ht hclosed (fun v hhides hclear => ?_) hrun hv
    refine unaffected_of_corresponds (.refl hs) ?_
    exact corresponds_reduce (hlawful hhides) (hroot v) ⟨rfl, hclear⟩

end Attempt

namespace Sample

open Build

/-- `(forall T. fn(x: Unit) => (x as T))(Unit{})`. -/
def undeterminedCast : Build (VarId × TermId) := do
  let x ← freshVariable false (some "x")
  let ty ← freshVariable true (some "T")
  let body ← cast (← variableTerm x) (← variableTerm ty)
  let function ← forAll [ty] (← abstraction [] [(x, Store.unitType)] body)
  return (ty, ← apply function [← unitValue Store.unitType])

seal Store.intern Store.initial in
/-- The variable `T` and the call in a new store. -/
def undetermined : Store.Setup (VarId × TermId) := undeterminedCast.setup <| by
  repeat' apply Store.Built.add
  · exact fun _ : True => .freshVariable _ _ (.freshVariable _ _ (.initial {}))
  · decide +kernel

end Sample

namespace Attempt

open Sample

/-- The call is closed, and whatever is free in an answer about it is bound in it, belongs to a
built-in signature, or was made on the way. -/
theorem judgments_free_call :
    ∃ s : Store, s.Built ∧ ∃ t, s.Allocated t ∧ (s.freeVariables t).isEmpty = true ∧
      (∀ r s', (infer .root t).run s = (.ok r, s') →
        ∀ v ∈ (s'.freeVariables r).vars, s.Origin t v) ∧
      ∀ mode r s', (reduce mode .root t).run s = (.ok r, s') →
        ∀ v ∈ (s'.freeVariables r).vars, s.Origin t v := by
  have hbuilt := undetermined.built
  have hchecks : undetermined.store.Allocated undetermined.value.2 ∧
      (undetermined.store.freeVariables undetermined.value.2).isEmpty = true := by decide +kernel
  exact ⟨_, hbuilt, _, hchecks.1, hchecks.2, judgments_free hbuilt hchecks.1 hchecks.2⟩

/-- No argument determines `T`, so it is bound to the placeholder for some type while the body is
reduced, and nothing quantifies over it afterwards. -/
theorem judgments_free_undetermined :
    ∃ s : Store, s.Built ∧ ∃ t v ty r, s.Allocated t ∧ (s.freeVariables t).isEmpty = true ∧
      s.variableName v = "T" ∧ ((infer .root t).run s).1 = .ok ty ∧
      v ∈ (((infer .root t).run s).2.freeVariables ty).vars ∧
      ((compile .root t).run s).1 = .ok r ∧
      ((compile .root t).run s).2.display r = "(Unit\x7b\x7d as T)" ∧
      v ∈ (((compile .root t).run s).2.freeVariables r).vars := by
  refine ⟨undetermined.store, undetermined.built, undetermined.value.2, undetermined.value.1,
    ⟨24⟩, ⟨33⟩, ?_⟩
  decide +kernel

end Attempt

end StagedCalculus
