import StagedCalculus.Proofs.Store.Growth
import StagedCalculus.Store.Display

/-!
# Folding over unfolded terms

In a closed store a term refers to smaller handles only, so folding over its unfolding ends before
the depth bound matters. `Store.fold_eq` is the equation that a fold satisfies: the result for a
term comes from its shape and the results for its subterms.
-/

namespace StagedCalculus

namespace Shape

variable {α β γ : Type}

theorem map_map (f : α → β) (g : β → γ) (shape : Shape α) :
    (shape.map f).map g = shape.map fun child => g (f child) := by
  cases shape <;> simp [Shape.map, Slot.map, Function.comp_def]

end Shape

namespace Store

variable {α : Type}

/-- Any depth beyond the handle of a term gives the same result. -/
theorem foldTo_eq {s : Store} (hs : s.Linked) (missing : α) (step : Shape (TermId × α) → α) :
    ∀ (depth depth' : Nat) (t : TermId), t.index < depth → t.index < depth' →
      s.foldTo missing step depth t = s.foldTo missing step depth' t := by
  intro depth
  induction depth with
  | zero => intro depth' t h _; exact absurd h (Nat.not_lt_zero _)
  | succ depth ih =>
    intro depth' t h h'
    cases depth' with
    | zero => exact absurd h' (Nat.not_lt_zero _)
    | succ depth' =>
      simp only [foldTo]
      congr 1
      refine Shape.map_congr fun child hchild => ?_
      have hlt := hs.lt_of_mem_children hchild
      rw [ih depth' child (by omega) (by omega)]

theorem fold_eq {s : Store} (hs : s.Linked) (missing : α) (step : Shape (TermId × α) → α)
    (t : TermId) :
    s.fold missing step t =
      step ((s.shape t).map fun child => (child, s.fold missing step child)) := by
  unfold fold
  rw [foldTo]
  congr 1
  refine Shape.map_congr fun child hchild => ?_
  have hlt := hs.lt_of_mem_children hchild
  rw [foldTo_eq hs missing step t.index (child.index + 1) child hlt (Nat.lt_succ_self _)]

/-- What is unfolded depends on the terms of the store alone. -/
theorem fold_congr {s s' : Store} (h : s'.entries = s.entries) (missing : α)
    (step : Shape (TermId × α) → α) (t : TermId) :
    s'.fold missing step t = s.fold missing step t := by
  have hshape : s'.shape = s.shape := by
    funext t
    rw [shape, shape, entry, entry, h]
  suffices hdepth : ∀ depth t, s'.foldTo missing step depth t = s.foldTo missing step depth t from
    hdepth _ t
  intro depth
  induction depth with
  | zero => exact fun t => rfl
  | succ depth ih =>
    intro t
    simp only [foldTo, hshape, ih]

end Store
end StagedCalculus
