import StagedCalculus.Proofs.Staging.Built
import StagedCalculus.Proofs.Term.Layers

/-!
# Renamed variables

This module says when a term is another one with its variables renamed. The two terms may live in
two stores, which have both grown from one new store.

- `Renaming`: which variables of the new store get which names;
- `Renaming.Renames`: the relation between terms, the greatest one that respects their form;
- `Renaming.Renames.right_unique`, `Renaming.Renames.left_unique`: it is one to one if the new names
  stand in the same order;
- `Renaming.Agree`: outcomes that differ by the renaming.
-/

namespace StagedCalculus

/-- Which variables of a store are renamed to which. A new name has the same stage, and the
variables of the built-in signatures keep theirs. -/
structure Renaming (base : Store) where
  pairs : VarId → VarId → Prop
  builtin : ∀ v, v.index < (Store.initial base.config).vars.size → pairs v v
  declared : ∀ {v v'}, pairs v v' → v.index < base.vars.size ∧ v'.index < base.vars.size
  comptime : ∀ {v v'}, pairs v v' → base.isComptime v = base.isComptime v'

namespace Renaming

open Correspondence

variable {base : Store} (ρ : Renaming base) {s s' s₁ s₁' : Store} {t t' u u' : TermId}

/-- The new names stand in the same order, so that no two variables get one name. -/
def KeepsOrder : Prop := ∀ ⦃v v' w w'⦄, ρ.pairs v v' → ρ.pairs w w' →
  (v.index < w.index ↔ v'.index < w'.index)

/-! ## Renamed terms -/

/-- Variables are renamed, and those that were allocated since the beginning keep their names. -/
def likeness (s : Store) (term : TermId → TermId → Prop) : Likeness where
  var v v' := ρ.pairs v v' ∨ base.vars.size ≤ v.index ∧ v.index < s.vars.size ∧ v' = v
  term := term
  native id := id.index < base.natives.size
  nominal name id := base.Owns (.nominal name id)

/-- The terms that are paired are of one form, and their subterms are paired again. -/
def Matches (s s' : Store) (pairing : TermId → TermId → Prop) : Prop :=
  ∀ t t', pairing t t' → s.Allocated t ∧ s'.Allocated t' ∧
    (ρ.likeness s pairing).Layer (s.shape t) (s'.shape t')

/-- The second term is the first one with its variables renamed. -/
def Renames (s s' : Store) (t t' : TermId) : Prop :=
  ∃ pairing, ρ.Matches s s' pairing ∧ pairing t t'

/-- What stands for each other up to the renaming. -/
def like (s s' : Store) : Likeness := ρ.likeness s (ρ.Renames s s')

theorem likeness_le {term term' : TermId → TermId → Prop} (hsize : s.vars.size ≤ s₁.vars.size)
    (hterm : ∀ {t t'}, term t t' → term' t t') :
    (ρ.likeness s term).Le (ρ.likeness s₁ term') := by
  refine ⟨fun hv => ?_, hterm, fun h => h, fun h => h⟩
  rcases hv with hpair | ⟨hfresh, hlt, rfl⟩
  · exact Or.inl hpair
  · exact Or.inr ⟨hfresh, Nat.lt_of_lt_of_le hlt hsize, rfl⟩

variable {ρ}

namespace Renames

theorem allocated (h : ρ.Renames s s' t t') : s.Allocated t ∧ s'.Allocated t' := by
  obtain ⟨pairing, hmatches, hpair⟩ := h
  obtain ⟨ht, ht', -⟩ := hmatches t t' hpair
  exact ⟨ht, ht'⟩

/-- Renamed terms are of one form, and their subterms are renamed. -/
theorem layer (h : ρ.Renames s s' t t') : (ρ.like s s').Layer (s.shape t) (s'.shape t') := by
  obtain ⟨pairing, hmatches, hpair⟩ := h
  refine (ρ.likeness_le (Nat.le_refl _) fun hsub => ?_).layer (hmatches t t' hpair).2.2
  exact ⟨pairing, hmatches, hsub⟩

/-- Terms of one form with renamed subterms are renamed. -/
theorem of_layer (ht : s.Allocated t) (ht' : s'.Allocated t')
    (h : (ρ.like s s').Layer (s.shape t) (s'.shape t')) : ρ.Renames s s' t t' := by
  refine ⟨fun u u' => ρ.Renames s s' u u' ∨ u = t ∧ u' = t', fun u u' hu => ?_, Or.inr ⟨rfl, rfl⟩⟩
  have hle : (ρ.like s s').Le (ρ.likeness s fun u u' => ρ.Renames s s' u u' ∨ u = t ∧ u' = t') :=
    ρ.likeness_le (Nat.le_refl _) Or.inl
  rcases hu with hu | ⟨rfl, rfl⟩
  · exact ⟨hu.allocated.1, hu.allocated.2, hle.layer hu.layer⟩
  · exact ⟨ht, ht', hle.layer h⟩

/-- Terms whose shapes are of one form, over renamed subterms, are renamed. -/
theorem of_shape {shape shape' : Shape TermId}
    (hshape : s.shape t = shape) (hshape' : s'.shape t' = shape') (hne : shape ≠ .typeOfTypes)
    (h : (ρ.like s s').Layer shape shape') : ρ.Renames s s' t t' := by
  subst hshape hshape'
  refine .of_layer (Store.allocated_of_shape hne) (Store.allocated_of_shape fun heq => hne ?_) h
  rw [heq] at h
  generalize s.shape t = shape at h
  cases h
  rfl

/-- Renamed terms stay so while the stores grow. -/
theorem mono (h : ρ.Renames s s' t t') (hleft : s.Extends s₁) (hright : s'.Extends s₁') :
    ρ.Renames s₁ s₁' t t' := by
  obtain ⟨pairing, hmatches, hpair⟩ := h
  refine ⟨pairing, fun u u' hu => ?_, hpair⟩
  obtain ⟨hu₁, hu₁', hlayer⟩ := hmatches u u' hu
  rw [hleft.shape_eq hu₁, hright.shape_eq hu₁']
  exact ⟨hleft.allocated hu₁, hright.allocated hu₁',
    (ρ.likeness_le hleft.size_vars fun h => h).layer hlayer⟩

end Renames

theorem like_le (hleft : s.Extends s₁) (hright : s'.Extends s₁') :
    (ρ.like s s').Le (ρ.like s₁ s₁') :=
  ρ.likeness_le hleft.size_vars fun h => h.mono hleft hright

/-! ## Terms up to renaming -/

theorem KeepsOrder.like (hρ : ρ.KeepsOrder) : (ρ.like s s').Ordered := by
  intro v v' w w' hv hw
  rcases hv with hv | ⟨hv, -, rfl⟩ <;> rcases hw with hw | ⟨hw, -, rfl⟩
  · exact hρ hv hw
  · have := ρ.declared hv
    omega
  · have := ρ.declared hw
    omega
  · exact Iff.rfl

/-- A term has one renaming. -/
theorem Renames.right_unique (hρ : ρ.KeepsOrder) (hs : s.Intact) (hs' : s'.Intact) :
    Relator.RightUnique (ρ.Renames s s') := by
  intro t
  induction t using hs.toLinked.induct with
  | h t ih =>
    intro u v hu hv
    refine hs'.distinct u v hu.allocated.2 hv.allocated.2 (hu.layer.eq_of_children hv.layer ?_ ?_)
    · exact fun _ _ _ h h' => (hρ.like.eq_iff h h').1 rfl
    · exact fun child hchild _ _ h h' => ih child hchild h h'

/-- No two terms have the same renaming. -/
theorem Renames.left_unique (hρ : ρ.KeepsOrder) (hs : s.Intact) (hs' : s'.Intact) :
    Relator.LeftUnique (ρ.Renames s s') := by
  suffices hswap : ∀ t' t u, ρ.Renames s s' t t' → ρ.Renames s s' u t' → t = u from
    fun t u t' h h' => hswap t' t u h h'
  have hordered : (ρ.like s s').Ordered := hρ.like
  intro t'
  induction t' using hs'.toLinked.induct with
  | h t' ih =>
    intro t u ht hu
    refine hs.distinct t u ht.allocated.1 hu.allocated.1
      (ht.layer.flip.eq_of_children hu.layer.flip ?_ ?_)
    · exact fun _ _ _ h h' => (hordered.eq_iff h h').2 rfl
    · exact fun child hchild _ _ h h' => ih child hchild _ _ h h'

/-- Renamed terms have renamed free variables. -/
theorem Renames.uses (hρ : ρ.KeepsOrder) (hs : s.Intact) (hs' : s'.Intact)
    (h : ρ.Renames s s' t t') :
    (ρ.like s s').Uses (s.freeVariables t) (s'.freeVariables t') := by
  induction t using hs.toLinked.induct generalizing t' with
  | h t ih =>
    rw [hs.free t h.allocated.1, hs'.free t' h.allocated.2]
    exact h.layer.uses_of_children hρ.like fun child hchild _ hsub => ih child hchild hsub

theorem Renames.pending_eq (hs : s.Intact) (hs' : s'.Intact) (h : ρ.Renames s s' t t') :
    s.pending t = s'.pending t' := by
  induction t using hs.toLinked.induct generalizing t' with
  | h t ih =>
    rw [hs.pending t h.allocated.1, hs'.pending t' h.allocated.2]
    exact h.layer.pending_eq_of_children fun child hchild _ hsub => ih child hchild hsub

/-- A term of an earlier store whose variables keep their names is renamed to itself. -/
theorem Renames.same {start : Store} (hstart : start.Intact) (hbase : start.Extends base)
    (hvars : ∀ v, v.index < start.vars.size → ρ.pairs v v) (hs : base.Extends s)
    (hs' : base.Extends s') (ht : start.Allocated t) : ρ.Renames s s' t t := by
  refine ⟨fun u u' => u' = u ∧ start.Allocated u, ?_, rfl, ht⟩
  rintro u _ ⟨rfl, hu⟩
  have hleft := hbase.trans hs
  have hright := hbase.trans hs'
  refine ⟨hleft.allocated hu, hright.allocated hu, ?_⟩
  rw [hleft.shape_eq hu, hright.shape_eq hu]
  have hle : (Likeness.diagonal start.Owns).Le
      (ρ.likeness s fun u u' => u' = u ∧ start.Allocated u) := by
    have howns : ∀ handle, start.Owns handle → base.Owns handle := fun _ => hbase.owns
    refine ⟨fun hv => Or.inl ?_, fun h => h, howns (.native _), howns (.nominal _ _)⟩
    rw [hv.1]
    exact hvars _ hv.2
  exact hle.layer (Likeness.layer_diagonal.2 ⟨rfl, hstart.owned _ hu⟩)

/-! ## Outcomes -/

/-- Results that are renamed, or failures of one kind. -/
inductive Agree (ρ : Renaming base) :
    Except Error TermId × Store → Except Error TermId × Store → Prop
  | gives {t t' : TermId} {s s' : Store} : ρ.Renames s s' t t' → Agree ρ (.ok t, s) (.ok t', s')
  | fails {e e' : Error} {s s' : Store} : e.Alike (fun _ _ => True) e' →
      Agree ρ (.error e, s) (.error e', s')

theorem Agree.mono {answer answer' : TypeAnswer} (h : ρ.Agree (answer, s) (answer', s'))
    (hleft : s.Extends s₁) (hright : s'.Extends s₁') : ρ.Agree (answer, s₁) (answer', s₁') := by
  cases h with
  | gives ht => exact .gives (ht.mono hleft hright)
  | fails he => exact .fails he

end Renaming

end StagedCalculus
