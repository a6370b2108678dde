import StagedCalculus.Proofs.Native.Careful
import StagedCalculus.Proofs.Store.Builders
import StagedCalculus.Proofs.Store.Unfolding
import StagedCalculus.Proofs.Term.Occurrence

/-!
# Hidden variables

A computation may be asked to do without the values of some variables, the hidden ones. This module
says how a term may still mention them:

* a term is clear if it mentions no hidden variable at all (`Store.Clear`);
* it is plain if hidden variables stand in value positions only, and are bound nowhere
  (`Store.Plain`).

A store is sound for hidden variables if all that it keeps for later is clear (`Store.Sound`).
-/

namespace StagedCalculus

namespace Store

variable {s s' : Store} {hidden : List VarId} {v : VarId} {t u : TermId}

/-! ## Mentioning a variable -/

/-- Whether a variable occurs in a term, free or bound. -/
def mentions (s : Store) (v : VarId) (t : TermId) : Bool :=
  s.fold false (fun shape => decide (v ∈ shape.ownVars) || shape.children.any (·.2)) t

/-- Whether a variable is bound in a term or occurs in a type position of it. -/
def exposes (s : Store) (v : VarId) (t : TermId) : Bool :=
  s.fold false (fun shape => decide (v ∈ shape.binders) ||
    shape.typeParts.any (fun part => s.mentions v part.1) || shape.valueParts.any (·.2)) t

theorem mentions_eq (hs : s.Linked) (v : VarId) (t : TermId) :
    s.mentions v t =
      (decide (v ∈ (s.shape t).ownVars) || (s.shape t).children.any (s.mentions v)) := by
  unfold mentions
  rw [fold_eq hs, Shape.ownVars_map, Shape.children_map, List.any_map]
  rfl

theorem exposes_eq (hs : s.Linked) (v : VarId) (t : TermId) :
    s.exposes v t = (decide (v ∈ (s.shape t).binders) ||
      (s.shape t).typeParts.any (s.mentions v) || (s.shape t).valueParts.any (s.exposes v)) := by
  unfold exposes
  rw [fold_eq hs, Shape.binders_map, Shape.typeParts_map, Shape.valueParts_map, List.any_map,
    List.any_map]
  rfl

theorem mentions_eq_false (hs : s.Linked) :
    s.mentions v t = false ↔
      v ∉ (s.shape t).ownVars ∧ ∀ child ∈ (s.shape t).children, s.mentions v child = false := by
  rw [mentions_eq hs, Bool.or_eq_false_iff, decide_eq_false_iff_not, List.any_eq_false]
  simp

theorem exposes_eq_false (hs : s.Linked) :
    s.exposes v t = false ↔ v ∉ (s.shape t).binders ∧
      (∀ part ∈ (s.shape t).typeParts, s.mentions v part = false) ∧
        ∀ part ∈ (s.shape t).valueParts, s.exposes v part = false := by
  rw [exposes_eq hs, Bool.or_eq_false_iff, Bool.or_eq_false_iff, decide_eq_false_iff_not,
    List.any_eq_false, List.any_eq_false]
  simp [and_assoc]

/-! ## Induction over a term -/

/-- A property of every term follows from that of its subterms. -/
theorem Linked.induct (hs : s.Linked) {p : TermId → Prop}
    (h : ∀ t, (∀ child ∈ (s.shape t).children, p child) → p t) (t : TermId) : p t := by
  suffices hbelow : ∀ n t, t.index < n → p t from hbelow (t.index + 1) t (Nat.lt_succ_self _)
  intro n
  induction n with
  | zero => exact fun t ht => absurd ht (Nat.not_lt_zero _)
  | succ n ih =>
    refine fun t ht => h t fun child hchild => ih child ?_
    exact Nat.lt_of_lt_of_le (hs.lt_of_mem_children hchild) (Nat.le_of_lt_succ ht)

theorem exposes_of_mentions (hs : s.Linked) (t : TermId) (h : s.mentions v t = false) :
    s.exposes v t = false := by
  induction t using hs.induct with
  | h t ih =>
    obtain ⟨hvariables, hchildren⟩ := (mentions_eq_false hs).1 h
    refine (exposes_eq_false hs).2 ⟨fun hv => hvariables (List.mem_append_right _ hv),
      fun part hpart => ?_, fun part hpart => ?_⟩
    · exact hchildren part (Shape.mem_children.2 (Or.inl hpart))
    · have hchild := Shape.mem_children.2 (Or.inr hpart)
      exact ih part hchild (hchildren part hchild)

/-- The stored free variables tell of every mention, and of every use inside a type. -/
theorem rank_freeVariables_le (hs : s.Linked) (t : TermId) :
    (s.mentions v t = false → (s.freeVariables t).rank v = 0) ∧
      (s.exposes v t = false → (s.freeVariables t).rank v ≤ 1) := by
  induction t using hs.induct with
  | h t ih =>
    by_cases ht : s.Allocated t
    · rw [hs.free t ht]
      constructor
      · intro h
        obtain ⟨hvariables, hchildren⟩ := (mentions_eq_false hs).1 h
        refine Nat.le_zero.1 (Shape.rank_freeVariables_le (fun hleaf => ?_) ?_ ?_)
        · rw [Shape.leaf_map] at hleaf
          exact absurd (List.mem_append_left _ hleaf) hvariables
        · rw [Shape.typeParts_map, List.forall_mem_map]
          intro part hpart
          have hchild := Shape.mem_children.2 (Or.inl hpart)
          exact (ih part hchild).1 (hchildren part hchild)
        · rw [Shape.valueParts_map, List.forall_mem_map]
          intro part hpart
          have hchild := Shape.mem_children.2 (Or.inr hpart)
          exact Nat.le_of_eq ((ih part hchild).1 (hchildren part hchild))
      · intro h
        obtain ⟨-, htypes, hvalues⟩ := (exposes_eq_false hs).1 h
        refine Shape.rank_freeVariables_le (fun _ => Nat.le_refl 1) ?_ ?_
        · rw [Shape.typeParts_map, List.forall_mem_map]
          intro part hpart
          exact (ih part (Shape.mem_children.2 (Or.inl hpart))).1 (htypes part hpart)
        · rw [Shape.valueParts_map, List.forall_mem_map]
          intro part hpart
          exact (ih part (Shape.mem_children.2 (Or.inr hpart))).2 (hvalues part hpart)
    · have hnone : s.freeVariables t = ∅ := by
        have hget : s.entries[t.index]? = none := by simpa [Allocated] using ht
        simp [Store.freeVariables, entry, Array.getD_eq_getD_getElem?, hget]
      simp [hnone]

/-! ## Clear and plain terms -/

/-- A term of the store that mentions no hidden variable. -/
structure Clear (s : Store) (hidden : List VarId) (t : TermId) : Prop where
  allocated : s.Allocated t
  absent : ∀ v ∈ hidden, s.mentions v t = false

/-- A term of the store that uses hidden variables as values only. -/
structure Plain (s : Store) (hidden : List VarId) (t : TermId) : Prop where
  allocated : s.Allocated t
  unexposed : ∀ v ∈ hidden, s.exposes v t = false

instance (s : Store) (hidden : List VarId) (t : TermId) : Decidable (s.Clear hidden t) :=
  decidable_of_iff (s.Allocated t ∧ ∀ v ∈ hidden, s.mentions v t = false)
    ⟨fun ⟨ht, habsent⟩ => ⟨ht, habsent⟩, fun h => ⟨h.allocated, h.absent⟩⟩

instance (s : Store) (hidden : List VarId) (t : TermId) : Decidable (s.Plain hidden t) :=
  decidable_of_iff (s.Allocated t ∧ ∀ v ∈ hidden, s.exposes v t = false)
    ⟨fun ⟨ht, hunexposed⟩ => ⟨ht, hunexposed⟩, fun h => ⟨h.allocated, h.unexposed⟩⟩

namespace Clear

theorem plain (h : s.Clear hidden t) (hs : s.Linked) : s.Plain hidden t :=
  ⟨h.allocated, fun v hv => exposes_of_mentions hs t (h.absent v hv)⟩

theorem child (h : s.Clear hidden t) (hs : s.Linked) (hchild : u ∈ (s.shape t).children) :
    s.Clear hidden u :=
  ⟨hs.allocated_children h.allocated hchild, fun v hv =>
    ((mentions_eq_false hs).1 (h.absent v hv)).2 u hchild⟩

theorem not_mem (h : s.Clear hidden t) (hs : s.Linked) (hv : v ∈ (s.shape t).ownVars) :
    v ∉ hidden := fun hmem => ((mentions_eq_false hs).1 (h.absent v hmem)).1 hv

theorem of_parts (hs : s.Linked) (ht : s.Allocated t)
    (hvariables : ∀ v ∈ (s.shape t).ownVars, v ∉ hidden)
    (hchildren : ∀ child ∈ (s.shape t).children, s.Clear hidden child) : s.Clear hidden t :=
  ⟨ht, fun v hv => (mentions_eq_false hs).2
    ⟨fun hmem => hvariables v hmem hv, fun child hchild => (hchildren child hchild).absent v hv⟩⟩

theorem nil (ht : s.Allocated t) : s.Clear [] t := ⟨ht, nofun⟩

/-- No free variable of a clear term is hidden. -/
theorem not_free (h : s.Clear hidden t) (hs : s.Linked) (hv : v ∈ (s.freeVariables t).vars) :
    v ∉ hidden := by
  intro hmem
  have hrank := (rank_freeVariables_le hs t).1 (h.absent v hmem)
  obtain ⟨⟨w, usage⟩, hentry, rfl⟩ := List.mem_map.1 hv
  rw [FreeVariables.rank_of_get? (VarMap.mem_toList.1 hentry)] at hrank
  split at hrank <;> cases hrank

end Clear

namespace Plain

theorem binder (h : s.Plain hidden t) (hs : s.Linked) (hv : v ∈ (s.shape t).binders) :
    v ∉ hidden := fun hmem => ((exposes_eq_false hs).1 (h.unexposed v hmem)).1 hv

theorem typePart (h : s.Plain hidden t) (hs : s.Linked) (hchild : u ∈ (s.shape t).typeParts) :
    s.Clear hidden u :=
  ⟨hs.allocated_children h.allocated (Shape.mem_children.2 (Or.inl hchild)), fun v hv =>
    ((exposes_eq_false hs).1 (h.unexposed v hv)).2.1 u hchild⟩

theorem valuePart (h : s.Plain hidden t) (hs : s.Linked) (hchild : u ∈ (s.shape t).valueParts) :
    s.Plain hidden u :=
  ⟨hs.allocated_children h.allocated (Shape.mem_children.2 (Or.inr hchild)), fun v hv =>
    ((exposes_eq_false hs).1 (h.unexposed v hv)).2.2 u hchild⟩

/-- A plain term without value positions mentions a hidden variable only if it is that variable. -/
theorem clear (h : s.Plain hidden t) (hs : s.Linked) (hleaf : ∀ v ∈ (s.shape t).leaf, v ∉ hidden)
    (hvalues : (s.shape t).valueParts = []) : s.Clear hidden t := by
  refine .of_parts hs h.allocated (fun v hv => ?_) fun child hchild => ?_
  · rcases List.mem_append.1 hv with hv | hv
    · exact hleaf v hv
    · exact h.binder hs hv
  · rcases Shape.mem_children.1 hchild with htype | hvalue
    · exact h.typePart hs htype
    · rw [hvalues] at hvalue
      cases hvalue

theorem nil (ht : s.Allocated t) : s.Plain [] t := ⟨ht, nofun⟩

/-- A plain term uses its free hidden variables as values. -/
theorem usage_eq (h : s.Plain hidden t) (hs : s.Linked) {usage : Usage}
    (hmem : (v, usage) ∈ (s.freeVariables t).toList) (hv : v ∈ hidden) : usage = .intoValue := by
  have hrank := (rank_freeVariables_le hs t).2 (h.unexposed v hv)
  rw [FreeVariables.rank_of_get? (VarMap.mem_toList.1 hmem)] at hrank
  cases usage with
  | intoType => simp at hrank
  | intoValue => rfl

end Plain

/-! ## Growth -/

/-- A later state of a store that forgets no answer, both states being linked. -/
structure GrowsTo (s s' : Store) : Prop extends Extends s s' where
  linked : s.Linked
  linked' : s'.Linked
  types : ∀ t restriction answer,
    s.types.get? t restriction = some answer → s'.types.get? t restriction = some answer

namespace GrowsTo

theorem refl (hs : s.Linked) : s.GrowsTo s := ⟨.refl s, hs, hs, fun _ _ _ h => h⟩

@[grind →]
theorem trans {s'' : Store} (h : s.GrowsTo s') (h' : s'.GrowsTo s'') : s.GrowsTo s'' :=
  ⟨h.toExtends.trans h'.toExtends, h.linked, h'.linked', fun t restriction answer hget =>
    h'.types t restriction answer (h.types t restriction answer hget)⟩

theorem mentions_eq_false (h : s.GrowsTo s') (ht : s.Allocated t) (hv : s.mentions v t = false) :
    s'.mentions v t = false := by
  induction t using h.linked.induct with
  | h t ih =>
    obtain ⟨hvariables, hchildren⟩ := (Store.mentions_eq_false h.linked).1 hv
    rw [Store.mentions_eq_false h.linked', h.shape_eq ht]
    exact ⟨hvariables, fun child hchild => ih child hchild
      (h.linked.allocated_children ht hchild) (hchildren child hchild)⟩

theorem exposes_eq_false (h : s.GrowsTo s') (ht : s.Allocated t) (hv : s.exposes v t = false) :
    s'.exposes v t = false := by
  induction t using h.linked.induct with
  | h t ih =>
    obtain ⟨hbinders, htypes, hvalues⟩ := (Store.exposes_eq_false h.linked).1 hv
    rw [Store.exposes_eq_false h.linked', h.shape_eq ht]
    refine ⟨hbinders, fun part hpart => ?_, fun part hpart => ?_⟩
    · have hchild := Shape.mem_children.2 (Or.inl hpart)
      exact h.mentions_eq_false (h.linked.allocated_children ht hchild) (htypes part hpart)
    · have hchild := Shape.mem_children.2 (Or.inr hpart)
      exact ih part hchild (h.linked.allocated_children ht hchild) (hvalues part hpart)

@[grind →]
theorem clear (h : s.GrowsTo s') (ht : s.Clear hidden t) : s'.Clear hidden t :=
  ⟨h.allocated ht.allocated, fun v hv => h.mentions_eq_false ht.allocated (ht.absent v hv)⟩

@[grind →]
theorem plain (h : s.GrowsTo s') (ht : s.Plain hidden t) : s'.Plain hidden t :=
  ⟨h.allocated ht.allocated, fun v hv => h.exposes_eq_false ht.allocated (ht.unexposed v hv)⟩

end GrowsTo

end Store

end StagedCalculus
