import StagedCalculus.Proofs.Native.Discretion
import StagedCalculus.Proofs.Store.TypeCache
import StagedCalculus.Proofs.Term.Parts

/-!
# Growth of a store

A store only ever gains terms, variables and natives. This module states:

* `Store.Extends`: one store is a later state of another;
* `Store.Closed`: every handle that a store keeps refers to a term of that store, and a term refers
  to terms with smaller handles only;
* `Store.closed_intern`, `Store.extends_intern`, `Store.shape_intern`: adding a term keeps both, and
  the handle it gives has the shape that was asked for.
-/

namespace StagedCalculus

namespace Store

/-! ## Later states of a store -/

/-- A handle that refers to a term of the store. -/
def Allocated (s : Store) (t : TermId) : Prop := t.index < s.entries.size

instance (s : Store) (t : TermId) : Decidable (s.Allocated t) :=
  inferInstanceAs (Decidable (t.index < s.entries.size))

/-- `later` still has every term, variable and native of `earlier`, under the same handle. -/
structure Extends (earlier later : Store) : Prop where
  entries : ∀ (i : Nat) (entry : Entry),
    earlier.entries[i]? = some entry → later.entries[i]? = some entry
  vars : ∀ (i : Nat) (info : Variable), earlier.vars[i]? = some info → later.vars[i]? = some info
  natives : ∀ (i : Nat) (native : RegisteredNative),
    earlier.natives[i]? = some native → later.natives[i]? = some native

namespace Extends

variable {s s' s'' : Store}

/-- What a store remembers and prints is no part of its contents. -/
theorem of_eq (hentries : s'.entries = s.entries) (hvars : s'.vars = s.vars)
    (hnatives : s'.natives = s.natives) : s.Extends s' :=
  ⟨fun _ _ h => hentries ▸ h, fun _ _ h => hvars ▸ h, fun _ _ h => hnatives ▸ h⟩

theorem refl (s : Store) : s.Extends s := of_eq rfl rfl rfl

@[grind →]
theorem trans (h : s.Extends s') (h' : s'.Extends s'') : s.Extends s'' :=
  ⟨fun i e he => h'.entries i e (h.entries i e he), fun i v hv => h'.vars i v (h.vars i v hv),
    fun i n hn => h'.natives i n (h.natives i n hn)⟩

@[grind →]
theorem allocated (h : s.Extends s') {t : TermId} (ht : s.Allocated t) : s'.Allocated t := by
  have hget : s.entries[t.index]? = some s.entries[t.index] := Array.getElem?_eq_getElem ht
  have hget' := h.entries _ _ hget
  exact (Array.getElem?_eq_some_iff.1 hget').1

theorem entry_eq (h : s.Extends s') {t : TermId} (ht : s.Allocated t) :
    s'.entry t = s.entry t := by
  have hget : s.entries[t.index]? = some s.entries[t.index] := Array.getElem?_eq_getElem ht
  have hget' := h.entries _ _ hget
  simp [entry, Array.getD_eq_getD_getElem?, hget, hget']

theorem shape_eq (h : s.Extends s') {t : TermId} (ht : s.Allocated t) :
    s'.shape t = s.shape t := by
  rw [shape, shape, h.entry_eq ht]

theorem freeVariables_eq (h : s.Extends s') {t : TermId} (ht : s.Allocated t) :
    s'.freeVariables t = s.freeVariables t := by
  rw [freeVariables, freeVariables, h.entry_eq ht]

theorem pending_eq (h : s.Extends s') {t : TermId} (ht : s.Allocated t) :
    s'.pending t = s.pending t := by
  rw [pending, pending, h.entry_eq ht]

theorem isValue_eq (h : s.Extends s') {t : TermId} (ht : s.Allocated t) :
    s'.isValue t = s.isValue t := by
  simp [isValue, isConcrete, shape, freeVariables, pending, h.entry_eq ht]

theorem lt_vars (h : s.Extends s') {v : VarId} (hv : v.index < s.vars.size) :
    v.index < s'.vars.size := by
  have hget : s.vars[v.index]? = some s.vars[v.index] := Array.getElem?_eq_getElem hv
  exact (Array.getElem?_eq_some_iff.1 (h.vars _ _ hget)).1

theorem size_vars (h : s.Extends s') : s.vars.size ≤ s'.vars.size :=
  Nat.le_of_not_lt fun hlt => Nat.lt_irrefl _ (h.lt_vars (v := ⟨s'.vars.size⟩) hlt)

theorem isComptime_eq (h : s.Extends s') {v : VarId} (hv : v.index < s.vars.size) :
    s'.isComptime v = s.isComptime v := by
  have hget : s.vars[v.index]? = some s.vars[v.index] := Array.getElem?_eq_getElem hv
  have hget' := h.vars _ _ hget
  simp [isComptime, variableInfo, Array.getD_eq_getD_getElem?, hget, hget']

theorem native?_eq (h : s.Extends s') {id : NativeId} {registered : RegisteredNative}
    (hid : s.native? id = some registered) : s'.native? id = some registered :=
  h.natives _ _ hid

end Extends

/-! ## Handles that a store keeps -/

/-- Every handle that the store keeps refers to one of its terms. -/
structure Linked (s : Store) : Prop where
  /-- A term enters after its subterms. -/
  children : ∀ t, s.Allocated t → ∀ child ∈ (s.shape t).children, child.index < t.index
  /-- The free variables that the store keeps of a term come from its shape. -/
  free : ∀ t, s.Allocated t →
    s.freeVariables t = ((s.shape t).map s.freeVariables).freeVariables
  index : ∀ (key : Nat), ∀ t ∈ (s.index[key]?).getD [], s.Allocated t
  types : ∀ t restriction ty, s.types.get? t restriction = some (.ok ty) → s.Allocated ty
  signatures : ∀ id registered, s.native? id = some registered → s.Allocated registered.signature
  confined : ∀ id registered, s.native? id = some registered →
    ∃ captured, (∀ t ∈ captured, s.Allocated t) ∧ registered.native.Confined captured

/-- A linked store that has the terms of every store. -/
structure Closed (s : Store) : Prop extends Linked s where
  common : 5 ≤ s.entries.size

theorem shape_of_not_allocated {s : Store} {t : TermId} (ht : ¬ s.Allocated t) :
    s.shape t = .typeOfTypes := by
  have hnone : s.entries[t.index]? = none := by
    simpa [Allocated] using ht
  simp [shape, entry, Array.getD_eq_getD_getElem?, hnone]

/-- A handle with any other shape than that of missing terms refers to a term. -/
theorem allocated_of_shape {s : Store} {t : TermId} (ht : s.shape t ≠ .typeOfTypes) :
    s.Allocated t :=
  Classical.byContradiction fun hnot => ht (shape_of_not_allocated hnot)

theorem Extends.shape_kept {s s' : Store} (h : s.Extends s') {t : TermId} {shape : Shape TermId}
    (hshape : s.shape t = shape) (hne : shape ≠ .typeOfTypes) : s'.shape t = shape :=
  (h.shape_eq (allocated_of_shape (hshape ▸ hne))).trans hshape

theorem Linked.lt_of_mem_children {s : Store} (hs : s.Linked) {t child : TermId}
    (hchild : child ∈ (s.shape t).children) : child.index < t.index := by
  have hne : s.shape t ≠ .typeOfTypes := by
    intro heq
    rw [heq] at hchild
    simp [Shape.children] at hchild
  exact hs.children t (allocated_of_shape hne) child hchild

theorem Linked.allocated_children {s : Store} (hs : s.Linked) {t child : TermId}
    (ht : s.Allocated t) (hchild : child ∈ (s.shape t).children) : s.Allocated child :=
  Nat.lt_trans (hs.children t ht child hchild) ht

theorem Closed.allocated_common {s : Store} (hs : s.Closed) {i : Nat} (hi : i < 5) :
    s.Allocated ⟨i⟩ := Nat.lt_of_lt_of_le hi hs.common

/-! ## Remembering an answer -/

theorem closed_remember {s : Store} (hs : s.Closed) {t : TermId} {restriction : Restriction}
    {answer : TypeAnswer} (hanswer : ∀ ty, answer = .ok ty → s.Allocated ty) :
    ({ s with types := s.types.insert t restriction answer } : Store).Closed := by
  refine ⟨⟨hs.children, hs.free, hs.index, fun t' restriction' ty h => ?_, hs.signatures,
    hs.confined⟩, hs.common⟩
  rcases TypeCache.get?_insert_cases h with hnew | hold
  · exact hanswer ty hnew.symm
  · exact hs.types t' restriction' ty hold

/-! ## Adding a term -/

section Intern

variable {s : Store} {shape : Shape TermId}

theorem extends_add (s : Store) (shape : Shape TermId) : s.Extends (s.add shape).2 := by
  refine ⟨fun i entry h => ?_, fun _ _ h => h, fun _ _ h => h⟩
  have hlt : i < s.entries.size := (Array.getElem?_eq_some_iff.1 h).1
  simp only [add]
  rw [Array.getElem?_push_lt hlt, ← Array.getElem?_eq_getElem hlt]
  exact h

theorem allocated_add (s : Store) (shape : Shape TermId) :
    (s.add shape).2.Allocated (s.add shape).1 := by
  simp [Allocated, add]

theorem shape_add (s : Store) (shape : Shape TermId) :
    (s.add shape).2.shape (s.add shape).1 = shape := by
  simp [Store.shape, entry, add, Array.getD_eq_getD_getElem?]

theorem freeVariables_add (s : Store) (shape : Shape TermId) :
    (s.add shape).2.freeVariables (s.add shape).1 = (shape.map s.freeVariables).freeVariables := by
  simp [Store.freeVariables, entry, add, Array.getD_eq_getD_getElem?]

theorem pending_add (s : Store) (shape : Shape TermId) :
    (s.add shape).2.pending (s.add shape).1 = (shape.map s.pending).pending := by
  simp [Store.pending, entry, add, Array.getD_eq_getD_getElem?]

/-- The new term stands behind all others. -/
theorem eq_of_allocated_add {t : TermId} (ht : (s.add shape).2.Allocated t)
    (hold : ¬ s.Allocated t) : t = (s.add shape).1 := by
  have hsize : t.index < s.entries.size + 1 := by simpa [Allocated, add] using ht
  have hge : ¬ t.index < s.entries.size := hold
  obtain ⟨i⟩ := t
  simp only [add, TermId.mk.injEq] at *
  omega

theorem linked_add (hs : s.Linked) (hshape : ∀ child ∈ shape.children, s.Allocated child) :
    (s.add shape).2.Linked := by
  have hle := extends_add s shape
  have hfree : ∀ layer : Shape TermId, (∀ child ∈ layer.children, s.Allocated child) →
      layer.map (s.add shape).2.freeVariables = layer.map s.freeVariables := fun layer hlayer =>
    Shape.map_congr fun child hchild => hle.freeVariables_eq (hlayer child hchild)
  refine ⟨fun t ht child hchild => ?_, fun t ht => ?_, fun key t ht => ?_,
    fun t restriction ty h => ?_, fun id registered h => ?_, fun id registered h => ?_⟩
  · by_cases hold : s.Allocated t
    · rw [hle.shape_eq hold] at hchild
      exact hs.children t hold child hchild
    · rw [eq_of_allocated_add ht hold, shape_add] at hchild
      rw [eq_of_allocated_add ht hold]
      exact hshape child hchild
  · by_cases hold : s.Allocated t
    · have hparts : ∀ child ∈ (s.shape t).children, s.Allocated child := fun child hchild =>
        Nat.lt_trans (hs.children t hold child hchild) hold
      rw [hle.freeVariables_eq hold, hle.shape_eq hold, hfree _ hparts, hs.free t hold]
    · rw [eq_of_allocated_add ht hold, freeVariables_add, shape_add, hfree _ hshape]
  · have hcases : t = (s.add shape).1 ∨ t ∈ (s.index[key]?).getD [] := by
      simp only [add, Std.TreeMap.getElem?_insert] at ht
      split at ht
      · rename_i hkey
        rw [Nat.compare_eq_eq] at hkey
        subst hkey
        simpa [add] using ht
      · exact Or.inr ht
    rcases hcases with rfl | hold
    · exact allocated_add s shape
    · exact hle.allocated (hs.index key t hold)
  · exact hle.allocated (hs.types t restriction ty h)
  · exact hle.allocated (hs.signatures id registered h)
  · obtain ⟨captured, hcaptured, hconfined⟩ := hs.confined id registered h
    exact ⟨captured, fun t ht => hle.allocated (hcaptured t ht), hconfined⟩

theorem find?_some {t : TermId} (h : s.find? shape = some t) :
    t ∈ (s.index[shape.fingerprint]?).getD [] ∧ s.shape t = shape := by
  refine ⟨List.mem_of_find?_eq_some h, ?_⟩
  simpa using List.find?_some h

/-- Adding a term is the identity on a quantifier over nothing, finds the term that has the shape
already, or appends one. -/
theorem intern_cases (s : Store) (shape : Shape TermId) :
    (∃ body, shape = .forAll [] body ∧ s.intern shape = (body, s)) ∨
    (∃ t, s.find? shape = some t ∧ s.intern shape = (t, s)) ∨
    s.intern shape = s.add shape := by
  unfold intern
  split
  · exact Or.inl ⟨_, rfl, rfl⟩
  · cases h : s.find? shape with
    | some t => exact Or.inr (Or.inl ⟨t, rfl, rfl⟩)
    | none => exact Or.inr (Or.inr rfl)

theorem extends_intern (s : Store) (shape : Shape TermId) : s.Extends (s.intern shape).2 := by
  rcases intern_cases s shape with ⟨body, -, h⟩ | ⟨t, -, h⟩ | h
  · rw [h]
    exact .refl s
  · rw [h]
    exact .refl s
  · rw [h]
    exact extends_add s shape

theorem linked_intern (hs : s.Linked) (hshape : ∀ child ∈ shape.children, s.Allocated child) :
    (s.intern shape).2.Linked := by
  rcases intern_cases s shape with ⟨body, -, h⟩ | ⟨t, -, h⟩ | h
  · rwa [h]
  · rwa [h]
  · rw [h]
    exact linked_add hs hshape

theorem size_intern (s : Store) (shape : Shape TermId) :
    s.entries.size ≤ (s.intern shape).2.entries.size := by
  rcases intern_cases s shape with ⟨body, -, h⟩ | ⟨t, -, h⟩ | h <;> simp [h, add]

theorem closed_intern (hs : s.Closed) (hshape : ∀ child ∈ shape.children, s.Allocated child) :
    (s.intern shape).2.Closed :=
  ⟨linked_intern hs.toLinked hshape, Nat.le_trans hs.common (size_intern s shape)⟩

theorem allocated_intern (hs : s.Linked) (hshape : ∀ child ∈ shape.children, s.Allocated child) :
    (s.intern shape).2.Allocated (s.intern shape).1 := by
  rcases intern_cases s shape with ⟨body, hbody, h⟩ | ⟨t, ht, h⟩ | h
  · rw [h]
    exact hshape body (by simp [hbody, Shape.children])
  · rw [h]
    exact hs.index _ t (find?_some ht).1
  · rw [h]
    exact allocated_add s shape

/-- The handle of a shape has that shape, but for a quantifier over nothing, which is its body. -/
theorem shape_intern (hshape : ∀ body, shape ≠ .forAll [] body) :
    (s.intern shape).2.shape (s.intern shape).1 = shape := by
  rcases intern_cases s shape with ⟨body, hbody, -⟩ | ⟨t, ht, h⟩ | h
  · exact absurd hbody (hshape body)
  · rw [h]
    exact (find?_some ht).2
  · rw [h]
    exact shape_add s shape

theorem output_intern (s : Store) (shape : Shape TermId) :
    (s.intern shape).2.output = s.output := by
  rcases intern_cases s shape with ⟨body, -, h⟩ | ⟨t, -, h⟩ | h <;> rw [h] <;> rfl

theorem natives_intern (s : Store) (shape : Shape TermId) :
    (s.intern shape).2.natives = s.natives := by
  rcases intern_cases s shape with ⟨body, -, h⟩ | ⟨t, -, h⟩ | h <;> rw [h] <;> rfl

theorem vars_intern (s : Store) (shape : Shape TermId) : (s.intern shape).2.vars = s.vars := by
  rcases intern_cases s shape with ⟨body, -, h⟩ | ⟨t, -, h⟩ | h <;> rw [h] <;> rfl

theorem config_intern (s : Store) (shape : Shape TermId) :
    (s.intern shape).2.config = s.config := by
  rcases intern_cases s shape with ⟨body, -, h⟩ | ⟨t, -, h⟩ | h <;> rw [h] <;> rfl

end Intern

end Store
end StagedCalculus
