import StagedCalculus.Proofs.Store.Builders
import StagedCalculus.Proofs.Term.Handle

/-!
# Canonical stores

In a canonical store a shape and its handle determine each other. This module states:

* `Store.Owns`: the handles of any kind that a store has handed out;
* `Store.Canonical`: the index lists every term once, no two terms have one shape, and terms mention
  owned handles only;
* `Store.Canonical.find?_iff`: looking up a shape is the inverse of reading the shape of a term;
* `Store.canonical_intern` and its siblings: what a store offers for construction keeps it
  canonical.
-/

namespace StagedCalculus

namespace Store

/-! ## Owned handles -/

/-- The handles that a store has handed out. -/
def Owns (s : Store) : Handle → Prop
  | .term t => s.Allocated t
  | .var v => v.index < s.vars.size
  | .native id => id.index < s.natives.size
  | .nominal name id => ∃ t, s.Allocated t ∧ s.shape t = .namedType name id

instance (s : Store) : (handle : Handle) → Decidable (s.Owns handle)
  | .term t => inferInstanceAs (Decidable (s.Allocated t))
  | .var v => inferInstanceAs (Decidable (v.index < s.vars.size))
  | .native id => inferInstanceAs (Decidable (id.index < s.natives.size))
  | .nominal name id =>
    decidable_of_iff (∃ i < s.entries.size, s.shape ⟨i⟩ = .namedType name id)
      ⟨fun ⟨i, hi, hshape⟩ => ⟨⟨i⟩, hi, hshape⟩, fun ⟨t, ht, hshape⟩ => ⟨t.index, ht, hshape⟩⟩

theorem Extends.owns {s s' : Store} (h : s.Extends s') {handle : Handle} (hown : s.Owns handle) :
    s'.Owns handle := by
  cases handle with
  | term t => exact h.allocated hown
  | var v => exact h.lt_vars hown
  | native id =>
    have hget : s.natives[id.index]? = some s.natives[id.index] := Array.getElem?_eq_getElem hown
    exact (Array.getElem?_eq_some_iff.1 (h.natives _ _ hget)).1
  | nominal name id =>
    obtain ⟨t, ht, hshape⟩ := hown
    exact ⟨t, h.allocated ht, (h.shape_eq ht).trans hshape⟩

/-- The store has handed out every handle that the shape mentions. -/
abbrev Covers (s : Store) (shape : Shape TermId) : Prop := ∀ handle ∈ shape.handles, s.Owns handle

theorem Covers.children {s : Store} {shape : Shape TermId} (h : s.Covers shape) :
    ∀ child ∈ shape.children, s.Allocated child := (Shape.forall_mem_handles.1 h).1

/-- Shapes that mention subterms only. -/
theorem covers_of_children {s : Store} {shape : Shape TermId} (hvars : shape.ownVars = [])
    (hconstants : shape.constants = []) (h : ∀ child ∈ shape.children, s.Allocated child) :
    s.Covers shape :=
  Shape.forall_mem_handles.2 ⟨h, by simp [hvars], by simp [hconstants]⟩

/-! ## Canonical terms -/

/-- Shapes and handles determine each other. -/
structure Canonical (s : Store) : Prop where
  /-- The index lists every term under the fingerprint of its shape. -/
  indexed : ∀ (key : Nat) (t : TermId), t ∈ (s.index[key]?).getD [] ↔
    s.Allocated t ∧ (s.shape t).fingerprint = key
  distinct : ∀ t u, s.Allocated t → s.Allocated u → s.shape t = s.shape u → t = u
  owned : ∀ t, s.Allocated t → s.Covers (s.shape t)
  quantified : ∀ t body, s.shape t ≠ .forAll [] body
  numbered : ∀ t name id, s.shape t = .namedType name id → id < s.namedTypes
  named : ∀ t u name name' id, s.shape t = .namedType name id → s.shape u = .namedType name' id →
    name = name'
  /-- Whether work is left in a term is read off its shape. -/
  pending : ∀ t, s.Allocated t → s.pending t = ((s.shape t).map s.pending).pending

variable {s s' : Store} {shape : Shape TermId}

namespace Canonical

/-- Looking up a shape is the inverse of reading the shape of a term. -/
theorem find?_iff (hs : s.Canonical) {t : TermId} :
    s.find? shape = some t ↔ s.Allocated t ∧ s.shape t = shape := by
  constructor
  · intro h
    obtain ⟨hmem, hshape⟩ := find?_some h
    exact ⟨((hs.indexed _ t).1 hmem).1, hshape⟩
  · rintro ⟨ht, rfl⟩
    have hmem : t ∈ (s.index[(s.shape t).fingerprint]?).getD [] := (hs.indexed _ t).2 ⟨ht, rfl⟩
    cases hfind : s.find? (s.shape t) with
    | none => simpa using List.find?_eq_none.1 hfind t hmem
    | some u =>
      obtain ⟨humem, hshape⟩ := find?_some hfind
      have hu : s.Allocated u := ((hs.indexed _ u).1 humem).1
      rw [hs.distinct u t hu ht hshape]

theorem find?_none (hs : s.Canonical) (h : s.find? shape = none) {t : TermId}
    (ht : s.Allocated t) : s.shape t ≠ shape := by
  intro hshape
  rw [hs.find?_iff.2 ⟨ht, hshape⟩] at h
  cases h

/-- A canonical term is found again. -/
theorem intern_shape (hs : s.Canonical) {t : TermId} (ht : s.Allocated t) :
    s.intern (s.shape t) = (t, s) := by
  unfold intern
  split
  · rename_i body hshape
    exact absurd hshape (hs.quantified t body)
  · rw [hs.find?_iff.2 ⟨ht, rfl⟩]

/-- Canonical terms stay so while the store gains no term. -/
theorem of_terms (hs : s.Canonical) (hentries : s'.entries = s.entries)
    (hindex : s'.index = s.index) (hvars : s.vars.size ≤ s'.vars.size)
    (hnatives : s.natives.size ≤ s'.natives.size) (hnamed : s.namedTypes ≤ s'.namedTypes) :
    s'.Canonical := by
  have hallocated : ∀ t, s'.Allocated t ↔ s.Allocated t := fun t => by
    rw [Allocated, Allocated, hentries]
  have hshape : s'.shape = s.shape := by
    funext t
    rw [Store.shape, Store.shape, entry, entry, hentries]
  have howns : ∀ handle, s.Owns handle → s'.Owns handle := by
    intro handle hown
    cases handle with
    | term t => exact (hallocated t).2 hown
    | var v => exact Nat.lt_of_lt_of_le hown hvars
    | native id => exact Nat.lt_of_lt_of_le hown hnatives
    | nominal name id =>
      obtain ⟨t, ht, hname⟩ := hown
      exact ⟨t, (hallocated t).2 ht, by rwa [hshape]⟩
  have hpending : s'.pending = s.pending := by
    funext t
    rw [Store.pending, Store.pending, entry, entry, hentries]
  refine ⟨fun key t => ?_, fun t u ht hu h => ?_, fun t ht handle hhandle => ?_, ?_, ?_, ?_,
    fun t ht => ?_⟩
  · rw [hindex, hallocated, hshape]
    exact hs.indexed key t
  · rw [hshape] at h
    exact hs.distinct t u ((hallocated t).1 ht) ((hallocated u).1 hu) h
  · rw [hshape] at hhandle
    exact howns _ (hs.owned t ((hallocated t).1 ht) handle hhandle)
  · rw [hshape]
    exact hs.quantified
  · rw [hshape]
    exact fun t name id h => Nat.lt_of_lt_of_le (hs.numbered t name id h) hnamed
  · rw [hshape]
    exact hs.named
  · rw [hpending, hshape]
    exact hs.pending t ((hallocated t).1 ht)

end Canonical

/-! ## Adding a term -/

theorem canonical_empty (config : Config) : (empty config).Canonical := by
  have hnone : ∀ t, ¬ (empty config).Allocated t := fun t => Nat.not_lt_zero _
  have hshape : ∀ t, (empty config).shape t = .typeOfTypes := fun t =>
    shape_of_not_allocated (hnone t)
  refine ⟨fun key t => ?_, fun t _ ht => absurd ht (hnone t), fun t ht => absurd ht (hnone t),
    fun t body => ?_, fun t name id h => ?_, fun t u name name' id h => ?_,
    fun t ht => absurd ht (hnone t)⟩
  · simp [empty, Allocated]
  · simp [hshape]
  · rw [hshape] at h
    cases h
  · rw [hshape] at h
    cases h

/-- The terms after one was added are the new one and the old ones. -/
theorem add_cases {t : TermId} (ht : (s.add shape).2.Allocated t) :
    t = (s.add shape).1 ∧ (s.add shape).2.shape t = shape ∨
      s.Allocated t ∧ (s.add shape).2.shape t = s.shape t := by
  by_cases hold : s.Allocated t
  · exact Or.inr ⟨hold, (extends_add s shape).shape_eq hold⟩
  · obtain rfl := eq_of_allocated_add ht hold
    exact Or.inl ⟨rfl, shape_add s shape⟩

theorem mem_index_add {key : Nat} {t : TermId} :
    t ∈ ((s.add shape).2.index[key]?).getD [] ↔
      t = (s.add shape).1 ∧ shape.fingerprint = key ∨ t ∈ (s.index[key]?).getD [] := by
  simp only [add, Std.TreeMap.getElem?_insert, Nat.compare_eq_eq]
  split
  · rename_i hkey
    subst hkey
    simp
  · rename_i hkey
    simp [hkey]

theorem canonical_add (hs : s.Canonical) (hnew : s.find? shape = none)
    (hchildren : ∀ child ∈ shape.children, s.Allocated child)
    (howned : (s.add shape).2.Covers shape) (hshape : ∀ body, shape ≠ .forAll [] body)
    (hnominal : ∀ name id, shape = .namedType name id →
      id < s.namedTypes ∧ ∀ t name', s.shape t ≠ .namedType name' id) :
    (s.add shape).2.Canonical := by
  have hle := extends_add s shape
  have hfresh : ∀ t, s.Allocated t → t ≠ (s.add shape).1 := by
    rintro t ht rfl
    exact Nat.lt_irrefl _ ht
  -- A term that is not there yet is read as the type of types.
  have hcases : ∀ t, (s.add shape).2.shape t = shape ∨ (s.add shape).2.shape t = s.shape t := by
    intro t
    by_cases ht : (s.add shape).2.Allocated t
    · exact (add_cases ht).imp And.right And.right
    · have hold : ¬ s.Allocated t := fun h => ht (hle.allocated h)
      exact Or.inr ((shape_of_not_allocated ht).trans (shape_of_not_allocated hold).symm)
  refine ⟨fun key t => ?_, fun t u ht hu h => ?_, fun t ht => ?_, fun t body => ?_,
    fun t name id h => ?_, fun t u name name' id h h' => ?_, fun t ht => ?_⟩
  · rw [mem_index_add, hs.indexed]
    constructor
    · rintro (⟨rfl, rfl⟩ | ⟨ht, rfl⟩)
      · exact ⟨allocated_add s shape, by rw [shape_add]⟩
      · exact ⟨hle.allocated ht, by rw [hle.shape_eq ht]⟩
    · rintro ⟨ht, rfl⟩
      rcases add_cases ht with ⟨rfl, hnewShape⟩ | ⟨hold, holdShape⟩
      · exact Or.inl ⟨rfl, by rw [hnewShape]⟩
      · exact Or.inr ⟨hold, by rw [holdShape]⟩
  · rcases add_cases ht with ⟨rfl, ht'⟩ | ⟨ht, ht'⟩ <;>
      rcases add_cases hu with ⟨rfl, hu'⟩ | ⟨hu, hu'⟩
    · rfl
    · exact absurd (hu'.symm.trans (h.symm.trans ht')) (hs.find?_none hnew hu)
    · exact absurd (ht'.symm.trans (h.trans hu')) (hs.find?_none hnew ht)
    · exact hs.distinct t u ht hu (ht'.symm.trans (h.trans hu'))
  · rcases add_cases ht with ⟨rfl, ht'⟩ | ⟨ht, ht'⟩
    · rwa [ht']
    · rw [ht']
      exact fun handle hhandle => hle.owns (hs.owned t ht handle hhandle)
  · rcases hcases t with h | h <;> rw [h]
    · exact hshape body
    · exact hs.quantified t body
  · rcases hcases t with ht | ht <;> rw [ht] at h
    · exact (hnominal name id h).1
    · exact hs.numbered t name id h
  · rcases hcases t with ht | ht <;> rcases hcases u with hu | hu <;> rw [ht] at h <;> rw [hu] at h'
    · exact (Shape.namedType.inj (h.symm.trans h')).1
    · exact absurd h' ((hnominal name id h).2 u name')
    · exact absurd h ((hnominal name' id h').2 t name)
    · exact hs.named t u name name' id h h'
  · have hparts : ∀ layer : Shape TermId, (∀ child ∈ layer.children, s.Allocated child) →
        layer.map (s.add shape).2.pending = layer.map s.pending := fun layer hlayer =>
      Shape.map_congr fun child hchild => hle.pending_eq (hlayer child hchild)
    rcases add_cases ht with ⟨rfl, ht'⟩ | ⟨ht, ht'⟩
    · rw [ht', pending_add, hparts _ hchildren]
    · rw [ht', hle.pending_eq ht, hparts _ (hs.owned t ht).children, hs.pending t ht]

/-- Interning adds a term only if its shape is new and no quantifier over nothing. -/
theorem canonical_intern_new (hs : s.Canonical)
    (hchildren : ∀ child ∈ shape.children, s.Allocated child)
    (hadd : s.find? shape = none → (s.add shape).2.Covers shape ∧ ∀ name id,
      shape = .namedType name id → id < s.namedTypes ∧ ∀ t name', s.shape t ≠ .namedType name' id) :
    (s.intern shape).2.Canonical := by
  unfold intern
  split
  · exact hs
  · rename_i hshape
    cases hfind : s.find? shape with
    | some t => exact hs
    | none => exact canonical_add hs hfind hchildren (hadd hfind).1 hshape (hadd hfind).2

theorem canonical_intern (hs : s.Canonical) (hshape : s.Covers shape) :
    (s.intern shape).2.Canonical := by
  refine canonical_intern_new hs hshape.children fun hfind =>
    ⟨fun handle hhandle => ?_, fun name id heq => ?_⟩
  · exact (extends_add s shape).owns (hshape handle hhandle)
  · -- An owned nominal type is there already.
    obtain ⟨t, ht, hnamed⟩ :=
      hshape (.nominal name id) (by simp [heq, Shape.handles, Shape.constants])
    exact absurd (hnamed.trans heq.symm) (hs.find?_none hfind ht)

theorem canonical_freshNamedType (hs : s.Canonical) (name : String) :
    (s.freshNamedType name).2.Canonical := by
  have hnumbered : ({ s with namedTypes := s.namedTypes + 1 } : Store).Canonical :=
    hs.of_terms rfl rfl (Nat.le_refl _) (Nat.le_refl _) (Nat.le_succ _)
  refine canonical_intern_new hnumbered (by simp [Shape.children]) fun hfind =>
    ⟨?_, fun name' id heq => ?_⟩
  · intro handle hhandle
    obtain rfl : handle = .nominal name s.namedTypes := by
      simpa [Shape.handles, Shape.children, Shape.ownVars, Shape.leaf, Shape.binders,
        Shape.constants] using hhandle
    exact ⟨_, allocated_add _ _, shape_add _ _⟩
  · cases heq
    exact ⟨Nat.lt_succ_self _, fun t name' h => Nat.lt_irrefl _ (hs.numbered t name' _ h)⟩

/-! ## Variables, natives and the rest of the store -/

theorem canonical_freshVariable (hs : s.Canonical) (comptime : Bool) (name : Option String) :
    (s.freshVariable comptime name).2.Canonical :=
  hs.of_terms rfl rfl (by simp [freshVariable]) (Nat.le_refl _) (Nat.le_refl _)

theorem covers_native {id : NativeId} (h : id.index < s.natives.size) : s.Covers (.native id) := by
  intro handle hhandle
  obtain rfl : handle = .native id := by
    simpa [Shape.handles, Shape.children, Shape.ownVars, Shape.leaf, Shape.binders,
      Shape.constants] using hhandle
  exact h

theorem canonical_register (hs : s.Canonical) (native : Native) (signature : TermId) :
    (s.register native signature).2.Canonical :=
  canonical_intern (hs.of_terms rfl rfl (Nat.le_refl _) (by simp) (Nat.le_refl _))
    (covers_native (by simp))

theorem lt_of_findNative? {name : String} {id : NativeId} (h : s.findNative? name = some id) :
    id.index < s.natives.size := by
  have hmem := List.mem_of_find?_eq_some h
  simp only [List.mem_map, List.mem_reverse, List.mem_range] at hmem
  obtain ⟨i, hi, rfl⟩ := hmem
  exact hi

theorem canonical_builtin (hs : s.Canonical) (name : String) : (s.builtin name).2.Canonical := by
  unfold builtin
  cases hfind : s.findNative? name with
  | none => exact hs
  | some id => exact canonical_intern hs (covers_native (lt_of_findNative? hfind))

theorem canonical_remember (hs : s.Canonical) (types : TypeCache) :
    ({ s with types } : Store).Canonical :=
  hs.of_terms rfl rfl (Nat.le_refl _) (Nat.le_refl _) (Nat.le_refl _)

theorem canonical_output (hs : s.Canonical) (output : Output) :
    ({ s with output } : Store).Canonical :=
  hs.of_terms rfl rfl (Nat.le_refl _) (Nat.le_refl _) (Nat.le_refl _)

end Store

end StagedCalculus
