import StagedCalculus.Proofs.Store.Hidden

/-!
# Stores that keep nothing of hidden variables

A store is sound for hidden variables if what it keeps for later is clear of them: the terms that
every store has, the remembered types, and the natives with their signatures. This module proves
that the builders keep a store sound.
-/

namespace StagedCalculus

namespace Store

variable {s s' : Store} {hidden : List VarId} {shape : Shape TermId} {t : TermId}

/-- Nothing that the store keeps for later mentions a hidden variable. -/
structure Sound (s : Store) (hidden : List VarId) : Prop extends Closed s where
  old : ∀ v ∈ hidden, v.index < s.vars.size
  runtime : ∀ v ∈ hidden, s.isComptime v = false
  commonClear : ∀ i < 5, s.Clear hidden ⟨i⟩
  typesClear : ∀ t restriction ty, s.types.get? t restriction = some (.ok ty) → s.Clear hidden ty
  signaturesClear : ∀ id registered, s.native? id = some registered →
    s.Clear hidden registered.signature
  /-- With nothing to hide it is enough that a native makes up no handle. -/
  careful : ∀ id registered, s.native? id = some registered →
    ∃ captured, (∀ t ∈ captured, s.Clear hidden t) ∧
      (hidden = [] ∧ registered.native.Confined captured ∨
        registered.native.Careful hidden captured)

theorem Closed.sound (hs : s.Closed) : s.Sound [] := by
  refine ⟨hs, nofun, nofun, fun i hi => .nil (hs.allocated_common hi),
    fun t restriction ty h => .nil (hs.types t restriction ty h),
    fun id registered h => .nil (hs.signatures id registered h), fun id registered h => ?_⟩
  obtain ⟨captured, hcaptured, hconfined⟩ := hs.confined id registered h
  exact ⟨captured, fun t ht => .nil (hcaptured t ht), Or.inl ⟨rfl, hconfined⟩⟩

/-- A closed store is sound for variables that no term of it mentions. -/
theorem Closed.sound_of_unmentioned (hs : s.Closed)
    (hold : ∀ v ∈ hidden, v.index < s.vars.size ∧ s.isComptime v = false)
    (habsent : ∀ t, s.Allocated t → ∀ v ∈ hidden, s.mentions v t = false)
    (hcareful : ∀ id registered, s.native? id = some registered →
      registered.native.Careful hidden []) : s.Sound hidden := by
  have hclear : ∀ {t}, s.Allocated t → s.Clear hidden t := fun ht => ⟨ht, habsent _ ht⟩
  exact ⟨hs, fun v hv => (hold v hv).1, fun v hv => (hold v hv).2,
    fun i hi => hclear (hs.allocated_common hi),
    fun t restriction ty h => hclear (hs.types t restriction ty h),
    fun id registered h => hclear (hs.signatures id registered h),
    fun id registered h => ⟨[], nofun, Or.inr (hcareful id registered h)⟩⟩

theorem Sound.clear_signature (hs : s.Sound hidden) (id : NativeId) :
    s.Clear hidden (s.nativeSignature id) := by
  unfold nativeSignature
  cases hnative : s.native? id with
  | none => exact hs.commonClear 3 (by decide)
  | some registered => exact hs.signaturesClear id registered hnative

/-- A fresh variable is not hidden. -/
theorem Sound.fresh (hs : s.Sound hidden) : (⟨s.vars.size⟩ : VarId) ∉ hidden := fun hmem =>
  Nat.lt_irrefl _ (hs.old _ hmem)

/-! ## What a later state has to show -/

/-- A later state with the same natives and remembered types is sound if it is closed. -/
theorem Sound.later (hs : s.Sound hidden) (hle : s.Extends s') (hclosed : s'.Closed)
    (hnatives : s'.natives = s.natives) (htypes : s'.types = s.types) : s'.Sound hidden := by
  have hgrows : s.GrowsTo s' :=
    ⟨hle, hs.toLinked, hclosed.toLinked, fun t restriction answer h => by rwa [htypes]⟩
  have hnative? : ∀ id, s'.native? id = s.native? id := fun id => by
    rw [native?, native?, hnatives]
  refine ⟨hclosed, fun v hv => hle.lt_vars (hs.old v hv), fun v hv => ?_,
    fun i hi => hgrows.clear (hs.commonClear i hi), fun t restriction ty h => ?_,
    fun id registered h => ?_, fun id registered h => ?_⟩
  · rw [hle.isComptime_eq (hs.old v hv), hs.runtime v hv]
  · rw [htypes] at h
    exact hgrows.clear (hs.typesClear t restriction ty h)
  · rw [hnative?] at h
    exact hgrows.clear (hs.signaturesClear id registered h)
  · rw [hnative?] at h
    obtain ⟨captured, hcaptured, hcareful⟩ := hs.careful id registered h
    exact ⟨captured, fun t ht => hgrows.clear (hcaptured t ht), hcareful⟩

/-! ## The builders -/

theorem types_intern (s : Store) (shape : Shape TermId) : (s.intern shape).2.types = s.types := by
  rcases intern_cases s shape with ⟨body, -, h⟩ | ⟨t, -, h⟩ | h <;> rw [h] <;> rfl

theorem sound_intern (hs : s.Sound hidden) (hshape : ∀ child ∈ shape.children, s.Allocated child) :
    (s.intern shape).2.Sound hidden := by
  exact hs.later (extends_intern s shape) (closed_intern hs.toClosed hshape)
    (natives_intern s shape) (types_intern s shape)

theorem growsTo_intern (hs : s.Linked) (hshape : ∀ child ∈ shape.children, s.Allocated child) :
    s.GrowsTo (s.intern shape).2 :=
  ⟨extends_intern s shape, hs, linked_intern hs hshape, fun t restriction answer h => by
    rwa [types_intern]⟩

/-- A term of clear parts that mentions no hidden variable itself is clear. -/
theorem clear_intern (hs : s.Linked) (hvariables : ∀ v ∈ shape.ownVars, v ∉ hidden)
    (hchildren : ∀ child ∈ shape.children, s.Clear hidden child) :
    (s.intern shape).2.Clear hidden (s.intern shape).1 := by
  have hallocated : ∀ child ∈ shape.children, s.Allocated child := fun child hchild =>
    (hchildren child hchild).allocated
  have hgrows := growsTo_intern hs hallocated
  by_cases hquantifier : ∃ body, shape = .forAll [] body
  · obtain ⟨body, rfl⟩ := hquantifier
    exact hchildren body (by simp [Shape.children])
  · have hshape := shape_intern (s := s) fun body hbody => hquantifier ⟨body, hbody⟩
    refine .of_parts hgrows.linked' (allocated_intern hs hallocated) ?_ ?_
    · rwa [hshape]
    · rw [hshape]
      exact fun child hchild => hgrows.clear (hchildren child hchild)

/-- A term whose types are clear and whose values are plain is plain. -/
theorem plain_intern (hs : s.Linked) (hbinders : ∀ v ∈ shape.binders, v ∉ hidden)
    (htypes : ∀ part ∈ shape.typeParts, s.Clear hidden part)
    (hvalues : ∀ part ∈ shape.valueParts, s.Plain hidden part) :
    (s.intern shape).2.Plain hidden (s.intern shape).1 := by
  have hallocated : ∀ child ∈ shape.children, s.Allocated child := by
    intro child hchild
    rcases Shape.mem_children.1 hchild with htype | hvalue
    · exact (htypes child htype).allocated
    · exact (hvalues child hvalue).allocated
  have hgrows := growsTo_intern hs hallocated
  by_cases hquantifier : ∃ body, shape = .forAll [] body
  · obtain ⟨body, rfl⟩ := hquantifier
    exact hvalues body (by simp [Shape.valueParts])
  · have hshape := shape_intern (s := s) fun body hbody => hquantifier ⟨body, hbody⟩
    refine ⟨allocated_intern hs hallocated, fun v hv => (exposes_eq_false hgrows.linked').2 ?_⟩
    rw [hshape]
    exact ⟨fun hmem => hbinders v hmem hv,
      fun part hpart => (hgrows.clear (htypes part hpart)).absent v hv,
      fun part hpart => (hgrows.plain (hvalues part hpart)).unexposed v hv⟩

theorem extends_freshVariable (s : Store) (comptime : Bool) (name : Option String) :
    s.Extends (s.freshVariable comptime name).2 := by
  refine ⟨fun _ _ h => h, fun i info h => ?_, fun _ _ h => h⟩
  have hlt : i < s.vars.size := (Array.getElem?_eq_some_iff.1 h).1
  change (s.vars.push _)[i]? = some info
  rw [Array.getElem?_push_lt hlt, ← Array.getElem?_eq_getElem hlt]
  exact h

theorem isComptime_freshVariable {comptime : Bool} {name : Option String} {v : VarId}
    (hv : v.index = s.vars.size) : (s.freshVariable comptime name).2.isComptime v = comptime := by
  simp [isComptime, variableInfo, freshVariable, hv]

theorem sound_freshVariable (hs : s.Sound hidden) (comptime : Bool) (name : Option String) :
    (s.freshVariable comptime name).2.Sound hidden :=
  hs.later (extends_freshVariable s comptime name) (closed_freshVariable hs.toClosed comptime name)
    rfl rfl

theorem sound_output (hs : s.Sound hidden) (output : Output) :
    ({ s with output } : Store).Sound hidden :=
  hs.later (.of_eq rfl rfl rfl)
    (closed_output hs.toClosed output) rfl rfl

theorem Clear.withTypes (h : s.Clear hidden t) (types : TypeCache) :
    ({ s with types } : Store).Clear hidden t := by
  refine ⟨h.allocated, fun v hv => ?_⟩
  have hentries : ({ s with types } : Store).entries = s.entries := rfl
  rw [mentions, fold_congr hentries]
  exact h.absent v hv

theorem sound_remember (hs : s.Sound hidden) {restriction : Restriction} {answer : TypeAnswer}
    (hanswer : ∀ ty, answer = .ok ty → s.Clear hidden ty) :
    ({ s with types := s.types.insert t restriction answer } : Store).Sound hidden := by
  have hclosed : ({ s with types := s.types.insert t restriction answer } : Store).Closed :=
    closed_remember hs.toClosed fun ty hty => (hanswer ty hty).allocated
  refine ⟨hclosed, hs.old, hs.runtime, fun i hi => (hs.commonClear i hi).withTypes _, ?_,
    fun id registered h => (hs.signaturesClear id registered h).withTypes _,
    fun id registered h => ?_⟩
  · intro t' restriction' ty h
    rcases TypeCache.get?_insert_cases h with hnew | hold
    · exact (hanswer ty hnew.symm).withTypes _
    · exact (hs.typesClear t' restriction' ty hold).withTypes _
  · obtain ⟨captured, hcaptured, hcareful⟩ := hs.careful id registered h
    exact ⟨captured, fun t ht => (hcaptured t ht).withTypes _, hcareful⟩

end Store

end StagedCalculus
