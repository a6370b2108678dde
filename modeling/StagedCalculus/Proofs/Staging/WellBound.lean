import StagedCalculus.Proofs.Native.Orderly
import StagedCalculus.Proofs.Staging.Genuine

/-!
# Well-bound terms

A frame binds a variable at most once. So a node is good for entering a frame if the variables that
it binds are distinct.

* `Store.WellBound`: terms in which every node is of this kind;
* `Store.Neat`: intact stores that remember well-bound types, and whose natives have well-bound
  signatures and are orderly;
* `Context.Tidy`: contexts that bind variables of a store to well-bound terms;
* `Context.Vacant`: variables that the innermost frame does not bind yet.
-/

namespace StagedCalculus

namespace Store

variable {s s' : Store} {t : TermId} {shape : Shape TermId}

/-! ## Terms -/

/-- Everywhere in the term the variables that a node binds are pairwise distinct. -/
inductive WellBound (s : Store) : TermId → Prop
  | node {t : TermId} : s.Allocated t → (s.shape t).binders.Nodup →
      (∀ child ∈ (s.shape t).children, WellBound s child) → WellBound s t

namespace WellBound

theorem allocated (h : s.WellBound t) : s.Allocated t := by
  cases h with
  | node ht _ _ => exact ht

/-- What is known of the node at the top of a well-bound term. -/
theorem parts (h : s.WellBound t) (hshape : s.shape t = shape) :
    shape.binders.Nodup ∧ ∀ child ∈ shape.children, s.WellBound child := by
  cases h with
  | node _ hbinders hchildren =>
    subst hshape
    exact ⟨hbinders, hchildren⟩

theorem child (h : s.WellBound t) (hshape : s.shape t = shape) {child : TermId}
    (hchild : child ∈ shape.children) : s.WellBound child := (h.parts hshape).2 child hchild

/-- Well-bound terms stay so while the store grows. -/
theorem mono (h : s.WellBound t) (hle : s.Extends s') : s'.WellBound t := by
  induction h with
  | node ht hbinders _ ih =>
    have hshape := hle.shape_eq ht
    exact .node (hle.allocated ht) (by rwa [hshape]) (by rwa [hshape])

end WellBound

/-- If every node of the store binds its variables apart, then every term is well-bound. -/
theorem Linked.wellBound (hs : s.Linked)
    (h : ∀ i < s.entries.size, (s.shape ⟨i⟩).binders.Nodup) (ht : s.Allocated t) :
    s.WellBound t := by
  suffices hall : ∀ n t, s.Allocated t → t.index < n → s.WellBound t from
    hall _ t ht (Nat.lt_succ_self _)
  intro n
  induction n with
  | zero => exact fun t _ hlt => absurd hlt (Nat.not_lt_zero _)
  | succ n ih =>
    intro t ht hlt
    refine .node ht (h t.index ht) fun child hchild => ih child (hs.allocated_children ht hchild) ?_
    have hbelow := hs.children t ht child hchild
    omega

/-- A node with well-bound subterms that binds its variables apart is well-bound. -/
theorem wellBound_intern (hs : s.Linked) (hbinders : shape.binders.Nodup)
    (hchildren : ∀ child ∈ shape.children, s.WellBound child) :
    (s.intern shape).2.WellBound (s.intern shape).1 := by
  rcases intern_cases s shape with ⟨body, rfl, h⟩ | ⟨t, ht, h⟩ | h <;> rw [h]
  · exact hchildren body (by simp [Shape.children])
  · obtain ⟨hmem, rfl⟩ := find?_some ht
    exact .node (hs.index _ t hmem) hbinders hchildren
  · refine .node (allocated_add s shape) (by rwa [shape_add]) fun child hchild => ?_
    rw [shape_add] at hchild
    exact (hchildren child hchild).mono (extends_add s shape)

/-! ## Handles -/

/-- The handles that a store has handed out, the terms among them being well-bound. -/
def Holds (s : Store) : Handle → Prop
  | .term t => s.WellBound t
  | handle => s.Owns handle

@[simp]
theorem holds_term : s.Holds (.term t) ↔ s.WellBound t := Iff.rfl

@[simp]
theorem holds_var {v : VarId} : s.Holds (.var v) ↔ v.index < s.vars.size := Iff.rfl

theorem Holds.owns {handle : Handle} (h : s.Holds handle) : s.Owns handle := by
  cases handle with
  | term t => exact WellBound.allocated h
  | _ => exact h

theorem Extends.holds (hle : s.Extends s') {handle : Handle} (h : s.Holds handle) :
    s'.Holds handle := by
  cases handle with
  | term t => exact WellBound.mono h hle
  | _ => exact Extends.owns hle (Holds.owns h)

/-- A well-bound term mentions such handles only. -/
theorem WellBound.handles (ht : s.WellBound t) (hs : s.Canonical) :
    ∀ handle ∈ (s.shape t).handles, s.Holds handle := by
  obtain ⟨-, hvars, hconstants⟩ := Shape.forall_mem_handles.1 (hs.owned t ht.allocated)
  refine Shape.forall_mem_handles.2 ⟨(ht.parts rfl).2, hvars, fun handle hhandle => ?_⟩
  have hown := hconstants handle hhandle
  cases hshape : s.shape t <;> simp_all [Shape.constants, Holds]

/-- The variables of a node are variables of the store. -/
theorem WellBound.owns_binders (ht : s.WellBound t) (hs : s.Canonical)
    (hshape : s.shape t = shape) : ∀ v ∈ shape.binders, s.Owns (.var v) := by
  subst hshape
  have hvars := (Shape.forall_mem_handles.1 (hs.owned t ht.allocated)).2.1
  exact fun v hv => hvars v (List.mem_append_right _ hv)

/-- Bindings and parameters that can enter one frame, and a body. -/
structure Abstracts (s : Store) (lets params : List (VarId × TermId)) (body : TermId) : Prop where
  letsDistinct : (lets.map (·.1)).Nodup
  paramsDistinct : (params.map (·.1)).Nodup
  apart : ∀ p ∈ params, p.1 ∉ lets.map (·.1)
  lets : ∀ b ∈ lets, b.1.index < s.vars.size ∧ s.WellBound b.2
  params : ∀ p ∈ params, p.1.index < s.vars.size ∧ s.WellBound p.2
  body : s.WellBound body

theorem WellBound.abstracts {lets params : List (VarId × TermId)} {body : TermId}
    (ht : s.WellBound t) (hs : s.Canonical) (hshape : s.shape t = .abstraction lets params body) :
    s.Abstracts lets params body := by
  obtain ⟨hdistinct, hchildren⟩ := ht.parts hshape
  obtain ⟨hlets, hparams, hdisjoint⟩ := List.nodup_append.1 hdistinct
  have hvars := ht.owns_binders hs hshape
  refine ⟨hlets, hparams, fun p hp hmem => hdisjoint _ hmem _ (List.mem_map_of_mem hp) rfl,
    fun b hb => ⟨hvars b.1 ?_, hchildren b.2 ?_⟩, fun p hp => ⟨hvars p.1 ?_, hchildren p.2 ?_⟩,
    hchildren body (List.mem_append_right _ (List.mem_singleton_self body))⟩
  · exact List.mem_append_left _ (List.mem_map_of_mem hb)
  · exact List.mem_append_left _ (List.mem_append_left _ (List.mem_map_of_mem hb))
  · exact List.mem_append_right _ (List.mem_map_of_mem hp)
  · exact List.mem_append_left _ (List.mem_append_right _ (List.mem_map_of_mem hp))

/-! ## Stores -/

/-- An intact store in which everything that a computation can come by is well-bound. -/
structure Neat (s : Store) : Prop extends Intact s where
  basic : ∀ i < 5, s.WellBound ⟨i⟩
  answers : ∀ t restriction ty, s.types.get? t restriction = some (.ok ty) → s.WellBound ty
  refusals : ∀ t restriction name,
    s.types.get? t restriction ≠ some (.error (.alreadyBound name))
  declared : ∀ id registered, s.native? id = some registered → s.WellBound registered.signature
  orderly : ∀ id registered, s.native? id = some registered →
    ∃ captured, (∀ handle ∈ captured, s.Holds handle) ∧ registered.native.Orderly captured

namespace Neat

/-- A neat store stays so while only terms and variables are added. -/
theorem later (hs : s.Neat) (hintact : s'.Intact) (hle : s.Extends s')
    (hnatives : s'.natives = s.natives) (htypes : s'.types = s.types) : s'.Neat where
  toIntact := hintact
  basic i hi := (hs.basic i hi).mono hle
  answers t restriction ty h := (hs.answers t restriction ty (by rwa [← htypes])).mono hle
  refusals t restriction name := by
    rw [htypes]
    exact hs.refusals t restriction name
  declared id registered h := by
    rw [native?, hnatives] at h
    exact (hs.declared id registered h).mono hle
  orderly id registered h := by
    rw [native?, hnatives] at h
    obtain ⟨captured, hcaptured, horderly⟩ := hs.orderly id registered h
    exact ⟨captured, fun handle hhandle => hle.holds (hcaptured handle hhandle), horderly⟩

theorem intern (hs : s.Neat) (hshape : s.Covers shape) : (s.intern shape).2.Neat :=
  hs.later (intact_intern hs.toIntact hshape) (extends_intern s shape) (natives_intern s shape)
    (types_intern s shape)

theorem freshVariable (hs : s.Neat) (comptime : Bool) (name : Option String) :
    (s.freshVariable comptime name).2.Neat :=
  hs.later (intact_freshVariable hs.toIntact comptime name)
    (extends_freshVariable s comptime name) rfl rfl

theorem output (hs : s.Neat) (output : Output) : ({ s with output } : Store).Neat :=
  hs.later (intact_output hs.toIntact output) (.of_eq rfl rfl rfl) rfl rfl

theorem write (hs : s.Neat) (text : String) : (s.write text).2.Neat := by
  obtain ⟨output, houtput⟩ := write_cases s text
  rw [houtput]
  exact hs.output output

/-- An answer is remembered that is well-bound or no complaint about a binding. -/
theorem remember (hs : s.Neat) {restriction : Restriction} {answer : TypeAnswer}
    (hanswer : ∀ ty, answer = .ok ty → s.WellBound ty)
    (hrefusal : ∀ name, answer ≠ .error (.alreadyBound name)) :
    ({ s with types := s.types.insert t restriction answer } : Store).Neat := by
  have hle : s.Extends { s with types := s.types.insert t restriction answer } := .of_eq rfl rfl rfl
  refine ⟨intact_remember hs.toIntact fun ty hty => (hanswer ty hty).allocated,
    fun i hi => (hs.basic i hi).mono hle, fun t' restriction' ty h => ?_,
    fun t' restriction' name h => ?_, fun id registered h => (hs.declared id registered h).mono hle,
    fun id registered h => ?_⟩
  · rcases TypeCache.get?_insert_cases h with hnew | hold
    · exact (hanswer ty hnew.symm).mono hle
    · exact (hs.answers t' restriction' ty hold).mono hle
  · rcases TypeCache.get?_insert_cases h with hnew | hold
    · exact hrefusal name hnew.symm
    · exact hs.refusals t' restriction' name hold
  · obtain ⟨captured, hcaptured, horderly⟩ := hs.orderly id registered h
    exact ⟨captured, fun handle hhandle => hle.holds (hcaptured handle hhandle), horderly⟩

/-- The declared type of a native is well-bound, whether or not it was registered. -/
theorem nativeSignature (hs : s.Neat) (id : NativeId) : s.WellBound (s.nativeSignature id) := by
  unfold Store.nativeSignature
  split
  · rename_i registered hid
    exact hs.declared id registered hid
  · exact hs.basic 3 (by decide)

end Neat

end Store

/-! ## Contexts -/

namespace Context

variable {ctx bound : Context} {s s' : Store} {v w : VarId} {t : TermId}

/-- The context binds variables of the store to well-bound terms. -/
def Tidy (s : Store) (ctx : Context) : Prop := ∀ handle ∈ ctx.handles, s.Holds handle

/-- The innermost frame does not bind the variable. -/
def Vacant (ctx : Context) (v : VarId) : Prop := ctx.innermost.get? v = none

theorem vacant_child (ctx : Context) (v : VarId) : ctx.child.Vacant v := rfl

namespace Tidy

theorem binding (h : ctx.Tidy s) {b : VarId × TermId} (hb : b ∈ ctx.frames.flatten) :
    b.1.index < s.vars.size ∧ s.WellBound b.2 :=
  ⟨h (.var b.1) (List.mem_flatMap.2 ⟨b, hb, by simp⟩),
    h (.term b.2) (List.mem_flatMap.2 ⟨b, hb, by simp⟩)⟩

theorem mono (h : ctx.Tidy s) (hle : s.Extends s') : ctx.Tidy s' :=
  fun handle hhandle => hle.holds (h handle hhandle)

theorem root (s : Store) : Context.root.Tidy s := fun _ h => by cases h

theorem child (h : ctx.Tidy s) : ctx.child.Tidy s := h

theorem get? (h : ctx.Tidy s) (hget : ctx.get? v = some t) : s.WellBound t := by
  obtain ⟨frame, hframe, hfind⟩ := List.exists_of_findSome?_eq_some hget
  obtain ⟨b, hb, rfl⟩ := Option.map_eq_some_iff.1 hfind
  exact (h.binding (List.mem_flatten.2 ⟨frame, hframe, List.mem_of_find?_eq_some hb⟩)).2

theorem bind (h : ctx.Tidy s) (hv : v.index < s.vars.size) (ht : s.WellBound t) :
    Tidy s { ctx with innermost := (v, t) :: ctx.innermost } := by
  intro handle hhandle
  simp only [Context.handles, Context.frames, List.flatten_cons, List.cons_append,
    List.flatMap_cons, List.nil_append, List.mem_cons] at hhandle
  rcases hhandle with rfl | rfl | hhandle
  · exact hv
  · exact ht
  · exact h handle hhandle

/-- A variable that the store does not have is bound nowhere. -/
theorem vacant (h : ctx.Tidy s) (hv : s.vars.size ≤ v.index) : ctx.Vacant v := by
  rw [Vacant, Frame.get?, Option.map_eq_none_iff, List.find?_eq_none]
  intro b hb heq
  obtain rfl : b.1 = v := by simpa using heq
  have hmem : b ∈ ctx.frames.flatten :=
    List.mem_flatten.2 ⟨ctx.innermost, List.mem_cons_self, hb⟩
  exact absurd (h.binding hmem).1 (Nat.not_lt.2 hv)

end Tidy

/-- Binding one variable leaves the other ones as vacant as before. -/
theorem Vacant.cons (h : ctx.Vacant w) (hne : w ≠ v) (t : TermId) :
    Vacant { ctx with innermost := (v, t) :: ctx.innermost } w := by
  simpa [Vacant, Frame.get?, Ne.symm hne] using h

end Context

end StagedCalculus
