import StagedCalculus.Proofs.Native.Discretion
import StagedCalculus.Proofs.Term.Parts

/-!
# Scripts that tell types from values

A native function refines the type of a call from arguments that are not reduced yet. This module
states that a script puts such a term in no type position of a term that it builds
(`Script.Careful`): what it puts there it was given reduced, or got as an answer of a judgment.

Every native that a store starts with is careful, and so it is confined.
-/

namespace StagedCalculus

namespace Query

/-- The handles that an answer tells and that mention nothing that the clear ones do not. -/
@[simp]
def tellsClear (clear : List TermId) : (query : Query) → query.Answer → List TermId
  | .shape t, layer => if t ∈ clear then layer.children else layer.typeParts
  | .intern layer, t => if ∀ child ∈ layer.children, child ∈ clear then [t] else []
  | .infer _, t => [t]
  | .reduce _ _, t => [t]
  | .signature _, t => [t]
  | .builtin _, leaf => leaf.toList
  | _, _ => []

/-- The other handles that an answer tells. -/
@[simp]
def tellsPlain : (query : Query) → query.Answer → List TermId
  | .shape _, layer => layer.valueParts
  | .intern _, t => [t]
  | _, _ => []

/-- A question mentions known handles only. A term that is built mentions no hidden variable itself,
and its types are clear. -/
@[simp]
def Fits (hidden : List VarId) (plain clear : List TermId) : Query → Prop
  | .intern layer =>
    (∀ v ∈ layer.ownVars, v ∉ hidden) ∧ (∀ part ∈ layer.typeParts, part ∈ clear) ∧
      ∀ part ∈ layer.valueParts, part ∈ plain ++ clear
  | query => ∀ t ∈ query.handles, t ∈ plain ++ clear

variable {hidden : List VarId} {plain clear : List TermId} {query : Query}

theorem tellsClear_intern {l : Shape TermId} (h : ∀ child ∈ l.children, child ∈ clear)
    (t : TermId) : tellsClear clear (.intern l) t = [t] := if_pos h

theorem Fits.handles (h : query.Fits hidden plain clear) :
    ∀ t ∈ query.handles, t ∈ plain ++ clear := by
  cases query with
  | intern layer =>
    intro t ht
    rcases Shape.mem_children.1 ht with htype | hvalue
    · exact List.mem_append_right _ (h.2.1 t htype)
    · exact h.2.2 t hvalue
  | _ => exact h

theorem tellsClear_subset (answer : query.Answer) :
    query.tellsClear clear answer ⊆ query.revealed answer := by
  cases query with
  | shape t =>
    simp only [tellsClear, revealed]
    split
    · exact List.Subset.refl _
    · exact fun part hpart => Shape.mem_children.2 (Or.inl hpart)
  | intern layer =>
    simp only [tellsClear, revealed]
    split
    · exact List.Subset.refl _
    · exact List.nil_subset _
  | _ => exact List.Subset.refl _

theorem tellsPlain_subset (answer : query.Answer) :
    query.tellsPlain answer ⊆ query.revealed answer := by
  cases query with
  | shape t => exact fun part hpart => Shape.mem_children.2 (Or.inr hpart)
  | intern layer => exact List.Subset.refl _
  | _ => exact List.nil_subset _

end Query

namespace Script

variable {α β : Type} {hidden : List VarId}

/-! ## Careful scripts -/

/-- The script mentions no handle but those it knows, puts none but clear ones in type positions,
and gives a result of clear ones. -/
def Careful (hidden : List VarId) (handles : α → List TermId) :
    List TermId → List TermId → Script α → Prop
  | _, clear, .done value => ∀ t ∈ handles value, t ∈ clear
  | _, _, .fail _ => True
  | plain, clear, .ask query next =>
    query.Fits hidden plain clear ∧ ∀ answer, (next answer).Careful hidden handles
      (query.tellsPlain answer ++ plain) (query.tellsClear clear answer ++ clear)

/-- A single question, whose answer is clear. -/
theorem Careful.question {query : Query} {handles : query.Answer → List TermId}
    {plain clear : List TermId} (hquery : query.Fits hidden plain clear)
    (hanswer : ∀ answer, handles answer ⊆ query.tellsClear clear answer) :
    (Script.ask query .done).Careful hidden handles plain clear :=
  ⟨hquery, fun answer _ ht => List.mem_append_left _ (hanswer answer ht)⟩

theorem Careful.bind {f : α → List TermId} {g : β → List TermId} {script : Script α}
    {next : α → Script β} {plain clear : List TermId} (h : script.Careful hidden f plain clear)
    (hnext : ∀ value plain' clear', plain ⊆ plain' → clear ⊆ clear' →
      (∀ t ∈ f value, t ∈ clear') → (next value).Careful hidden g plain' clear') :
    (script >>= next).Careful hidden g plain clear := by
  induction script generalizing plain clear with
  | done value => exact hnext value plain clear (List.Subset.refl _) (List.Subset.refl _) h
  | fail error => trivial
  | ask query rest ih =>
    refine ⟨h.1, fun answer => ih answer (h.2 answer) fun value plain' clear' hplain hclear => ?_⟩
    exact hnext value plain' clear' (List.Subset.trans (List.subset_append_right _ _) hplain)
      (List.Subset.trans (List.subset_append_right _ _) hclear)

/-- A careful script makes up no handle. -/
theorem Careful.confined {handles : α → List TermId} {script : Script α} {plain clear : List TermId}
    (h : script.Careful hidden handles plain clear) :
    script.Confined handles (plain ++ clear) := by
  induction script generalizing plain clear with
  | done value => exact fun t ht => List.mem_append_right _ (h t ht)
  | fail error => trivial
  | ask query next ih =>
    refine ⟨h.1.handles, fun answer => (ih answer (h.2 answer)).mono fun t ht => ?_⟩
    have hclear : query.tellsClear clear answer ⊆ query.revealed answer :=
      Query.tellsClear_subset answer
    have hplain := Query.tellsPlain_subset answer
    simp only [List.mem_append] at ht ⊢
    rcases ht with (ht | ht) | ht | ht
    · exact Or.inl (hplain ht)
    · exact Or.inr (Or.inl ht)
    · exact Or.inl (hclear ht)
    · exact Or.inr (Or.inr ht)

/-- With nothing to hide a confined script is careful. -/
theorem Confined.careful {handles : α → List TermId} {script : Script α} {known clear : List TermId}
    (h : script.Confined handles known) (hknown : known ⊆ clear) :
    script.Careful [] handles [] clear := by
  suffices hplain : ∀ plain, script.Careful [] handles plain clear from hplain []
  induction script generalizing known clear with
  | done value => exact fun plain t ht => hknown (h t ht)
  | fail error => exact fun _ => trivial
  | ask query next ih =>
    have hhandles : ∀ t ∈ query.handles, t ∈ clear := fun t ht => hknown (h.1 t ht)
    refine fun plain => ⟨?_, fun answer => ih answer (h.2 answer) (fun t ht => ?_) _⟩
    · cases query with
      | intern layer =>
        refine ⟨fun v _ => List.not_mem_nil, fun part hpart => ?_, fun part hpart => ?_⟩
        · exact hhandles part (Shape.mem_children.2 (Or.inl hpart))
        · exact List.mem_append_right _ (hhandles part (Shape.mem_children.2 (Or.inr hpart)))
      | _ => exact fun t ht => List.mem_append_right _ (hhandles t ht)
    · have hrevealed : query.revealed answer ⊆ query.tellsClear clear answer := by
        cases query with
        | shape t => simp [hhandles t (by simp)]
        | intern layer => simpa using hhandles
        | _ => exact List.Subset.refl _
      rcases List.mem_append.1 ht with ht | ht
      · exact List.mem_append_left _ (hrevealed ht)
      · exact List.mem_append_right _ (hknown ht)

end Script

namespace Native

open Script

variable {hidden : List VarId} {captured plain clear : List TermId}

/-- The arguments of a call are clear. Those that the type of a call is refined from need not be. -/
structure Careful (hidden : List VarId) (captured : List TermId) (native : Native) : Prop where
  call : ∀ args, (native.call args).Careful hidden (fun t => [t]) [] (args ++ captured)
  resultType : ∀ hook, native.resultType = some hook →
    ∀ args, (hook args).Careful hidden Option.toList args captured

theorem Careful.confined {native : Native} (h : native.Careful hidden captured) :
    native.Confined captured :=
  ⟨fun args => (h.call args).confined,
    fun hook hhook args => (h.resultType hook hhook args).confined⟩

/-! ## The built-in natives -/

theorem careful_expectString (name : String) {t : TermId} (ht : t ∈ plain ++ clear) :
    (expectString name t).Careful hidden (fun _ => []) plain clear := by
  refine .bind (f := fun _ => []) (.question (by simpa using ht) fun _ => by simp)
    fun shape plain' clear' hplain hclear _ => ?_
  have ht' : t ∈ plain' ++ clear' := by
    rcases List.mem_append.1 ht with ht | ht
    · exact List.mem_append_left _ (hplain ht)
    · exact List.mem_append_right _ (hclear ht)
  split
  · simp [Script.Careful, pure]
  · exact .bind (f := fun _ => []) (.question (by simpa using ht') fun _ => by simp)
      fun _ _ _ _ _ _ => trivial

theorem careful_exported (name : String) :
    (exported name).Careful hidden (fun parts => [parts.1, parts.2]) plain clear := by
  refine .bind (.question (by simp) fun _ => List.Subset.refl _)
    fun leaf plain₁ clear₁ _ _ hleaf => ?_
  cases leaf with
  | none => trivial
  | some leaf =>
    have hknown : leaf ∈ clear₁ := hleaf leaf (by simp)
    refine .bind (f := fun _ => []) (.question (by simp [hknown]) fun _ => by simp)
      fun shape plain₂ clear₂ _ hclear₂ _ => ?_
    split
    · refine .bind (.question (by simp) fun _ => List.Subset.refl _)
        fun ty plain₃ clear₃ _ hclear₃ hty => ?_
      intro t ht
      simp only [List.mem_cons, List.not_mem_nil, or_false] at ht
      rcases ht with rfl | rfl
      · exact hclear₃ (hclear₂ hknown)
      · exact hty _ (by simp)
    · trivial

theorem careful_exportedAll (names : List String) :
    (exportedAll names).Careful hidden (fun parts => parts.1.map (·.2) ++ parts.2.map (·.2))
      plain clear := by
  induction names generalizing plain clear with
  | nil => simp [exportedAll, Script.Careful, pure]
  | cons name rest ih =>
    refine .bind (careful_exported name) fun parts plain₁ clear₁ _ _ hparts => ?_
    refine .bind ih fun others plain₂ clear₂ _ hclear₂ hothers t ht => ?_
    simp only [List.map_cons, List.cons_append, List.mem_cons, List.mem_append] at ht
    rcases ht with rfl | ht | rfl | ht
    · exact hclear₂ (hparts _ (by simp))
    · exact hothers t (List.mem_append_left _ ht)
    · exact hclear₂ (hparts _ (by simp))
    · exact hothers t (List.mem_append_right _ ht)

theorem careful_importHeader {header : TermId} (hheader : header ∈ plain ++ clear) :
    (importHeader header).Careful hidden (fun t => [t]) plain clear := by
  refine .bind (careful_expectString "cimport" hheader) fun text plain₁ clear₁ _ _ _ => ?_
  split
  · trivial
  · split
    · trivial
    · rename_i names _
      refine .bind (careful_exportedAll names) fun parts plain₂ clear₂ _ _ hparts => ?_
      have hmembers : ∀ t ∈ parts.1.map (·.2), t ∈ clear₂ := fun t ht =>
        hparts t (List.mem_append_left _ ht)
      have hfields : ∀ t ∈ parts.2.map (·.2), t ∈ clear₂ := fun t ht =>
        hparts t (List.mem_append_right _ ht)
      -- Both terms are built of exported leaves and their signatures, which are clear.
      refine .bind (f := fun t => [t]) (.question ?_ fun t => ?_)
        fun ty plain₃ clear₃ _ hclear₃ hty => .question ?_ fun t => ?_
      · exact ⟨by simp [Shape.ownVars, Shape.leaf, Shape.binders], hmembers,
          by simp [Shape.valueParts]⟩
      · rw [Query.tellsClear_intern (l := .productType parts.1) hmembers]
        exact List.Subset.refl _
      · refine ⟨by simp [Shape.ownVars, Shape.leaf, Shape.binders], ?_, fun part hpart => ?_⟩
        · simpa [Shape.typeParts] using hty
        · exact List.mem_append_right _ (hclear₃ (hfields part hpart))
      · rw [Query.tellsClear_intern fun child hchild => ?_]
        · exact List.Subset.refl _
        rcases List.mem_cons.1 hchild with rfl | hchild
        · exact hty _ (by simp)
        · exact hclear₃ (hfields child hchild)

theorem careful_cast : cast.Careful hidden captured := by
  refine ⟨fun args => ?_, fun hook hhook args => ?_⟩
  · rcases args with _ | ⟨target, _ | ⟨subject, rest⟩⟩
    · trivial
    · trivial
    · refine .bind (f := fun t => [t]) (.question ?_ fun t => by simp [Shape.children])
        fun t plain' clear' _ _ ht => .question (by simpa using Or.inr (ht t (by simp))) fun _ => ?_
      · simp [Shape.ownVars, Shape.leaf, Shape.binders, Shape.typeParts, Shape.valueParts]
      · exact List.Subset.refl _
  · cases hhook
    rcases args with _ | ⟨target, rest⟩
    · trivial
    · refine .bind (.question (by simp) fun _ => List.Subset.refl _) fun t _ clear' _ _ ht => ?_
      simpa [Script.Careful, pure] using ht

theorem careful_project : project.Careful hidden captured := by
  refine ⟨fun args => ?_, fun hook hhook args => ?_⟩
  · rcases args with _ | ⟨subject, _ | ⟨field, rest⟩⟩
    · trivial
    · trivial
    · refine .bind (careful_expectString "project" (by simp))
        fun name plain₁ clear₁ _ hclear₁ _ => ?_
      have hsubject : subject ∈ clear₁ := hclear₁ (by simp)
      refine .bind (f := fun t => [t]) (.question ?_ fun t => by simp [Shape.children, hsubject])
        fun t plain₂ clear₂ _ _ ht => .question (by simpa using Or.inr (ht t (by simp))) fun _ => ?_
      · simp [Shape.ownVars, Shape.leaf, Shape.binders, Shape.typeParts, Shape.valueParts,
          hsubject]
      · exact List.Subset.refl _
  · cases hhook
    rcases args with _ | ⟨subject, _ | ⟨field, rest⟩⟩
    · trivial
    · trivial
    · refine .bind (.question (by simp) fun _ => List.Subset.refl _)
        fun value plain₁ clear₁ hplain₁ _ hvalue => ?_
      have hvalue : value ∈ clear₁ := hvalue _ (by simp)
      refine .bind (f := fun _ => []) (.question (by simp [hvalue]) fun _ => by simp)
        fun isValue plain₂ clear₂ hplain₂ hclear₂ _ => ?_
      split
      · simp [Script.Careful, pure]
      · refine .bind (careful_expectString "project" (List.mem_append_right _ (hclear₂ hvalue)))
          fun name plain₃ clear₃ hplain₃ _ _ => ?_
        have hsubject : subject ∈ plain₃ := hplain₃ (hplain₂ (hplain₁ (by simp)))
        -- The subject is not reduced, so the projection is no more than known.
        have hmember : ∀ t clear', (do return some (← infer t) : Script (Option TermId)).Careful
            hidden Option.toList (t :: plain₃) clear' := by
          refine fun t clear' => .bind (.question (by simp) fun _ => List.Subset.refl _)
            fun ty _ _ _ _ hty => ?_
          simpa [Script.Careful, pure] using hty
        refine ⟨?_, fun t => hmember t _⟩
        simp [Shape.ownVars, Shape.leaf, Shape.binders, Shape.typeParts, Shape.valueParts,
          hsubject]

theorem careful_cimport : cimport.Careful hidden captured := by
  refine ⟨fun args => ?_, fun hook hhook args => ?_⟩
  · rcases args with _ | ⟨header, rest⟩
    · trivial
    · exact careful_importHeader (by simp)
  · cases hhook
    rcases args with _ | ⟨header, rest⟩
    · trivial
    · refine .bind (.question (by simp) fun _ => List.Subset.refl _)
        fun value plain₁ clear₁ _ _ hvalue => ?_
      have hvalue : value ∈ clear₁ := hvalue _ (by simp)
      refine .bind (f := fun _ => []) (.question (by simp [hvalue]) fun _ => by simp)
        fun isValue plain₂ clear₂ _ hclear₂ _ => ?_
      split
      · simp [Script.Careful, pure]
      · refine .bind (careful_importHeader (List.mem_append_right _ (hclear₂ hvalue)))
          fun product plain₃ clear₃ _ _ hproduct => ?_
        refine .bind (.question (by simpa using Or.inr (hproduct product (by simp)))
          fun _ => List.Subset.refl _) fun ty _ _ _ _ hty => ?_
        simpa [Script.Careful, pure] using hty

theorem careful_printf : printf.Careful hidden captured := by
  refine ⟨fun args => ?_, fun hook hhook args => ?_⟩
  · rcases args with _ | ⟨format, rest⟩
    · trivial
    · refine .bind (careful_expectString "printf" (by simp)) fun text _ _ _ _ _ => ?_
      refine .bind (f := fun _ => []) (.question (by simp) fun _ => by simp)
        fun written _ _ _ _ _ => .question ?_ fun _ => by simp [Shape.children]
      simp [Shape.ownVars, Shape.leaf, Shape.binders, Shape.typeParts, Shape.valueParts]
  · cases hhook
    rcases args with _ | ⟨format, rest⟩
    · trivial
    · refine .bind (.question (by simp) fun _ => List.Subset.refl _)
        fun value plain₁ clear₁ _ _ hvalue => ?_
      have hvalue : value ∈ clear₁ := hvalue _ (by simp)
      refine .bind (f := fun _ => []) (.question (by simp [hvalue]) fun _ => by simp)
        fun shape plain₂ clear₂ _ _ _ => ?_
      split
      · refine .bind (f := fun t => [t]) (.question ?_ fun _ => by simp [Shape.children])
          fun ty _ _ _ _ hty => ?_
        · simp [Shape.ownVars, Shape.leaf, Shape.binders, Shape.typeParts, Shape.valueParts]
        · simpa [Script.Careful, pure] using hty
      · simp [Script.Careful, pure]

end Native

end StagedCalculus
