import StagedCalculus.Native.Builtin

/-!
# What a native function can do

A native function acts by asking questions. This module states two properties of its script:

* `Script.Confined`: it mentions only handles that it was given or told, so it makes up none;
* `Script.Discreet`: it writes nothing, and evaluates nothing but casts and projections of its
  arguments.

Every native that a store starts with is discreet; the next module shows that it is confined.
-/

namespace StagedCalculus

/-- The shapes of operations that a pure native may perform on its arguments. -/
def Shape.isOperation {α : Type} : Shape α → Bool
  | .cast _ _ | .projection _ _ => true
  | _ => false

/-! ## Handles in questions and answers -/

namespace Query

/-- The handles that a question mentions. -/
@[simp]
def handles : Query → List TermId
  | .shape t | .infer t | .reduce _ t | .isValue t | .display t => [t]
  | .intern layer => layer.children
  | _ => []

/-- The handles that an answer tells. -/
@[simp]
def revealed : (query : Query) → query.Answer → List TermId
  | .shape _, layer => layer.children
  | .intern _, t => [t]
  | .infer _, t => [t]
  | .reduce _ _, t => [t]
  | .signature _, t => [t]
  | .builtin _, leaf => leaf.toList
  | _, _ => []

/-- Whether a question writes nothing and asks for no evaluation. -/
def isSilent : Query → Bool
  | .write _ => false
  | .reduce .evaluate _ => false
  | _ => true

/-- The answer to a question, if it is a cast or a projection of the given terms. -/
def operation (operands : List TermId) : (query : Query) → query.Answer → List TermId
  | .intern layer, t =>
    if layer.isOperation ∧ ∀ child ∈ layer.children, child ∈ operands then [t] else []
  | _, _ => []

end Query

namespace Script

variable {α β : Type}

/-! ## Scripts that make up no handle -/

/-- Every handle that the script mentions is known beforehand or told by an answer, and so is every
handle of its result. -/
def Confined (handles : α → List TermId) : List TermId → Script α → Prop
  | known, .done value => ∀ t ∈ handles value, t ∈ known
  | _, .fail _ => True
  | known, .ask query next =>
    (∀ t ∈ query.handles, t ∈ known) ∧
      ∀ answer, (next answer).Confined handles (query.revealed answer ++ known)

theorem Confined.mono {handles : α → List TermId} {script : Script α} {known more : List TermId}
    (h : script.Confined handles known) (hmore : known ⊆ more) : script.Confined handles more := by
  induction script generalizing known more with
  | done value => exact fun t ht => hmore (h t ht)
  | fail error => trivial
  | ask query next ih =>
    refine ⟨fun t ht => hmore (h.1 t ht), fun answer => ih answer (h.2 answer) ?_⟩
    exact List.append_subset.2 ⟨List.subset_append_left _ _,
      List.Subset.trans hmore (List.subset_append_right _ _)⟩

/-! ## Scripts without effects of their own -/

/-- The script writes nothing. It evaluates only terms in `built`, which gains the casts and
projections of the arguments that the script makes. -/
def Discreet (args : List TermId) : List TermId → Script α → Prop
  | _, .done _ => True
  | _, .fail _ => True
  | built, .ask query next =>
    (query.isSilent = true ∨ ∃ t ∈ built, query = .reduce .evaluate t) ∧
      ∀ answer, (next answer).Discreet args (query.operation args answer ++ built)

/-- A single question without effect. -/
theorem Discreet.question {args built : List TermId} {query : Query}
    (hquery : query.isSilent = true) : (Script.ask query .done).Discreet args built :=
  ⟨Or.inl hquery, fun _ => trivial⟩

theorem Discreet.bind {args : List TermId} {script : Script α} {next : α → Script β}
    {built : List TermId} (h : script.Discreet args built)
    (hnext : ∀ value more, built ⊆ more → (next value).Discreet args more) :
    (script >>= next).Discreet args built := by
  induction script generalizing built with
  | done value => exact hnext value built (List.Subset.refl _)
  | fail error => trivial
  | ask query rest ih =>
    refine ⟨h.1, fun answer => ih answer (h.2 answer) fun value more hmore => ?_⟩
    exact hnext value more (List.Subset.trans (List.subset_append_right _ _) hmore)

end Script

namespace Native

open Script

variable {args known captured : List TermId}

/-- The native makes up no handle, neither in its calls nor in their types: besides its arguments it
mentions what it captured when it was registered, and what it is told. -/
structure Confined (captured : List TermId) (native : Native) : Prop where
  call : ∀ args, (native.call args).Confined (fun t => [t]) (args ++ captured)
  resultType : ∀ hook, native.resultType = some hook →
    ∀ args, (hook args).Confined Option.toList (args ++ captured)

/-- A pure native writes nothing and evaluates only casts and projections of its arguments. No
native evaluates anything to find the type of a call. -/
structure Discreet (native : Native) : Prop where
  call : native.isPure = true → ∀ args, (native.call args).Discreet args []
  resultType : ∀ hook, native.resultType = some hook → ∀ args, (hook args).Discreet [] []

/-! ## The built-in natives -/

theorem discreet_expectString (name : String) (t : TermId) (built : List TermId) :
    (expectString name t).Discreet args built := by
  refine .bind (.question rfl) fun shape more _ => ?_
  split
  · trivial
  · exact .bind (.question rfl) fun _ _ _ => trivial

theorem discreet_exportedAll (names : List String) (built : List TermId) :
    (exportedAll names).Discreet args built := by
  induction names generalizing built with
  | nil => trivial
  | cons name rest ih =>
    refine .bind ?_ fun parts more _ => .bind (ih more) fun _ _ _ => trivial
    refine .bind (.question rfl) fun leaf more _ => ?_
    cases leaf with
    | none => trivial
    | some leaf =>
      refine .bind (.question rfl) fun shape more' _ => ?_
      split
      · exact .bind (.question rfl) fun _ _ _ => trivial
      · trivial

theorem discreet_importHeader (header : TermId) (built : List TermId) :
    (importHeader header).Discreet args built := by
  refine .bind (discreet_expectString "cimport" header built) fun text more _ => ?_
  split
  · trivial
  · split
    · trivial
    · refine .bind (discreet_exportedAll _ more) fun parts more' _ => ?_
      exact .bind (.question rfl) fun _ _ _ => .question rfl

theorem discreet_cast : cast.Discreet := by
  refine ⟨fun _ args => ?_, fun hook hhook args => ?_⟩
  · rcases args with _ | ⟨target, _ | ⟨subject, rest⟩⟩
    · trivial
    · trivial
    · -- The cast is made of two arguments, so it may be evaluated.
      exact ⟨Or.inl rfl, fun t => ⟨Or.inr ⟨t, by simp [Query.operation, Shape.isOperation,
        Shape.children], rfl⟩, fun _ => trivial⟩⟩
  · cases hhook
    rcases args with _ | ⟨target, rest⟩
    · trivial
    · exact .bind (.question rfl) fun _ _ _ => trivial

theorem discreet_project : project.Discreet := by
  refine ⟨fun _ args => ?_, fun hook hhook args => ?_⟩
  · rcases args with _ | ⟨subject, _ | ⟨field, rest⟩⟩
    · trivial
    · trivial
    · refine .bind (discreet_expectString "project" field []) fun name more _ => ?_
      exact ⟨Or.inl rfl, fun t => ⟨Or.inr ⟨t, by simp [Query.operation, Shape.isOperation,
        Shape.children], rfl⟩, fun _ => trivial⟩⟩
  · cases hhook
    rcases args with _ | ⟨subject, _ | ⟨field, rest⟩⟩
    · trivial
    · trivial
    · refine .bind (.question rfl) fun value more _ => ?_
      refine .bind (.question rfl) fun isValue more₁ _ => ?_
      split
      · trivial
      · refine .bind (discreet_expectString "project" value more₁) fun name more₂ _ => ?_
        refine .bind (.question rfl) fun t more₃ _ => ?_
        exact .bind (.question rfl) fun _ _ _ => trivial

theorem discreet_cimport : cimport.Discreet := by
  refine ⟨fun _ args => ?_, fun hook hhook args => ?_⟩
  · rcases args with _ | ⟨header, rest⟩
    · trivial
    · exact discreet_importHeader header []
  · cases hhook
    rcases args with _ | ⟨header, rest⟩
    · trivial
    · refine .bind (.question rfl) fun value more _ => ?_
      refine .bind (.question rfl) fun isValue more₁ _ => ?_
      split
      · trivial
      · refine .bind (discreet_importHeader value more₁) fun product more₂ _ => ?_
        exact .bind (.question rfl) fun _ _ _ => trivial

theorem discreet_printf : printf.Discreet := by
  refine ⟨fun hpure => by simp [printf] at hpure, fun hook hhook args => ?_⟩
  cases hhook
  rcases args with _ | ⟨format, rest⟩
  · trivial
  · refine .bind (.question rfl) fun value more _ => ?_
    refine .bind (.question rfl) fun shape more₁ _ => ?_
    split
    · exact .bind (.question rfl) fun _ _ _ => trivial
    · trivial

end Native
end StagedCalculus
