import StagedCalculus.Native.Builtin
import StagedCalculus.Proofs.Native.Grounded

/-!
# Scripts that bind variables apart

A native function that builds a term with binders could bind one variable twice in it. This module
states that a script does not (`Script.Orderly`): it mentions known handles only, the variables that
it lets a node bind are distinct, and it does not fail of its own accord as if a variable were bound
already. It may rely on the terms that it is shown being of this kind.

Every native that a store starts with is orderly (`Native.orderly_builtin`).
-/

namespace StagedCalculus

namespace Query

/-- What is built binds its variables apart. -/
@[simp]
def Apart : Query → Prop
  | .intern layer => layer.binders.Nodup
  | _ => True

/-- What is shown binds its variables apart. -/
@[simp]
def AnswersApart : (query : Query) → query.Answer → Prop
  | .shape _, layer => layer.binders.Nodup
  | _, _ => True

end Query

namespace Script

variable {α β : Type}

/-- Every handle that the script mentions is known beforehand or told by an answer, and so is every
handle of its result. Nothing that it builds binds a variable twice. -/
def Orderly (result : α → List Handle) : List Handle → Script α → Prop
  | known, .done value => ∀ h ∈ result value, h ∈ known
  | _, .fail error => ∀ name, error ≠ .alreadyBound name
  | known, .ask query next =>
    (∀ h ∈ query.mentions, h ∈ known) ∧ query.Apart ∧
      ∀ answer, query.AnswersApart answer →
        (next answer).Orderly result (query.tells answer ++ known)

namespace Orderly

variable {f : α → List Handle} {known : List Handle}

/-- A single question, which gives what its answer tells. -/
theorem question {query : Query} {f : query.Answer → List Handle}
    (hknown : ∀ h ∈ query.mentions, h ∈ known) (hapart : query.Apart)
    (htells : ∀ answer, f answer ⊆ query.tells answer) :
    (Script.ask query .done).Orderly f known :=
  ⟨hknown, hapart, fun answer _ _ hh => List.mem_append_left _ (htells answer hh)⟩

theorem bind {g : β → List Handle} {script : Script α} {next : α → Script β}
    (h : script.Orderly f known)
    (hnext : ∀ value known', known ⊆ known' → (∀ h ∈ f value, h ∈ known') →
      (next value).Orderly g known') : (script >>= next).Orderly g known := by
  induction script generalizing known with
  | done value => exact hnext value known (List.Subset.refl _) h
  | fail error => exact h
  | ask query rest ih =>
    refine ⟨h.1, h.2.1, fun answer hanswer => ih answer (h.2.2 answer hanswer) ?_⟩
    exact fun value known' hsub => hnext value known'
      (List.Subset.trans (List.subset_append_right _ _) hsub)

end Orderly

end Script

namespace Native

open Script

/-- The native makes up no handle and binds no variable twice: besides its arguments it mentions
what it captured when it was registered, and what it is told. -/
structure Orderly (captured : List Handle) (native : Native) : Prop where
  call : ∀ args, (native.call args).Orderly (fun t => [.term t]) (args.map .term ++ captured)
  resultType : ∀ hook, native.resultType = some hook →
    ∀ args, (hook args).Orderly (fun ty => ty.toList.map .term) (args.map .term ++ captured)

/-! ## The built-in natives -/

variable {known : List Handle}

theorem orderly_failure {α : Type} {result : α → List Handle} (name message : String) :
    (failure name message : Script α).Orderly result known := fun _ h => by cases h

/-- A question about one known term, of whose answer nothing is used but what it says. -/
theorem orderly_asks {query : Query} {t : TermId} (hmentions : query.mentions = [.term t])
    (hapart : query.Apart) (ht : .term t ∈ known) :
    (Script.ask query .done).Orderly (fun _ => []) known :=
  .question (by rw [hmentions]; simpa using ht) hapart fun _ => List.nil_subset _

/-- A term that is built of known ones and binds nothing. -/
theorem orderly_intern {layer : Shape TermId} (hvars : layer.ownVars = [])
    (hconstants : layer.constants = []) (h : ∀ child ∈ layer.children, .term child ∈ known) :
    (intern layer).Orderly (fun t => [.term t]) known := by
  have hbinders : layer.binders = [] := (List.append_eq_nil_iff.1 hvars).2
  refine .question (fun handle hhandle => ?_) (by simp [hbinders]) fun _ => List.Subset.refl _
  rw [Query.mentions, Shape.handles, hvars, hconstants, List.map_nil, List.append_nil,
    List.append_nil] at hhandle
  obtain ⟨child, hchild, rfl⟩ := List.mem_map.1 hhandle
  exact h child hchild

/-- A judgment on a known term. -/
theorem orderly_reduce (mode : Mode) {t : TermId} (ht : .term t ∈ known) :
    (Script.ask (.reduce mode t) .done).Orderly (fun u => [.term u]) known :=
  .question (by simpa using ht) trivial fun _ => List.Subset.refl _

theorem orderly_infer {t : TermId} (ht : .term t ∈ known) :
    (infer t).Orderly (fun ty => [.term ty]) known :=
  .question (by simpa using ht) trivial fun _ => List.Subset.refl _

/-- Gives the type of a known term. -/
theorem orderly_someInfer {t : TermId} (ht : .term t ∈ known) :
    (do return some (← infer t) : Script (Option TermId)).Orderly
      (fun ty => ty.toList.map .term) known := by
  refine .bind (orderly_infer ht) fun ty known' _ hty h hh => ?_
  simpa using hty h (by simpa using hh)

theorem orderly_expectString (name : String) {t : TermId} (ht : .term t ∈ known) :
    (expectString name t).Orderly (fun _ => []) known := by
  refine .bind (orderly_asks rfl trivial ht) fun shape known' hsub _ => ?_
  split
  · exact fun _ h => by cases h
  · exact .bind (orderly_asks rfl trivial (hsub ht)) fun text _ _ _ => orderly_failure _ _

theorem orderly_exported (name : String) :
    (exported name).Orderly (fun parts => [.term parts.1, .term parts.2]) known := by
  refine .bind (f := fun leaf => leaf.toList.map .term)
    (.question (by simp) trivial fun _ => List.Subset.refl _) fun leaf known₁ _ hleaf => ?_
  cases leaf with
  | none => exact orderly_failure _ _
  | some leaf =>
    have hknown : .term leaf ∈ known₁ := hleaf _ (by simp)
    refine .bind (f := Shape.handles)
      (.question (by simpa using hknown) trivial fun _ => List.Subset.refl _)
      fun shape known₂ hsub₂ hshape => ?_
    split
    · rename_i id
      have hid : .native id ∈ known₂ := hshape _ (by simp [Shape.handles, Shape.constants])
      refine .bind (f := fun ty => [.term ty])
        (.question (by simpa using hid) trivial fun _ => List.Subset.refl _)
        fun ty known₃ hsub₃ hty h hh => ?_
      rcases List.mem_cons.1 hh with rfl | hh
      · exact hsub₃ (hsub₂ hknown)
      · exact hty h hh
    · exact orderly_failure _ _

theorem orderly_exportedAll (names : List String) :
    (exportedAll names).Orderly
      (fun parts => parts.1.map (fun e => .term e.2) ++ parts.2.map fun e => .term e.2) known := by
  induction names generalizing known with
  | nil => exact fun _ h => by cases h
  | cons name rest ih =>
    refine .bind (orderly_exported name) fun parts known₁ _ hparts => ?_
    refine .bind ih fun others known₂ hsub₂ hothers h hh => ?_
    simp only [List.map_cons, List.cons_append, List.mem_cons, List.mem_append] at hh
    rcases hh with rfl | hh | rfl | hh
    · exact hsub₂ (hparts _ (by simp))
    · exact hothers h (List.mem_append_left _ hh)
    · exact hsub₂ (hparts _ (by simp))
    · exact hothers h (List.mem_append_right _ hh)

theorem orderly_importHeader {header : TermId} (hheader : .term header ∈ known) :
    (importHeader header).Orderly (fun t => [.term t]) known := by
  refine .bind (orderly_expectString "cimport" hheader) fun text known₁ _ _ => ?_
  split
  · exact orderly_failure _ _
  · split
    · exact orderly_failure _ _
    · rename_i names _
      refine .bind (orderly_exportedAll names) fun parts known₂ _ hparts => ?_
      refine .bind (orderly_intern rfl rfl fun child hchild => ?_) fun ty known₃ hsub₃ hty =>
        orderly_intern rfl rfl fun child hchild => ?_
      · obtain ⟨member, hmember, rfl⟩ := List.mem_map.1 hchild
        exact hparts _ (List.mem_append_left _ (List.mem_map_of_mem hmember))
      · rcases List.mem_cons.1 hchild with rfl | hchild
        · exact hty _ (by simp)
        · obtain ⟨field, hfield, rfl⟩ := List.mem_map.1 hchild
          exact hsub₃ (hparts _ (List.mem_append_right _ (List.mem_map_of_mem hfield)))

theorem orderly_cast : cast.Orderly [] := by
  refine ⟨fun args => ?_, fun hook hhook args => ?_⟩
  · rcases args with _ | ⟨target, _ | ⟨subject, rest⟩⟩
    · exact orderly_failure _ _
    · exact orderly_failure _ _
    · refine .bind (orderly_intern rfl rfl (by simp [Shape.children])) fun t known' _ ht => ?_
      exact orderly_reduce .evaluate (ht _ (by simp))
  · cases hhook
    rcases args with _ | ⟨target, rest⟩
    · exact orderly_failure _ _
    · exact .bind (orderly_reduce .compile (by simp)) fun t _ _ ht h hh => ht h (by simpa using hh)

theorem orderly_project : project.Orderly [] := by
  refine ⟨fun args => ?_, fun hook hhook args => ?_⟩
  · rcases args with _ | ⟨subject, _ | ⟨field, rest⟩⟩
    · exact orderly_failure _ _
    · exact orderly_failure _ _
    · refine .bind (orderly_expectString "project" (by simp)) fun name known₁ hsub₁ _ => ?_
      have hsubject : .term subject ∈ known₁ := hsub₁ (by simp)
      refine .bind (orderly_intern rfl rfl (by simpa [Shape.children] using hsubject))
        fun t known₂ _ ht => ?_
      exact orderly_reduce .evaluate (ht _ (by simp))
  · cases hhook
    rcases args with _ | ⟨subject, _ | ⟨field, rest⟩⟩
    · exact orderly_failure _ _
    · exact orderly_failure _ _
    · refine .bind (orderly_reduce .compile (by simp)) fun value known₁ hsub₁ hvalue => ?_
      have hvalue : .term value ∈ known₁ := hvalue _ (by simp)
      refine .bind (orderly_asks rfl trivial hvalue) fun isValue known₂ hsub₂ _ => ?_
      split
      · exact fun _ h => by cases h
      · refine .bind (orderly_expectString "project" (hsub₂ hvalue)) fun name known₃ hsub₃ _ => ?_
        have hsubject : .term subject ∈ known₃ := hsub₃ (hsub₂ (hsub₁ (by simp)))
        refine .bind (orderly_intern rfl rfl (by simpa [Shape.children] using hsubject))
          fun t known₄ _ ht => ?_
        exact orderly_someInfer (ht _ (by simp))

theorem orderly_cimport : cimport.Orderly [] := by
  refine ⟨fun args => ?_, fun hook hhook args => ?_⟩
  · rcases args with _ | ⟨header, rest⟩
    · exact orderly_failure _ _
    · exact orderly_importHeader (by simp)
  · cases hhook
    rcases args with _ | ⟨header, rest⟩
    · exact orderly_failure _ _
    · refine .bind (orderly_reduce .compile (by simp)) fun value known₁ _ hvalue => ?_
      have hvalue : .term value ∈ known₁ := hvalue _ (by simp)
      refine .bind (orderly_asks rfl trivial hvalue) fun isValue known₂ hsub₂ _ => ?_
      split
      · exact fun _ h => by cases h
      · refine .bind (orderly_importHeader (hsub₂ hvalue)) fun product known₃ _ hproduct => ?_
        exact orderly_someInfer (hproduct _ (by simp))

theorem orderly_printf : printf.Orderly [] := by
  refine ⟨fun args => ?_, fun hook hhook args => ?_⟩
  · rcases args with _ | ⟨format, rest⟩
    · exact orderly_failure _ _
    · refine .bind (orderly_expectString "printf" (by simp)) fun text known₁ _ _ => ?_
      refine .bind (f := fun _ => []) (.question (by simp) trivial fun _ => List.nil_subset _)
        fun written known₂ _ _ => ?_
      exact orderly_intern rfl rfl (by simp [Shape.children])
  · cases hhook
    rcases args with _ | ⟨format, rest⟩
    · exact orderly_failure _ _
    · refine .bind (orderly_reduce .compile (by simp)) fun value known₁ _ hvalue => ?_
      refine .bind (orderly_asks rfl trivial (hvalue _ (by simp))) fun shape known₂ _ _ => ?_
      split
      · exact .bind (orderly_intern rfl rfl (by simp [Shape.children]))
          fun ty _ _ hty h hh => hty h (by simpa using hh)
      · exact fun _ h => by cases h

/-- Every native that a store starts with is orderly. -/
theorem orderly_builtin {native : Native} (h : native ∈ [cast, project, cimport, printf]) :
    native.Orderly [] := by
  simp only [List.mem_cons, List.not_mem_nil, or_false] at h
  rcases h with rfl | rfl | rfl | rfl
  · exact orderly_cast
  · exact orderly_project
  · exact orderly_cimport
  · exact orderly_printf

end Native

end StagedCalculus
