import StagedCalculus.Native.Builtin

/-!
# Failures of native functions

A native function fails because one of its questions fails, which it passes on, or by itself. This
module states which failures it comes to by itself (`Script.FailsWith`, `Native.FailsWith`). Every
native that a store starts with gives a message in its own name (`Native.failsWith_builtin`).
-/

namespace StagedCalculus

namespace Script

variable {α β : Type} {p : Error → Prop}

/-- Every failure that the script comes to by itself satisfies a condition. Failures of its questions
are not its own. -/
def FailsWith (p : Error → Prop) : Script α → Prop
  | .done _ => True
  | .fail e => p e
  | .ask _ next => ∀ answer, (next answer).FailsWith p

theorem FailsWith.question (query : Query) : (Script.ask query .done).FailsWith p :=
  fun _ => trivial

theorem FailsWith.bind {script : Script α} {next : α → Script β} (h : script.FailsWith p)
    (hnext : ∀ value, (next value).FailsWith p) : (script >>= next).FailsWith p := by
  induction script with
  | done value => exact hnext value
  | fail e => exact h
  | ask query rest ih => exact fun answer => ih answer (h answer)

theorem FailsWith.mono {q : Error → Prop} {script : Script α} (h : script.FailsWith p)
    (hpq : ∀ e, p e → q e) : script.FailsWith q := by
  induction script with
  | done value => trivial
  | fail e => exact hpq e h
  | ask query next ih => exact fun answer => ih answer (h answer)

theorem failsWith_of_forall (hp : ∀ e, p e) (script : Script α) : script.FailsWith p := by
  induction script with
  | done value => trivial
  | fail e => exact hp e
  | ask query next ih => exact fun answer => ih answer

end Script

namespace Native

open Script

variable {p : Error → Prop}

/-- Every failure that the native comes to by itself satisfies a condition. -/
structure FailsWith (p : Error → Prop) (native : Native) : Prop where
  resultType : ∀ hook, native.resultType = some hook → ∀ args, (hook args).FailsWith p
  call : ∀ args, (native.call args).FailsWith p

theorem FailsWith.mono {q : Error → Prop} {native : Native} (h : native.FailsWith p)
    (hpq : ∀ e, p e → q e) : native.FailsWith q :=
  ⟨fun hook hhook args => (h.resultType hook hhook args).mono hpq,
    fun args => (h.call args).mono hpq⟩

theorem failsWith_of_forall (hp : ∀ e, p e) (native : Native) : native.FailsWith p :=
  ⟨fun hook _ args => Script.failsWith_of_forall hp (hook args),
    fun args => Script.failsWith_of_forall hp (native.call args)⟩

/-! ## The built-in natives -/

section Builtins

variable (hp : ∀ name message, p (.native name message))

include hp

theorem failsWith_expectString (name : String) (t : TermId) :
    (expectString name t).FailsWith p := by
  refine .bind (.question _) fun shape => ?_
  split
  · trivial
  · exact .bind (.question _) fun text => hp _ _

theorem failsWith_exportedAll (names : List String) : (exportedAll names).FailsWith p := by
  induction names with
  | nil => trivial
  | cons name rest ih =>
    refine .bind ?_ fun member => .bind ih fun parts => trivial
    refine .bind (.question _) fun leaf => ?_
    cases leaf with
    | none => exact hp _ _
    | some leaf =>
      refine .bind (.question _) fun shape => ?_
      split
      · exact .bind (.question _) fun ty => trivial
      · exact hp _ _

theorem failsWith_importHeader (header : TermId) : (importHeader header).FailsWith p := by
  refine .bind (failsWith_expectString hp "cimport" header) fun text => ?_
  split
  · exact hp _ _
  · split
    · exact hp _ _
    · refine .bind (failsWith_exportedAll hp _) fun parts => ?_
      exact .bind (.question _) fun ty => .question _

theorem failsWith_cast : cast.FailsWith p := by
  refine ⟨fun hook hhook args => ?_, fun args => ?_⟩
  · cases hhook
    rcases args with _ | ⟨target, rest⟩
    · exact hp _ _
    · exact .bind (.question _) fun ty => trivial
  · rcases args with _ | ⟨target, _ | ⟨subject, rest⟩⟩
    · exact hp _ _
    · exact hp _ _
    · exact .bind (.question _) fun t => .question _

theorem failsWith_project : project.FailsWith p := by
  refine ⟨fun hook hhook args => ?_, fun args => ?_⟩
  · cases hhook
    rcases args with _ | ⟨subject, _ | ⟨field, rest⟩⟩
    · exact hp _ _
    · exact hp _ _
    · refine .bind (.question _) fun field => .bind (.question _) fun known => ?_
      split
      · trivial
      · refine .bind (failsWith_expectString hp "project" field) fun name => ?_
        exact .bind (.question _) fun t => .bind (.question _) fun ty => trivial
  · rcases args with _ | ⟨subject, _ | ⟨field, rest⟩⟩
    · exact hp _ _
    · exact hp _ _
    · refine .bind (failsWith_expectString hp "project" field) fun name => ?_
      exact .bind (.question _) fun t => .question _

theorem failsWith_cimport : cimport.FailsWith p := by
  refine ⟨fun hook hhook args => ?_, fun args => ?_⟩
  · cases hhook
    rcases args with _ | ⟨header, rest⟩
    · exact hp _ _
    · refine .bind (.question _) fun header => .bind (.question _) fun known => ?_
      split
      · trivial
      · refine .bind (failsWith_importHeader hp header) fun product => ?_
        exact .bind (.question _) fun ty => trivial
  · rcases args with _ | ⟨header, rest⟩
    · exact hp _ _
    · exact failsWith_importHeader hp header

theorem failsWith_printf : printf.FailsWith p := by
  refine ⟨fun hook hhook args => ?_, fun args => ?_⟩
  · cases hhook
    rcases args with _ | ⟨format, rest⟩
    · exact hp _ _
    · refine .bind (.question _) fun format => .bind (.question _) fun shape => ?_
      split
      · exact .bind (.question _) fun ty => trivial
      · trivial
  · rcases args with _ | ⟨format, rest⟩
    · exact hp _ _
    · refine .bind (failsWith_expectString hp "printf" format) fun text => ?_
      exact .bind (.question _) fun bytes => .question _

/-- Every native that a store starts with fails with a message in its own name. -/
theorem failsWith_builtin {native : Native} (h : native ∈ [cast, project, cimport, printf]) :
    native.FailsWith p := by
  simp only [List.mem_cons, List.not_mem_nil, or_false] at h
  rcases h with rfl | rfl | rfl | rfl
  · exact failsWith_cast hp
  · exact failsWith_project hp
  · exact failsWith_cimport hp
  · exact failsWith_printf hp

end Builtins

end Native

end StagedCalculus
