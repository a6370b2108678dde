import StagedCalculus.Proofs.Staging.Correspondence

/-!
# The built-in natives side by side

The built-in natives look at the shapes of handles and at nothing else of them, so on arguments that
stand for each other they ask questions that do, whatever stores are compared
(`Correspondence.natives_cast` and its siblings).
-/

namespace StagedCalculus

namespace Correspondence

open Script Native

variable {C : Correspondence} {α β : Type} {s s' : Store}

/-! ## Scripts in sequence -/

theorem Scripts.bind {post : Post α} {post' : Post β} {script script' : Script α}
    {next next' : α → Script β} (hs : C.stores s s') (h : C.Scripts post s s' script script')
    (hnext : ∀ {s₁ s₁' a a'}, C.Leads s s' s₁ s₁' → post s₁ s₁' a a' →
      C.Scripts post' s₁ s₁' (next a) (next' a')) :
    C.Scripts post' s s' (script >>= next) (script' >>= next') := by
  induction h with
  | done ha => exact hnext (.refl hs) ha
  | fail he => exact .fail he
  | ask hquestion _ ih =>
    exact .ask hquestion fun h₁ ha => ih h₁ ha h₁.after fun h₂ hb => hnext (h₁.trans h₂) hb

theorem scripts_shape {t t' : TermId} (ht : (C.like s s').term t t') :
    C.Scripts (fun s s' => (C.like s s').Layer) s s' (Script.shape t) (Script.shape t') :=
  .ask (.shape ht) fun _ h => .done h

theorem scripts_intern {shape shape' : Shape TermId} (hshape : (C.like s s').Layer shape shape') :
    C.Scripts C.Terms s s' (Script.intern shape) (Script.intern shape') :=
  .ask (.intern hshape) fun _ h => .done h

theorem scripts_infer {t t' : TermId} (ht : (C.like s s').term t t') :
    C.Scripts C.Terms s s' (Script.infer t) (Script.infer t') :=
  .ask (.infer ht) fun _ h => .done h

theorem scripts_reduce (mode : Mode) {t t' : TermId} (ht : (C.like s s').term t t') :
    C.Scripts C.Terms s s' (.ask (.reduce mode t) .done) (.ask (.reduce mode t') .done) :=
  .ask (.reduce mode ht) fun _ h => .done h

theorem scripts_isValue {t t' : TermId} (ht : (C.like s s').term t t') :
    C.Scripts (fun _ _ => Eq) s s' (Script.isValue t) (Script.isValue t') :=
  .ask (.isValue ht) fun _ h => .done h

theorem scripts_builtin (name : String) :
    C.Scripts (fun s s' => Option.Rel (C.like s s').term) s s' (Script.builtin name)
      (Script.builtin name) := .ask (.builtin name) fun _ h => .done h

theorem scripts_signature {id : NativeId} (hid : (C.like s s').native id) :
    C.Scripts C.Terms s s' (Script.signature id) (Script.signature id) :=
  .ask (.signature hid) fun _ h => .done h

theorem scripts_display {t t' : TermId} (ht : (C.like s s').term t t') :
    C.Scripts (fun _ _ => C.text) s s' (Script.display t) (Script.display t') :=
  .ask (.display ht) fun _ h => .done h

theorem scripts_write (text : String) :
    C.Scripts (fun _ _ => Eq) s s' (Script.write text) (Script.write text) :=
  .ask (.write text) fun _ h => .done h

theorem scripts_compile {t t' : TermId} (ht : (C.like s s').term t t') :
    C.Scripts C.Terms s s' (Script.compile t) (Script.compile t') := scripts_reduce .compile ht

section Builtin

variable (hC : C.Stable)

include hC

/-! ## Parts of the built-in natives -/

theorem scripts_failure {post : Post α} (name message : String) :
    C.Scripts post s s' (failure name message) (failure name message) :=
  .fail (.native name (hC.text_refl message))

theorem scripts_expectString (hs : C.stores s s') (name : String) {t t' : TermId}
    (ht : (C.like s s').term t t') :
    C.Scripts (fun _ _ => Eq) s s' (expectString name t) (expectString name t') := by
  refine .bind hs (scripts_shape ht) fun h₁ hshape => ?_
  cases hshape with
  | stringLiteral value => exact .done rfl
  | _ =>
    refine .bind h₁.after (scripts_display ((hC.mono h₁).term ht)) fun h₂ htext => ?_
    exact .fail (.native name (hC.text_append (hC.text_refl _) htext))

theorem scripts_exported (hs : C.stores s s') (name : String) :
    C.Scripts (fun s s' r r' => (C.like s s').term r.1 r'.1 ∧ (C.like s s').term r.2 r'.2) s s'
      (exported name) (exported name) := by
  refine .bind hs (scripts_builtin name) fun h₁ hleaf => ?_
  cases hleaf with
  | none => exact scripts_failure hC _ _
  | some hleaf =>
    refine .bind h₁.after (scripts_shape hleaf) fun h₂ hshape => ?_
    cases hshape with
    | native hid =>
      refine .bind h₂.after (scripts_signature hid) fun h₃ hty => .done ?_
      exact ⟨(hC.mono (h₂.trans h₃)).term hleaf, hty⟩
    | _ => exact scripts_failure hC _ _

theorem scripts_exportedAll (hs : C.stores s s') (names : List String) :
    C.Scripts (fun s s' r r' => (C.like s s').Named r.1 r'.1 ∧ (C.like s s').Named r.2 r'.2) s s'
      (exportedAll names) (exportedAll names) := by
  induction names generalizing s s' with
  | nil => exact .done ⟨.nil, .nil⟩
  | cons name rest ih =>
    refine .bind hs (scripts_exported hC hs name) fun h₁ hpart => ?_
    refine .bind h₁.after (ih h₁.after) fun h₂ hparts => .done ?_
    have hle := hC.mono h₂
    exact ⟨.cons ⟨rfl, hle.term hpart.2⟩ hparts.1, .cons ⟨rfl, hle.term hpart.1⟩ hparts.2⟩

theorem scripts_importHeader (hs : C.stores s s') {header header' : TermId}
    (hheader : (C.like s s').term header header') :
    C.Scripts C.Terms s s' (importHeader header) (importHeader header') := by
  refine .bind hs (scripts_expectString hC hs "cimport" hheader) fun {s₁ s₁' text _} h₁ htext => ?_
  subst htext
  dsimp only
  split
  · exact scripts_failure hC _ _
  · split
    · exact scripts_failure hC _ _
    · refine .bind h₁.after (scripts_exportedAll hC h₁.after _) fun h₂ hparts => ?_
      refine .bind h₂.after (scripts_intern (.productType hparts.1)) fun h₃ hty => ?_
      exact scripts_intern (.productValue hty ((hC.mono h₃).named hparts.2))

/-! ## The built-in natives -/

theorem natives_cast : C.Natives s s' cast cast := by
  refine ⟨rfl, .some fun h₁ hargs => ?_, fun h₁ hargs => ?_⟩
  · cases hargs with
    | nil => exact scripts_failure hC _ _
    | cons htarget _ =>
      exact .bind h₁.after (scripts_compile htarget) fun _ ht => .done (.some ht)
  · cases hargs with
    | nil => exact scripts_failure hC _ _
    | cons htarget hrest =>
      cases hrest with
      | nil => exact scripts_failure hC _ _
      | cons hsubject _ =>
        exact .bind h₁.after (scripts_intern (.cast hsubject htarget)) fun _ ht =>
          scripts_reduce .evaluate ht

theorem natives_project : C.Natives s s' project project := by
  refine ⟨rfl, .some fun h₁ hargs => ?_, fun h₁ hargs => ?_⟩
  · rcases hargs with _ | ⟨hsubject, _ | ⟨hfield, -⟩⟩
    · exact scripts_failure hC _ _
    · exact scripts_failure hC _ _
    · refine .bind h₁.after (scripts_compile hfield) fun h₂ hvalue => ?_
      refine .bind h₂.after (scripts_isValue hvalue) fun {_ _ known _} h₃ hknown => ?_
      subst hknown
      cases known with
      | false => exact .done .none
      | true =>
        refine .bind h₃.after (scripts_expectString hC h₃.after _ ((hC.mono h₃).term hvalue))
          fun {_ _ name _} h₄ hname => ?_
        subst hname
        have hsubject₄ := (hC.mono (h₂.trans (h₃.trans h₄))).term hsubject
        refine .bind h₄.after (scripts_intern (.projection name hsubject₄)) fun h₅ ht => ?_
        exact .bind h₅.after (scripts_infer ht) fun _ hty => .done (.some hty)
  · rcases hargs with _ | ⟨hsubject, _ | ⟨hfield, -⟩⟩
    · exact scripts_failure hC _ _
    · exact scripts_failure hC _ _
    · refine .bind h₁.after (scripts_expectString hC h₁.after _ hfield)
        fun {_ _ name _} h₂ hname => ?_
      subst hname
      refine .bind h₂.after (scripts_intern (.projection name ((hC.mono h₂).term hsubject)))
        fun _ ht => scripts_reduce .evaluate ht

theorem natives_cimport : C.Natives s s' cimport cimport := by
  refine ⟨rfl, .some fun h₁ hargs => ?_, fun h₁ hargs => ?_⟩
  · rcases hargs with _ | ⟨hheader, -⟩
    · exact scripts_failure hC _ _
    · refine .bind h₁.after (scripts_compile hheader) fun h₂ hvalue => ?_
      refine .bind h₂.after (scripts_isValue hvalue) fun {_ _ known _} h₃ hknown => ?_
      subst hknown
      cases known with
      | false => exact .done .none
      | true =>
        refine .bind h₃.after (scripts_importHeader hC h₃.after ((hC.mono h₃).term hvalue))
          fun h₄ hproduct => ?_
        exact .bind h₄.after (scripts_infer hproduct) fun _ hty => .done (.some hty)
  · rcases hargs with _ | ⟨hheader, -⟩
    · exact scripts_failure hC _ _
    · exact scripts_importHeader hC h₁.after hheader

theorem natives_printf : C.Natives s s' printf printf := by
  refine ⟨rfl, .some fun h₁ hargs => ?_, fun h₁ hargs => ?_⟩
  · rcases hargs with _ | ⟨hformat, -⟩
    · exact scripts_failure hC _ _
    · refine .bind h₁.after (scripts_compile hformat) fun h₂ hvalue => ?_
      refine .bind h₂.after (scripts_shape hvalue) fun h₃ hshape => ?_
      cases hshape with
      | stringLiteral text =>
        exact .bind h₃.after (scripts_intern (.numericLiteralType _)) fun _ hty => .done (.some hty)
      | _ => exact .done .none
  · rcases hargs with _ | ⟨hformat, -⟩
    · exact scripts_failure hC _ _
    · refine .bind h₁.after (scripts_expectString hC h₁.after _ hformat)
        fun {_ _ text _} h₂ htext => ?_
      subst htext
      refine .bind h₂.after (scripts_write text) fun {_ _ bytes _} h₃ hbytes => ?_
      subst hbytes
      exact scripts_intern (.numericLiteral _)

end Builtin

end Correspondence

end StagedCalculus
