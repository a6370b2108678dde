import StagedCalculus.Proofs.Native.Signatures
import StagedCalculus.Proofs.Staging.Partition
import StagedCalculus.Proofs.Term.Free

/-!
# Calls of an imported `printf`

This module follows calls of `printf` through inference, compilation and evaluation. The native may
be referred to by its leaf or by projecting it from the module that `cimport` gives for
`#include <stdio>`.

* `Attempt.yields_resolve`: a call of such a native on a text is saturated;
* `Attempt.yields_infer_prints`: the type of a call of `printf` says how many bytes its text has;
* `Attempt.yields_compile_prints`: compilation leaves a call of the leaf, and writes nothing;
* `Attempt.yields_evaluate_prints`: evaluation writes the text and gives the number of its bytes.

The first answer for a term is remembered, and later stages get it back.
-/

namespace StagedCalculus

/-- The latest binding of the innermost frame is the first one that is found. -/
theorem Context.get?_first (v : VarId) (t : TermId) (frame : Frame) (outer : List Frame) :
    (Context.mk ((v, t) :: frame) outer).get? v = some t := by
  simp [Context.get?, Context.frames, Frame.get?]

namespace Store

variable {s : Store} {t : TermId}

/-- The imported module is a product of the leaf of `printf`. -/
inductive Stdio (s : Store) (t : TermId) : Prop
  | product {ty leaf : TermId} : s.shape t = .productValue ty [("printf", leaf)] →
      s.shape ty = stdioType → s.shape leaf = .native printfId → Stdio s t

/-! ## Closed terms -/

/-- A node that is no variable is closed if its parts are. -/
theorem Linked.closed_of_shape (hs : s.Linked) {shape : Shape TermId} (ht : s.shape t = shape)
    (hne : shape ≠ .typeOfTypes) (hleaf : shape.leaf = [])
    (hchildren : ∀ child ∈ shape.children, (s.freeVariables child).isEmpty = true) :
    (s.freeVariables t).isEmpty = true := by
  subst ht
  refine FreeVariables.isEmpty_iff_rank.2 fun v => hs.rank_eq_zero (allocated_of_shape hne)
    (by simp [hleaf]) fun child hchild => ?_
  exact FreeVariables.isEmpty_iff_rank.1 (hchildren child hchild) v

theorem Linked.closed_text (hs : s.Linked) {text : String} (ht : s.shape t = .stringLiteral text) :
    (s.freeVariables t).isEmpty = true :=
  hs.closed_of_shape ht nofun rfl (List.forall_mem_nil _)

theorem Linked.closed_leaf (hs : s.Linked) {id : NativeId} (ht : s.shape t = .native id) :
    (s.freeVariables t).isEmpty = true :=
  hs.closed_of_shape ht nofun rfl (List.forall_mem_nil _)

theorem Imports.closed (h : s.Imports t) (hs : s.Linked) : (s.freeVariables t).isEmpty = true := by
  obtain ⟨hcall, hcallee, hheader⟩ := h
  exact hs.closed_of_shape hcall nofun rfl
    (Shape.forall_mem_call.2 ⟨hs.closed_leaf hcallee, hs.closed_text hheader⟩)

theorem Printer.closed (h : s.Printer t) (hs : s.Linked) : (s.freeVariables t).isEmpty = true := by
  cases h with
  | leaf hleaf => exact hs.closed_leaf hleaf
  | member hmember hmodule =>
    exact hs.closed_of_shape hmember nofun rfl (List.forall_mem_singleton.2 (hmodule.closed hs))

theorem Prints.closed {message : String} (h : s.Prints message t) (hs : s.Linked) :
    (s.freeVariables t).isEmpty = true := by
  obtain ⟨hcall, hcallee, hargument⟩ := h
  exact hs.closed_of_shape hcall nofun rfl
    (Shape.forall_mem_call.2 ⟨hcallee.closed hs, hs.closed_text hargument⟩)

theorem Serves.closed_stdioType (hs : s.Serves) (ht : s.shape t = stdioType) :
    (s.freeVariables t).isEmpty = true :=
  hs.intact.toLinked.closed_of_shape ht nofun rfl
    (List.forall_mem_singleton.2 hs.standard.generic_printf.closed)

theorem Stdio.closed (h : s.Stdio t) (hs : s.Serves) : (s.freeVariables t).isEmpty = true := by
  obtain ⟨hproduct, hty, hleaf⟩ := h
  exact hs.intact.toLinked.closed_of_shape hproduct nofun rfl (List.forall_mem_cons.2
    ⟨hs.closed_stdioType hty, List.forall_mem_singleton.2 (hs.intact.toLinked.closed_leaf hleaf)⟩)

/-- A text is a value. -/
theorem Intact.isValue_text (hs : s.Intact) {text : String} (ht : s.shape t = .stringLiteral text) :
    s.isValue t = true := by
  have hpending : s.pending t = false := by
    rw [hs.pending t (allocated_of_shape_eq ht nofun), ht]
    rfl
  simp [isValue, isConcrete, ht, Shape.isDeferred, hs.toLinked.closed_text ht, hpending]

end Store

/-- What a call of a generic native on a text resolves to. -/
structure Resolution.Saturates (r : Resolution) (s : Store) (text : String) : Prop where
  supplied : ∃ ty, r.supplied = [ty] ∧ s.shape ty = .stringLiteralType text
  remaining : r.remaining = []

theorem Resolution.Saturates.mono {r : Resolution} {s s' : Store} {text : String}
    (h : r.Saturates s text) (hle : s.Extends s') : r.Saturates s' text := by
  obtain ⟨⟨ty, hsupplied, hty⟩, hremaining⟩ := h
  exact ⟨⟨ty, hsupplied, hle.shape_kept hty nofun⟩, hremaining⟩

namespace Attempt

open Store Engine

variable {s : Store} {ctx : Context} {mode : Mode} {n : Nat} {t : TermId} {text : String}

/-! ## Terms that stand for themselves -/

theorem yields_reduce_constant (hs : s.Serves) (hconstant : (s.shape t).isConstant = true) :
    Yields "" (fun t' _ => t' = t) ((ofLevels (n + 1)).reduce mode ctx t) s := by
  refine .reads rfl ?_
  cases hshape : s.shape t <;> rw [hshape] at hconstant
  all_goals first | exact .pure hs rfl | cases hconstant

theorem yields_reduce_text (hs : s.Serves) (ht : s.shape t = .stringLiteral text) :
    Yields "" (fun t' _ => t' = t) ((ofLevels (n + 1)).reduce mode ctx t) s :=
  yields_reduce_constant hs (by rw [ht]; rfl)

theorem yields_reduce_top (hs : s.Serves) :
    Yields "" (fun t' _ => t' = topType) ((ofLevels (n + 1)).reduce mode ctx topType) s :=
  yields_reduce_constant hs (by rw [hs.standard.common.topType]; rfl)

theorem yields_reduce_leaf (hs : s.Serves) {id : NativeId} (ht : s.shape t = .native id) :
    Yields "" (fun leaf s' => s'.shape leaf = .native id)
      ((ofLevels (n + 1)).reduce mode ctx t) s := by
  have hconstant : (s.shape t).isConstant = true := by rw [ht]; rfl
  refine (yields_reduce_constant hs hconstant).imp fun leaf s₁ h₁ hleaf => ?_
  rw [hleaf]
  exact h₁.shape_kept ht nofun

/-- The step that infers the type of a closed term may assume that it is not remembered. -/
theorem yields_infer_text (hs : s.Serves) (ht : s.shape t = .stringLiteral text) :
    Yields "" (fun ty s' => s'.shape ty = .stringLiteralType text)
      ((ofLevels (n + 1)).infer ctx t) s := by
  refine (Yields.inferStep hs (hs.intact.toLinked.closed_text ht) (.reads rfl ?_)).imp
    fun ty s' hle hty => (typed_text (hle.shape_kept ht nofun)).1 hty
  rw [ht]
  refine (Yields.intern hs (covers_of_children rfl rfl (List.forall_mem_nil _)) (by simp)).imp
    fun ty s' hle hty => ⟨allocated_of_shape_eq hty nofun, ?_⟩
  exact (typed_text (hle.shape_kept ht nofun)).2 hty

theorem yields_infer_leaf (hs : s.Serves) {id : NativeId} {registered : RegisteredNative}
    (ht : s.shape t = .native id) (hid : s.native? id = some registered) :
    Yields "" (fun ty _ => ty = signatureOf id) ((ofLevels (n + 1)).infer ctx t) s := by
  refine (Yields.inferStep hs (hs.intact.toLinked.closed_leaf ht) (.reads rfl ?_)).imp
    fun ty s' hle hty => (typed_leaf (hle.shape_kept ht nofun)).1 hty
  rw [ht]
  refine .reads rfl (.pure hs ⟨?_, (typed_leaf ht).2 (hs.standard.nativeSignature_eq id)⟩)
  rw [nativeSignature, hid]
  exact hs.intact.signatures id registered hid

/-! ## Generic signatures -/

/-- A variable that awaits its value stands for itself. -/
theorem yields_compile_open (hs : s.Serves) {v : VarId} (ht : s.shape t = .variable v)
    (hget : ctx.get? v = some comptimeType) :
    Yields "" (fun t' _ => t' = t) ((ofLevels (n + 1)).compile ctx t) s := by
  refine .reads rfl ?_
  rw [ht]
  dsimp only
  unfold reduceVariable
  rw [hget]
  refine .reads rfl ?_
  rw [hs.standard.common.comptimeType]
  exact .pure hs rfl

/-- A variable that stands for a type of a text is that type. -/
theorem yields_compile_bound (hs : s.Serves) {v : VarId} {ty : TermId}
    (ht : s.shape t = .variable v) (hget : ctx.get? v = some ty)
    (hty : s.shape ty = .stringLiteralType text) :
    Yields "" (fun t' _ => t' = ty) ((ofLevels (n + 1)).compile ctx t) s := by
  refine .reads rfl ?_
  rw [ht]
  dsimp only
  unfold reduceVariable
  rw [hget]
  refine .reads rfl ?_
  rw [hty]
  exact .pure hs rfl

/-- So does the function type of a generic signature. -/
theorem yields_compile_function (hs : s.Serves) {comptime : Bool} {v : VarId} {position : TermId}
    (ht : s.shape t = .functionType [⟨position, comptime, none⟩] topType)
    (hposition : s.shape position = .variable v) (hget : ctx.get? v = some comptimeType) :
    Yields "" (fun t' _ => t' = t) ((ofLevels (n + 2)).compile ctx t) s := by
  refine .reads rfl ?_
  rw [ht]
  have hslots : Yields "" (fun slots _ => slots = [⟨position, comptime, none⟩])
      ((ofLevels (n + 1)).reduceSlots .compile ctx [⟨position, comptime, none⟩]) s := by
    refine .bind (yields_compile_open hs hposition hget) fun ty s₁ _ hs₁ hty => ?_
    subst hty
    exact .bind (.pure hs₁ rfl) fun rest s₂ _ hs₂ (hrest : rest = []) => .pure hs₂ (by rw [hrest])
  refine .bind hslots fun slots s₁ h₁ hs₁ hslots => ?_
  subst hslots
  refine .bind (yields_reduce_top hs₁) fun result s₂ h₂ hs₂ hresult => ?_
  subst hresult
  have ht₂ := (h₁.trans h₂).shape_kept ht nofun
  exact .again hs₂ (allocated_of_shape_eq ht₂ nofun) ht₂

/-- Compilation gives a generic signature back. -/
theorem yields_compile_generic (hs : s.Serves) {comptime : Bool} (ht : s.Generic comptime t) :
    Yields "" (fun t' _ => t' = t) ((ofLevels (n + 3)).compile ctx t) s := by
  obtain ⟨hsignature, hfunction, hposition, hused, -⟩ := ht
  rename_i v function position
  refine .reads rfl ?_
  rw [hsignature]
  -- The body is compiled under a placeholder for the quantified variable.
  have hget : (Context.mk [(v, comptimeType)] ctx.child.outer).get? v = some comptimeType :=
    Context.get?_first ..
  refine .reads rfl (.bind (yields_compile_function hs hfunction hposition hget)
    fun body s₁ h₁ hs₁ hbody => ?_)
  subst hbody
  have hquantify : Yields "" (fun t' _ => t' = t) (quantify [v] body) s₁ := by
    refine .reads rfl ?_
    rw [h₁.freeVariables_eq (allocated_of_shape_eq hfunction nofun),
      List.filter_cons_of_pos hused, List.filter_nil]
    have ht₁ := h₁.shape_kept hsignature nofun
    exact .again hs₁ (allocated_of_shape_eq ht₁ nofun) ht₁
  exact .bind hquantify fun function s₂ _ hs₂ h => .pure hs₂ h

/-! ## Resolution -/

/-- An open variable is bound to the type of the argument. -/
theorem yields_unify_open (hs : s.Serves) {m : Matching} {expected arg : TermId} {v : VarId}
    (hexpected : s.shape expected = .variable v) (hne : expected ≠ arg) (hv : v ∈ m.undetermined)
    (hvacant : m.context.innermost.get? v = none) :
    Yields "" (fun m' _ => m' = m.assign v arg) ((ofLevels (n + 1)).unify m expected arg) s := by
  have hmatch : (s.unify (n + 1) expected arg).run m = (.ok (), m.assign v arg) := by
    rw [Store.unify, if_neg hne, matchShapes, hexpected]
    dsimp only
    rw [Match.run_get, if_pos hv, determine, Match.run_get, Context.bind?, hvacant]
    rfl
  refine .reads rfl ?_
  rw [levels_ofLevels, hmatch]
  exact .pure hs rfl

/-- The argument of a comptime position is a text, which is known. -/
theorem yields_supplyComptime (hs : s.Serves) (m : Matching) (index : Nat)
    (ht : s.shape t = .stringLiteral text) (position : TermId) :
    Yields "" (fun m' _ => m' = m)
      ((ofLevels (n + 1)).supplyComptime ctx m index t ⟨position, true, none⟩) s := by
  refine .bind (yields_reduce_text hs ht) fun value s₁ h₁ hs₁ hvalue => ?_
  subst hvalue
  have hknown : Yields "" (fun known _ => known = true) (knownAtCompileTime ctx value) s₁ := by
    refine .reads rfl ?_
    rw [hs₁.intact.isValue_text (h₁.shape_kept ht nofun)]
    exact .pure hs₁ rfl
  refine .bind hknown fun known s₂ _ hs₂ hknown => ?_
  subst hknown
  exact .pure hs₂ rfl

section Supply

variable {m : Matching} {v : VarId} {position : TermId} (hs : s.Serves)
  (ht : s.shape t = .stringLiteral text) (hposition : s.shape position = .variable v)
  (hv : v ∈ m.undetermined) (hvacant : m.context.innermost.get? v = none)
  (hawaits : m.context.get? v = some comptimeType)

include hs ht hposition hv hvacant hawaits

/-- The type of a text is matched against an open position, which it determines. -/
theorem yields_matchText :
    Yields "" (fun r s' => r.1 = m.assign v r.2 ∧ s'.shape r.2 = .stringLiteralType text)
      (do
        let argType ← (ofLevels (n + 1)).infer ctx t
        let expected ← (ofLevels (n + 1)).compile m.context position
        let m ← (ofLevels (n + 1)).unify m expected argType
        return (m, ← (ofLevels (n + 1)).compile m.context position)) s := by
  refine .bind (yields_infer_text hs ht) fun ty s₁ h₁ hs₁ hty => ?_
  have hposition₁ := h₁.shape_kept hposition nofun
  refine .bind (yields_compile_open hs₁ hposition₁ hawaits) fun expected s₂ h₂ hs₂ hexpected => ?_
  subst hexpected
  have hne : expected ≠ ty := by
    rintro rfl
    cases hposition₁.symm.trans hty
  refine .bind (yields_unify_open hs₂ (h₂.shape_kept hposition₁ nofun) hne hv hvacant)
    fun m' s₃ h₃ hs₃ hm' => ?_
  subst hm'
  have hle := h₂.trans h₃
  -- The position is compiled again, now that its variable is determined.
  have hget : (m.assign v ty).context.get? v = some ty := Context.get?_first ..
  refine .bind (yields_compile_bound hs₃ (hle.shape_kept hposition₁ nofun) hget
    (hle.shape_kept hty nofun)) fun ty' s₄ h₄ hs₄ heq => .pure hs₄ ?_
  subst heq
  exact ⟨rfl, (hle.trans h₄).shape_kept hty nofun⟩

theorem yields_supply (index : Nat) (comptime : Bool) :
    Yields "" (fun r s' => r.1 = m.assign v r.2 ∧ s'.shape r.2 = .stringLiteralType text)
      ((ofLevels (n + 1)).supply ctx m index t ⟨position, comptime, none⟩) s := by
  cases comptime with
  | true =>
    refine .bind (yields_supplyComptime hs m index ht position) fun m' s₁ h₁ hs₁ hm' => ?_
    subst hm'
    exact yields_matchText hs₁ (h₁.shape_kept ht nofun) (h₁.shape_kept hposition nofun) hv hvacant
      hawaits
  | false => exact yields_matchText hs ht hposition hv hvacant hawaits

end Supply

/-- A call of a generic native on a text is saturated. -/
theorem yields_resolve {callee : TermId} {comptime : Bool}
    (hcallee : Yields "" (fun ty s' => s'.Generic comptime ty)
      ((ofLevels (n + 1)).infer ctx callee) s) (ht : s.shape t = .stringLiteral text) :
    Yields "" (fun r s' => r.Saturates s' text) ((ofLevels (n + 1)).resolve ctx callee [t]) s := by
  refine .bind hcallee fun signature s₁ h₁ hs₁ hsignature => ?_
  obtain ⟨hsignature, hfunction, hposition, -, -⟩ := hsignature
  rename_i v function position
  refine .reads (run_functionParts (.inl hsignature) hfunction) (.reads rfl ?_)
  -- One placeholder is bound, and matching binds over it.
  have hsupplyAll : Yields "" (fun r s' => ∃ ty, r.2 = [ty] ∧ s'.shape ty = .stringLiteralType text)
      ((ofLevels (n + 1)).supplyAll ctx ⟨[v], ⟨[], [(v, comptimeType)] :: ctx.child.outer⟩⟩ 0
        [(t, ⟨position, comptime, none⟩)]) s₁ := by
    have hawaits : (Context.mk [] ([(v, comptimeType)] :: ctx.child.outer)).get? v =
        some comptimeType :=
      (Context.get?_child ⟨[(v, comptimeType)], ctx.child.outer⟩ v).trans (Context.get?_first ..)
    refine .bind (yields_supply hs₁ (h₁.shape_kept ht nofun) hposition (by simp) rfl hawaits 0
      comptime) fun r s₂ h₂ hs₂ hr => ?_
    exact .bind (.pure hs₂ rfl) fun rest s₃ h₃ hs₃ (hrest : rest = (r.1, [])) => .pure hs₃
      ⟨r.2, by rw [hrest], h₃.shape_kept hr.2 nofun⟩
  refine .bind hsupplyAll fun r s₂ h₂ hs₂ hr => ?_
  obtain ⟨ty, hsupplied, hty⟩ := hr
  refine .bind (.pure hs₂ rfl) fun remaining s₃ h₃ hs₃ (hremaining : remaining = []) => ?_
  refine .bind (yields_reduce_top hs₃) fun result s₄ h₄ hs₄ _ => .pure hs₄ ?_
  exact ⟨⟨ty, hsupplied, (h₃.trans h₄).shape_kept hty nofun⟩, hremaining⟩

/-- The argument has the type of its position already. -/
theorem yields_reduceArgs (hs : s.Serves) {ty : TermId} (ht : s.shape t = .stringLiteral text)
    (hty : s.shape ty = .stringLiteralType text) :
    Yields "" (fun values _ => values = [t])
      ((ofLevels (n + 1)).reduceArgs mode ctx [(t, ty)]) s := by
  refine .bind (yields_reduce_text hs ht) fun value s₁ h₁ hs₁ hvalue => ?_
  subst hvalue
  refine .bind (yields_infer_text hs₁ (h₁.shape_kept ht nofun))
    fun valueType s₂ h₂ hs₂ hvalueType => ?_
  have hty₂ := (h₁.trans h₂).shape_kept hty nofun
  -- There is one handle for the type of a text.
  have heq : valueType = ty := hs₂.intact.distinct _ _ (allocated_of_shape_eq hvalueType nofun)
    (allocated_of_shape_eq hty₂ nofun) (hvalueType.trans hty₂.symm)
  rw [if_pos heq]
  refine .bind (.pure hs₂ rfl) fun value' s₃ h₃ hs₃ (hvalue' : value' = value) => ?_
  exact .bind (.pure hs₃ rfl) fun rest s₄ h₄ hs₄ (hrest : rest = []) =>
    .pure hs₄ (by rw [hvalue', hrest])

/-! ## The module -/

variable {e : Engine}

theorem yields_expectString (hs : s.Serves) (name : String) (ht : s.shape t = .stringLiteral text) :
    Yields "" (fun found _ => found = text) (e.run ctx (Native.expectString name t)) s := by
  refine .reads rfl ?_
  rw [ht]
  exact .stays hs rfl rfl

/-- The leaf and the signature of `printf`. -/
theorem yields_exported (hs : s.Serves) :
    Yields "" (fun r s' => s'.shape r.1 = .native printfId ∧ r.2 = signatureOf printfId)
      (e.run ctx (Native.exported "printf")) s := by
  refine .bind (.builtin hs hs.standard.findNative?_printf) fun r s₁ h₁ hs₁ hr => ?_
  obtain ⟨leaf, rfl, hleaf⟩ := hr
  refine .reads rfl ?_
  rw [hleaf]
  exact .reads rfl (.stays hs₁ rfl ⟨hleaf, hs₁.standard.nativeSignature_eq printfId⟩)

theorem yields_exportedAll (hs : s.Serves) :
    Yields "" (fun r s' => ∃ leaf, r = ([("printf", signatureOf printfId)], [("printf", leaf)]) ∧
        s'.shape leaf = .native printfId)
      (e.run ctx (Native.exportedAll ["printf"])) s := by
  refine .script (yields_exported hs) fun r s₁ h₁ hs₁ hr => ?_
  obtain ⟨leaf, ty⟩ := r
  obtain ⟨hleaf, rfl⟩ := hr
  exact .stays hs₁ rfl ⟨leaf, rfl, hleaf⟩

theorem yields_importHeader (hs : s.Serves) (ht : s.shape t = .stringLiteral "#include <stdio>") :
    Yields "" (fun module s' => s'.Stdio module) (e.run ctx (Native.importHeader t)) s := by
  refine .script (yields_expectString hs "cimport" ht) fun text s₁ h₁ hs₁ htext => ?_
  subst htext
  have hname : Header.name? "#include <stdio>" = some "stdio" := by decide +kernel
  rw [hname]
  refine .script (yields_exportedAll hs₁) fun r s₂ h₂ hs₂ hr => ?_
  obtain ⟨leaf, rfl, hleaf⟩ := hr
  have hmembers : s₂.Covers stdioType :=
    covers_of_children rfl rfl (List.forall_mem_singleton.2 hs₂.standard.generic_printf.allocated)
  refine .bind (.intern hs₂ hmembers (by simp)) fun ty s₃ h₃ hs₃ hty => ?_
  have hleaf₃ := h₃.shape_kept hleaf nofun
  have hproduct : s₃.Covers (.productValue ty [("printf", leaf)]) :=
    covers_of_children rfl rfl (List.forall_mem_cons.2 ⟨allocated_of_shape_eq hty nofun,
      List.forall_mem_singleton.2 (allocated_of_shape_eq hleaf₃ nofun)⟩)
  exact .bind (.intern hs₃ hproduct (by simp)) fun module s₄ h₄ hs₄ hmodule =>
    .stays hs₄ rfl (.product hmodule (h₄.shape_kept hty nofun) (h₄.shape_kept hleaf₃ nofun))

theorem yields_compile_stdioType (hs : s.Serves) (ht : s.shape t = stdioType) :
    Yields "" (fun t' _ => t' = t) ((ofLevels (n + 4)).compile ctx t) s := by
  refine .reads rfl ?_
  rw [ht]
  -- The only member is a generic signature, which is closed and given back.
  have hmembers : Yields "" (fun members _ => members = [("printf", signatureOf printfId)])
      ((ofLevels (n + 3)).reduceNamed .compile ctx [("printf", signatureOf printfId)]) s := by
    refine .bind (yields_compile_generic hs hs.standard.generic_printf) fun ty s₁ _ hs₁ hty => ?_
    exact .bind (.pure hs₁ rfl) fun rest s₂ _ hs₂ (hrest : rest = []) =>
      .pure hs₂ (by rw [hty, hrest])
  refine .bind hmembers fun members s₁ h₁ hs₁ hmembers => ?_
  subst hmembers
  have ht₁ := h₁.shape_kept ht nofun
  exact .again hs₁ (allocated_of_shape_eq ht₁ nofun) ht₁

theorem yields_infer_stdio (hs : s.Serves) (ht : s.Stdio t) :
    Yields "" (fun ty s' => s'.shape ty = stdioType) ((ofLevels (n + 5)).infer ctx t) s := by
  have hclosed := ht.closed hs
  obtain ⟨hproduct, hty, -⟩ := ht
  rename_i declared leaf
  have htyped : ∀ {s' ty'}, s.Extends s' → (s'.Typed t ty' ↔ ty' = declared) := fun hle =>
    typed_product (hle.shape_kept hproduct nofun)
  refine (Yields.inferStep hs hclosed (.reads rfl ?_)).imp fun ty' s' hle hty' => ?_
  · rw [hproduct]
    refine (yields_compile_stdioType hs hty).imp fun ty' s' hle hty' => ?_
    rw [htyped hle, hty']
    exact ⟨hle.allocated (allocated_of_shape_eq hty nofun), rfl⟩
  · rw [(htyped hle).1 hty']
    exact hle.shape_kept hty nofun

/-! ## Calls of natives on a text -/

section Calls

variable {callee : TermId} {id : NativeId} {registered : RegisteredNative} {comptime : Bool}
  {written : String} {post : TermId → Store → Prop}
  (hnative : ∀ {s : Store}, s.Serves → s.native? id = some registered)

include hnative

/-- The type of a call is the one that the native gives to it. -/
theorem yields_inferApplication {hook : List TermId → Script (Option TermId)}
    (hhook : registered.native.resultType = some hook)
    (hcallee : Yields "" (fun ty s' => s'.Generic comptime ty)
      ((ofLevels (n + 1)).infer ctx callee) s) (ht : s.shape t = .stringLiteral text)
    (hid : ∀ s₁, s.Extends s₁ → s₁.Serves →
      Yields "" (fun id? _ => id? = some id) ((ofLevels (n + 1)).nativeCallee ctx callee) s₁)
    (hrun : ∀ s₁, s.Extends s₁ → s₁.Serves →
      Yields "" (fun ty? s' => ∃ ty, ty? = some ty ∧ post ty s')
        ((ofLevels (n + 1)).run ctx (hook [t])) s₁) :
    Yields "" post ((ofLevels (n + 1)).inferApplication ctx callee [t]) s := by
  refine .bind (yields_resolve hcallee ht) fun r s₁ h₁ hs₁ hr => ?_
  rw [Resolution.isSaturated, hr.remaining]
  -- The call is saturated, so that the native is asked for its type.
  have hrefined : Yields "" (fun ty? s' => ∃ ty, ty? = some ty ∧ post ty s')
      ((ofLevels (n + 1)).refinedType ctx callee [t]) s₁ := by
    refine .bind (hid s₁ h₁ hs₁) fun id? s₂ h₂ hs₂ hid? => ?_
    subst hid?
    refine .reads rfl ?_
    rw [hnative hs₂, Option.bind_some, hhook]
    exact hrun s₂ (h₁.trans h₂) hs₂
  refine .bind hrefined fun ty? s₂ _ hs₂ hty? => ?_
  obtain ⟨ty, rfl, hty⟩ := hty?
  exact .pure hs₂ hty

/-- The reduct of a call is what calling the native comes to. -/
theorem yields_reduceApplication
    (hcallee : Yields "" (fun ty s' => s'.Generic comptime ty)
      ((ofLevels (n + 1)).infer ctx callee) s) (ht : s.shape t = .stringLiteral text)
    (hreduce : ∀ s₁, s.Extends s₁ → s₁.Serves →
      Yields "" (fun leaf s' => s'.shape leaf = .native id)
        ((ofLevels (n + 1)).reduce mode ctx callee) s₁)
    (hcall : ∀ leaf s₁, s.Extends s₁ → s₁.Serves → s₁.shape leaf = .native id →
      Yields written post ((ofLevels (n + 1)).callNative mode ctx leaf registered.native [t]) s₁) :
    Yields written post ((ofLevels (n + 1)).reduceApplication mode ctx callee [t]) s := by
  refine .bind (yields_resolve hcallee ht) fun r s₁ h₁ hs₁ hr => ?_
  obtain ⟨⟨ty, hsupplied, hty⟩, hremaining⟩ := hr
  rw [hsupplied]
  refine .bind (yields_reduceArgs hs₁ (h₁.shape_kept ht nofun) hty)
    fun values s₂ h₂ hs₂ hvalues => ?_
  subst hvalues
  refine .bind (hreduce s₂ (h₁.trans h₂) hs₂) fun leaf s₃ h₃ hs₃ hleaf => ?_
  rw [Resolution.isSaturated, hremaining]
  -- A leaf stands under no quantifier.
  have hopen : Yields "" (fun opened _ => opened = (ctx, leaf))
      (openQuantifiers r (leaf.index + 1) ctx leaf) s₃ := by
    refine .reads rfl ?_
    rw [hleaf]
    exact .pure hs₃ rfl
  refine .bind hopen fun opened s₄ h₄ hs₄ hopened => ?_
  subst hopened
  have hleaf₄ := h₄.shape_kept hleaf nofun
  refine .reads rfl ?_
  rw [hleaf₄]
  refine .reads rfl ?_
  rw [hnative hs₄]
  exact hcall leaf s₄ (((h₁.trans h₂).trans h₃).trans h₄) hs₄ hleaf₄

omit hnative in
/-- A pure native is called on a text, an effectful one in evaluation alone. -/
theorem yields_callNative {native : Native} (hs : s.Serves) (ht : s.shape t = .stringLiteral text)
    (hmode : native.isPure = true ∨ mode = .evaluate)
    (hrun : Yields written post ((ofLevels n).run ctx (native.call [t])) s) :
    Yields written post ((ofLevels n).callNative mode ctx callee native [t]) s := by
  refine .reads rfl ?_
  rw [if_neg]
  · exact hrun
  · rcases hmode with hpure | rfl
    · simp [hpure, hs.intact.isValue_text ht]
    · simp

end Calls

/-! ## The imported module -/

theorem native?_cimport (hs : s.Serves) :
    s.native? cimportId = some ⟨Native.cimport, signatureOf cimportId⟩ := hs.standard.native?_eq rfl

theorem native?_printf (hs : s.Serves) :
    s.native? printfId = some ⟨Native.printf, signatureOf printfId⟩ := hs.standard.native?_eq rfl

theorem yields_signature_cimport (hs : s.Serves) (ht : s.shape t = .native cimportId) :
    Yields "" (fun ty s' => s'.Generic true ty) ((ofLevels (n + 1)).infer ctx t) s := by
  refine (yields_infer_leaf hs ht (native?_cimport hs)).imp fun ty s' hle hty => ?_
  rw [hty]
  exact hs.standard.generic_cimport.mono hle

/-- Importing gives the module, whose annotation is its type. -/
theorem yields_run_cimportType (hs : s.Serves)
    (ht : s.shape t = .stringLiteral "#include <stdio>") :
    Yields "" (fun ty? s' => ∃ ty, ty? = some ty ∧ s'.shape ty = stdioType)
      ((ofLevels (n + 5)).run ctx (Native.cimportType [t])) s := by
  refine .script (.query (.reduce .compile t) (yields_reduce_text hs ht))
    fun header s₁ h₁ hs₁ hheader => ?_
  subst hheader
  have ht₁ := h₁.shape_kept ht nofun
  refine .asks (.isValue header) rfl ?_
  rw [hs₁.intact.isValue_text ht₁]
  refine .script (yields_importHeader hs₁ ht₁) fun module s₂ h₂ hs₂ hmodule => ?_
  exact .bind (yields_infer_stdio hs₂ hmodule) fun ty s₃ h₃ hs₃ hty => .stays hs₃ rfl ⟨ty, rfl, hty⟩

theorem yields_infer_imports (hs : s.Serves) (ht : s.Imports t) :
    Yields "" (fun ty s' => s'.shape ty = stdioType) ((ofLevels (n + 6)).infer ctx t) s := by
  have hclosed := ht.closed hs.intact.toLinked
  refine (Yields.inferStep hs hclosed (.reads rfl ?_)).imp fun ty s' hle hty =>
    (typed_imports (ht.mono hle)).1 hty
  have htyped : ∀ ty s', s.Extends s' → s'.shape ty = stdioType → s'.Allocated ty ∧ s'.Typed t ty :=
    fun ty s' hle hty =>
      ⟨allocated_of_shape_eq hty nofun, (typed_imports (ht.mono hle)).2 hty⟩
  obtain ⟨hcall, hcallee, hheader⟩ := ht
  rename_i callee header
  rw [hcall]
  refine (yields_inferApplication native?_cimport rfl (yields_signature_cimport hs hcallee) hheader
    (fun s₁ h₁ hs₁ => ?_)
    fun s₁ h₁ hs₁ => yields_run_cimportType hs₁ (h₁.shape_kept hheader nofun)).imp htyped
  refine .reads rfl ?_
  rw [h₁.shape_kept hcallee nofun]
  exact .pure hs₁ rfl

theorem yields_reduce_imports (hs : s.Serves) (ht : s.Imports t) :
    Yields "" (fun module s' => s'.Stdio module) ((ofLevels (n + 2)).reduce mode ctx t) s := by
  obtain ⟨hcall, hcallee, hheader⟩ := ht
  rename_i callee header
  refine .reads rfl ?_
  rw [hcall]
  refine yields_reduceApplication native?_cimport (yields_signature_cimport hs hcallee) hheader
    (fun s₁ h₁ hs₁ => ?_) fun leaf s₁ h₁ hs₁ hleaf => ?_
  · exact yields_reduce_leaf hs₁ (h₁.shape_kept hcallee nofun)
  · have hheader₁ := h₁.shape_kept hheader nofun
    exact yields_callNative hs₁ hheader₁ (.inl rfl) (yields_importHeader hs₁ hheader₁)

/-! ## Its member -/

theorem yields_infer_printer (hs : s.Serves) (ht : s.Printer t) :
    Yields "" (fun ty _ => ty = signatureOf printfId) ((ofLevels (n + 7)).infer ctx t) s := by
  have hclosed := ht.closed hs.intact.toLinked
  cases ht with
  | leaf hleaf => exact yields_infer_leaf hs hleaf (native?_printf hs)
  | member hmember hmodule =>
    rename_i module
    have hprinter := Printer.member hmember hmodule
    refine (Yields.inferStep hs hclosed (.reads rfl ?_)).imp fun ty s' hle hty =>
      (typed_printer (hprinter.mono hle)).1 hty
    rw [hmember]
    refine .bind (yields_infer_imports hs hmodule) fun ty s₁ h₁ hs₁ hty => .reads rfl ?_
    rw [hty]
    exact .pure hs₁
      ⟨hs₁.standard.generic_printf.allocated, (typed_printer (hprinter.mono h₁)).2 rfl⟩

theorem yields_signature_printer (hs : s.Serves) (ht : s.Printer t) :
    Yields "" (fun ty s' => s'.Generic false ty) ((ofLevels (n + 7)).infer ctx t) s := by
  refine (yields_infer_printer hs ht).imp fun ty s' hle hty => ?_
  rw [hty]
  exact hs.standard.generic_printf.mono hle

theorem yields_reduce_printer (hs : s.Serves) (ht : s.Printer t) :
    Yields "" (fun leaf s' => s'.shape leaf = .native printfId)
      ((ofLevels (n + 3)).reduce mode ctx t) s := by
  cases ht with
  | leaf hleaf => exact yields_reduce_leaf hs hleaf
  | member hmember hmodule =>
    refine .reads rfl ?_
    rw [hmember]
    refine .bind (yields_reduce_imports hs hmodule) fun module s₁ h₁ hs₁ hmodule => ?_
    obtain ⟨hproduct, -, hleaf⟩ := hmodule
    refine .reads rfl ?_
    rw [hproduct]
    exact .pure hs₁ hleaf

theorem yields_nativeCallee_printer (hs : s.Serves) (ht : s.Printer t) :
    Yields "" (fun id? _ => id? = some printfId) ((ofLevels (n + 3)).nativeCallee ctx t) s := by
  have hreduce : Yields "" (fun leaf s' => s'.shape leaf = .native printfId)
      ((ofLevels (n + 3)).compile ctx t) s := yields_reduce_printer hs ht
  refine .reads rfl ?_
  cases ht with
  | leaf hleaf =>
    rw [hleaf]
    exact .pure hs rfl
  | member hmember _ =>
    rw [hmember]
    refine .bind hreduce fun leaf s₁ h₁ hs₁ hleaf => .reads rfl ?_
    rw [hleaf]
    exact .pure hs₁ rfl

/-! ## Calls of `printf` -/

variable {message : String}

theorem yields_run_printfType (hs : s.Serves) (ht : s.shape t = .stringLiteral text) :
    Yields "" (fun ty? s' => ∃ ty, ty? = some ty ∧
        s'.shape ty = .numericLiteralType text.utf8ByteSize)
      ((ofLevels (n + 1)).run ctx (Native.printfType [t])) s := by
  refine .script (.query (.reduce .compile t) (yields_reduce_text hs ht))
    fun format s₁ h₁ hs₁ hformat => .asks (.shape format) rfl ?_
  rw [hformat, h₁.shape_kept ht nofun]
  have hcovers : s₁.Covers (.numericLiteralType text.utf8ByteSize) :=
    covers_of_children rfl rfl (List.forall_mem_nil _)
  exact .script (.query (.intern _) (.intern hs₁ hcovers (by simp))) fun ty s₂ _ hs₂ hty =>
    .stays hs₂ rfl ⟨ty, rfl, hty⟩

/-- The text is written, and its bytes are counted. -/
theorem yields_run_printfCall (hs : s.Serves) (ht : s.shape t = .stringLiteral text) :
    Yields text (fun value s' => s'.shape value = .numericLiteral text.utf8ByteSize)
      (e.run ctx (Native.printfCall [t])) s := by
  refine .script (yields_expectString hs "printf" ht) fun found s₁ _ hs₁ hfound => ?_
  subst hfound
  refine .scriptWriting (.query (.write found) (.write hs₁ found)) fun bytes s₂ _ hs₂ hbytes => ?_
  subst hbytes
  have hcovers : s₂.Covers (.numericLiteral found.utf8ByteSize) :=
    covers_of_children rfl rfl (List.forall_mem_nil _)
  exact .query (.intern _) (.intern hs₂ hcovers (by simp))

theorem yields_infer_prints (hs : s.Serves) (ht : s.Prints message t) :
    Yields "" (fun ty s' => s'.shape ty = .numericLiteralType message.utf8ByteSize)
      ((ofLevels (n + 8)).infer ctx t) s := by
  have hclosed := ht.closed hs.intact.toLinked
  refine (Yields.inferStep hs hclosed (.reads rfl ?_)).imp fun ty s' hle hty =>
    (typed_prints (ht.mono hle)).1 hty
  have htyped : ∀ ty s', s.Extends s' → s'.shape ty = .numericLiteralType message.utf8ByteSize →
      s'.Allocated ty ∧ s'.Typed t ty := fun ty s' hle hty =>
    ⟨allocated_of_shape_eq hty nofun, (typed_prints (ht.mono hle)).2 hty⟩
  obtain ⟨hcall, hcallee, hargument⟩ := ht
  rename_i callee argument
  rw [hcall]
  exact (yields_inferApplication native?_printf rfl (yields_signature_printer hs hcallee) hargument
    (fun s₁ h₁ hs₁ => yields_nativeCallee_printer hs₁ (hcallee.mono h₁))
    fun s₁ h₁ hs₁ => yields_run_printfType hs₁ (h₁.shape_kept hargument nofun)).imp htyped

/-- The reduct of a call is what calling the native comes to, whichever way it is referred to. -/
theorem yields_reduce_prints {written : String} {post : TermId → Store → Prop} (hs : s.Serves)
    (ht : s.Prints message t)
    (hcall : ∀ leaf argument s₁, s₁.Serves → s₁.shape leaf = .native printfId →
      s₁.shape argument = .stringLiteral message →
      Yields written post
        ((ofLevels (n + 7)).callNative mode ctx leaf Native.printf [argument]) s₁) :
    Yields written post ((ofLevels (n + 8)).reduce mode ctx t) s := by
  obtain ⟨hshape, hcallee, hargument⟩ := ht
  refine .reads rfl ?_
  rw [hshape]
  exact yields_reduceApplication native?_printf (yields_signature_printer hs hcallee) hargument
    (fun s₁ h₁ hs₁ => yields_reduce_printer hs₁ (hcallee.mono h₁))
    fun leaf s₁ h₁ hs₁ hleaf => hcall leaf _ s₁ hs₁ hleaf (h₁.shape_kept hargument nofun)

/-- The call stays residual. -/
theorem yields_compile_prints (hs : s.Serves) (ht : s.Prints message t) :
    Yields "" (fun residual s' => ∃ leaf argument,
        s'.shape residual = .application leaf [argument] ∧ s'.shape leaf = .native printfId ∧
        s'.shape argument = .stringLiteral message)
      ((ofLevels (n + 8)).reduce .compile ctx t) s := by
  refine yields_reduce_prints hs ht fun leaf argument s₁ hs₁ hleaf hargument => .reads rfl ?_
  have hcovers : s₁.Covers (.application leaf [argument]) :=
    covers_call (allocated_of_shape_eq hleaf nofun) (allocated_of_shape_eq hargument nofun)
  exact (Yields.intern hs₁ hcovers (by simp)).imp fun residual s₂ h₂ hresidual =>
    ⟨leaf, argument, hresidual, h₂.shape_kept hleaf nofun, h₂.shape_kept hargument nofun⟩

/-- The call is made. -/
theorem yields_evaluate_prints (hs : s.Serves) (ht : s.Prints message t) :
    Yields message (fun value s' => s'.shape value = .numericLiteral message.utf8ByteSize)
      ((ofLevels (n + 8)).reduce .evaluate ctx t) s :=
  yields_reduce_prints hs ht fun _ _ _ hs₁ _ hargument =>
    yields_callNative hs₁ hargument (.inr rfl) (yields_run_printfCall hs₁ hargument)

/-! ## The default depth limit -/

variable {written : String} {post : TermId → Store → Prop}

theorem run_reduce (mode : Mode) (ctx : Context) (t : TermId) (s : Store) :
    (reduce mode ctx t).run s = ((ofLevels s.config.maxDepth).reduce mode ctx t).run s := by
  rw [reduce, run_bind, run_engine]

theorem Yields.infer (hs : s.Serves) (h : Yields written post ((ofLevels 512).infer ctx t) s) :
    Yields written post (Attempt.infer ctx t) s := by
  obtain ⟨ty, s', hrun, hrest⟩ := h
  refine ⟨ty, s', ?_, hrest⟩
  rw [run_infer, hs.settings]
  exact hrun

theorem Yields.reduce (hs : s.Serves)
    (h : Yields written post ((ofLevels 512).reduce mode ctx t) s) :
    Yields written post (Attempt.reduce mode ctx t) s := by
  obtain ⟨t', s', hrun, hrest⟩ := h
  refine ⟨t', s', ?_, hrest⟩
  rw [run_reduce, hs.settings]
  exact hrun

end Attempt

end StagedCalculus
