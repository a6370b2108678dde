import StagedCalculus.Proofs.Native.Stdio

/-!
# Straight-line programs

This module follows programs with effects through both stages: a block binds texts and calls of
`printf` in order, and comes to one of them, or to a product of several of them.

* `Line`: what is bound, with the text that it writes and its value;
* `Store.StraightLine`: a program, with the text that it writes and what it comes to;
* `Attempt.yields_evaluate_straightLine`: evaluation writes that text and comes to that;
* `Attempt.yields_compile_straightLine`: compilation writes nothing, and leaves a straight-line
  program that writes the same text and comes to the same.

Texts are inlined and calls are kept, each once and in its place, however often they are used.
-/

namespace StagedCalculus

namespace Context

variable {ctx bound : Context} {v w : VarId} {t : TermId}

/-- Binding a variable leaves room for any other one. -/
theorem innermost_bind? (h : ctx.bind? v t = some bound) (hw : w ≠ v) :
    bound.innermost.get? w = ctx.innermost.get? w := by
  unfold bind? at h
  split at h
  · cases h
  · cases h
    simp [Frame.get?, hw.symm]

theorem vacant_bind? {rest : List (VarId × TermId)} (h : ctx.bind? v t = some bound)
    (hv : v ∉ rest.map (·.1)) (hvacant : ∀ b ∈ rest, ctx.innermost.get? b.1 = none) :
    ∀ b ∈ rest, bound.innermost.get? b.1 = none := by
  intro b hb
  rw [innermost_bind? h fun heq => hv (List.mem_map.2 ⟨b, hb, heq⟩)]
  exact hvacant b hb

end Context

/-- A text or a number. -/
inductive Literal
  | text (message : String)
  | number (n : Nat)

namespace Literal

def shape : Literal → Shape TermId
  | text message => .stringLiteral message
  | number n => .numericLiteral n

theorem shape_ne (literal : Literal) : literal.shape ≠ .typeOfTypes := by cases literal <;> nofun

theorem shape_ne_variable (literal : Literal) (v : VarId) : literal.shape ≠ .variable v := by
  cases literal <;> nofun

end Literal

/-- A text, or a call of `printf` on it. -/
inductive Line
  | text (message : String)
  | call (message : String)

namespace Line

/-- What evaluating a line writes. -/
def written : Line → String
  | text _ => ""
  | call message => message

/-- A call counts the bytes that it writes. -/
def value : Line → Literal
  | text message => .text message
  | call message => .number message.utf8ByteSize

end Line

/-- What a program comes to: a literal, or a product of literals. -/
inductive Meaning
  | literal (value : Literal)
  | product (ty : TermId) (values : List (String × Literal))

namespace Store

variable {s s' : Store} {t ty : TermId} {line : Line} {lines env : List (VarId × Line)}
  {lets : List (VarId × TermId)} {fields : List (String × TermId)} {written first second : String}
  {value : Literal} {values : List (String × Literal)} {meaning : Meaning}

/-! ## The programs -/

/-- A term that stands for a line. The native may be imported. -/
inductive Computes (s : Store) : Line → TermId → Prop
  | text {message : String} {t : TermId} : s.shape t = .stringLiteral message →
      Computes s (.text message) t
  | call {message : String} {t : TermId} : s.Prints message t → Computes s (.call message) t

/-- A line, or the name of one. -/
inductive Operand (s : Store) (env : List (VarId × Line)) : TermId → String → Literal → Prop
  | line {line : Line} {t : TermId} : s.Computes line t → Operand s env t line.written line.value
  | name {v : VarId} {line : Line} {t : TermId} : s.shape t = .variable v → (v, line) ∈ env →
      Operand s env t "" line.value

/-- The lines that a block binds, with the text that they write. -/
inductive Bindings (s : Store) : List (VarId × TermId) → String → List (VarId × Line) → Prop
  | nil : Bindings s [] "" []
  | cons {line : Line} {v : VarId} {t : TermId} {lets : List (VarId × TermId)} {written : String}
      {lines : List (VarId × Line)} : s.Computes line t → Bindings s lets written lines →
      Bindings s ((v, t) :: lets) (line.written ++ written) ((v, line) :: lines)

/-- The components of a product, with the text that they write. -/
inductive Fields (s : Store) (env : List (VarId × Line)) :
    List (String × TermId) → String → List (String × Literal) → Prop
  | nil : Fields s env [] "" []
  | cons {name : String} {t : TermId} {first second : String} {value : Literal}
      {fields : List (String × TermId)} {values : List (String × Literal)} :
      s.Operand env t first value → Fields s env fields second values →
      Fields s env ((name, t) :: fields) (first ++ second) ((name, value) :: values)

/-- A product type with constants for members. -/
inductive ConstantProduct (s : Store) (ty : TermId) : Prop
  | members {members : List (String × TermId)} : s.shape ty = .productType members →
      (∀ member ∈ members, (s.shape member.2).isConstant = true ∧ s.Allocated member.2) →
      ConstantProduct s ty

/-- What a block comes to. -/
inductive Result (s : Store) (env : List (VarId × Line)) (t : TermId) : String → Meaning → Prop
  | operand {written : String} {value : Literal} : s.Operand env t written value →
      Result s env t written (.literal value)
  | product {ty : TermId} {fields : List (String × TermId)} {written : String}
      {values : List (String × Literal)} : s.shape t = .productValue ty fields →
      s.ConstantProduct ty → s.Fields env fields written values →
      Result s env t written (.product ty values)

/-- A program, with the text that it writes and what it comes to. -/
inductive StraightLine (s : Store) (t : TermId) : String → Meaning → Prop
  | result {written : String} {meaning : Meaning} : s.Result [] t written meaning →
      StraightLine s t written meaning
  | block {lets : List (VarId × TermId)} {body : TermId} {lines : List (VarId × Line)}
      {first second : String} {meaning : Meaning} : s.shape t = .abstraction lets [] body →
      (lets.map (·.1)).Nodup → s.Bindings lets first lines → s.Result lines body second meaning →
      StraightLine s t (first ++ second) meaning

/-- The components are these literals, under the same names. -/
def Literals (s : Store) (fields : List (String × TermId)) (values : List (String × Literal)) :
    Prop :=
  List.Forall₂ (fun field value => field.1 = value.1 ∧ s.shape field.2 = value.2.shape) fields
    values

/-- The value is a literal or a product of literals. -/
def Attains (s : Store) (t : TermId) : Meaning → Prop
  | .literal value => s.shape t = value.shape
  | .product ty values => ∃ fields, s.shape t = .productValue ty fields ∧ s.Literals fields values

/-! ## Later states -/

theorem Computes.mono (h : s.Computes line t) (hle : s.Extends s') : s'.Computes line t := by
  cases h with
  | text ht => exact .text (hle.shape_kept ht nofun)
  | call ht => exact .call (ht.mono hle)

theorem Operand.mono (h : s.Operand env t written value) (hle : s.Extends s') :
    s'.Operand env t written value := by
  cases h with
  | line ht => exact .line (ht.mono hle)
  | name ht hmem => exact .name (hle.shape_kept ht nofun) hmem

theorem Bindings.mono (h : s.Bindings lets written lines) (hle : s.Extends s') :
    s'.Bindings lets written lines := by
  induction h with
  | nil => exact .nil
  | cons ht _ ih => exact .cons (ht.mono hle) ih

theorem Fields.mono (h : s.Fields env fields written values) (hle : s.Extends s') :
    s'.Fields env fields written values := by
  induction h with
  | nil => exact .nil
  | cons ht _ ih => exact .cons (ht.mono hle) ih

theorem ConstantProduct.mono (h : s.ConstantProduct ty) (hle : s.Extends s') :
    s'.ConstantProduct ty := by
  obtain ⟨hty, hmembers⟩ := h
  refine .members (hle.shape_kept hty nofun) fun member hmember => ?_
  rw [hle.shape_eq (hmembers member hmember).2]
  exact ⟨(hmembers member hmember).1, hle.allocated (hmembers member hmember).2⟩

theorem Result.mono (h : s.Result env t written meaning) (hle : s.Extends s') :
    s'.Result env t written meaning := by
  cases h with
  | operand ht => exact .operand (ht.mono hle)
  | product ht hty hfields =>
    exact .product (hle.shape_kept ht nofun) (hty.mono hle) (hfields.mono hle)

theorem Literals.mono (h : s.Literals fields values)
    (hle : s.Extends s') : s'.Literals fields values :=
  h.imp fun _ value hfield => ⟨hfield.1, hle.shape_kept hfield.2 value.2.shape_ne⟩

/-! ## Facts about the terms of a program -/

theorem Computes.allocated (h : s.Computes line t) : s.Allocated t := by
  cases h with
  | text ht => exact allocated_of_shape_eq ht nofun
  | call ht =>
    obtain ⟨hcall, -, -⟩ := ht
    exact allocated_of_shape_eq hcall nofun

theorem Operand.allocated (h : s.Operand env t written value) : s.Allocated t := by
  cases h with
  | line ht => exact ht.allocated
  | name ht _ => exact allocated_of_shape_eq ht nofun

theorem Result.allocated (h : s.Result env t written meaning) : s.Allocated t := by
  cases h with
  | operand ht => exact ht.allocated
  | product ht _ _ => exact allocated_of_shape_eq ht nofun

theorem Fields.allocated (h : s.Fields env fields written values) :
    ∀ field ∈ fields, s.Allocated field.2 := by
  induction h with
  | nil => exact List.forall_mem_nil _
  | cons ht _ ih => exact List.forall_mem_cons.2 ⟨ht.allocated, ih⟩

theorem Literals.allocated (h : s.Literals fields values) :
    ∀ field ∈ fields, s.Allocated field.2 := by
  induction h with
  | nil => exact List.forall_mem_nil _
  | cons hfield _ ih =>
    exact List.forall_mem_cons.2 ⟨allocated_of_shape_eq hfield.2 (Literal.shape_ne _), ih⟩

theorem ConstantProduct.allocated (h : s.ConstantProduct ty) : s.Allocated ty := by
  obtain ⟨hty, -⟩ := h
  exact allocated_of_shape_eq hty nofun

theorem covers_product (hty : s.Allocated ty)
    (hfields : ∀ field ∈ fields, s.Allocated field.2) : s.Covers (.productValue ty fields) :=
  covers_of_children rfl rfl (List.forall_mem_cons.2 ⟨hty, List.forall_mem_map.2 hfields⟩)

theorem Bindings.allocated (h : s.Bindings lets written lines) :
    ∀ b ∈ lets, s.Allocated b.2 := by
  induction h with
  | nil => exact List.forall_mem_nil _
  | cons ht _ ih => exact List.forall_mem_cons.2 ⟨ht.allocated, ih⟩

theorem covers_block {body : TermId} : s.Covers (.abstraction lets [] body) ↔
    (∀ v ∈ lets.map (·.1), v.index < s.vars.size) ∧ (∀ b ∈ lets, s.Allocated b.2) ∧
      s.Allocated body := by
  refine Shape.forall_mem_handles.trans ?_
  simp only [Shape.children, Shape.ownVars, Shape.leaf, Shape.binders, Shape.constants,
    List.map_nil, List.append_nil, List.nil_append, List.forall_mem_append, List.forall_mem_map,
    List.forall_mem_singleton]
  constructor
  · rintro ⟨⟨hlets, hbody⟩, hvars, -⟩
    exact ⟨hvars, hlets, hbody⟩
  · rintro ⟨hvars, hlets, hbody⟩
    exact ⟨⟨hlets, hbody⟩, hvars, List.forall_mem_nil _⟩

/-- A call is no value: work is left in it. -/
theorem Intact.isValue_application (hs : s.Intact) {callee : TermId} {args : List TermId}
    (ht : s.shape t = .application callee args) : s.isValue t = false := by
  have hpending : s.pending t = true := by
    rw [hs.pending t (allocated_of_shape_eq ht nofun), ht]
    rfl
  rw [isValue, hpending, Bool.not_true, Bool.and_false]

end Store

namespace Attempt

open Store Engine

variable {s : Store} {ctx : Context} {mode : Mode} {n : Nat} {t : TermId} {line : Line}
  {lines env : List (VarId × Line)} {lets : List (VarId × TermId)} {written : String}
  {value : Literal} {meaning : Meaning}

/-- The second part writes nothing. -/
theorem Yields.appendSilent {α β : Type} {post : α → Store → Prop} {post' : β → Store → Prop}
    {c : Attempt α} {f : α → Attempt β} (hc : Yields written post c s)
    (hf : ∀ a s₁, s.Extends s₁ → s₁.Serves → post a s₁ → Yields "" post' (f a) s₁) :
    Yields written post' (c >>= f) s := by
  simpa using hc.append hf

theorem yields_bind (hs : s.Serves) {v : VarId} (hvacant : ctx.innermost.get? v = none) :
    Yields "" (fun bound _ => ctx.bind? v t = some bound) (Attempt.bind ctx v t) s := by
  have hbind : ctx.bind? v t = some { ctx with innermost := (v, t) :: ctx.innermost } := by
    rw [Context.bind?, hvacant]
  unfold Attempt.bind
  rw [hbind]
  exact .pure hs rfl

/-- A term of another shape than a variable can be inlined if it is a value. -/
theorem yields_inlinable (hs : s.Serves) (hshape : ∀ v, s.shape t ≠ .variable v) :
    Yields "" (fun canInline _ => canInline = s.isValue t) (inlinable t) s := by
  refine .reads rfl ?_
  split
  · rename_i v hv
    exact absurd hv (hshape v)
  · exact .stays hs rfl rfl

theorem yields_reduce_constantProduct {ty : TermId} (hs : s.Serves) (hty : s.ConstantProduct ty) :
    Yields "" (fun ty' _ => ty' = ty) ((ofLevels (n + 2)).reduce mode ctx ty) s := by
  obtain ⟨hty, hmembers⟩ := hty
  rename_i members
  refine .reads rfl ?_
  rw [hty]
  have hnamed : Yields "" (fun members' _ => members' = members)
      ((ofLevels (n + 1)).reduceNamed mode ctx members) s := by
    clear hty
    induction members generalizing s with
    | nil => exact .pure hs rfl
    | cons member rest ih =>
      obtain ⟨hmember, hrest⟩ := List.forall_mem_cons.1 hmembers
      refine .bind (yields_reduce_constant hs hmember.1) fun t s₁ h₁ hs₁ ht => ?_
      subst ht
      refine .bind (ih hs₁ fun other hother => ?_) fun rest' s₂ _ hs₂ hrest' => ?_
      · rw [h₁.shape_eq (hrest other hother).2]
        exact ⟨(hrest other hother).1, h₁.allocated (hrest other hother).2⟩
      · exact .pure hs₂ (by rw [hrest'])
  refine .bind hnamed fun members' s₁ h₁ hs₁ hmembers' => ?_
  subst hmembers'
  have hty₁ := h₁.shape_kept hty nofun
  exact .again hs₁ (allocated_of_shape_eq hty₁ nofun) hty₁

/-! ## Evaluation -/

/-- The context binds each name to the value of its line. -/
def Valued (ctx : Context) (lines : List (VarId × Line)) (s : Store) : Prop :=
  ∀ b ∈ lines, ∃ t, ctx.get? b.1 = some t ∧ s.shape t = b.2.value.shape

theorem Valued.mono {s' : Store} (h : Valued ctx lines s) (hle : s.Extends s') :
    Valued ctx lines s' := by
  intro b hb
  obtain ⟨t, hget, ht⟩ := h b hb
  exact ⟨t, hget, hle.shape_kept ht (Literal.shape_ne _)⟩

theorem yields_evaluate_line (hs : s.Serves) (ht : s.Computes line t) :
    Yields line.written (fun t' s' => s'.shape t' = line.value.shape)
      ((ofLevels (n + 8)).reduce .evaluate ctx t) s := by
  cases ht with
  | text ht =>
    refine (yields_reduce_text hs ht).imp fun t' s' hle heq => ?_
    subst heq
    exact hle.shape_kept ht nofun
  | call ht => exact yields_evaluate_prints hs ht

/-- What evaluation makes of bindings: the context binds each name to its value, and nothing is kept
of them. -/
structure Evaluated (ctx : Context) (names : List VarId) (lines : List (VarId × Line))
    (r : Context × List (VarId × TermId)) (s : Store) : Prop where
  residual : r.2 = []
  valued : Valued r.1 lines s
  frame : ∀ v ∉ names, r.1.get? v = ctx.get? v

theorem Evaluated.cons {bound : Context} {v : VarId} {names : List VarId}
    {r : Context × List (VarId × TermId)} (h : Evaluated bound names lines r s)
    (hbound : ctx.bind? v t = some bound) (hv : v ∉ names) (ht : s.shape t = line.value.shape) :
    Evaluated ctx (v :: names) ((v, line) :: lines) r s where
  residual := h.residual
  valued := by
    refine List.forall_mem_cons.2 ⟨⟨t, ?_, ht⟩, h.valued⟩
    rw [h.frame v hv, Context.get?_bind? hbound, if_pos rfl]
  frame w hw := by
    rw [List.mem_cons, not_or] at hw
    rw [h.frame w hw.2, Context.get?_bind? hbound, if_neg hw.1]

/-- Each binding is evaluated once, in order. -/
theorem yields_evaluate_bindings (hs : s.Serves) (hlets : s.Bindings lets written lines)
    (hnodup : (lets.map (·.1)).Nodup) (hvacant : ∀ b ∈ lets, ctx.innermost.get? b.1 = none) :
    Yields written (Evaluated ctx (lets.map (·.1)) lines)
      ((ofLevels (n + 8)).bindLets .evaluate ctx lets) s := by
  induction lets generalizing s ctx written lines with
  | nil =>
    cases hlets
    exact .pure hs ⟨rfl, List.forall_mem_nil _, fun _ _ => rfl⟩
  | cons b rest ih =>
    cases hlets with
    | @cons line v t _ second lines ht hrest =>
    obtain ⟨hv, hnodup⟩ := List.nodup_cons.1 hnodup
    obtain ⟨hfree, hvacant⟩ := List.forall_mem_cons.1 hvacant
    refine .append (yields_evaluate_line hs ht) fun value s₁ h₁ hs₁ hvalue => ?_
    refine .bind (yields_inlinable hs₁ fun w => ?_) fun canInline s₂ h₂ hs₂ _ => ?_
    · rw [hvalue]
      exact line.value.shape_ne_variable w
    simp only [decide_true, Bool.true_or, if_true]
    refine .bind (yields_bind hs₂ hfree) fun bound s₃ h₃ hs₃ hbound => ?_
    refine (ih hs₃ (hrest.mono ((h₁.trans h₂).trans h₃)) hnodup
      (Context.vacant_bind? hbound hv hvacant)).imp fun r s' h₄ hr => ?_
    exact hr.cons hbound hv (((h₂.trans h₃).trans h₄).shape_kept hvalue line.value.shape_ne)

theorem yields_evaluate_operand (hs : s.Serves) (hctx : Valued ctx env s)
    (ht : s.Operand env t written value) :
    Yields written (fun t' s' => s'.shape t' = value.shape)
      ((ofLevels (n + 8)).reduce .evaluate ctx t) s := by
  cases ht with
  | line ht => exact yields_evaluate_line hs ht
  | @name v line _ ht hmem =>
    obtain ⟨bound, hget, hbound⟩ := hctx (v, line) hmem
    refine .reads rfl ?_
    rw [ht]
    dsimp only
    unfold reduceVariable
    rw [hget]
    refine .reads rfl ?_
    rw [hbound]
    cases line <;> exact .pure hs hbound

theorem yields_evaluate_fields {fields : List (String × TermId)}
    {values : List (String × Literal)} (hs : s.Serves) (hctx : Valued ctx env s)
    (hfields : s.Fields env fields written values) :
    Yields written (fun fields' s' => s'.Literals fields' values)
      ((ofLevels (n + 8)).reduceNamed .evaluate ctx fields) s := by
  induction fields generalizing s written values with
  | nil =>
    cases hfields
    exact .pure hs .nil
  | cons field rest ih =>
    cases hfields with
    | @cons name t first second value _ values ht hrest =>
    refine .append (yields_evaluate_operand hs hctx ht) fun t' s₁ h₁ hs₁ ht' => ?_
    refine .appendSilent (ih hs₁ (hctx.mono h₁) (hrest.mono h₁)) fun rest' s₂ h₂ hs₂ hrest' => ?_
    exact .pure hs₂ (.cons ⟨rfl, h₂.shape_kept ht' value.shape_ne⟩ hrest')

theorem yields_evaluate_result (hs : s.Serves) (hctx : Valued ctx env s)
    (ht : s.Result env t written meaning) :
    Yields written (fun t' s' => s'.Attains t' meaning)
      ((ofLevels (n + 9)).reduce .evaluate ctx t) s := by
  cases ht with
  | operand ht => exact yields_evaluate_operand hs hctx ht
  | @product ty fields _ values ht hty hfields =>
    refine .reads rfl ?_
    rw [ht]
    refine .bind (yields_reduce_constantProduct hs hty) fun ty' s₁ h₁ hs₁ hty' => ?_
    subst hty'
    refine .appendSilent (yields_evaluate_fields hs₁ (hctx.mono h₁) (hfields.mono h₁))
      fun fields' s₂ h₂ hs₂ hfields' => ?_
    have hcovers : s₂.Covers (.productValue ty' fields') :=
      covers_product (hty.mono (h₁.trans h₂)).allocated hfields'.allocated
    exact (Yields.intern hs₂ hcovers nofun).imp fun t' s' hle ht' =>
      ⟨fields', ht', hfields'.mono hle⟩

/-- Evaluation writes the text of the program and comes to what it means. -/
theorem yields_evaluate_straightLine (hs : s.Serves) (ht : s.StraightLine t written meaning) :
    Yields written (fun t' s' => s'.Attains t' meaning)
      ((ofLevels (n + 10)).reduce .evaluate ctx t) s := by
  cases ht with
  | result ht => exact yields_evaluate_result hs (List.forall_mem_nil _) ht
  | @block lets body lines first second _ ht hnodup hlets hbody =>
    refine .reads rfl ?_
    rw [ht]
    refine .append (yields_evaluate_bindings hs hlets hnodup fun _ _ => rfl)
      fun r s₁ h₁ hs₁ hr => ?_
    refine .appendSilent (yields_evaluate_result hs₁ hr.valued (hbody.mono h₁))
      fun value s₂ _ hs₂ hvalue => ?_
    rw [hr.residual]
    exact .pure hs₂ hvalue

/-! ## Compilation -/

/-- The context binds each name to its text, or to a placeholder if its line is kept. -/
def Prepared (ctx : Context) (lines kept : List (VarId × Line)) (s : Store) : Prop :=
  ∀ b ∈ lines, ∃ t, ctx.get? b.1 = some t ∧
    ((∃ message, b.2 = .text message ∧ s.shape t = .stringLiteral message) ∨
      ((∃ ty, s.shape t = .deferred ty .runtime) ∧ b ∈ kept))

theorem Prepared.mono {s' : Store} {kept : List (VarId × Line)} (h : Prepared ctx lines kept s)
    (hle : s.Extends s') : Prepared ctx lines kept s' := by
  intro b hb
  obtain ⟨t, hget, ⟨message, hline, ht⟩ | ⟨⟨ty, ht⟩, hkept⟩⟩ := h b hb
  · exact ⟨t, hget, .inl ⟨message, hline, hle.shape_kept ht nofun⟩⟩
  · exact ⟨t, hget, .inr ⟨⟨ty, hle.shape_kept ht nofun⟩, hkept⟩⟩

theorem yields_compile_line (hs : s.Serves) (ht : s.Computes line t) :
    Yields "" (fun t' s' => s'.Computes line t')
      ((ofLevels (n + 8)).reduce .compile ctx t) s := by
  cases ht with
  | text ht =>
    refine (yields_reduce_text hs ht).imp fun t' s' hle heq => ?_
    subst heq
    exact .text (hle.shape_kept ht nofun)
  | call ht =>
    refine (yields_compile_prints hs ht).imp fun t' s' _ hresidual => ?_
    obtain ⟨leaf, argument, hcall, hleaf, hargument⟩ := hresidual
    exact .call (.call hcall (.leaf hleaf) hargument)

/-- What compilation makes of bindings: calls are kept, and the context binds their names to
placeholders. -/
inductive Compiled (ctx : Context) (names : List VarId) (written : String)
    (lines : List (VarId × Line)) (r : Context × List (VarId × TermId)) (s : Store) : Prop
  | keeps {kept : List (VarId × Line)} : s.Bindings r.2 written kept →
      (r.2.map (·.1)).Sublist names → Prepared r.1 lines kept s →
      (∀ v ∉ names, r.1.get? v = ctx.get? v) → Compiled ctx names written lines r s

section Cons

variable {bound : Context} {v : VarId} {names : List VarId} {message : String}
  {r : Context × List (VarId × TermId)}

theorem Compiled.cons_text (h : Compiled bound names written lines r s)
    (hbound : ctx.bind? v t = some bound) (hv : v ∉ names)
    (ht : s.shape t = .stringLiteral message) :
    Compiled ctx (v :: names) written ((v, .text message) :: lines) r s := by
  obtain ⟨hresidual, hnames, hprepared, hframe⟩ := h
  refine .keeps hresidual (hnames.cons v)
    (List.forall_mem_cons.2 ⟨⟨t, ?_, .inl ⟨message, rfl, ht⟩⟩, hprepared⟩) fun w hw => ?_
  · rw [hframe v hv, Context.get?_bind? hbound, if_pos rfl]
  · rw [List.mem_cons, not_or] at hw
    rw [hframe w hw.2, Context.get?_bind? hbound, if_neg hw.1]

theorem Compiled.cons_call {residual ty : TermId} (h : Compiled bound names written lines r s)
    (hbound : ctx.bind? v t = some bound) (hv : v ∉ names)
    (ht : s.shape t = .deferred ty .runtime) (hresidual : s.Prints message residual) :
    Compiled ctx (v :: names) (message ++ written) ((v, .call message) :: lines)
      (r.1, (v, residual) :: r.2) s := by
  obtain ⟨hrest, hnames, hprepared, hframe⟩ := h
  rename_i kept
  have hprepared' : Prepared r.1 lines ((v, .call message) :: kept) s := by
    intro b hb
    obtain ⟨u, hget, hu⟩ := hprepared b hb
    exact ⟨u, hget, hu.imp_right fun h => ⟨h.1, List.mem_cons_of_mem _ h.2⟩⟩
  refine .keeps (.cons (.call hresidual) hrest) (hnames.cons_cons v)
    (List.forall_mem_cons.2 ⟨⟨t, ?_, .inr ⟨⟨ty, ht⟩, by simp⟩⟩, hprepared'⟩) fun w hw => ?_
  · rw [hframe v hv, Context.get?_bind? hbound, if_pos rfl]
  · rw [List.mem_cons, not_or] at hw
    rw [hframe w hw.2, Context.get?_bind? hbound, if_neg hw.1]

end Cons

/-- Each call is kept, once and in order, and each text is inlined. -/
theorem yields_compile_bindings (hs : s.Serves) (hlets : s.Bindings lets written lines)
    (hnodup : (lets.map (·.1)).Nodup) (hvacant : ∀ b ∈ lets, ctx.innermost.get? b.1 = none) :
    Yields "" (Compiled ctx (lets.map (·.1)) written lines)
      ((ofLevels (n + 8)).bindLets .compile ctx lets) s := by
  induction lets generalizing s ctx written lines with
  | nil =>
    cases hlets
    exact .pure hs (.keeps .nil .slnil (List.forall_mem_nil _) fun _ _ => rfl)
  | cons b rest ih =>
    cases hlets with
    | @cons line v t _ second lines ht hrest =>
    obtain ⟨hv, hnodup⟩ := List.nodup_cons.1 hnodup
    obtain ⟨hfree, hvacant⟩ := List.forall_mem_cons.1 hvacant
    refine .bind (yields_compile_line hs ht) fun value s₁ h₁ hs₁ hvalue => ?_
    cases hvalue with
    | @text message _ hvalue =>
      refine .bind (yields_inlinable hs₁ (by simp [hvalue])) fun canInline s₂ h₂ hs₂ hinline => ?_
      rw [hs₁.intact.isValue_text hvalue] at hinline
      subst hinline
      simp only [Bool.or_true, if_true]
      refine .bind (yields_bind hs₂ hfree) fun bound s₃ h₃ hs₃ hbound => ?_
      refine (ih hs₃ (hrest.mono ((h₁.trans h₂).trans h₃)) hnodup
        (Context.vacant_bind? hbound hv hvacant)).imp fun r s' h₄ hr => ?_
      rw [Line.written, String.empty_append]
      exact hr.cons_text hbound hv (((h₂.trans h₃).trans h₄).shape_kept hvalue nofun)
    | @call message _ hvalue =>
      have hnotValue : s₁.isValue value = false := by
        obtain ⟨hcall, -, -⟩ := hvalue
        exact hs₁.intact.isValue_application hcall
      have hnotVariable : ∀ w, s₁.shape value ≠ .variable w := by
        obtain ⟨hcall, -, -⟩ := hvalue
        rw [hcall]
        exact nofun
      refine .bind (yields_inlinable hs₁ hnotVariable) fun canInline s₂ h₂ hs₂ hinline => ?_
      rw [hnotValue] at hinline
      subst hinline
      simp only [reduceCtorEq, decide_false, Bool.or_self, Bool.false_eq_true, if_false]
      -- The call is kept, and its type is the one of the placeholder.
      refine .bind (yields_infer_prints hs₂ (hvalue.mono h₂)) fun ty s₃ h₃ hs₃ hty => ?_
      have hcovers : s₃.Covers (.deferred ty .runtime) := covers_of_children rfl rfl
        (List.forall_mem_singleton.2 (allocated_of_shape_eq hty nofun))
      refine .bind (.intern hs₃ hcovers nofun) fun placeholder s₄ h₄ hs₄ hplaceholder => ?_
      refine .bind (yields_bind hs₄ hfree) fun bound s₅ h₅ hs₅ hbound => ?_
      have hle := ((h₂.trans h₃).trans h₄).trans h₅
      refine .bind (ih hs₅ (hrest.mono (h₁.trans hle)) hnodup
        (Context.vacant_bind? hbound hv hvacant)) fun r s₆ h₆ hs₆ hr => .pure hs₆ ?_
      exact hr.cons_call hbound hv ((h₅.trans h₆).shape_kept hplaceholder nofun)
        (hvalue.mono (hle.trans h₆))

theorem yields_compile_operand {kept : List (VarId × Line)} (hs : s.Serves)
    (hctx : Prepared ctx env kept s) (ht : s.Operand env t written value) :
    Yields "" (fun t' s' => s'.Operand kept t' written value)
      ((ofLevels (n + 8)).reduce .compile ctx t) s := by
  cases ht with
  | line ht => exact (yields_compile_line hs ht).imp fun _ _ _ ht' => .line ht'
  | @name v line _ ht hmem =>
    obtain ⟨bound, hget, hbound⟩ := hctx (v, line) hmem
    refine .reads rfl ?_
    rw [ht]
    dsimp only
    unfold reduceVariable
    rw [hget]
    refine .reads rfl ?_
    rcases hbound with ⟨message, rfl, hbound⟩ | ⟨⟨ty, hbound⟩, hkept⟩
    · rw [hbound]
      exact .pure hs (.line (.text hbound))
    · rw [hbound]
      exact .pure hs (.name ht hkept)

theorem yields_compile_fields {kept : List (VarId × Line)} {fields : List (String × TermId)}
    {values : List (String × Literal)} (hs : s.Serves) (hctx : Prepared ctx env kept s)
    (hfields : s.Fields env fields written values) :
    Yields "" (fun fields' s' => s'.Fields kept fields' written values)
      ((ofLevels (n + 8)).reduceNamed .compile ctx fields) s := by
  induction fields generalizing s written values with
  | nil =>
    cases hfields
    exact .pure hs .nil
  | cons field rest ih =>
    cases hfields with
    | @cons name t first second value _ values ht hrest =>
    refine .bind (yields_compile_operand hs hctx ht) fun t' s₁ h₁ hs₁ ht' => ?_
    refine .bind (ih hs₁ (hctx.mono h₁) (hrest.mono h₁)) fun rest' s₂ h₂ hs₂ hrest' => ?_
    exact .pure hs₂ (.cons (ht'.mono h₂) hrest')

theorem yields_compile_result {kept : List (VarId × Line)} (hs : s.Serves)
    (hctx : Prepared ctx env kept s) (ht : s.Result env t written meaning) :
    Yields "" (fun t' s' => s'.Result kept t' written meaning)
      ((ofLevels (n + 9)).reduce .compile ctx t) s := by
  cases ht with
  | operand ht => exact (yields_compile_operand hs hctx ht).imp fun _ _ _ ht' => .operand ht'
  | @product ty fields _ values ht hty hfields =>
    refine .reads rfl ?_
    rw [ht]
    refine .bind (yields_reduce_constantProduct hs hty) fun ty' s₁ h₁ hs₁ hty' => ?_
    subst hty'
    refine .bind (yields_compile_fields hs₁ (hctx.mono h₁) (hfields.mono h₁))
      fun fields' s₂ h₂ hs₂ hfields' => ?_
    have hty₂ := hty.mono (h₁.trans h₂)
    have hcovers : s₂.Covers (.productValue ty' fields') :=
      covers_product hty₂.allocated hfields'.allocated
    exact (Yields.intern hs₂ hcovers nofun).imp fun t' s' hle ht' =>
      .product ht' (hty₂.mono hle) (hfields'.mono hle)

/-- Compilation leaves a program that writes the same text and comes to the same. -/
theorem yields_compile_straightLine (hs : s.Serves) (ht : s.StraightLine t written meaning) :
    Yields "" (fun residual s' => s'.StraightLine residual written meaning)
      ((ofLevels (n + 10)).reduce .compile ctx t) s := by
  cases ht with
  | result ht =>
    exact (yields_compile_result hs (List.forall_mem_nil _) ht).imp fun _ _ _ ht' => .result ht'
  | @block lets body lines first second _ ht hnodup hlets hbody =>
    refine .reads rfl ?_
    rw [ht]
    refine .bind (yields_compile_bindings hs hlets hnodup fun _ _ => rfl)
      fun r s₁ h₁ hs₁ hr => ?_
    obtain ⟨hresidual, hnames, hprepared, -⟩ := hr
    refine .bind (yields_compile_result hs₁ hprepared (hbody.mono h₁))
      fun value s₂ h₂ hs₂ hvalue => ?_
    have hcovered : s.Covers (.abstraction lets [] body) :=
      ht ▸ hs.intact.owned t (allocated_of_shape_eq ht nofun)
    have hvars := (covers_block.1 hcovered).1
    obtain ⟨inner, residual⟩ := r
    cases residual with
    | nil =>
      cases hresidual
      rw [String.empty_append]
      exact .pure hs₂ (.result hvalue)
    | cons b rest =>
      have hresidual₂ := hresidual.mono h₂
      have hcovers : s₂.Covers (.abstraction (b :: rest) [] value) := covers_block.2
        ⟨fun v hv => (h₁.trans h₂).lt_vars (hvars v (hnames.subset hv)), hresidual₂.allocated,
          hvalue.allocated⟩
      exact (Yields.intern hs₂ hcovers nofun).imp fun t' s' hle ht' =>
        .block ht' (hnames.nodup hnodup) (hresidual₂.mono hle) (hvalue.mono hle)

end Attempt

end StagedCalculus
