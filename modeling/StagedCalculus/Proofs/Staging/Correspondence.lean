import StagedCalculus.Proofs.Staging.Keeps
import StagedCalculus.Proofs.Term.Likeness
import StagedCalculus.Staging.Engine

/-!
# Two computations side by side

This module compares two computations that start from two stores, whose handles stand for each
other.

- `Correspondence`: which stores are compared, and which of their handles stand for each other;
- `Script.Alike`: scripts that ask the same questions of handles that stand for each other;
- `Correspondence.Steady`, `Correspondence.Lawful`: what a correspondence has to satisfy, in terms of
  single operations on a store;
- `Correspondence.Corresponds`: the two computations end alike and leave corresponding stores.

With a store compared to itself, `Corresponds` says what a computation keeps.
-/

namespace StagedCalculus

/-- Which stores are compared, and which of their handles stand for each other. -/
structure Correspondence where
  like : Store → Store → Likeness
  stores : Store → Store → Prop
  /-- Which contexts may take the place of each other. -/
  scope : Store → Store → Context → Context → Prop
  /-- Which texts may take the place of each other. -/
  text : String → String → Prop

namespace Correspondence

variable {C : Correspondence} {α β : Type} {s s' s₁ s₁' s₂ s₂' : Store}

/-- What is said of two results in the stores they are given in. -/
abbrev Post (α : Type) := Store → Store → α → α → Prop

/-- Corresponding stores, and later states of them that correspond. -/
structure Leads (C : Correspondence) (s s' s₁ s₁' : Store) : Prop where
  before : C.stores s s'
  after : C.stores s₁ s₁'
  left : s.Extends s₁
  right : s'.Extends s₁'

namespace Leads

theorem refl (h : C.stores s s') : C.Leads s s' s s' := ⟨h, h, .refl s, .refl s'⟩

@[grind →]
theorem trans (h : C.Leads s s' s₁ s₁') (h' : C.Leads s₁ s₁' s₂ s₂') : C.Leads s s' s₂ s₂' :=
  ⟨h.before, h'.after, h.left.trans h'.left, h.right.trans h'.right⟩

end Leads

/-! ## Results -/

/-- The terms stand for each other. -/
abbrev Terms (C : Correspondence) : Post TermId := fun s s' => (C.like s s').term

/-- Results, or failures of one kind. -/
inductive Result (C : Correspondence) (post : α → α → Prop) :
    Except Error α → Except Error α → Prop
  | ok {a a' : α} : post a a' → Result C post (.ok a) (.ok a')
  | error {e e' : Error} : e.Alike C.text e' → Result C post (.error e) (.error e')

/-! ## Scripts -/

/-- The same question about handles that stand for each other. -/
inductive Question (C : Correspondence) (s s' : Store) : Query → Query → Prop
  | shape {t t' : TermId} : (C.like s s').term t t' → Question C s s' (.shape t) (.shape t')
  | intern {shape shape' : Shape TermId} : (C.like s s').Layer shape shape' →
      Question C s s' (.intern shape) (.intern shape')
  | freshVariable (comptime : Bool) {name name' : Option String} : Option.Rel C.text name name' →
      Question C s s' (.freshVariable comptime name) (.freshVariable comptime name')
  | infer {t t' : TermId} : (C.like s s').term t t' → Question C s s' (.infer t) (.infer t')
  | reduce (mode : Mode) {t t' : TermId} : (C.like s s').term t t' →
      Question C s s' (.reduce mode t) (.reduce mode t')
  | isValue {t t' : TermId} : (C.like s s').term t t' → Question C s s' (.isValue t) (.isValue t')
  | builtin (name : String) : Question C s s' (.builtin name) (.builtin name)
  | signature {id : NativeId} : (C.like s s').native id →
      Question C s s' (.signature id) (.signature id)
  | display {t t' : TermId} : (C.like s s').term t t' → Question C s s' (.display t) (.display t')
  | write (text : String) : Question C s s' (.write text) (.write text)

/-- Answers to one question that stand for each other. -/
@[simp]
def Answers (C : Correspondence) (s s' : Store) :
    (query query' : Query) → query.Answer → query'.Answer → Prop
  | .shape _, .shape _, shape, shape' => (C.like s s').Layer shape shape'
  | .intern _, .intern _, t, t' => (C.like s s').term t t'
  | .freshVariable _ _, .freshVariable _ _, v, v' => (C.like s s').var v v'
  | .infer _, .infer _, t, t' => (C.like s s').term t t'
  | .reduce _ _, .reduce _ _, t, t' => (C.like s s').term t t'
  | .isValue _, .isValue _, isValue, isValue' => isValue = isValue'
  | .builtin _, .builtin _, leaf, leaf' => Option.Rel (C.like s s').term leaf leaf'
  | .signature _, .signature _, t, t' => (C.like s s').term t t'
  | .display _, .display _, text, text' => C.text text text'
  | .write _, .write _, bytes, bytes' => bytes = bytes'
  | _, _, _, _ => False

/-- From these stores on, the scripts ask the same questions as long as they get answers that stand
for each other. -/
inductive Scripts (C : Correspondence) (post : Post α) : Store → Store → Script α → Script α → Prop
  | done {s s' : Store} {a a' : α} : post s s' a a' → Scripts C post s s' (.done a) (.done a')
  | fail {s s' : Store} {e e' : Error} : e.Alike C.text e' →
      Scripts C post s s' (.fail e) (.fail e')
  | ask {s s' : Store} {query query' : Query} {next : query.Answer → Script α}
      {next' : query'.Answer → Script α} : C.Question s s' query query' →
      (∀ {s₁ s₁' answer answer'}, C.Leads s s' s₁ s₁' →
        C.Answers s₁ s₁' query query' answer answer' →
        Scripts C post s₁ s₁' (next answer) (next' answer')) →
      Scripts C post s s' (.ask query next) (.ask query' next')

/-- From these stores on, the natives run scripts alike on arguments that stand for each other. -/
structure Natives (C : Correspondence) (s s' : Store) (native native' : Native) : Prop where
  isPure : native.isPure = native'.isPure
  resultType : Option.Rel (fun hook hook' => ∀ {s₁ s₁' args args'}, C.Leads s s' s₁ s₁' →
    List.Forall₂ (C.like s₁ s₁').term args args' →
    C.Scripts (fun s s' => Option.Rel (C.like s s').term) s₁ s₁' (hook args) (hook' args'))
    native.resultType native'.resultType
  call : ∀ {s₁ s₁' args args'}, C.Leads s s' s₁ s₁' →
    List.Forall₂ (C.like s₁ s₁').term args args' →
    C.Scripts C.Terms s₁ s₁' (native.call args) (native'.call args')

theorem Natives.mono {native native' : Native} (h : C.Natives s s' native native')
    (hleads : C.Leads s s' s₁ s₁') : C.Natives s₁ s₁' native native' := by
  refine ⟨h.isPure, ?_, fun hleads' hargs => h.call (hleads.trans hleads') hargs⟩
  have hhook := h.resultType
  generalize native.resultType = hook, native'.resultType = hook' at hhook ⊢
  cases hhook with
  | some hhook => exact .some fun hleads' hargs => hhook (hleads.trans hleads') hargs
  | none => exact .none

/-! ## Laws -/

/-- What stands for each other still does later, and texts are put together from related parts. -/
structure Stable (C : Correspondence) : Prop where
  text_refl : ∀ text, C.text text text
  text_append : ∀ {a a' b b'}, C.text a a' → C.text b b' → C.text (a ++ b) (a' ++ b')
  mono : ∀ {s s' s₁ s₁'}, C.Leads s s' s₁ s₁' → (C.like s s').Le (C.like s₁ s₁')

/-- What single operations on corresponding contexts have in common. -/
structure Scoped (C : Correspondence) : Prop where
  lasts : ∀ {s s' s₁ s₁' ctx ctx'}, C.Leads s s' s₁ s₁' → C.scope s s' ctx ctx' →
    C.scope s₁ s₁' ctx ctx'
  child : ∀ {s s' ctx ctx'}, C.scope s s' ctx ctx' → C.scope s s' ctx.child ctx'.child
  get? : ∀ {s s' ctx ctx' v v'}, C.stores s s' → C.scope s s' ctx ctx' → (C.like s s').var v v' →
    Option.Rel (C.like s s').term (ctx.get? v) (ctx'.get? v')
  bind_cases : ∀ {s s' ctx ctx' v v' t t'}, C.stores s s' → C.scope s s' ctx ctx' →
    (C.like s s').var v v' → (C.like s s').term t t' →
    (∃ bound bound', ctx.bind? v t = some bound ∧ ctx'.bind? v' t' = some bound' ∧
      C.scope s s' bound bound') ∨ ctx.bind? v t = none ∧ ctx'.bind? v' t' = none

/-- What single operations on corresponding stores have in common, except for remembering. -/
structure Steady (C : Correspondence) : Prop extends Stable C, Scoped C where
  linked : ∀ {s s'}, C.stores s s' → s.Linked ∧ s'.Linked
  limit : ∀ {s s'}, C.stores s s' → s.config.maxDepth = s'.config.maxDepth
  size : ∀ {s s'}, C.stores s s' → s.vars.size = s'.vars.size
  ordered : ∀ {s s'}, C.stores s s' → (C.like s s').Ordered
  /-- No term stands for two. -/
  unique : ∀ {s s' t t' u u'}, C.stores s s' → (C.like s s').term t t' → (C.like s s').term u u' →
    (t = u ↔ t' = u')
  common : ∀ {s s'}, C.stores s s' → ∀ i < 5, (C.like s s').term ⟨i⟩ ⟨i⟩
  shape : ∀ {s s' t t'}, C.stores s s' → (C.like s s').term t t' →
    (C.like s s').Layer (s.shape t) (s'.shape t')
  free : ∀ {s s' t t'}, C.stores s s' → (C.like s s').term t t' →
    (C.like s s').Uses (s.freeVariables t) (s'.freeVariables t')
  pending : ∀ {s s' t t'}, C.stores s s' → (C.like s s').term t t' → s.pending t = s'.pending t'
  display : ∀ {s s' t t'}, C.stores s s' → (C.like s s').term t t' →
    C.text (s.display t) (s'.display t')
  comptime : ∀ {s s' v v'}, C.stores s s' → (C.like s s').var v v' →
    s.isComptime v = s'.isComptime v'
  name : ∀ {s s' v v'}, C.stores s s' → (C.like s s').var v v' →
    C.text (s.variableName v) (s'.variableName v')
  native : ∀ {s s' id}, C.stores s s' → (C.like s s').native id →
    Option.Rel (fun registered registered' =>
      C.Natives s s' registered.native registered'.native ∧
        (C.like s s').term registered.signature registered'.signature)
      (s.native? id) (s'.native? id)
  findNative : ∀ {s s'}, C.stores s s' → ∀ name, s.findNative? name = s'.findNative? name ∧
    ∀ id ∈ s.findNative? name, (C.like s s').native id
  intern : ∀ {s s' shape shape'}, C.stores s s' → (C.like s s').Layer shape shape' →
    C.stores (s.intern shape).2 (s'.intern shape').2 ∧
      (C.like (s.intern shape).2 (s'.intern shape').2).term (s.intern shape).1 (s'.intern shape').1
  freshVariable : ∀ {s s' name name'}, C.stores s s' → ∀ comptime, Option.Rel C.text name name' →
    C.stores (s.freshVariable comptime name).2 (s'.freshVariable comptime name').2 ∧
      (C.like (s.freshVariable comptime name).2 (s'.freshVariable comptime name').2).var
        (s.freshVariable comptime name).1 (s'.freshVariable comptime name').1
  remembered : ∀ {s s' t t' r r'}, C.stores s s' → (C.like s s').term t t' →
    (C.like s s').Restricted r r' →
    Option.Rel (C.Result (C.like s s').term) (s.types.get? t r) (s'.types.get? t' r')
  write : ∀ {s s'}, C.stores s s' → ∀ text, C.Result Eq (s.write text).1 (s'.write text).1 ∧
    C.stores (s.write text).2 (s'.write text).2

/-- The laws with that of remembering: whatever is remembered on both sides may be. -/
structure Lawful (C : Correspondence) : Prop extends Steady C where
  remember : ∀ {s s' t t' r r' answer answer'}, C.stores s s' → (C.like s s').term t t' →
    (C.like s s').Restricted r r' → C.Result (C.like s s').term answer answer' →
    C.stores { s with types := s.types.insert t r answer }
      { s' with types := s'.types.insert t' r' answer' }

/-- Contexts that bind what stands for each other, frame by frame. -/
theorem scoped_of_frames (hscope : C.scope = fun s s' => (C.like s s').Scope)
    (hmono : ∀ {s s' s₁ s₁'}, C.Leads s s' s₁ s₁' → (C.like s s').Le (C.like s₁ s₁'))
    (hordered : ∀ {s s'}, C.stores s s' → (C.like s s').Ordered) : C.Scoped where
  lasts hleads hctx := by
    rw [hscope] at hctx ⊢
    exact (hmono hleads).scope hctx
  child hctx := by
    rw [hscope] at hctx ⊢
    exact hctx.child
  get? hs hctx hv := by
    rw [hscope] at hctx
    exact hctx.get? (hordered hs) hv
  bind_cases hs hctx hv ht := by
    rw [hscope] at hctx ⊢
    exact hctx.bind_cases (hordered hs) hv ht

namespace Steady

variable {t t' : TermId} {v v' : VarId}

theorem isDeferred_eq {L : Likeness} {shape shape' : Shape TermId} (h : L.Layer shape shape') :
    shape.isDeferred = shape'.isDeferred := by cases h <;> rfl

theorem isValue (hC : C.Steady) (hs : C.stores s s') (ht : (C.like s s').term t t') :
    s.isConcrete t = s'.isConcrete t' ∧ s.isValue t = s'.isValue t' := by
  have hempty : (s.freeVariables t).isEmpty = (s'.freeVariables t').isEmpty :=
    rel_isEmpty (hC.free hs ht)
  have hconcrete : s.isConcrete t = s'.isConcrete t' := by
    rw [Store.isConcrete, Store.isConcrete, isDeferred_eq (hC.shape hs ht), hempty]
  exact ⟨hconcrete, by rw [Store.isValue, Store.isValue, hconcrete, hC.pending hs ht]⟩

theorem signature (hC : C.Steady) (hs : C.stores s s') {id : NativeId}
    (hid : (C.like s s').native id) :
    (C.like s s').term (s.nativeSignature id) (s'.nativeSignature id) := by
  have hnative := hC.native hs hid
  unfold Store.nativeSignature
  generalize s.native? id = registered, s'.native? id = registered' at hnative ⊢
  cases hnative with
  | some h => exact h.2
  | none => exact hC.common hs 3 (by decide)

end Steady

end Correspondence

end StagedCalculus
