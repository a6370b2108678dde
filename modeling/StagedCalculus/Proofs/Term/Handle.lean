import StagedCalculus.Proofs.Term.Likeness
import StagedCalculus.Proofs.Term.Parts

/-!
# Handles of a node

A node mentions handles of four kinds: subterms, variables, natives and nominal types. This module
lists them (`Shape.handles`, `Context.handles`), and relates a node to itself if all of its handles
belong to some collection (`Likeness.diagonal`).
-/

namespace StagedCalculus

/-- A handle of any kind. -/
inductive Handle where
  | term (t : TermId)
  | var (v : VarId)
  | native (id : NativeId)
  | nominal (name : String) (id : Nat)

namespace Shape

variable {α β : Type}

/-- The native or the nominal type that the node is, if it is one. -/
def constants : Shape α → List Handle
  | .native id => [.native id]
  | .namedType name id => [.nominal name id]
  | _ => []

/-- The handles that a node mentions. -/
def handles (shape : Shape TermId) : List Handle :=
  shape.children.map .term ++ shape.ownVars.map .var ++ shape.constants

theorem forall_mem_handles {owns : Handle → Prop} {shape : Shape TermId} :
    (∀ h ∈ shape.handles, owns h) ↔ (∀ child ∈ shape.children, owns (.term child)) ∧
      (∀ v ∈ shape.ownVars, owns (.var v)) ∧ ∀ h ∈ shape.constants, owns h := by
  simp [handles, or_imp, forall_and]

end Shape

/-- The variables that a context binds and the terms that it binds them to. -/
def Context.handles (ctx : Context) : List Handle :=
  ctx.frames.flatten.flatMap fun b => [.var b.1, .term b.2]

/-! ## A node beside itself -/

/-- Lists whose entries are equal and satisfy a condition. -/
theorem rel_diagonal {α : Type} {R : α → α → Prop} {P : α → Prop}
    (hR : ∀ {a b}, R a b ↔ b = a ∧ P a) {l l' : List α} :
    List.Forall₂ R l l' ↔ l' = l ∧ ∀ a ∈ l, P a := by
  induction l generalizing l' with
  | nil => simp
  | cons a l ih =>
    rw [List.forall₂_cons_left_iff]
    simp only [hR, ih, List.mem_cons, forall_eq_or_imp]
    constructor
    · rintro ⟨b, k, ⟨rfl, ha⟩, ⟨rfl, hl⟩, rfl⟩
      exact ⟨rfl, ha, hl⟩
    · rintro ⟨rfl, ha, hl⟩
      exact ⟨a, l, ⟨rfl, ha⟩, ⟨rfl, hl⟩, rfl⟩

namespace Likeness

/-- Every handle of a collection stands for itself. -/
def diagonal (owns : Handle → Prop) : Likeness where
  var v v' := v' = v ∧ owns (.var v)
  term t t' := t' = t ∧ owns (.term t)
  native id := owns (.native id)
  nominal name id := owns (.nominal name id)

variable {owns : Handle → Prop}

theorem var_diagonal {v v' : VarId} :
    (diagonal owns).var v v' ↔ v' = v ∧ owns (.var v) := Iff.rfl

theorem term_diagonal {t t' : TermId} :
    (diagonal owns).term t t' ↔ t' = t ∧ owns (.term t) := Iff.rfl

theorem native_diagonal {id : NativeId} : (diagonal owns).native id ↔ owns (.native id) := Iff.rfl

theorem nominal_diagonal {name : String} {id : Nat} :
    (diagonal owns).nominal name id ↔ owns (.nominal name id) := Iff.rfl

theorem vars_diagonal {vars vars' : List VarId} :
    List.Forall₂ (diagonal owns).var vars vars' ↔ vars' = vars ∧ ∀ v ∈ vars, owns (.var v) :=
  rel_diagonal Iff.rfl

theorem terms_diagonal {terms terms' : List TermId} :
    List.Forall₂ (diagonal owns).term terms terms' ↔
      terms' = terms ∧ ∀ t ∈ terms, owns (.term t) := rel_diagonal Iff.rfl

theorem binding_diagonal {b b' : VarId × TermId} :
    (diagonal owns).Binding b b' ↔ b' = b ∧ owns (.var b.1) ∧ owns (.term b.2) := by
  constructor
  · rintro ⟨⟨hvar, hv⟩, hterm, ht⟩
    exact ⟨Prod.ext hvar hterm, hv, ht⟩
  · rintro ⟨rfl, hv, ht⟩
    exact ⟨⟨rfl, hv⟩, rfl, ht⟩

theorem bindings_diagonal {b b' : List (VarId × TermId)} :
    (diagonal owns).Bindings b b' ↔ b' = b ∧ ∀ e ∈ b, owns (.var e.1) ∧ owns (.term e.2) :=
  rel_diagonal binding_diagonal

theorem named_diagonal {c c' : List (String × TermId)} :
    (diagonal owns).Named c c' ↔ c' = c ∧ ∀ e ∈ c, owns (.term e.2) := by
  refine rel_diagonal ⟨?_, ?_⟩
  · rintro ⟨hname, hterm, ht⟩
    exact ⟨Prod.ext hname.symm hterm, ht⟩
  · rintro ⟨rfl, ht⟩
    exact ⟨rfl, rfl, ht⟩

theorem positions_diagonal {slots slots' : List (Slot TermId)} :
    List.Forall₂ (diagonal owns).Position slots slots' ↔
      slots' = slots ∧ ∀ slot ∈ slots, owns (.term slot.ty) ∧ ∀ v ∈ slot.binds, owns (.var v) := by
  refine rel_diagonal ?_
  rintro ⟨ty, comptime, binds⟩ ⟨ty', comptime', binds'⟩
  constructor
  · rintro ⟨⟨hty, hown⟩, hcomptime, hbinds⟩
    cases hbinds with
    | none => exact ⟨by simp_all, hown, by simp⟩
    | some hv => exact ⟨by simp_all [diagonal], hown, by simpa using hv.2⟩
  · rintro ⟨heq, hown, hbinds⟩
    cases heq
    refine ⟨⟨rfl, hown⟩, rfl, ?_⟩
    cases binds with
    | none => exact .none
    | some v => exact .some ⟨rfl, hbinds v rfl⟩

/-- A node corresponds to itself exactly if it mentions handles of the collection only. -/
theorem layer_diagonal {shape shape' : Shape TermId} :
    (diagonal owns).Layer shape shape' ↔ shape' = shape ∧ ∀ h ∈ shape.handles, owns h := by
  rw [Shape.forall_mem_handles]
  constructor
  · intro h
    cases h <;>
      simp only [bindings_diagonal, vars_diagonal, terms_diagonal, named_diagonal,
        positions_diagonal, var_diagonal, term_diagonal, native_diagonal, nominal_diagonal] at * <;>
      simp [Shape.children, Shape.ownVars, Shape.leaf, Shape.binders, Shape.constants] <;>
      grind
  · rintro ⟨rfl, hchildren, hvars, hconstants⟩
    cases shape' <;> constructor <;>
      simp only [bindings_diagonal, vars_diagonal, terms_diagonal, named_diagonal,
        positions_diagonal, var_diagonal, term_diagonal, native_diagonal, nominal_diagonal] <;>
      simp [Shape.children, Shape.ownVars, Shape.leaf, Shape.binders, Shape.constants] at * <;>
      grind

theorem scope_diagonal {ctx : Context} (h : ∀ h ∈ ctx.handles, owns h) :
    (diagonal owns).Scope ctx ctx := by
  have hframe : ∀ frame ∈ ctx.frames, (diagonal owns).Bindings frame frame := by
    intro frame hframe
    refine bindings_diagonal.2 ⟨rfl, fun b hb => ?_⟩
    have hmem : b ∈ ctx.frames.flatten := List.mem_flatten.2 ⟨frame, hframe, hb⟩
    exact ⟨h _ (List.mem_flatMap.2 ⟨b, hmem, by simp⟩), h _ (List.mem_flatMap.2 ⟨b, hmem, by simp⟩)⟩
  refine ⟨hframe _ List.mem_cons_self, ?_⟩
  exact List.forall₂_same.2 fun frame houter => hframe _ (List.mem_cons_of_mem _ houter)

/-- Every variable stands for itself. -/
theorem ordered_diagonal : (diagonal owns).Ordered := by
  rintro v _ w _ ⟨rfl, -⟩ ⟨rfl, -⟩
  exact Iff.rfl

theorem restricted_diagonal {r r' : Restriction} (h : (diagonal owns).Restricted r r') :
    r' = r := by
  induction h with
  | nil => rfl
  | @cons e e' rest rest' he _ ih =>
    have hvalue : e'.2 = e.2 := by
      have hobserved := he.value
      generalize e.2 = o, e'.2 = o' at hobserved ⊢
      cases hobserved with
      | unbound => rfl
      | bound ht => rw [ht.1]
      | typed hty => rw [hty.1]
    rw [ih, Prod.ext he.var.1 hvalue]

end Likeness

end StagedCalculus
