import StagedCalculus.Proofs.Store.Sound
import StagedCalculus.Staging.Context

/-!
# Contexts over a store

A context is meant for one store. This module states

* that every term that a context binds belongs to the store (`Context.Within`);
* that two contexts differ in the values of hidden variables alone (`Context.AgreeBut`);
* and that no more than the type of such a value tells them apart (`Context.Alike`).

Entering a frame, binding a variable and growth of the store keep all of them.
-/

namespace StagedCalculus

theorem Frame.get?_eq_none {frame : Frame} {v : VarId} :
    frame.get? v = none ↔ ∀ b ∈ frame, b.1 ≠ v := by
  simp [get?]

namespace Context

variable {ctx ctx' bound : Context} {s s' : Store} {v : VarId} {t : TermId} {hidden : List VarId}

/-- Every term that the context binds belongs to the store. -/
def Within (ctx : Context) (s : Store) : Prop := ∀ v t, ctx.get? v = some t → s.Allocated t

theorem within_root (s : Store) : root.Within s := by
  intro v t h
  simp [get?, root, frames, Frame.get?] at h

theorem Within.bind (h : ctx.Within s) (ht : s.Allocated t) (hbind : ctx.bind? v t = some bound) :
    bound.Within s := by
  intro w u hu
  rw [get?_bind? hbind] at hu
  split at hu
  · cases hu
    exact ht
  · exact h w u hu

end Context

/-- Every free variable of the term belongs to the store. -/
def Store.Declares (s : Store) (t : TermId) : Prop :=
  ∀ v ∈ (s.freeVariables t).vars, v.index < s.vars.size

/-- A closed value whose type the store remembers. -/
structure Store.Knows (s : Store) (value ty : TermId) : Prop where
  allocated : s.Allocated value
  isValue : s.isValue value = true
  remembered : s.types.get? value [] = some (.ok ty)

instance (s : Store) (value ty : TermId) : Decidable (s.Knows value ty) :=
  decidable_of_iff (s.Allocated value ∧ s.isValue value = true ∧
      s.types.get? value [] = some (.ok ty))
    ⟨fun ⟨hvalue, hisValue, hty⟩ => ⟨hvalue, hisValue, hty⟩,
      fun h => ⟨h.allocated, h.isValue, h.remembered⟩⟩

theorem Store.Knows.mono {s s' : Store} {value ty : TermId} (h : s.Knows value ty)
    (hgrows : s.GrowsTo s') : s'.Knows value ty :=
  ⟨hgrows.allocated h.allocated, (hgrows.isValue_eq h.allocated).trans h.isValue,
    hgrows.types _ _ _ h.remembered⟩

/-- What two contexts may bind a hidden variable to: nothing, or values of one known type. -/
inductive Store.Twins (s : Store) : Option TermId → Option TermId → Prop
  | unbound : s.Twins none none
  | typed {value value' ty : TermId} : s.Knows value ty → s.Knows value' ty →
      s.Twins (some value) (some value')

namespace Context

variable {ctx ctx' bound : Context} {s s' : Store} {v : VarId} {t : TermId} {hidden : List VarId}

/-- The contexts bind the same clear terms, but for hidden variables, which they may bind to
anything. -/
structure AgreeBut (hidden : List VarId) (s : Store) (ctx ctx' : Context) : Prop where
  same : ∀ v, v ∉ hidden → ctx'.get? v = ctx.get? v
  innermost : ∀ v, v ∉ hidden → ctx'.innermost.get? v = ctx.innermost.get? v
  clear : ∀ v t, v ∉ hidden → ctx.get? v = some t → s.Clear hidden t

namespace AgreeBut

theorem mono (h : ctx.AgreeBut hidden s ctx')
    (hclear : ∀ t, s.Clear hidden t → s'.Clear hidden t) : ctx.AgreeBut hidden s' ctx' :=
  ⟨h.same, h.innermost, fun v t hv ht => hclear t (h.clear v t hv ht)⟩

theorem child (h : ctx.AgreeBut hidden s ctx') : ctx.child.AgreeBut hidden s ctx'.child := by
  refine ⟨fun v hv => ?_, fun _ _ => rfl, fun v t hv ht => ?_⟩
  · rw [get?_child, get?_child, h.same v hv]
  · rw [get?_child] at ht
    exact h.clear v t hv ht

theorem bind_cases (h : ctx.AgreeBut hidden s ctx') (hv : v ∉ hidden) (ht : s.Clear hidden t) :
    (∃ bound bound', ctx.bind? v t = some bound ∧ ctx'.bind? v t = some bound' ∧
      bound.AgreeBut hidden s bound') ∨ ctx.bind? v t = none ∧ ctx'.bind? v t = none := by
  have hinner := h.innermost v hv
  cases hget : ctx.innermost.get? v with
  | some value =>
    rw [hget] at hinner
    exact Or.inr ⟨by simp [bind?, hget], by simp [bind?, hinner]⟩
  | none =>
    rw [hget] at hinner
    have hbind : ctx.bind? v t = some { ctx with innermost := (v, t) :: ctx.innermost } := by
      simp [bind?, hget]
    have hbind' : ctx'.bind? v t = some { ctx' with innermost := (v, t) :: ctx'.innermost } := by
      simp [bind?, hinner]
    refine Or.inl ⟨_, _, hbind, hbind', fun w hw => ?_, fun w hw => ?_, fun w u hw hu => ?_⟩
    · rw [get?_bind? hbind, get?_bind? hbind', h.same w hw]
    · by_cases hwv : v = w
      · simp [Frame.get?, hwv]
      · simpa [Frame.get?, hwv] using h.innermost w hw
    · rw [get?_bind? hbind] at hu
      split at hu
      · cases hu
        exact ht
      · exact h.clear w u hw hu

/-- A hidden variable may be bound in one of the contexts. -/
theorem bind_hidden (h : ctx.AgreeBut hidden s ctx') (hv : v ∈ hidden)
    (hbind : ctx'.bind? v t = some bound) : ctx.AgreeBut hidden s bound := by
  refine ⟨fun w hw => ?_, fun w hw => ?_, h.clear⟩
  · have hne : w ≠ v := fun heq => hw (heq ▸ hv)
    rw [get?_bind? hbind, if_neg hne, h.same w hw]
  · have hne : v ≠ w := fun heq => hw (heq ▸ hv)
    have hinnermost : bound.innermost = (v, t) :: ctx'.innermost := by
      unfold bind? at hbind
      split at hbind
      · cases hbind
      · cases hbind
        rfl
    simpa [hinnermost, Frame.get?, hne] using h.innermost w hw

end AgreeBut

theorem root_agreeBut (hidden : List VarId) (s : Store) : root.AgreeBut hidden s root :=
  ⟨fun _ _ => rfl, fun _ _ => rfl, fun _ _ _ h => (nomatch h)⟩

/-- The contexts bind the same clear terms, but for hidden variables. No more than the type tells
apart what they bind these to. -/
structure Alike (hidden : List VarId) (s : Store) (ctx ctx' : Context) : Prop where
  same : ∀ v, v ∉ hidden → ctx'.get? v = ctx.get? v
  clear : ∀ v t, v ∉ hidden → ctx.get? v = some t → s.Clear hidden t
  twins : ∀ v ∈ hidden, s.Twins (ctx.get? v) (ctx'.get? v)

/-- Variables that are not hidden can be bound in both contexts or in neither. -/
structure Paired (hidden : List VarId) (s : Store) (ctx ctx' : Context) : Prop
    extends Alike hidden s ctx ctx' where
  innermost : ∀ v, v ∉ hidden → ctx'.innermost.get? v = ctx.innermost.get? v

theorem Alike.allocated (h : Alike hidden s ctx ctx') (hget : ctx.get? v = some t) :
    s.Allocated t := by
  by_cases hv : v ∈ hidden
  · have htwins := h.twins v hv
    rw [hget] at htwins
    generalize ctx'.get? v = other at htwins
    cases htwins with
    | typed hknows _ => exact hknows.allocated
  · exact (h.clear v t hv hget).allocated

theorem root_alike (hidden : List VarId) (s : Store) : Alike hidden s root root :=
  ⟨fun _ _ => rfl, fun _ _ _ h => (nomatch h), fun _ _ => .unbound⟩

/-- The terms that the context binds have variables of the store only. -/
def Declared (ctx : Context) (s : Store) : Prop := ∀ v t, ctx.get? v = some t → s.Declares t

/-- A context that is like another one is like itself. -/
theorem Alike.left (h : Alike hidden s ctx ctx') : Alike hidden s ctx ctx := by
  refine ⟨fun _ _ => rfl, h.clear, fun v hv => ?_⟩
  have htwins := h.twins v hv
  generalize ctx.get? v = value, ctx'.get? v = value' at htwins ⊢
  cases htwins with
  | unbound => exact .unbound
  | typed hknows _ => exact .typed hknows hknows

/-- With nothing to hide a context is like itself. -/
theorem Within.alike (h : ctx.Within s) : Alike [] s ctx ctx :=
  ⟨fun _ _ => rfl, fun v t _ ht => .nil (h v t ht), nofun⟩

@[grind →]
theorem Alike.mono (h : Alike hidden s ctx ctx') (hgrows : s.GrowsTo s') :
    Alike hidden s' ctx ctx' := by
  refine ⟨h.same, fun v t hv ht => hgrows.clear (h.clear v t hv ht), fun v hv => ?_⟩
  have htwins := h.twins v hv
  generalize ctx.get? v = value, ctx'.get? v = value' at htwins ⊢
  cases htwins with
  | unbound => exact .unbound
  | typed hknows hknows' => exact .typed (hknows.mono hgrows) (hknows'.mono hgrows)

@[grind →]
theorem Paired.mono (h : Paired hidden s ctx ctx') (hgrows : s.GrowsTo s') :
    Paired hidden s' ctx ctx' := ⟨h.toAlike.mono hgrows, h.innermost⟩

theorem Alike.child (h : Alike hidden s ctx ctx') : Paired hidden s ctx.child ctx'.child := by
  refine ⟨⟨fun v hv => ?_, fun v t hv ht => ?_, fun v hv => ?_⟩, fun _ _ => rfl⟩
  · rw [get?_child, get?_child, h.same v hv]
  · rw [get?_child] at ht
    exact h.clear v t hv ht
  · simpa only [get?_child] using h.twins v hv

theorem Paired.agreeBut (h : Paired hidden s ctx ctx') : ctx.AgreeBut hidden s ctx' :=
  ⟨h.same, h.innermost, h.clear⟩

/-- A variable that is not hidden is bound in both contexts, or is bound already in both. -/
theorem Paired.bind_cases (h : Paired hidden s ctx ctx') (ht : s.Clear hidden t) (hv : v ∉ hidden) :
    (∃ bound bound', ctx.bind? v t = some bound ∧ ctx'.bind? v t = some bound' ∧
      Paired hidden s bound bound') ∨
    ctx.bind? v t = none ∧ ctx'.bind? v t = none := by
  obtain ⟨bound, bound', hbind, hbind', hbound⟩ | hnone := h.agreeBut.bind_cases hv ht
  · refine Or.inl ⟨bound, bound', hbind, hbind', ⟨hbound.same, hbound.clear, fun w hw => ?_⟩,
      hbound.innermost⟩
    have hne : w ≠ v := fun heq => hv (heq ▸ hw)
    rw [get?_bind? hbind, get?_bind? hbind', if_neg hne, if_neg hne]
    exact h.twins w hw
  · exact Or.inr hnone

end Context

end StagedCalculus
