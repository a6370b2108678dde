import StagedCalculus.Proofs.Staging.Alongside

/-!
# Two extensions of one store

This module compares two stores that have grown from one store, each with a term of its own, and run
through the same steps since. They differ in the numbers of terms at most, so that corresponding
terms unfold to the same tree.

* `Store.Keyed`: what is remembered was asked about terms of the store;
* `Renaming.identity`: no variable gets another name;
* `Renaming.tree_eq`: then corresponding terms are the same tree;
* `Renaming.alongside_interned`: two such stores run side by side.
-/

namespace StagedCalculus

open Attempt Correspondence

/-! ## Layers that unfold alike -/

namespace Likeness

variable {L : Likeness} {shape shape' : Shape TermId} {β : Type} {f f' : TermId → β}

theorem map_eq_of_rel {α γ : Type} {R : α → α → Prop} {l l' : List α} {g g' : α → γ}
    (h : List.Forall₂ R l l') (hg : ∀ a a', R a a' → g a = g' a') : l.map g = l'.map g' := by
  induction h with
  | nil => rfl
  | cons hhead _ ih => rw [List.map_cons, List.map_cons, hg _ _ hhead, ih]

/-- Shapes with the same variables become one when what stands for each other becomes the same. -/
theorem Layer.map_eq (h : L.Layer shape shape') (hvar : ∀ {v v'}, L.var v v' → v' = v)
    (hterm : ∀ {t t'}, L.term t t' → f t = f' t') : shape.map f = shape'.map f' := by
  have hbinding : ∀ b b', L.Binding b b' → (b.1, f b.2) = (b'.1, f' b'.2) := fun b b' hb => by
    rw [hvar hb.var, hterm hb.term]
  have hcomponent : ∀ c c', L.Component c c' → (c.1, f c.2) = (c'.1, f' c'.2) := fun c c' hc => by
    rw [hc.name, hterm hc.term]
  have hposition : ∀ p p', L.Position p p' → p.map f = p'.map f' := fun p p' hp => by
    have hbinds : p.binds = p'.binds := by
      have hsame := hp.binds
      generalize p.binds = binds, p'.binds = binds' at hsame
      cases hsame with
      | none => rfl
      | some hv => rw [hvar hv]
    rw [Slot.map, Slot.map, hterm hp.ty, hp.comptime, hbinds]
  cases h with
  | «variable» hv => rw [hvar hv, Shape.map, Shape.map]
  | abstraction hlets hparams hbody =>
    simp only [Shape.map, map_eq_of_rel hlets hbinding, map_eq_of_rel hparams hbinding, hterm hbody]
  | forAll hvars hbody =>
    obtain rfl := List.forall₂_eq_eq_eq ▸ hvars.imp fun _ _ hv => (hvar hv).symm
    simp only [Shape.map, hterm hbody]
  | application hcallee hargs =>
    simp only [Shape.map, hterm hcallee, map_eq_of_rel hargs fun _ _ => hterm]
  | projection field hdomain => simp only [Shape.map, hterm hdomain]
  | cast hsubject htarget => simp only [Shape.map, hterm hsubject, hterm htarget]
  | unitValue hty => simp only [Shape.map, hterm hty]
  | productValue hty hfields =>
    simp only [Shape.map, hterm hty, map_eq_of_rel hfields hcomponent]
  | deferred availability hty => simp only [Shape.map, hterm hty]
  | functionType hparams hresult =>
    simp only [Shape.map, map_eq_of_rel hparams hposition, hterm hresult]
  | productType hmembers => simp only [Shape.map, map_eq_of_rel hmembers hcomponent]
  | _ => rfl

end Likeness

/-! ## Remembered queries -/

namespace Store

variable {s s' : Store}

/-- Every query that is remembered is about handles of the store. -/
def Keyed (s : Store) : Prop := ∀ t r answer, s.types.get? t r = some answer →
  s.Allocated t ∧ (Likeness.diagonal s.Owns).Restricted r r

theorem Keyed.mono (h : s.Keyed) (hle : s.Extends s') (htypes : s'.types = s.types) : s'.Keyed := by
  intro t r answer hget
  rw [htypes] at hget
  obtain ⟨ht, hr⟩ := h t r answer hget
  exact ⟨hle.allocated ht, (Correspondence.le_diagonal fun _ => hle.owns).restricted hr⟩

theorem Built.keyed (h : s.Built) : s.Keyed := by
  intro t r answer hget
  simp [h.types_eq] at hget

end Store

namespace Correspondence

/-- Intact stores whose remembered queries are about their own handles. -/
def keyed : Correspondence := (whole.given Store.Keyed).correspondence

theorem lawful_keyed : keyed.Lawful where
  toSteady := Enclosure.correspondence_steady <|
    Enclosure.steady_given lawful_whole.toSteady fun _ hknown hle htypes _ => hknown.mono hle htypes
  remember := by
    rintro _ s _ t r r' answer answer' ⟨rfl, hs⟩ ⟨rfl, ht⟩ hr hanswer
    obtain rfl := Likeness.restricted_diagonal hr
    obtain ⟨rfl, hty⟩ := Enclosure.result_eq hanswer
    have hle : s.Extends { s with types := s.types.insert t r' answer' } := .of_eq rfl rfl rfl
    refine ⟨rfl, Store.intact_remember hs.1 hty, fun u q b hget => ?_⟩
    rw [TypeCache.get?_insert] at hget
    split at hget
    · rename_i hkey
      obtain ⟨rfl, rfl⟩ := hkey
      exact ⟨ht, hr⟩
    · exact hs.2 u q b hget

end Correspondence

/-! ## Variables that keep their names -/

namespace Renaming

variable {base s s' : Store}

/-- Every variable of a store keeps its name. -/
def identity (h : base.Standard) : Renaming base where
  pairs v v' := v' = v ∧ v.index < base.vars.size
  builtin v hv := ⟨rfl, Nat.lt_of_lt_of_le hv h.extends_initial.size_vars⟩
  declared := by
    rintro v _ ⟨rfl, hv⟩
    exact ⟨hv, hv⟩
  comptime := by
    rintro v _ ⟨rfl, -⟩
    rfl

variable {h : base.Standard}

theorem keepsOrder_identity : (identity h).KeepsOrder := by
  rintro v _ w _ ⟨rfl, -⟩ ⟨rfl, -⟩
  exact Iff.rfl

/-- Terms with the same variables unfold to the same tree. -/
theorem tree_eq {t t' : TermId} (hs : s.Linked) (hs' : s'.Linked)
    (ht : (identity h).Renames s s' t t') : s.tree t = s'.tree t' := by
  induction t using hs.induct generalizing t' with
  | h t ih =>
    have hlayer := ht.layer.among
    have hmap : (s.shape t).map s.tree = (s'.shape t').map s'.tree := by
      refine hlayer.map_eq (fun hv => ?_) fun hsub => ih _ hsub.2.1 hsub.1
      rcases hv with ⟨rfl, -⟩ | ⟨-, -, rfl⟩ <;> rfl
    rw [hs.tree_eq, hs'.tree_eq, ← Shape.anonymous_map, ← Shape.anonymous_map, hmap]

/-- What the base has handed out stands for itself. -/
theorem le_identity (hbase : base.Intact) (hs : base.Extends s) (hs' : base.Extends s') :
    (Likeness.diagonal base.Owns).Le ((identity h).like s s') where
  var hv := Or.inl ⟨hv.1, hv.2⟩
  term ht := by
    obtain ⟨rfl, ht⟩ := ht
    exact .same hbase (.refl _) (fun v hv => ⟨rfl, hv⟩) hs hs' ht
  native hid := hid
  nominal hid := hid

theorem alongside_same (hbase : base.Intact) (hkeyed : base.Keyed) :
    (identity h).Alongside base base := by
  have hle := le_identity (h := h) hbase (.refl base) (.refl base)
  have hagree : ∀ {t r answer}, base.types.get? t r = some answer →
      (identity h).Agree (answer, base) (answer, base) := by
    intro t r answer hget
    cases answer with
    | ok ty => exact .gives (hle.term ⟨rfl, hbase.types _ _ _ hget⟩)
    | error e => exact .fails (.refl (fun _ => trivial) e)
  have hmemory : ∀ {t r answer}, base.types.get? t r = some answer →
      (identity h).Renames base base t t ∧ ((identity h).like base base).Restricted r r := by
    intro t r answer hget
    obtain ⟨ht, hr⟩ := hkeyed t r answer hget
    exact ⟨hle.term ⟨rfl, ht⟩, hle.restricted hr⟩
  refine ⟨keepsOrder_identity, hbase, hbase, .refl _, .refl _, ⟨rfl, rfl⟩, rfl, rfl, rfl,
    fun hv => ?_, fun hget => ?_, fun hget => ?_⟩
  · rcases hv with ⟨rfl, -⟩ | ⟨-, -, rfl⟩ <;> rfl
  · exact ⟨_, _, _, (hmemory hget).1, (hmemory hget).2, hget, hagree hget⟩
  · exact ⟨_, _, _, (hmemory hget).1, (hmemory hget).2, hget, hagree hget⟩

/-- A store with one term more runs alongside the same store with another term more. -/
theorem alongside_interned (hbase : base.Intact) (hkeyed : base.Keyed) {shape shape' : Shape TermId}
    (hshape : base.Covers shape) (hshape' : base.Covers shape') :
    (identity h).Alongside (base.intern shape).2 (base.intern shape').2 := by
  have hsame := alongside_same (h := h) hbase hkeyed
  refine hsame.step (Store.intact_intern hbase hshape) (Store.intact_intern hbase hshape')
    (Store.extends_intern _ _) (Store.extends_intern _ _) (Store.natives_intern _ _)
    (Store.natives_intern _ _) ?_ ?_ ?_ ?_ (Store.types_intern _ _) (Store.types_intern _ _)
  · rw [Store.config_intern, Store.config_intern]
  · rw [Store.output_intern, Store.output_intern]
  · rw [Store.vars_intern, Store.vars_intern]
  · exact hsame.comptime_of_vars (Store.vars_intern _ _) (Store.vars_intern _ _)

end Renaming

end StagedCalculus
