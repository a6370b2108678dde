import StagedCalculus.Proofs.Term.Handle

/-!
# Nodes of one form

Two nodes of one form (`Likeness.Layer`) differ in handles alone. So whatever is computed from a
node and from results for its subterms differs no more than these results do.

- `Likeness.Layer.flip`, `Likeness.Layer.among`: a layer read backwards, and with its subterms in
  view;
- `Likeness.Layer.owns`: what the handles of related nodes have in common;
- `Likeness.Layer.right_unique`: handles that stand for one handle each make nodes that stand for
  one node each;
- `Likeness.Layer.pending_eq`, `Likeness.Layer.uses`: the facts that a store keeps of a node.
-/

namespace StagedCalculus

namespace Likeness

variable {L : Likeness} {shape shape' : Shape TermId}

/-! ## Backwards -/

/-- The handles of the second store in the first place. -/
def flip (L : Likeness) : Likeness where
  var v v' := L.var v' v
  term t t' := L.term t' t
  native := L.native
  nominal := L.nominal

theorem bindings_flip {b b' : List (VarId × TermId)} (h : L.Bindings b b') :
    L.flip.Bindings b' b := (h.imp fun _ _ hb => ⟨hb.var, hb.term⟩).flip

theorem named_flip {c c' : List (String × TermId)} (h : L.Named c c') : L.flip.Named c' c :=
  (h.imp fun _ _ hc => ⟨hc.name.symm, hc.term⟩).flip

theorem Position.flip {slot slot' : Slot TermId} (h : L.Position slot slot') :
    L.flip.Position slot' slot := by
  refine ⟨h.ty, h.comptime.symm, ?_⟩
  have hbinds := h.binds
  generalize slot.binds = binds, slot'.binds = binds' at hbinds ⊢
  cases hbinds with
  | some hv => exact .some hv
  | none => exact .none

theorem Layer.flip (h : L.Layer shape shape') : L.flip.Layer shape' shape := by
  cases h with
  | «variable» hv => exact .variable hv
  | abstraction hlets hparams hbody =>
    exact .abstraction (bindings_flip hlets) (bindings_flip hparams) hbody
  | forAll hvars hbody => exact .forAll (hvars.imp fun _ _ hv => hv).flip hbody
  | application hcallee hargs => exact .application hcallee (hargs.imp fun _ _ ht => ht).flip
  | projection field hdomain => exact .projection field hdomain
  | cast hsubject htarget => exact .cast hsubject htarget
  | unitValue hty => exact .unitValue hty
  | productValue hty hfields => exact .productValue hty (named_flip hfields)
  | deferred availability hty => exact .deferred availability hty
  | native hid => exact .native hid
  | functionType hparams hresult =>
    exact .functionType (hparams.imp fun _ _ hslot => hslot.flip).flip hresult
  | productType hmembers => exact .productType (named_flip hmembers)
  | namedType hname => exact .namedType hname
  | _ => constructor

/-! ## Subterms -/

theorem rel_among {α β : Type} {R : α → β → Prop} {l : List α} {l' : List β}
    (h : List.Forall₂ R l l') : List.Forall₂ (fun a b => R a b ∧ a ∈ l ∧ b ∈ l') l l' := by
  rw [List.forall₂_iff_zip] at h ⊢
  exact ⟨h.1, fun hab => ⟨h.2 hab, List.of_mem_zip hab⟩⟩

/-- The terms are among some terms of either store. -/
def among (L : Likeness) (terms terms' : List TermId) : Likeness :=
  { L with term := fun t t' => L.term t t' ∧ t ∈ terms ∧ t' ∈ terms' }

/-- The subterms of a node stand for subterms. -/
theorem Layer.among (h : L.Layer shape shape') :
    (L.among shape.children shape'.children).Layer shape shape' := by
  cases h with
  | «variable» hv => exact .variable hv
  | abstraction hlets hparams hbody =>
    refine .abstraction ((rel_among hlets).imp fun b b' hb => ⟨hb.1.var, hb.1.term, ?_⟩)
      ((rel_among hparams).imp fun b b' hb => ⟨hb.1.var, hb.1.term, ?_⟩) ⟨hbody, ?_⟩
    all_goals simp [Shape.children]
    all_goals grind
  | forAll hvars hbody => exact .forAll hvars ⟨hbody, by simp [Shape.children]⟩
  | application hcallee hargs =>
    refine .application ⟨hcallee, by simp [Shape.children]⟩
      ((rel_among hargs).imp fun t t' ht => ⟨ht.1, ?_⟩)
    simp [Shape.children, ht.2]
  | projection field hdomain => exact .projection field ⟨hdomain, by simp [Shape.children]⟩
  | cast hsubject htarget =>
    exact .cast ⟨hsubject, by simp [Shape.children]⟩ ⟨htarget, by simp [Shape.children]⟩
  | unitValue hty => exact .unitValue ⟨hty, by simp [Shape.children]⟩
  | productValue hty hfields =>
    refine .productValue ⟨hty, by simp [Shape.children]⟩
      ((rel_among hfields).imp fun c c' hc => ⟨hc.1.name, hc.1.term, ?_⟩)
    simp [Shape.children]
    grind
  | deferred availability hty => exact .deferred availability ⟨hty, by simp [Shape.children]⟩
  | native hid => exact .native hid
  | functionType hparams hresult =>
    refine .functionType ((rel_among hparams).imp fun slot slot' hslot =>
      ⟨⟨hslot.1.ty, ?_⟩, hslot.1.comptime, hslot.1.binds⟩) ⟨hresult, by simp [Shape.children]⟩
    simp [Shape.children]
    grind
  | productType hmembers =>
    refine .productType ((rel_among hmembers).imp fun c c' hc => ⟨hc.1.name, hc.1.term, ?_⟩)
    simp [Shape.children]
    grind
  | namedType hname => exact .namedType hname
  | _ => constructor

/-! ## One side alone -/

theorem rel_self {α β : Type} {R : α → β → Prop} {S : α → α → Prop} {l : List α} {l' : List β}
    (h : List.Forall₂ R l l') (hself : ∀ {a b}, R a b → S a a) : List.Forall₂ S l l := by
  induction h with
  | nil => exact .nil
  | cons hr _ ih => exact .cons (hself hr) ih

section Self

variable {K : Likeness} (hvar : ∀ {v v'}, L.var v v' → K.var v v)
  (hterm : ∀ {t t'}, L.term t t' → K.term t t) (hnative : ∀ {id}, L.native id → K.native id)
  (hnominal : ∀ {name id}, L.nominal name id → K.nominal name id)

include hvar hterm hnative hnominal

/-- A node whose handles stand for themselves elsewhere stands for itself there. -/
theorem Layer.self (h : L.Layer shape shape') : K.Layer shape shape := by
  have hbindings : ∀ {b b'}, L.Bindings b b' → K.Bindings b b := fun h =>
    rel_self h fun hb => ⟨hvar hb.var, hterm hb.term⟩
  have hnamed : ∀ {c c'}, L.Named c c' → K.Named c c := fun h =>
    rel_self h fun hc => ⟨rfl, hterm hc.term⟩
  have hposition : ∀ {slot slot' : Slot TermId}, L.Position slot slot' → K.Position slot slot := by
    intro slot slot' hslot
    refine ⟨hterm hslot.ty, rfl, ?_⟩
    have hbinds := hslot.binds
    generalize slot.binds = binds, slot'.binds = binds' at hbinds ⊢
    cases hbinds with
    | some hv => exact .some (hvar hv)
    | none => exact .none
  cases h with
  | «variable» hv => exact .variable (hvar hv)
  | abstraction hlets hparams hbody =>
    exact .abstraction (hbindings hlets) (hbindings hparams) (hterm hbody)
  | forAll hvars hbody => exact .forAll (rel_self hvars hvar) (hterm hbody)
  | application hcallee hargs => exact .application (hterm hcallee) (rel_self hargs hterm)
  | projection field hdomain => exact .projection field (hterm hdomain)
  | cast hsubject htarget => exact .cast (hterm hsubject) (hterm htarget)
  | unitValue hty => exact .unitValue (hterm hty)
  | productValue hty hfields => exact .productValue (hterm hty) (hnamed hfields)
  | deferred availability hty => exact .deferred availability (hterm hty)
  | native hid => exact .native (hnative hid)
  | functionType hparams hresult =>
    exact .functionType (rel_self hparams hposition) (hterm hresult)
  | productType hmembers => exact .productType (hnamed hmembers)
  | namedType hname => exact .namedType (hnominal hname)
  | _ => constructor

end Self

/-- What the handles of related nodes have in common. -/
theorem Layer.owns {owns : Handle → Prop} (h : L.Layer shape shape')
    (hvar : ∀ {v v'}, L.var v v' → owns (.var v)) (hterm : ∀ {t t'}, L.term t t' → owns (.term t))
    (hnative : ∀ {id}, L.native id → owns (.native id))
    (hnominal : ∀ {name id}, L.nominal name id → owns (.nominal name id)) :
    ∀ handle ∈ shape.handles, owns handle := by
  have hself : (diagonal owns).Layer shape shape :=
    h.self (fun hv => ⟨rfl, hvar hv⟩) (fun ht => ⟨rfl, hterm ht⟩) hnative hnominal
  exact (layer_diagonal.1 hself).2

/-! ## Uniqueness -/

section Unique

variable (hvar : Relator.RightUnique L.var) (hterm : Relator.RightUnique L.term)

include hterm in
theorem right_unique_component : Relator.RightUnique L.Component := fun _ _ _ h h' =>
  Prod.ext (h.name.symm.trans h'.name) (hterm h.term h'.term)

include hvar hterm

theorem right_unique_binding : Relator.RightUnique L.Binding := fun _ _ _ h h' =>
  Prod.ext (hvar h.var h'.var) (hterm h.term h'.term)

theorem right_unique_position : Relator.RightUnique L.Position := by
  rintro ⟨ty, comptime, binds⟩ ⟨ty', comptime', binds'⟩ ⟨ty'', comptime'', binds''⟩ h h'
  have hbinds : binds' = binds'' := by
    cases h.binds with
    | none =>
      cases h'.binds
      rfl
    | some hv =>
      cases h'.binds with
      | some hv' => rw [hvar hv hv']
  simp only [Slot.mk.injEq]
  exact ⟨hterm h.ty h'.ty, h.comptime.symm.trans h'.comptime, hbinds⟩

/-- What a node stands for is determined by what its handles stand for. -/
theorem Layer.right_unique : Relator.RightUnique L.Layer := by
  intro shape a b h h'
  have hbindings := (right_unique_binding hvar hterm).forall₂
  have hnamed := (right_unique_component hterm).forall₂
  cases h with
  | «variable» hv =>
    cases h' with
    | «variable» hv' => rw [hvar hv hv']
  | abstraction hlets hparams hbody =>
    cases h' with
    | abstraction hlets' hparams' hbody' =>
      rw [hbindings hlets hlets', hbindings hparams hparams', hterm hbody hbody']
  | forAll hvars hbody =>
    cases h' with
    | forAll hvars' hbody' =>
      rw [hvar.forall₂ hvars hvars', hterm hbody hbody']
  | application hcallee hargs =>
    cases h' with
    | application hcallee' hargs' =>
      rw [hterm hcallee hcallee', hterm.forall₂ hargs hargs']
  | projection field hdomain =>
    cases h' with
    | projection _ hdomain' => rw [hterm hdomain hdomain']
  | cast hsubject htarget =>
    cases h' with
    | cast hsubject' htarget' => rw [hterm hsubject hsubject', hterm htarget htarget']
  | unitValue hty =>
    cases h' with
    | unitValue hty' => rw [hterm hty hty']
  | productValue hty hfields =>
    cases h' with
    | productValue hty' hfields' => rw [hterm hty hty', hnamed hfields hfields']
  | deferred availability hty =>
    cases h' with
    | deferred _ hty' => rw [hterm hty hty']
  | functionType hparams hresult =>
    cases h' with
    | functionType hparams' hresult' =>
      rw [(right_unique_position hvar hterm).forall₂ hparams hparams', hterm hresult hresult']
  | productType hmembers =>
    cases h' with
    | productType hmembers' => rw [hnamed hmembers hmembers']
  | _ =>
    cases h'
    rfl

end Unique

/-- It is enough that no subterm stands for two terms. -/
theorem Layer.eq_of_children {a b : Shape TermId} (h : L.Layer shape a) (h' : L.Layer shape b)
    (hvar : Relator.RightUnique L.var)
    (hterm : ∀ child ∈ shape.children, ∀ u v, L.term child u → L.term child v → u = v) :
    a = b := by
  let K : Likeness := { L with term := fun t t' => L.term t t' ∧ t ∈ shape.children }
  have hle : ∀ terms, (L.among shape.children terms).Le K := fun terms =>
    ⟨fun h => h, fun h => ⟨h.1, h.2.1⟩, fun h => h, fun h => h⟩
  have hK : Relator.RightUnique K.term := fun t u v hu hv => hterm t hu.2 u v hu.1 hv.1
  exact Layer.right_unique (L := K) hvar hK ((hle _).layer h.among) ((hle _).layer h'.among)

/-! ## Facts derived from a node -/

theorem Layer.pending_eq (h : L.Layer shape shape') {f f' : TermId → Bool}
    (hf : ∀ {t t'}, L.term t t' → f t = f' t') :
    (shape.map f).pending = (shape'.map f').pending := by
  cases h with
  | abstraction _ hparams _ =>
    simp only [Shape.map, Shape.pending, List.isEmpty_map]
    exact rel_isEmpty hparams
  | productValue _ hfields =>
    simp only [Shape.map, Shape.pending, List.any_map]
    induction hfields with
    | nil => rfl
    | cons hc _ ih =>
      rw [List.any_cons, List.any_cons, ih, Function.comp, Function.comp, hf hc.term]
  | _ => rfl

/-- It is enough that the results for the subterms agree. -/
theorem Layer.pending_eq_of_children (h : L.Layer shape shape') {f f' : TermId → Bool}
    (hf : ∀ t ∈ shape.children, ∀ t', L.term t t' → f t = f' t') :
    (shape.map f).pending = (shape'.map f').pending :=
  h.among.pending_eq fun ht => hf _ ht.2.1 _ ht.1

section Uses

open FreeVariables

variable {fv fv' other other' : FreeVariables}

theorem uses_use (hL : L.Ordered) (h : L.Uses fv fv') {v v' : VarId} (hv : L.var v v')
    (usage : Usage) : L.Uses (fv.use v usage) (fv'.use v' usage) :=
  entries_place h hL hv rfl fun hxy => by rw [hxy]

/-- Parts that are collected one after the other. -/
theorem uses_foldl {α β : Type} {R : α → β → Prop} {l : List α} {l' : List β}
    {add : FreeVariables → α → FreeVariables} {add' : FreeVariables → β → FreeVariables}
    (hl : List.Forall₂ R l l') (h : L.Uses fv fv')
    (hadd : ∀ {fv fv' a b}, L.Uses fv fv' → R a b → L.Uses (add fv a) (add' fv' b)) :
    L.Uses (l.foldl add fv) (l'.foldl add' fv') := by
  induction hl generalizing fv fv' with
  | nil => exact h
  | cons hr _ ih => exact ih (hadd h hr)

theorem uses_union (hL : L.Ordered) (h : L.Uses fv fv') (h' : L.Uses other other') :
    L.Uses (fv.union other) (fv'.union other') :=
  uses_foldl h' h fun h he => he.value ▸ uses_use hL h he.var _

theorem uses_unionAsType (hL : L.Ordered) (h : L.Uses fv fv') (h' : L.Uses other other') :
    L.Uses (fv.unionAsType other) (fv'.unionAsType other') :=
  uses_foldl h' h fun h he => uses_use hL h he.var .intoType

theorem uses_eraseAll (hL : L.Ordered) (h : L.Uses fv fv') {vars vars' : List VarId}
    (hvars : List.Forall₂ L.var vars vars') : L.Uses (fv.eraseAll vars) (fv'.eraseAll vars') := by
  unfold eraseAll
  induction hvars generalizing fv fv' with
  | nil => exact h
  | cons hv _ ih => exact ih (entries_erase h hL hv)

theorem uses_underLets (hL : L.Ordered) (h : L.Uses fv fv')
    {lets lets' : List (VarId × FreeVariables)}
    (hlets : List.Forall₂ (fun b b' => L.var b.1 b'.1 ∧ L.Uses b.2 b'.2) lets lets') :
    L.Uses (underLets lets fv) (underLets lets' fv') := by
  induction hlets with
  | nil => exact h
  | cons hb _ ih => exact uses_union hL (entries_erase ih hL hb.1) hb.2

/-- Variables that stand for each other are free in nodes of one form, and used in the same way. -/
theorem Layer.uses (h : L.Layer shape shape') (hL : L.Ordered) {f f' : TermId → FreeVariables}
    (hf : ∀ {t t'}, L.term t t' → L.Uses (f t) (f' t')) :
    L.Uses (shape.map f).freeVariables (shape'.map f').freeVariables := by
  have hempty : L.Uses ∅ ∅ := .nil
  cases h with
  | «variable» hv => exact uses_use hL hempty hv .intoValue
  | abstraction hlets hparams hbody =>
    simp only [Shape.map, Shape.freeVariables, List.foldl_map, List.map_map]
    have hinside := uses_foldl hparams (uses_union hL hempty (hf hbody)) fun h hb =>
      uses_unionAsType hL h (hf hb.term)
    refine uses_underLets hL (uses_eraseAll hL hinside ?_) ?_
    · rw [List.forall₂_map_left_iff, List.forall₂_map_right_iff]
      exact hparams.imp fun _ _ hb => hb.var
    · rw [List.forall₂_map_left_iff, List.forall₂_map_right_iff]
      exact hlets.imp fun _ _ hb => ⟨hb.var, hf hb.term⟩
  | forAll hvars hbody => exact uses_eraseAll hL (uses_union hL hempty (hf hbody)) hvars
  | application hcallee hargs =>
    simp only [Shape.map, Shape.freeVariables, List.foldl_map]
    exact uses_foldl hargs (uses_union hL hempty (hf hcallee)) fun h ht => uses_union hL h (hf ht)
  | projection field hdomain => exact uses_union hL hempty (hf hdomain)
  | cast hsubject htarget =>
    exact uses_unionAsType hL (uses_union hL hempty (hf hsubject)) (hf htarget)
  | unitValue hty => exact uses_unionAsType hL hempty (hf hty)
  | productValue hty hfields =>
    simp only [Shape.map, Shape.freeVariables, List.foldl_map]
    exact uses_foldl hfields (uses_unionAsType hL hempty (hf hty)) fun h hc =>
      uses_union hL h (hf hc.term)
  | deferred availability hty => exact uses_unionAsType hL hempty (hf hty)
  | functionType hparams hresult =>
    simp only [Shape.map, Shape.freeVariables, List.foldl_map]
    exact uses_unionAsType hL (uses_foldl hparams hempty fun h hslot =>
      uses_unionAsType hL h (hf hslot.ty)) (hf hresult)
  | productType hmembers =>
    simp only [Shape.map, Shape.freeVariables, List.foldl_map]
    exact uses_foldl hmembers hempty fun h hc => uses_unionAsType hL h (hf hc.term)
  | _ => exact hempty

theorem uses_imp {K : Likeness} (hvar : ∀ {v v'}, L.var v v' → K.var v v') (h : L.Uses fv fv') :
    K.Uses fv fv' := h.imp fun _ _ he => ⟨hvar he.var, he.value⟩

/-- It is enough that the results for the subterms are alike. -/
theorem Layer.uses_of_children (h : L.Layer shape shape') (hL : L.Ordered)
    {f f' : TermId → FreeVariables}
    (hf : ∀ t ∈ shape.children, ∀ t', L.term t t' → L.Uses (f t) (f' t')) :
    L.Uses (shape.map f).freeVariables (shape'.map f').freeVariables := by
  have hamong : (L.among shape.children shape'.children).Uses (shape.map f).freeVariables
      (shape'.map f').freeVariables :=
    h.among.uses hL fun ht => uses_imp (L := L) (fun hv => hv) (hf _ ht.2.1 _ ht.1)
  exact uses_imp (L := L.among shape.children shape'.children) (fun hv => hv) hamong

end Uses

end Likeness

end StagedCalculus
