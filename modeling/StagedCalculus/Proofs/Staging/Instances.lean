import StagedCalculus.Proofs.Staging.Applicable
import StagedCalculus.Proofs.Store.Substitution

/-!
# Instances of types

The type of a function mentions quantified variables, and the arguments of a call decide what they
stand for, some of them earlier than others. This module says what a type becomes meanwhile.

* `Filling`: closed terms for some of the variables;
* `Store.Schema`: reduced terms whose variables can be filled, because they stand under no binder
  but quantifiers;
* `Store.Instance`: what a term becomes where variables are filled. There is one instance at most
  (`Store.Instance.unique`), and filling the variables that were left open is filling all of them at
  once (`Store.Instance.followedBy`).
-/

namespace StagedCalculus

/-- Terms for some of the variables. -/
abbrev Filling := VarId → Option TermId

namespace Filling

variable {σ τ : Filling} {vars scope : List VarId} {v : VarId}

/-- The filling below a binder of the variables. -/
def under (σ : Filling) (vars : List VarId) : Filling := fun v => if v ∈ vars then none else σ v

/-- One filling, and another one for the variables that it leaves open. -/
def followedBy (σ τ : Filling) : Filling := fun v => (σ v).or (τ v)

@[simp]
theorem under_nil (σ : Filling) : σ.under [] = σ := by
  funext v
  simp [under]

theorem under_of_not_mem (h : v ∉ vars) : σ.under vars v = σ v := if_neg h

theorem under_of_mem (h : v ∈ vars) : σ.under vars v = none := if_pos h

/-- What is in scope below a binder is bound there, or is filled as it is around it. -/
theorem under_cases (hv : v ∈ vars ++ scope) :
    (∀ σ : Filling, σ.under vars v = none) ∨ v ∈ scope ∧ ∀ σ : Filling, σ.under vars v = σ v := by
  by_cases hmem : v ∈ vars
  · exact .inl fun σ => under_of_mem hmem
  · exact .inr ⟨(List.mem_append.1 hv).resolve_left hmem, fun σ => under_of_not_mem hmem⟩

theorem under_append (σ : Filling) (vars vars' : List VarId) :
    σ.under (vars ++ vars') = (σ.under vars).under vars' := by
  funext v
  by_cases h : v ∈ vars <;> by_cases h' : v ∈ vars' <;> simp [under, h, h']

theorem followedBy_under (σ τ : Filling) (vars : List VarId) :
    (σ.followedBy τ).under vars = (σ.under vars).followedBy (τ.under vars) := by
  funext v
  by_cases h : v ∈ vars <;> simp [under, followedBy, h]

/-- Fillings that agree on a scope agree below a binder. -/
theorem agree_under (h : ∀ v ∈ scope, τ v = σ v) :
    ∀ v ∈ vars ++ scope, τ.under vars v = σ.under vars v := by
  intro v hv
  rcases under_cases hv with hbound | ⟨hmem, hfree⟩
  · rw [hbound, hbound]
  · rw [hfree, hfree, h v hmem]

/-- What is left open in a scope is left open below a binder. -/
theorem open_under (h : ∀ v ∈ scope, σ v = none) : ∀ v ∈ vars ++ scope, σ.under vars v = none := by
  intro v hv
  rcases under_cases hv with hbound | ⟨hmem, hfree⟩
  · exact hbound σ
  · exact (hfree σ).trans (h v hmem)

/-- What fills a variable below a binder fills it around the binder. -/
theorem holds_under {p : TermId → Prop} (h : ∀ v ∈ scope, ∀ u, σ v = some u → p u) :
    ∀ v ∈ vars ++ scope, ∀ u, σ.under vars v = some u → p u := by
  intro v hv u hu
  rcases under_cases hv with hbound | ⟨hmem, hfree⟩
  · rw [hbound] at hu
    cases hu
  · exact h v hmem u (hfree σ ▸ hu)

end Filling

/-- Shapes of values and types that are built of other terms. -/
def Shape.isCompound {α : Type} : Shape α → Bool
  | .unitValue _ | .productValue _ _ | .functionType _ _ | .productType _ => true
  | _ => false

namespace Shape

variable {α β : Type} {shape : Shape α}

theorem leaf_of_isCompound (h : shape.isCompound = true) : shape.leaf = [] := by
  cases shape <;> first | rfl | cases h

theorem scopes_of_isCompound (h : shape.isCompound = true) : shape.scopes = false := by
  cases shape <;> first | rfl | cases h

@[simp]
theorem isCompound_map (f : α → β) (shape : Shape α) :
    (shape.map f).isCompound = shape.isCompound := by cases shape <;> rfl

end Shape

namespace Store

variable {s s' : Store} {σ τ : Filling} {scope scope' : List VarId} {t u w : TermId}

/-! ## Parts of reduced terms -/

theorem Reduced.of_child (h : s.Reduced scope t) (hscopes : (s.shape t).scopes = false)
    {child : TermId} (hchild : child ∈ (s.shape t).children) : s.Reduced scope child := by
  cases h with
  | «variable» hshape => simp [hshape, Shape.children] at hchild
  | constant _ hconstant =>
    cases hshape : s.shape t <;> simp_all [Shape.isConstant, Shape.children]
  | unitValue hshape hty => simp_all [Shape.children]
  | productValue hshape hty hfields =>
    rw [hshape, Shape.children, List.mem_cons, List.mem_map] at hchild
    rcases hchild with rfl | ⟨field, hfield, rfl⟩
    · exact hty
    · exact hfields field hfield
  | functionType hshape hparams hresult =>
    rw [hshape, Shape.children, List.mem_append, List.mem_map, List.mem_singleton] at hchild
    rcases hchild with ⟨slot, hslot, rfl⟩ | rfl
    · exact hparams slot hslot
    · exact hresult
  | productType hshape hmembers =>
    rw [hshape, Shape.children, List.mem_map] at hchild
    obtain ⟨member, hmember, rfl⟩ := hchild
    exact hmembers member hmember
  | function hshape => simp [hshape, Shape.scopes] at hscopes
  | quantified hshape => simp [hshape, Shape.scopes] at hscopes

/-- A node of reduced parts is reduced. -/
theorem Reduced.of_children (hshape : (s.shape t).isCompound = true)
    (hchildren : ∀ child ∈ (s.shape t).children, s.Reduced scope child) : s.Reduced scope t := by
  cases h : s.shape t with
  | unitValue ty =>
    rw [h] at hchildren
    exact .unitValue h (hchildren ty (by simp [Shape.children]))
  | productValue ty fields =>
    rw [h] at hchildren
    refine .productValue h (hchildren ty (by simp [Shape.children])) fun field hfield => ?_
    exact hchildren _ (List.mem_cons_of_mem _ (List.mem_map_of_mem hfield))
  | functionType params result =>
    rw [h] at hchildren
    refine .functionType h (fun slot hslot => ?_) (hchildren _ (by simp [Shape.children]))
    exact hchildren _ (List.mem_append_left _ (List.mem_map_of_mem hslot))
  | productType members =>
    rw [h] at hchildren
    exact .productType h fun member hmember => hchildren _ (List.mem_map_of_mem hmember)
  | _ =>
    rw [h] at hshape
    cases hshape

theorem Reduced.mem_scope (h : s.Reduced scope t) {v : VarId} (hshape : s.shape t = .variable v) :
    v ∈ scope := by
  cases h with
  | «variable» hshape' hmem =>
    cases hshape.symm.trans hshape'
    exact hmem
  | constant _ hconstant =>
    rw [hshape] at hconstant
    cases hconstant
  | _ => simp_all

theorem append_subset (names : List VarId) (h : scope ⊆ scope') :
    names ++ scope ⊆ names ++ scope' := fun _ hv =>
  List.mem_append.2 ((List.mem_append.1 hv).imp_right fun hmem => h hmem)

/-- A reduced term stays so in any scope that has its variables. -/
theorem Reduced.weaken (h : s.Reduced scope t) (hscope : scope ⊆ scope') :
    s.Reduced scope' t := by
  induction h generalizing scope' with
  | «variable» hshape hmem => exact .variable hshape (hscope hmem)
  | constant ht hconstant => exact .constant ht hconstant
  | unitValue hshape _ ih => exact .unitValue hshape (ih hscope)
  | productValue hshape _ _ ih ihfields =>
    exact .productValue hshape (ih hscope) fun field hfield => ihfields field hfield hscope
  | functionType hshape _ _ ihparams ih =>
    exact .functionType hshape (fun slot hslot => ihparams slot hslot hscope) (ih hscope)
  | productType hshape _ ih =>
    exact .productType hshape fun member hmember => ih member hmember hscope
  | function hshape hne hnodup _ _ ihparams ih =>
    refine .function hshape hne hnodup (fun before p after hsplit => ?_) (ih ?_)
    · exact ihparams before p after hsplit (append_subset _ hscope)
    · exact append_subset _ hscope
  | quantified hshape hnodup hused _ ih =>
    exact .quantified hshape hnodup hused (ih (append_subset _ hscope))

/-- What is free below a quantifier, and not quantified, is free around it. -/
theorem Linked.mem_free_quantified (hs : s.Linked) {vars : List VarId} {body : TermId}
    (hshape : s.shape t = .forAll vars body) {v : VarId} :
    v ∈ (s.freeVariables t).vars ↔ v ∉ vars ∧ v ∈ (s.freeVariables body).vars := by
  rw [hs.mem_free (allocated_of_shape (by simp [hshape])), hshape]
  simp [Shape.map, Shape.freeVariables]

/-! ## Schemas -/

/-- Reduced terms whose variables can be filled: a variable stands under no binder but
quantifiers. -/
inductive Schema (s : Store) : List VarId → TermId → Prop
  | closed {scope : List VarId} {t : TermId} : s.Reduced [] t → Schema s scope t
  | variable {scope : List VarId} {t : TermId} {v : VarId} : s.shape t = .variable v →
      v ∈ scope → Schema s scope t
  | node {scope : List VarId} {t : TermId} : (s.shape t).isCompound = true →
      (∀ child ∈ (s.shape t).children, Schema s scope child) → Schema s scope t
  | quantified {scope : List VarId} {t body : TermId} {vars : List VarId} :
      s.shape t = .forAll vars body → vars.Nodup →
      (∀ v ∈ vars, (s.freeVariables body).contains v = true) →
      Schema s (vars ++ scope) body → Schema s scope t

theorem allocated_of_isCompound (h : (s.shape t).isCompound = true) : s.Allocated t :=
  allocated_of_shape fun hshape => by
    rw [hshape] at h
    cases h

namespace Schema

theorem reduced (h : s.Schema scope t) : s.Reduced scope t := by
  induction h with
  | closed ht => exact ht.weaken (List.nil_subset _)
  | «variable» hshape hmem => exact .variable hshape hmem
  | node hshape _ ih => exact .of_children hshape ih
  | quantified hshape hnodup hused _ ih => exact .quantified hshape hnodup hused ih

theorem allocated (h : s.Schema scope t) : s.Allocated t := h.reduced.allocated

theorem mono (h : s.Schema scope t) (hle : s.Extends s') : s'.Schema scope t := by
  induction h with
  | closed ht => exact .closed (ht.mono hle)
  | «variable» hshape hmem => exact .variable (hle.shape_kept hshape nofun) hmem
  | node hshape _ ih =>
    have hkept := hle.shape_eq (allocated_of_isCompound hshape)
    rw [← hkept] at hshape ih
    exact .node hshape ih
  | quantified hshape hnodup hused hbody ih =>
    refine .quantified (hle.shape_kept hshape nofun) hnodup (fun v hv => ?_) ih
    rw [hle.freeVariables_eq hbody.allocated]
    exact hused v hv

/-- A schema needs those variables in scope that are free in it. -/
theorem narrow (hs : s.Linked) (h : s.Schema scope t)
    (hfree : ∀ v ∈ scope, v ∈ (s.freeVariables t).vars → v ∈ scope') : s.Schema scope' t := by
  induction h generalizing scope' with
  | closed ht => exact .closed ht
  | @«variable» scope t v hshape hmem =>
    refine .variable hshape (hfree v hmem ?_)
    rw [hs.mem_free (allocated_of_shape (by simp [hshape])), hshape]
    simp [Shape.map, Shape.freeVariables]
  | node hshape _ ih =>
    refine .node hshape fun child hchild => ih child hchild fun v hv hchildFree => hfree v hv ?_
    exact hs.mem_free_of_child (Shape.scopes_of_isCompound hshape) hchild hchildFree
  | @quantified scope t body vars hshape hnodup hused _ ih =>
    refine .quantified hshape hnodup hused (ih fun v hv hbody => ?_)
    by_cases hmem : v ∈ vars
    · exact List.mem_append_left _ hmem
    · refine List.mem_append_right _ (hfree v ((List.mem_append.1 hv).resolve_left hmem) ?_)
      exact (hs.mem_free_quantified hshape).2 ⟨hmem, hbody⟩

end Schema

/-! ## Instances -/

/-- What a term becomes where variables are filled. What a quantifier binds is not filled below
it. -/
inductive Instance (s : Store) : Filling → TermId → TermId → Prop
  | closed {σ : Filling} {t : TermId} : s.Reduced [] t → Instance s σ t t
  | kept {σ : Filling} {t : TermId} {v : VarId} : s.shape t = .variable v → σ v = none →
      Instance s σ t t
  | filled {σ : Filling} {t u : TermId} {v : VarId} : s.shape t = .variable v → σ v = some u →
      Instance s σ t u
  | node {σ : Filling} {t u : TermId} {image : TermId → TermId} :
      (s.shape t).isCompound = true → s.Allocated u → s.shape u = (s.shape t).map image →
      (∀ child ∈ (s.shape t).children, Instance s σ child (image child)) → Instance s σ t u
  | quantified {σ : Filling} {t u body body' : TermId} {vars : List VarId} :
      s.shape t = .forAll vars body → s.shape u = .forAll vars body' →
      Instance s (σ.under vars) body body' → Instance s σ t u

namespace Instance

theorem mono (h : s.Instance σ t u) (hle : s.Extends s') : s'.Instance σ t u := by
  induction h with
  | closed ht => exact .closed (ht.mono hle)
  | kept hshape hnone => exact .kept (hle.shape_kept hshape nofun) hnone
  | filled hshape hfilled => exact .filled (hle.shape_kept hshape nofun) hfilled
  | @node σ t u image hcompound hu hshape _ ih =>
    have hkept := hle.shape_eq (allocated_of_isCompound hcompound)
    have hshape' : s'.shape u = (s'.shape t).map image := by rw [hle.shape_eq hu, hkept, hshape]
    rw [← hkept] at hcompound ih
    exact .node hcompound (hle.allocated hu) hshape' ih
  | quantified hshape hshape' _ ih =>
    exact .quantified (hle.shape_kept hshape nofun) (hle.shape_kept hshape' nofun) ih

/-- Where nothing is filled, a schema is its own instance. -/
theorem self (h : s.Schema scope t) (hnone : ∀ v ∈ scope, σ v = none) : s.Instance σ t t := by
  induction h generalizing σ with
  | closed ht => exact .closed ht
  | «variable» hshape hmem => exact .kept hshape (hnone _ hmem)
  | node hshape _ ih =>
    exact .node hshape (allocated_of_isCompound hshape) (Shape.map_id _).symm
      fun child hchild => ih child hchild hnone
  | quantified hshape _ _ _ ih =>
    exact .quantified hshape hshape (ih (Filling.open_under hnone))

/-- Where nothing is filled, a reduced term has no other instance. -/
theorem eq_of_open (hs : s.Canonical) (h : s.Instance σ t u) (ht : s.Reduced scope t)
    (hnone : ∀ v ∈ scope, σ v = none) : u = t := by
  induction h generalizing scope with
  | closed => rfl
  | kept => rfl
  | @filled σ t u v hshape hfilled =>
    rw [hnone v (ht.mem_scope hshape)] at hfilled
    cases hfilled
  | node hcompound hu hshape _ ih =>
    refine hs.distinct _ _ hu ht.allocated (hshape.trans ?_)
    have himage := Shape.map_congr (g := id) fun child hchild =>
      ih child hchild (ht.of_child (Shape.scopes_of_isCompound hcompound) hchild) hnone
    rw [himage, Shape.map_id]
  | quantified hshape hshape' _ ih =>
    obtain ⟨-, hinner⟩ := ht.of_forAll hshape
    refine hs.distinct _ _ (allocated_of_shape (by simp [hshape'])) ht.allocated ?_
    rw [hshape, hshape', ih hinner (Filling.open_under hnone)]

theorem eq_of_closed (hs : s.Canonical) (h : s.Instance σ t u) (ht : s.Reduced [] t) : u = t :=
  h.eq_of_open hs ht nofun

/-! ## By the shape of the term -/

theorem of_variable (h : s.Instance σ t u) {v : VarId} (hshape : s.shape t = .variable v) :
    σ v = none ∧ u = t ∨ σ v = some u := by
  cases h with
  | closed ht => cases ht.mem_scope hshape
  | kept hshape' hnone =>
    cases hshape.symm.trans hshape'
    exact .inl ⟨hnone, rfl⟩
  | filled hshape' hfilled =>
    cases hshape.symm.trans hshape'
    exact .inr hfilled
  | node hcompound =>
    rw [hshape] at hcompound
    cases hcompound
  | quantified hshape' => cases hshape.symm.trans hshape'

theorem of_node (h : s.Instance σ t u) (hcompound : (s.shape t).isCompound = true) :
    s.Allocated u ∧ ∃ image, s.shape u = (s.shape t).map image ∧
      ∀ child ∈ (s.shape t).children, s.Instance σ child (image child) := by
  cases h with
  | closed ht =>
    refine ⟨ht.allocated, id, (Shape.map_id _).symm, fun child hchild => .closed ?_⟩
    exact ht.of_child (Shape.scopes_of_isCompound hcompound) hchild
  | kept hshape =>
    rw [hshape] at hcompound
    cases hcompound
  | filled hshape =>
    rw [hshape] at hcompound
    cases hcompound
  | node _ hu hshape hchildren => exact ⟨hu, _, hshape, hchildren⟩
  | quantified hshape =>
    rw [hshape] at hcompound
    cases hcompound

theorem of_quantified (h : s.Instance σ t u) {vars : List VarId} {body : TermId}
    (hshape : s.shape t = .forAll vars body) :
    s.Reduced [] t ∧ u = t ∨
      ∃ body', s.shape u = .forAll vars body' ∧ s.Instance (σ.under vars) body body' := by
  cases h with
  | closed ht => exact .inl ⟨ht, rfl⟩
  | kept hshape' => cases hshape.symm.trans hshape'
  | filled hshape' => cases hshape.symm.trans hshape'
  | node hcompound =>
    rw [hshape] at hcompound
    cases hcompound
  | quantified hshape₁ hshape₂ hbody =>
    cases hshape.symm.trans hshape₁
    exact .inr ⟨_, hshape₂, hbody⟩

/-! ## There is one instance -/

/-- Fillings that agree on the scope of a reduced term have one instance of it at most. -/
theorem unique (hs : s.Canonical) (h : s.Instance σ t u) (ht : s.Reduced scope t)
    (hagree : ∀ v ∈ scope, τ v = σ v) (h' : s.Instance τ t w) : w = u := by
  induction h generalizing τ scope w with
  | closed hclosed => exact h'.eq_of_closed hs hclosed
  | @kept σ t v hshape hnone =>
    rcases h'.of_variable hshape with ⟨-, rfl⟩ | hfilled
    · rfl
    · rw [hagree v (ht.mem_scope hshape), hnone] at hfilled
      cases hfilled
  | @filled σ t u v hshape hfilled =>
    have hv := hagree v (ht.mem_scope hshape)
    rcases h'.of_variable hshape with ⟨hnone, -⟩ | hfilled'
    · rw [hv, hfilled] at hnone
      cases hnone
    · rw [hv, hfilled] at hfilled'
      exact (Option.some.inj hfilled').symm
  | node hcompound hu hshape _ ih =>
    obtain ⟨hw, image', hshape', hchildren'⟩ := h'.of_node hcompound
    refine hs.distinct _ _ hw hu ?_
    rw [hshape, hshape']
    exact Shape.map_congr fun child hchild => ih child hchild
      (ht.of_child (Shape.scopes_of_isCompound hcompound) hchild) hagree (hchildren' child hchild)
  | @quantified σ t u body body' vars hshape hshape' hbody ih =>
    rcases h'.of_quantified hshape with ⟨hclosed, rfl⟩ | ⟨body'', hshape'', hbody'⟩
    · exact ((Instance.quantified hshape hshape' hbody).eq_of_closed hs hclosed).symm
    · obtain ⟨-, hinner⟩ := ht.of_forAll hshape
      refine hs.distinct _ _ (allocated_of_shape (by simp [hshape'']))
        (allocated_of_shape (by simp [hshape'])) ?_
      rw [hshape', hshape'', ih hinner (Filling.agree_under hagree) hbody']

/-- Filling variables that are not in the instance changes nothing. -/
theorem followedBy_idle (h : s.Instance σ t u) (hu : s.Reduced scope u)
    (hnone : ∀ v ∈ scope, τ v = none) : s.Instance (σ.followedBy τ) t u := by
  induction h generalizing τ scope with
  | closed ht => exact .closed ht
  | kept hshape hopen =>
    refine .kept hshape ?_
    rw [Filling.followedBy, hopen, hnone _ (hu.mem_scope hshape)]
    rfl
  | filled hshape hfilled => exact .filled hshape (by simp [Filling.followedBy, hfilled])
  | @node σ t u image hcompound hallocated hshape _ ih =>
    refine .node hcompound hallocated hshape fun child hchild => ih child hchild ?_ hnone
    refine hu.of_child ?_ ?_
    · rw [hshape, Shape.scopes_map]
      exact Shape.scopes_of_isCompound hcompound
    · rw [hshape, Shape.children_map]
      exact List.mem_map_of_mem hchild
  | quantified hshape hshape' _ ih =>
    refine .quantified hshape hshape' ?_
    rw [Filling.followedBy_under]
    exact ih (hu.of_forAll hshape').2 (Filling.open_under hnone)

/-- Filling the variables that were left open is filling them all at once. -/
theorem followedBy (hs : s.Canonical) (h : s.Instance σ t u) (ht : s.Reduced scope t)
    (hclosed : ∀ v ∈ scope, ∀ u, σ v = some u → s.Reduced [] u)
    (h' : s.Instance τ u w) : s.Instance (σ.followedBy τ) t w := by
  induction h generalizing τ scope w with
  | closed hreduced =>
    obtain rfl := h'.eq_of_closed hs hreduced
    exact .closed hreduced
  | @kept σ t v hshape hnone =>
    have hfilling : σ.followedBy τ v = τ v := by simp [Filling.followedBy, hnone]
    rcases h'.of_variable hshape with ⟨hopen, rfl⟩ | hfilled
    · exact .kept hshape (hfilling.trans hopen)
    · exact .filled hshape (hfilling.trans hfilled)
  | @filled σ t u v hshape hfilled =>
    rw [h'.eq_of_closed hs (hclosed v (ht.mem_scope hshape) u hfilled)]
    exact .filled hshape (by simp [Filling.followedBy, hfilled])
  | @node σ t u image hcompound hu hshape _ ih =>
    have hcompound' : (s.shape u).isCompound = true := by rwa [hshape, Shape.isCompound_map]
    obtain ⟨hw, image', hshape', hchildren'⟩ := h'.of_node hcompound'
    rw [hshape, Shape.map_map] at hshape'
    rw [hshape, Shape.children_map] at hchildren'
    refine .node hcompound hw hshape' fun child hchild => ih child hchild
      (ht.of_child (Shape.scopes_of_isCompound hcompound) hchild) hclosed ?_
    exact hchildren' _ (List.mem_map_of_mem hchild)
  | @quantified σ t u body body' vars hshape hshape' hbody ih =>
    rcases h'.of_quantified hshape' with ⟨hu, rfl⟩ | ⟨body'', hshape'', hbody'⟩
    · exact (Instance.quantified hshape hshape' hbody).followedBy_idle hu nofun
    · refine .quantified hshape hshape'' ?_
      rw [Filling.followedBy_under]
      exact ih (ht.of_forAll hshape).2 (Filling.holds_under hclosed) hbody'

/-! ## What instances are -/

/-- Free variables that are left open are free in the instance. -/
theorem mem_free (hs : s.Linked) (h : s.Instance σ t u) {v : VarId} (hnone : σ v = none)
    (hv : v ∈ (s.freeVariables t).vars) : v ∈ (s.freeVariables u).vars := by
  induction h with
  | closed => exact hv
  | kept => exact hv
  | @filled σ t u w hshape hfilled =>
    rw [hs.mem_free (allocated_of_shape (by simp [hshape])), hshape] at hv
    obtain rfl : v = w := by simpa [Shape.map, Shape.freeVariables] using hv
    rw [hnone] at hfilled
    cases hfilled
  | @node σ t u image hcompound hu hshape _ ih =>
    have hchild : ∃ child ∈ (s.shape t).children, v ∈ (s.freeVariables child).vars := by
      by_contra hnot
      have hrank := hs.rank_eq_zero (allocated_of_isCompound hcompound) (v := v)
        (by simp [Shape.leaf_of_isCompound hcompound]) fun child hchild =>
          Nat.eq_zero_of_not_pos fun hpos =>
            hnot ⟨child, hchild, FreeVariables.mem_vars_iff.2 hpos⟩
      rw [FreeVariables.mem_vars_iff, hrank] at hv
      exact absurd hv (Nat.not_succ_le_zero 0)
    obtain ⟨child, hchild, hfree⟩ := hchild
    have himage := ih child hchild hnone hfree
    refine hs.mem_free_of_child ?_ ?_ himage
    · rw [hshape, Shape.scopes_map]
      exact Shape.scopes_of_isCompound hcompound
    · rw [hshape, Shape.children_map]
      exact List.mem_map_of_mem hchild
  | quantified hshape hshape' _ ih =>
    obtain ⟨hbound, hbody⟩ := (hs.mem_free_quantified hshape).1 hv
    exact (hs.mem_free_quantified hshape').2
      ⟨hbound, ih (by rwa [Filling.under_of_not_mem hbound]) hbody⟩

/-- An instance of a schema is one, with those variables in scope that were left open. -/
theorem schema (hs : s.Intact) (h : s.Instance σ t u) (ht : s.Schema scope t)
    (hclosed : ∀ v ∈ scope, ∀ u, σ v = some u → s.Reduced [] u)
    (hopen : ∀ v ∈ scope, σ v = none → v ∈ scope') : s.Schema scope' u := by
  induction ht generalizing σ u scope' with
  | closed hreduced =>
    rw [h.eq_of_closed hs.toCanonical hreduced]
    exact .closed hreduced
  | @«variable» scope t v hshape hmem =>
    rcases h.of_variable hshape with ⟨hnone, rfl⟩ | hfilled
    · exact .variable hshape (hopen v hmem hnone)
    · exact .closed (hclosed v hmem u hfilled)
  | node hcompound _ ih =>
    obtain ⟨hu, image, hshape, hchildren⟩ := h.of_node hcompound
    refine .node (by rwa [hshape, Shape.isCompound_map]) ?_
    rw [hshape, Shape.children_map]
    exact List.forall_mem_map.2 fun child hchild =>
      ih child hchild (hchildren child hchild) hclosed hopen
  | @quantified scope t body vars hshape hnodup hused hbody ih =>
    rcases h.of_quantified hshape with ⟨hreduced, rfl⟩ | ⟨body', hshape', hbody'⟩
    · exact .closed hreduced
    · refine .quantified hshape' hnodup (fun v hv => ?_)
        (ih hbody' (Filling.holds_under hclosed) fun v hv hnone => ?_)
      · have hfree := hused v hv
        rw [VarMap.contains_eq, ← VarMap.mem_vars] at hfree ⊢
        exact hbody'.mem_free hs.toLinked (Filling.under_of_mem hv) hfree
      · by_cases hmem : v ∈ vars
        · exact List.mem_append_left _ hmem
        · rw [Filling.under_of_not_mem hmem] at hnone
          exact List.mem_append_right _
            (hopen v ((List.mem_append.1 hv).resolve_left hmem) hnone)

end Instance

end Store

end StagedCalculus
