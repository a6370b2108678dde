import StagedCalculus.Proofs.Staging.Built
import StagedCalculus.Proofs.Staging.Silence

/-!
# Reducing a result again

A value that evaluation gave should be its own value, and a residual program that compilation gave
should be its own residual program. This module shows for which terms that is so.

* `Store.Reduced`: terms in which nothing is left to do: they hold no call, projection or cast, no
  placeholder and no residual binding, and their variables are bound;
* `Attempt.reduce_reduced`: such a term is given back by reduction, which writes nothing; so it is
  its own value in every context, and its own residual program wherever its variables await values;
* `Attempt.evaluate_leaves_call`: evaluation may end with another term, and does what is left to do
  when it is asked again.
-/

namespace StagedCalculus

/-- Shapes of one node that stand for themselves. -/
def Shape.isConstant {α : Type} : Shape α → Bool
  | .stringLiteral _ | .numericLiteral _ | .native _ | .typeOfTypes | .unitType | .bottomType
  | .topType | .stringLiteralType _ | .numericLiteralType _ | .namedType _ _ => true
  | _ => false

namespace Store

variable {s s' : Store} {scope : List VarId} {t : TermId}

/-! ## Reduced terms -/

/-- Terms with free variables in a scope in which nothing is left to do. The type of a parameter
sees the parameters before it, and a quantifier has no idle variable. -/
inductive Reduced (s : Store) : List VarId → TermId → Prop
  | variable {scope : List VarId} {t : TermId} {v : VarId} : s.shape t = .variable v →
      v ∈ scope → Reduced s scope t
  | constant {scope : List VarId} {t : TermId} : s.Allocated t →
      (s.shape t).isConstant = true → Reduced s scope t
  | unitValue {scope : List VarId} {t ty : TermId} : s.shape t = .unitValue ty →
      Reduced s scope ty → Reduced s scope t
  | productValue {scope : List VarId} {t ty : TermId} {fields : List (String × TermId)} :
      s.shape t = .productValue ty fields → Reduced s scope ty →
      (∀ field ∈ fields, Reduced s scope field.2) → Reduced s scope t
  | functionType {scope : List VarId} {t result : TermId} {params : List (Slot TermId)} :
      s.shape t = .functionType params result → (∀ slot ∈ params, Reduced s scope slot.ty) →
      Reduced s scope result → Reduced s scope t
  | productType {scope : List VarId} {t : TermId} {members : List (String × TermId)} :
      s.shape t = .productType members → (∀ member ∈ members, Reduced s scope member.2) →
      Reduced s scope t
  | function {scope : List VarId} {t body : TermId} {params : List (VarId × TermId)} :
      s.shape t = .abstraction [] params body → params ≠ [] → (params.map (·.1)).Nodup →
      (∀ before p after, params = before ++ p :: after →
        Reduced s (before.map (·.1) ++ scope) p.2) →
      Reduced s (params.map (·.1) ++ scope) body → Reduced s scope t
  | quantified {scope : List VarId} {t body : TermId} {vars : List VarId} :
      s.shape t = .forAll vars body → vars.Nodup →
      (∀ v ∈ vars, (s.freeVariables body).contains v = true) →
      Reduced s (vars ++ scope) body → Reduced s scope t

/-- A variable that is no leaf and free in no subterm is not free. -/
theorem Linked.rank_eq_zero (hs : s.Linked) (ht : s.Allocated t) {v : VarId}
    (hleaf : v ∉ (s.shape t).leaf)
    (hchildren : ∀ child ∈ (s.shape t).children, (s.freeVariables child).rank v = 0) :
    (s.freeVariables t).rank v = 0 := by
  rw [hs.free t ht]
  refine Nat.le_zero.1 (Shape.rank_freeVariables_le (fun hmem => ?_) ?_ ?_)
  · rw [Shape.leaf_map] at hmem
    exact absurd hmem hleaf
  · rw [Shape.typeParts_map, List.forall_mem_map]
    exact fun part hpart => hchildren part (Shape.mem_children.2 (Or.inl hpart))
  · rw [Shape.valueParts_map, List.forall_mem_map]
    exact fun part hpart => Nat.le_of_eq (hchildren part (Shape.mem_children.2 (Or.inr hpart)))

/-- Nor is one that the node erases. -/
theorem rank_eraseAll_of_mem {fv : FreeVariables} {vars : List VarId} {v : VarId} (hv : v ∈ vars) :
    (fv.eraseAll vars).rank v = 0 :=
  Nat.eq_zero_of_not_pos fun hpos => ((FreeVariables.le_rank_eraseAll Nat.one_pos).1 hpos).1 hv

namespace Reduced

theorem allocated (h : s.Reduced scope t) : s.Allocated t := by
  cases h with
  | constant ht _ => exact ht
  | _ => exact allocated_of_shape (by simp [*])

/-- Reduced terms stay so while the store grows. -/
theorem mono (h : s.Reduced scope t) (hle : s.Extends s') : s'.Reduced scope t := by
  induction h with
  | «variable» hshape hmem => exact .variable (hle.shape_kept hshape nofun) hmem
  | constant ht hconstant =>
    rw [← hle.shape_eq ht] at hconstant
    exact .constant (hle.allocated ht) hconstant
  | unitValue hshape _ ih => exact .unitValue (hle.shape_kept hshape nofun) ih
  | productValue hshape _ _ ih ihfields =>
    exact .productValue (hle.shape_kept hshape nofun) ih ihfields
  | functionType hshape _ _ ihparams ih =>
    exact .functionType (hle.shape_kept hshape nofun) ihparams ih
  | productType hshape _ ih => exact .productType (hle.shape_kept hshape nofun) ih
  | function hshape hne hnodup _ _ ihparams ih =>
    exact .function (hle.shape_kept hshape nofun) hne hnodup ihparams ih
  | quantified hshape hnodup hused hbody ih =>
    refine .quantified (hle.shape_kept hshape nofun) hnodup (fun v hv => ?_) ih
    rw [hle.freeVariables_eq hbody.allocated]
    exact hused v hv

/-- The free variables of a reduced term are in its scope. -/
theorem rank_eq_zero (hs : s.Linked) (h : s.Reduced scope t) {v : VarId} (hv : v ∉ scope) :
    (s.freeVariables t).rank v = 0 := by
  have ht := h.allocated
  induction h with
  | @«variable» scope t w hshape hmem =>
    refine hs.rank_eq_zero ht ?_ (by simp [hshape, Shape.children])
    rw [hshape, Shape.leaf, List.mem_singleton]
    rintro rfl
    exact hv hmem
  | @constant scope t _ hconstant =>
    refine hs.rank_eq_zero ht ?_ ?_ <;> revert hconstant <;>
      cases s.shape t <;> simp [Shape.isConstant, Shape.leaf, Shape.children]
  | unitValue hshape hty ih =>
    refine hs.rank_eq_zero ht (by simp [hshape, Shape.leaf]) ?_
    simpa [hshape, Shape.children] using ih hv hty.allocated
  | productValue hshape hty hfields ih ihfields =>
    refine hs.rank_eq_zero ht (by simp [hshape, Shape.leaf]) fun child hchild => ?_
    rw [hshape, Shape.children, List.mem_cons, List.mem_map] at hchild
    rcases hchild with rfl | ⟨field, hfield, rfl⟩
    · exact ih hv hty.allocated
    · exact ihfields field hfield hv (hfields field hfield).allocated
  | functionType hshape hparams hresult ihparams ih =>
    refine hs.rank_eq_zero ht (by simp [hshape, Shape.leaf]) fun child hchild => ?_
    rw [hshape, Shape.children, List.mem_append, List.mem_map, List.mem_singleton] at hchild
    rcases hchild with ⟨slot, hslot, rfl⟩ | rfl
    · exact ihparams slot hslot hv (hparams slot hslot).allocated
    · exact ih hv hresult.allocated
  | productType hshape hmembers ih =>
    refine hs.rank_eq_zero ht (by simp [hshape, Shape.leaf]) fun child hchild => ?_
    rw [hshape, Shape.children, List.mem_map] at hchild
    obtain ⟨member, hmember, rfl⟩ := hchild
    exact ih member hmember hv (hmembers member hmember).allocated
  | @function scope t body params hshape _ _ hparams hbody ihparams ih =>
    by_cases hparam : v ∈ params.map (·.1)
    · have hnames : (params.map fun e => (e.1, s.freeVariables e.2)).map (·.1) =
          params.map (·.1) := by simp
      rw [hs.free t ht, hshape, Shape.map, Shape.freeVariables, hnames]
      exact rank_eraseAll_of_mem hparam
    · refine hs.rank_eq_zero ht (by simp [hshape, Shape.leaf]) fun child hchild => ?_
      rw [hshape, Shape.children, List.map_nil, List.nil_append, List.mem_append, List.mem_map,
        List.mem_singleton] at hchild
      rcases hchild with ⟨p, hp, rfl⟩ | rfl
      · obtain ⟨before, after, rfl⟩ := List.append_of_mem hp
        refine ihparams before p after rfl (fun hmem => ?_) (hparams before p after rfl).allocated
        rcases List.mem_append.1 hmem with hmem | hmem
        · exact hparam (by rw [List.map_append]; exact List.mem_append_left _ hmem)
        · exact hv hmem
      · exact ih (fun hmem => (List.mem_append.1 hmem).elim hparam hv) hbody.allocated
  | @quantified scope t body vars hshape _ _ hbody ih =>
    by_cases hvar : v ∈ vars
    · rw [hs.free t ht, hshape, Shape.map, Shape.freeVariables]
      exact rank_eraseAll_of_mem hvar
    · refine hs.rank_eq_zero ht (by simp [hshape, Shape.leaf]) ?_
      rw [hshape, Shape.children, List.forall_mem_singleton]
      exact ih (fun hmem => (List.mem_append.1 hmem).elim hvar hv) hbody.allocated

/-- A reduced term without variables in scope is closed. -/
theorem closed (hs : s.Linked) (h : s.Reduced [] t) : (s.freeVariables t).isEmpty = true := by
  rw [VarMap.isEmpty, List.isEmpty_iff, List.eq_nil_iff_forall_not_mem]
  rintro ⟨v, usage⟩ hmem
  have hrank := h.rank_eq_zero hs (v := v) (by simp)
  rw [FreeVariables.rank_of_get? (VarMap.mem_toList.1 hmem)] at hrank
  split at hrank <;> cases hrank

end Reduced

/-- A placeholder stays one. -/
theorem Extends.isDeferred (hle : s.Extends s') (ht : (s.shape t).isDeferred = true) :
    (s'.shape t).isDeferred = true := by
  have hallocated : s.Allocated t := allocated_of_shape fun hshape => by
    rw [hshape] at ht
    cases ht
  rw [hle.shape_eq hallocated]
  exact ht

end Store

/-! ## Computations that give a known result -/

namespace Attempt

variable {α β : Type} {s : Store}

/-- How a computation ends that has nothing to do: it lacks depth, or gives a result of which a
condition holds and writes nothing. -/
inductive Ends (post : α → Store → Prop) (s : Store) : Except Error α × Store → Prop
  | deep {limit : Nat} {s' : Store} : Ends post s (.error (.depthExceeded limit), s')
  | gives {a : α} {s' : Store} : s.Extends s' → s'.Intact → s'.output = s.output → post a s' →
      Ends post s (.ok a, s')

/-- From this intact store on, the computation has nothing to do. -/
def Idles (post : α → Store → Prop) (c : Attempt α) (s : Store) : Prop :=
  s.Intact → Ends post s (c.run s)

namespace Idles

variable {post : α → Store → Prop} {post' : β → Store → Prop} {c : Attempt α} {f : α → Attempt β}

theorem pure {a : α} (h : post a s) : Idles post (Pure.pure a) s :=
  fun hs => .gives (.refl s) hs rfl h

theorem bind (hc : Idles post c s)
    (hf : ∀ a s₁, s.Extends s₁ → s₁.Intact → post a s₁ → Idles post' (f a) s₁) :
    Idles post' (c >>= f) s := by
  intro hs
  have hends := hc hs
  rw [run_bind]
  generalize c.run s = r at hends ⊢
  cases hends with
  | deep => exact .deep
  | @gives a s₁ hle hs₁ houtput hpost =>
    have hrest := hf a s₁ hle hs₁ hpost hs₁
    change Ends post' s ((f a).run s₁)
    generalize (f a).run s₁ = r at hrest ⊢
    cases hrest with
    | deep => exact .deep
    | gives hle' hs₂ houtput' hpost' =>
      exact .gives (hle.trans hle') hs₂ (houtput'.trans houtput) hpost'

theorem reads {a : α} (h : c.run s = (.ok a, s)) (hf : Idles post' (f a) s) :
    Idles post' (c >>= f) s := by
  intro hs
  rw [run_bind, h]
  exact hf hs

theorem imp {post₁ : α → Store → Prop} (hc : Idles post c s)
    (h : ∀ a s₁, post a s₁ → post₁ a s₁) : Idles post₁ c s := by
  intro hs
  have hends := hc hs
  generalize c.run s = r at hends ⊢
  cases hends with
  | deep => exact .deep
  | gives hle hs₁ houtput hpost => exact .gives hle hs₁ houtput (h _ _ hpost)

/-- A term that is built again. -/
theorem intern {t : TermId} {shape : Shape TermId} (ht : s.Allocated t)
    (hshape : s.shape t = shape) : Idles (fun t' _ => t' = t) (Build.intern shape) s := by
  intro hs
  have hrun : (Build.intern shape : Attempt TermId).run s =
      (.ok (s.intern shape).1, (s.intern shape).2) := rfl
  rw [hrun, ← hshape, hs.intern_shape ht]
  exact .gives (.refl s) hs rfl rfl

/-- A placeholder, which may be new. -/
theorem deferred {ty : TermId} (hty : s.Allocated ty) (availability : Availability) :
    Idles (fun t s' => (s'.shape t).isDeferred = true) (Build.deferred ty availability) s := by
  intro hs
  have hchildren : ∀ child ∈ (Shape.deferred ty availability).children, s.Allocated child := by
    simpa [Shape.children] using hty
  have hshape : (s.intern (.deferred ty availability)).2.shape
      (s.intern (.deferred ty availability)).1 = .deferred ty availability :=
    Store.shape_intern fun _ h => by cases h
  have hrun : (Build.deferred ty availability : Attempt TermId).run s =
      (.ok (s.intern (.deferred ty availability)).1, (s.intern (.deferred ty availability)).2) := rfl
  rw [hrun]
  refine .gives (Store.extends_intern s _) (Store.intact_intern hs ?_) (Store.output_intern s _) ?_
  · exact Store.covers_of_children rfl rfl hchildren
  · exact congrArg Shape.isDeferred hshape

end Idles

/-! ## Variables without values -/

/-- The context binds the variables to placeholders. -/
def Awaits (s : Store) (scope : List VarId) (ctx : Context) : Prop :=
  ∀ v ∈ scope, ∃ value, ctx.get? v = some value ∧ (s.shape value).isDeferred = true

variable {s' : Store} {ctx : Context} {scope : List VarId}

theorem Awaits.mono (h : Awaits s scope ctx) (hle : s.Extends s') : Awaits s' scope ctx := by
  intro v hv
  obtain ⟨value, hget, hdeferred⟩ := h v hv
  exact ⟨value, hget, hle.isDeferred hdeferred⟩

theorem Awaits.child (h : Awaits s scope ctx) : Awaits s scope ctx.child := by
  intro v hv
  rw [Context.get?_child]
  exact h v hv

/-- Binding a variable that its frame does not bind yet to a placeholder. -/
theorem idles_bind (hctx : Awaits s scope ctx) {v : VarId} {placeholder : TermId}
    (hv : ctx.innermost.get? v = none) (hdeferred : (s.shape placeholder).isDeferred = true) :
    Idles (fun bound s' => Awaits s' (v :: scope) bound ∧
        ∀ w, w ≠ v → ctx.innermost.get? w = none → bound.innermost.get? w = none)
      (Attempt.bind ctx v placeholder) s := by
  have hbind : ctx.bind? v placeholder =
      some { ctx with innermost := (v, placeholder) :: ctx.innermost } := by
    simp [Context.bind?, hv]
  unfold Attempt.bind
  rw [hbind]
  refine .pure ⟨fun w hw => ?_, fun w hne hw => ?_⟩
  · rw [Context.get?_bind? hbind]
    split
    · exact ⟨placeholder, rfl, hdeferred⟩
    · rename_i hne
      exact hctx w ((List.mem_cons.1 hw).resolve_left hne)
  · simpa [Frame.get?, Ne.symm hne] using hw

theorem idles_bindQuantified (htype : (s.shape Store.comptimeType).isDeferred = true)
    (hctx : Awaits s scope ctx) {vars : List VarId} (hnodup : vars.Nodup)
    (hfresh : ∀ v ∈ vars, ctx.innermost.get? v = none) :
    Idles (fun bound s' => Awaits s' (vars ++ scope) bound) (bindQuantified ctx vars) s := by
  induction vars generalizing s ctx scope with
  | nil => exact .pure hctx
  | cons v rest ih =>
    obtain ⟨hnew, hrest⟩ := List.nodup_cons.1 hnodup
    refine .bind (idles_bind hctx (hfresh v (by simp)) htype) fun bound s₁ hle hs₁ hbound => ?_
    refine (ih (hle.isDeferred htype) hbound.1 hrest fun w hw => ?_).imp
      fun inner s₂ hinner w hw => ?_
    · refine hbound.2 w ?_ (hfresh w (List.mem_cons_of_mem _ hw))
      rintro rfl
      exact hnew hw
    · refine hinner w ?_
      simp only [List.cons_append, List.mem_cons, List.mem_append] at hw ⊢
      tauto

end Attempt

namespace Engine

open Attempt

variable {e : Engine} {s : Store} {ctx : Context} {scope : List VarId}

/-! ## The rules -/

/-- One level further down, reduction gives reduced terms back: compilation in every scope,
evaluation if no value is missing. -/
def Restores (e : Engine) : Prop :=
  ∀ {mode s ctx scope t}, s.Reduced scope t → Awaits s scope ctx →
    (s.shape Store.comptimeType).isDeferred = true → mode = .compile ∨ scope = [] →
    Idles (fun t' _ => t' = t) (e.reduce mode ctx t) s

section Rules

variable (he : e.Restores) {mode : Mode}

include he

/-- The parameters that are left are bound to placeholders one after the other. -/
theorem idles_bindParams (before params : List (VarId × TermId))
    (htype : (s.shape Store.comptimeType).isDeferred = true)
    (hctx : Awaits s (before.map (·.1) ++ scope) ctx) (hnodup : (params.map (·.1)).Nodup)
    (hfresh : ∀ p ∈ params, ctx.innermost.get? p.1 = none)
    (hparams : ∀ first p after, params = first ++ p :: after →
      s.Reduced ((before ++ first).map (·.1) ++ scope) p.2) :
    Idles (fun r s' => Awaits s' ((before ++ params).map (·.1) ++ scope) r.1 ∧ r.2 = params)
      (e.bindParams ctx params) s := by
  induction params generalizing s ctx before with
  | nil => exact .pure ⟨by simpa using hctx, rfl⟩
  | cons p rest ih =>
    obtain ⟨v, ty⟩ := p
    obtain ⟨hnew, hrest⟩ := List.nodup_cons.1 hnodup
    have hty : s.Reduced (before.map (·.1) ++ scope) ty := by
      simpa using hparams [] (v, ty) rest rfl
    refine .bind (he hty hctx htype (.inl rfl)) fun ty' s₁ h₁ hs₁ heq => ?_
    subst heq
    refine .reads rfl (.bind (.deferred (hty.mono h₁).allocated _)
      fun placeholder s₂ h₂ hs₂ hdeferred => ?_)
    have hv : ctx.innermost.get? v = none := hfresh (v, ty') (by simp)
    refine .bind (idles_bind (hctx.mono (h₁.trans h₂)) hv hdeferred)
      fun inner s₃ h₃ hs₃ hinner => ?_
    have hle := (h₁.trans h₂).trans h₃
    refine .bind (ih (before ++ [(v, ty')]) (hle.isDeferred htype) (fun w hw => ?_) hrest
      (fun q hq => ?_) fun first q after hsplit => ?_) fun r s₄ h₄ hs₄ hr => .pure ⟨?_, ?_⟩
    · refine hinner.1 w ?_
      simp only [List.map_append, List.mem_append, List.mem_cons, List.map_cons] at hw ⊢
      tauto
    · refine hinner.2 q.1 ?_ (hfresh q (List.mem_cons_of_mem _ hq))
      rintro rfl
      exact hnew (List.mem_map.2 ⟨q, hq, rfl⟩)
    · have hq := (hparams ((v, ty') :: first) q after (by rw [hsplit]; rfl)).mono hle
      simpa using hq
    · simpa using hr.1
    · rw [hr.2]

section Components

variable (htype : (s.shape Store.comptimeType).isDeferred = true) (hctx : Awaits s scope ctx)
  (hmode : mode = .compile ∨ scope = [])

include htype hctx hmode

theorem idles_reduceNamed {named : List (String × TermId)}
    (hnamed : ∀ c ∈ named, s.Reduced scope c.2) :
    Idles (fun named' _ => named' = named) (e.reduceNamed mode ctx named) s := by
  induction named generalizing s with
  | nil => exact .pure rfl
  | cons c rest ih =>
    refine .bind (he (hnamed c (by simp)) hctx htype hmode) fun t s₁ h₁ hs₁ heq => ?_
    refine .bind (ih (h₁.isDeferred htype) (hctx.mono h₁) fun c' hc' => ?_)
      fun rest' s₂ h₂ hs₂ heq' => .pure ?_
    · exact (hnamed c' (List.mem_cons_of_mem _ hc')).mono h₁
    · rw [heq, heq']

theorem idles_reduceSlots {slots : List (Slot TermId)}
    (hslots : ∀ slot ∈ slots, s.Reduced scope slot.ty) :
    Idles (fun slots' _ => slots' = slots) (e.reduceSlots mode ctx slots) s := by
  induction slots generalizing s with
  | nil => exact .pure rfl
  | cons slot rest ih =>
    refine .bind (he (hslots slot (by simp)) hctx htype hmode) fun ty s₁ h₁ hs₁ heq => ?_
    refine .bind (ih (h₁.isDeferred htype) (hctx.mono h₁) fun slot' hslot' => ?_)
      fun rest' s₂ h₂ hs₂ heq' => .pure ?_
    · exact (hslots slot' (List.mem_cons_of_mem _ hslot')).mono h₁
    · rw [heq, heq']

end Components

omit he in
/-- A closed function captures nothing. -/
theorem idles_ensureAvailable {function : TermId}
    (hclosed : (s.freeVariables function).isEmpty = true) :
    Idles (fun _ _ => True) (ensureAvailable ctx function) s := by
  have hnone : (s.freeVariables function).vars = [] := by
    rw [VarMap.vars, List.isEmpty_iff.1 hclosed, List.map_nil]
  refine .reads rfl ?_
  rw [hnone]
  exact .pure trivial

omit he in
/-- In compilation a variable that awaits its value stands for itself. -/
theorem idles_reduceVariable {t : TermId} {v : VarId} (hctx : Awaits s scope ctx)
    (hv : v ∈ scope) : Idles (fun t' _ => t' = t) (e.reduceVariable .compile ctx t v) s := by
  obtain ⟨value, hget, hdeferred⟩ := hctx v hv
  unfold reduceVariable
  rw [hget]
  refine .reads rfl ?_
  cases hvalue : s.shape value with
  | deferred ty availability => exact .pure rfl
  | _ =>
    rw [hvalue] at hdeferred
    cases hdeferred

omit he in
/-- A quantifier without idle variables is built again. -/
theorem idles_quantify {t body : TermId} {vars : List VarId} (ht : s.Allocated t)
    (hshape : s.shape t = .forAll vars body)
    (hused : ∀ v ∈ vars, (s.freeVariables body).contains v = true) :
    Idles (fun t' _ => t' = t) (quantify vars body) s := by
  refine .reads rfl ?_
  rw [List.filter_eq_self.2 hused]
  exact .intern ht hshape

/-- Reduction gives a reduced term back, by its shape. -/
theorem idles_reduceStep {t : TermId} (hs : s.Intact) (ht : s.Reduced scope t)
    (hctx : Awaits s scope ctx) (htype : (s.shape Store.comptimeType).isDeferred = true)
    (hmode : mode = .compile ∨ scope = []) :
    Idles (fun t' _ => t' = t) (e.reduceStep mode ctx t) s := by
  have hallocated := ht.allocated
  -- Evaluation goes on under no binder, so that what it comes to is closed.
  have hclosed : ∀ {s'}, s.Extends s' → mode = .evaluate → (s'.freeVariables t).isEmpty = true := by
    intro s' hle hevaluate
    obtain rfl : scope = [] := by simpa [hevaluate] using hmode
    rw [hle.freeVariables_eq hallocated]
    exact ht.closed hs.toLinked
  refine .reads rfl ?_
  cases ht with
  | «variable» hshape hmem =>
    rw [hshape]
    rcases hmode with rfl | rfl
    · exact idles_reduceVariable hctx hmem
    · cases hmem
  | constant _ hconstant =>
    cases hshape : s.shape t <;> rw [hshape] at hconstant
    all_goals first | exact .pure rfl | cases hconstant
  | unitValue hshape hty =>
    rw [hshape]
    refine .bind (he hty hctx htype hmode) fun ty s₁ h₁ hs₁ heq => ?_
    subst heq
    exact .intern (h₁.allocated hallocated) ((h₁.shape_eq hallocated).trans hshape)
  | productValue hshape hty hfields =>
    rw [hshape]
    refine .bind (he hty hctx htype hmode) fun ty s₁ h₁ hs₁ heq => ?_
    subst heq
    refine .bind (idles_reduceNamed he (h₁.isDeferred htype) (hctx.mono h₁) hmode
      fun field hfield => (hfields field hfield).mono h₁) fun fields s₂ h₂ hs₂ heq => ?_
    subst heq
    have hle := h₁.trans h₂
    exact .intern (hle.allocated hallocated) ((hle.shape_eq hallocated).trans hshape)
  | functionType hshape hparams hresult =>
    rw [hshape]
    refine .bind (idles_reduceSlots he htype hctx hmode hparams) fun params s₁ h₁ hs₁ heq => ?_
    subst heq
    refine .bind (he (hresult.mono h₁) (hctx.mono h₁) (h₁.isDeferred htype) hmode)
      fun result s₂ h₂ hs₂ heq => ?_
    subst heq
    have hle := h₁.trans h₂
    exact .intern (hle.allocated hallocated) ((hle.shape_eq hallocated).trans hshape)
  | productType hshape hmembers =>
    rw [hshape]
    refine .bind (idles_reduceNamed he htype hctx hmode hmembers) fun members s₁ h₁ hs₁ heq => ?_
    subst heq
    exact .intern (h₁.allocated hallocated) ((h₁.shape_eq hallocated).trans hshape)
  | function hshape hne hnodup hparams hbody =>
    rw [hshape]
    unfold reduceAbstraction
    refine .reads rfl ?_
    dsimp only
    rw [if_neg (by simpa using hne)]
    refine .bind (idles_bindParams he [] _ htype hctx.child hnodup (fun _ _ => rfl) hparams)
      fun r s₁ h₁ hs₁ hr => ?_
    obtain ⟨inner, params⟩ := r
    obtain ⟨hinner, rfl⟩ := hr
    refine .bind (he (hbody.mono h₁) hinner (h₁.isDeferred htype) (.inl rfl))
      fun body s₂ h₂ hs₂ heq => ?_
    subst heq
    have hle := h₁.trans h₂
    refine .bind (.intern (hle.allocated hallocated) ((hle.shape_eq hallocated).trans hshape))
      fun function s₃ h₃ hs₃ heq => ?_
    subst heq
    have hclosed₃ := hclosed ((h₁.trans h₂).trans h₃)
    split
    · exact .bind (idles_ensureAvailable (hclosed₃ ‹_›)) fun _ _ _ _ _ => .pure rfl
    · exact .pure rfl
  | quantified hshape hnodup hused hbody =>
    rw [hshape]
    refine .bind (idles_bindQuantified htype hctx.child hnodup fun _ _ => rfl)
      fun inner s₁ h₁ hs₁ hinner => ?_
    refine .bind (he (hbody.mono h₁) hinner (h₁.isDeferred htype) (.inl rfl))
      fun body s₂ h₂ hs₂ heq => ?_
    subst heq
    have hle := h₁.trans h₂
    refine .bind (idles_quantify (hle.allocated hallocated) ((hle.shape_eq hallocated).trans hshape)
      fun v hv => ?_) fun function s₃ h₃ hs₃ heq => ?_
    · rw [hle.freeVariables_eq hbody.allocated]
      exact hused v hv
    subst heq
    have hclosed₃ := hclosed ((h₁.trans h₂).trans h₃)
    split
    · exact .bind (idles_ensureAvailable (hclosed₃ ‹_›)) fun _ _ _ _ _ => .pure rfl
    · exact .pure rfl

end Rules

/-- At every number of levels reduced terms are given back. -/
theorem restores_ofLevels (n : Nat) : (ofLevels n).Restores := by
  induction n with
  | zero => exact fun _ _ _ _ _ => .deep
  | succ n ih => exact fun ht hctx htype hmode hs => idles_reduceStep ih hs ht hctx htype hmode hs

end Engine

/-! ## The placeholder for quantified variables -/

namespace Attempt

open Correspondence

/-- However a computation ends, it only adds to an intact store. -/
theorem extends_run {α : Type} {post : Post α} {c : Attempt α} {s : Store} (hs : s.Intact)
    (h : itself.Corresponds post c c s s) : s.Extends (c.run s).2 := by
  have hends := h ⟨rfl, hs⟩
  generalize c.run s = r at hends
  cases hends with
  | fails hleads _ => exact hleads.left
  | gives hleads _ => exact hleads.left

end Attempt

namespace Store

variable {s : Store}

/-- Quantified variables stand for a placeholder in every store that comes about. -/
theorem Genuine.deferred_comptimeType (h : s.Genuine) :
    (s.shape comptimeType).isDeferred = true := by
  induction h with
  | initial config =>
    have hcommon : ((Build.commonTerms.run (empty config)).2.shape comptimeType).isDeferred = true :=
      rfl
    exact (extends_commonTerms config).isDeferred hcommon
  | intern _ _ ih => exact (extends_intern _ _).isDeferred ih
  | freshVariable comptime name _ ih =>
    exact (extends_freshVariable _ comptime name).isDeferred ih
  | freshNamedType name _ ih => exact (extends_freshNamedType _ name).isDeferred ih
  | register _ _ _ _ ih => exact (extends_register _ _ _).isDeferred ih
  | builtin name _ ih => exact (extends_builtin _ name).isDeferred ih
  | remember _ _ ih => exact ih
  | redirect sink _ ih => exact ih
  | @write s text _ ih =>
    obtain ⟨output, houtput⟩ := write_cases s text
    rw [houtput]
    exact ih
  | infer hs hctx ht ih =>
    exact (Attempt.extends_run hs.intact (Correspondence.corresponds_infer
      Correspondence.lawful_itself (Attempt.scope_itself hctx) ⟨rfl, ht⟩)).isDeferred ih
  | reduce hs hctx ht ih =>
    exact (Attempt.extends_run hs.intact (Correspondence.corresponds_reduce
      Correspondence.lawful_itself (Attempt.scope_itself hctx) ⟨rfl, ht⟩)).isDeferred ih
  | resolve hs hctx hcallee hargs ih =>
    exact (Attempt.extends_run hs.intact (Correspondence.corresponds_resolveCallee
      Correspondence.lawful_itself (Attempt.scope_itself hctx) ⟨rfl, hcallee⟩
      (Likeness.terms_diagonal.2 ⟨rfl, hargs⟩))).isDeferred ih
  | observed hs hctx ht ih =>
    refine (Attempt.extends_run hs.intact (.restrict Correspondence.lawful_itself.toSteady
      (Attempt.scope_itself hctx) ⟨rfl, ht⟩ fun hleads hu => ?_)).isDeferred ih
    exact Correspondence.corresponds_infer Correspondence.lawful_itself
      (hleads.scope Correspondence.lawful_itself.toSteady (Attempt.scope_itself hctx)) hu

end Store

namespace Attempt

variable {s s' : Store} {t v : TermId}

/-- A reduced term is given back if its variables await their values. Evaluation goes on under no
binder, so that it takes closed terms only. -/
theorem reduce_reduced {mode : Mode} {ctx : Context} {scope : List VarId} (hs : s.Genuine)
    (ht : s.Reduced scope t) (hctx : Awaits s scope ctx) (hmode : mode = .compile ∨ scope = []) :
    Ends (fun t' _ => t' = t) s ((reduce mode ctx t).run s) :=
  Engine.restores_ofLevels s.config.maxDepth ht hctx hs.deferred_comptimeType hmode hs.intact

/-- A reduced term is its own value in every context. -/
theorem evaluate_reduced (hs : s.Genuine) (ctx : Context) (ht : s.Reduced [] t) :
    Ends (fun t' _ => t' = t) s ((evaluate ctx t).run s) :=
  reduce_reduced hs ht nofun (.inr rfl)

/-- A value in which nothing is left to do is its own value, and evaluating it again writes nothing,
unless depth is lacking. -/
theorem evaluate_again (hs : s.Genuine) (ht : s.Allocated t)
    (hrun : (evaluate .root t).run s = (.ok v, s')) (hv : s'.Reduced [] v) (ctx : Context) :
    (∃ limit, ((evaluate ctx v).run s').1 = .error (.depthExceeded limit)) ∨
      ((evaluate ctx v).run s').1 = .ok v ∧
        ((evaluate ctx v).run s').2.output = s'.output := by
  have hs' : s'.Genuine := by
    have hreduced : ((evaluate .root t).run s).2.Genuine := .reduce hs nofun ht
    rwa [hrun] at hreduced
  have hends := evaluate_reduced hs' ctx hv
  generalize (evaluate ctx v).run s' = r at hends ⊢
  cases hends with
  | deep => exact Or.inl ⟨_, rfl⟩
  | gives _ _ houtput hpost =>
    subst hpost
    exact Or.inr ⟨rfl, houtput⟩

/-- A residual program in which nothing is left to do is its own residual program, unless depth is
lacking. It may have free variables, whose values the context has to await. -/
theorem compile_again {ctx : Context} {scope : List VarId} (hs : s.Genuine)
    (hctx : ∀ handle ∈ ctx.handles, s.Owns handle) (ht : s.Allocated t)
    (hrun : (compile ctx t).run s = (.ok v, s')) (hv : s'.Reduced scope v)
    (hawaits : Awaits s' scope ctx) :
    (∃ limit, ((compile ctx v).run s').1 = .error (.depthExceeded limit)) ∨
      ((compile ctx v).run s').1 = .ok v ∧ ((compile ctx v).run s').2.output = s'.output := by
  have hs' : s'.Genuine := by
    have hreduced : ((compile ctx t).run s).2.Genuine := .reduce hs hctx ht
    rwa [hrun] at hreduced
  have hends : Ends (fun t' _ => t' = v) s' ((compile ctx v).run s') :=
    reduce_reduced hs' hv hawaits (.inl rfl)
  generalize (compile ctx v).run s' = r at hends ⊢
  cases hends with
  | deep => exact Or.inl ⟨_, rfl⟩
  | gives _ _ houtput hpost =>
    subst hpost
    exact Or.inr ⟨rfl, houtput⟩

end Attempt

namespace Sample

open Build

/-- `(fn(x: Unit) => fn(y: Unit) => x)(Unit{})`. -/
def returnedFunction : Build TermId := do
  let x ← freshVariable false (some "x")
  let y ← freshVariable false (some "y")
  let body ← variableTerm x
  let inner ← abstraction [] [(y, Store.unitType)] body
  let outer ← abstraction [] [(x, Store.unitType)] inner
  apply outer [← unitValue Store.unitType]

seal Store.intern Store.initial in
/-- The term in a new store. -/
def returned : Store.Setup TermId := returnedFunction.setup <| by
  repeat' apply Store.Built.add
  · exact fun _ : True => .freshVariable _ _ (.freshVariable _ _ (.initial {}))
  · decide +kernel

end Sample

namespace Attempt

open Sample

/-- The value is `fn(y: Unit) => Unit{}`. -/
theorem evaluate_again_returnedFunction :
    ∃ s t v s', s.Genuine ∧ s.Allocated t ∧ (evaluate .root t).run s = (.ok v, s') ∧
      s'.Reduced [] v ∧
      ((∃ limit, ((evaluate .root v).run s').1 = .error (.depthExceeded limit)) ∨
        ((evaluate .root v).run s').1 = .ok v ∧
          ((evaluate .root v).run s').2.output = s'.output) := by
  have hbuilt := returned.built
  have hterm : returned.store.Allocated ⟨27⟩ := by decide +kernel
  have hchecks :
      let r := (evaluate .root ⟨27⟩).run returned.store
      r.1 = .ok ⟨31⟩ ∧ r.2.shape ⟨31⟩ = .abstraction [] [(⟨7⟩, Store.unitType)] ⟨26⟩ ∧
        r.2.shape ⟨26⟩ = .unitValue Store.unitType ∧ r.2.shape Store.unitType = .unitType := by
    decide +kernel
  obtain ⟨hvalue, hshape, hbody, hunit⟩ := hchecks
  generalize returned.store = s at *
  rcases hrun : (evaluate .root ⟨27⟩).run s with ⟨r, s'⟩
  rw [hrun] at hvalue hshape hbody hunit
  obtain rfl : r = .ok ⟨31⟩ := hvalue
  have htype : ∀ scope, s'.Reduced scope Store.unitType := fun scope =>
    .constant (Store.allocated_of_shape (by rw [hunit]; exact nofun)) (by rw [hunit]; rfl)
  have hreduced : s'.Reduced [] ⟨31⟩ := by
    refine .function hshape (by simp) (by simp) (fun before p after hsplit => ?_)
      (.unitValue hbody (htype _))
    have hp : p ∈ [((⟨7⟩ : VarId), Store.unitType)] := by rw [hsplit]; simp
    rw [List.mem_singleton.1 hp]
    exact htype _
  exact ⟨s, ⟨27⟩, ⟨31⟩, s', hbuilt.genuine, hterm, hrun, hreduced,
    evaluate_again hbuilt.genuine hterm hrun hreduced .root⟩

end Attempt

namespace Sample

open Build

/-- `(fn(y: Unit) => fn(z: Unit) => y)(x)`, and a context in which `x` awaits its value. -/
def awaitedVariable : Build (TermId × Context) := do
  let x ← freshVariable false (some "x")
  let y ← freshVariable false (some "y")
  let z ← freshVariable false (some "z")
  let placeholder ← deferred Store.unitType .runtime
  let body ← variableTerm y
  let inner ← abstraction [] [(z, Store.unitType)] body
  let outer ← abstraction [] [(y, Store.unitType)] inner
  let call ← apply outer [← variableTerm x]
  return (call, ⟨[(x, placeholder)], []⟩)

seal Store.intern Store.initial in
/-- The term and its context in a new store. -/
def awaited : Store.Setup (TermId × Context) := awaitedVariable.setup <| by
  repeat' apply Store.Built.add
  · exact fun _ : True => .freshVariable _ _ (.freshVariable _ _ (.freshVariable _ _ (.initial {})))
  · decide +kernel

end Sample

namespace Attempt

open Sample

/-- The residual program is `fn(z: Unit) => x`. -/
theorem compile_again_awaitedVariable :
    ∃ s : Store, s.Genuine ∧ ∃ ctx t v s', (∀ handle ∈ ctx.handles, s.Owns handle) ∧
      s.Allocated t ∧ (compile ctx t).run s = (.ok v, s') ∧
      ∃ x, s'.Reduced [x] v ∧ Awaits s' [x] ctx ∧
        ((∃ limit, ((compile ctx v).run s').1 = .error (.depthExceeded limit)) ∨
          ((compile ctx v).run s').1 = .ok v ∧
            ((compile ctx v).run s').2.output = s'.output) := by
  have hgenuine := awaited.built.genuine
  have hchecks :
      let ctx := awaited.value.2
      let r := (compile ctx awaited.value.1).run awaited.store
      (∀ handle ∈ ctx.handles, awaited.store.Owns handle) ∧
        awaited.store.Allocated awaited.value.1 ∧ r.1 = .ok ⟨31⟩ ∧
        r.2.shape ⟨31⟩ = .abstraction [] [(⟨8⟩, Store.unitType)] ⟨27⟩ ∧
        r.2.shape ⟨27⟩ = .variable ⟨6⟩ ∧ r.2.shape Store.unitType = .unitType ∧
        (ctx.get? ⟨6⟩).any fun value => (r.2.shape value).isDeferred := by
    decide +kernel
  generalize awaited.store = s at hgenuine hchecks
  generalize awaited.value = program at hchecks
  obtain ⟨t, ctx⟩ := program
  obtain ⟨hctx, ht, hvalue, hshape, hbody, hunit, hwaits⟩ := hchecks
  dsimp only at hctx ht hvalue hshape hbody hunit hwaits
  rcases hrun : (compile ctx t).run s with ⟨r, s'⟩
  rw [hrun] at hvalue hshape hbody hunit hwaits
  obtain rfl : r = .ok ⟨31⟩ := hvalue
  have htype : ∀ scope, s'.Reduced scope Store.unitType := fun scope =>
    .constant (Store.allocated_of_shape (by rw [hunit]; exact nofun)) (by rw [hunit]; rfl)
  have hreduced : s'.Reduced [⟨6⟩] ⟨31⟩ := by
    refine .function hshape (by simp) (by simp) (fun before p after hsplit => ?_)
      (.variable hbody (by simp))
    have hp : p ∈ [((⟨8⟩ : VarId), Store.unitType)] := by rw [hsplit]; simp
    rw [List.mem_singleton.1 hp]
    exact htype _
  have hawaits : Awaits s' [⟨6⟩] ctx := by
    intro v hv
    rw [List.mem_singleton.1 hv]
    exact (Option.any_eq_true _ _).1 hwaits
  exact ⟨s, hgenuine, ctx, t, ⟨31⟩, s', hctx, ht, hrun, ⟨6⟩, hreduced, hawaits,
    compile_again hgenuine hctx ht hrun hreduced hawaits⟩

end Attempt

/-! ## A value that is none -/

namespace Sample

open Build

/-- `forall T. printf("A")`. -/
def quantifiedCall : Build TermId := do
  let ty ← freshVariable true (some "T")
  forAll [ty] (← plainCall)

theorem reaches_quantifiedCall {s : Store} : Reaches Store.Allocated quantifiedCall s := by
  refine .bind (.freshVariable _ _) fun ty s₁ h₁ _ => ?_
  refine .bind reaches_plainCall fun call s₂ h₂ hcall => .intern fun _ => ?_
  simpa [Shape.children] using hcall

end Sample

namespace Attempt

open Sample

/-- Evaluation compiles the body of a quantifier, and drops the quantifier around what does not
mention its variable. What is left is a residual call, which is made when it is evaluated again. -/
theorem evaluate_leaves_call :
    ∃ s : Store, s.Reachable ∧ s.output = {} ∧
      ∃ t v w, s.Allocated t ∧ (s.freeVariables t).isEmpty = true ∧
        ((evaluate .root t).run s).1 = .ok v ∧
        (((evaluate .root t).run s).2.freeVariables v).isEmpty = true ∧
        ((evaluate .root t).run s).2.output.text = "" ∧
        ((evaluate .root v).run ((evaluate .root t).run s).2).1 = .ok w ∧ w ≠ v ∧
        ((evaluate .root v).run ((evaluate .root t).run s).2).2.output.text = "A" := by
  refine ⟨(quantifiedCall.run (.initial {})).2, reaches_quantifiedCall.reachable, ?_,
    (quantifiedCall.run (.initial {})).1, ⟨24⟩, ⟨27⟩, ?_⟩
  all_goals decide +kernel

end Attempt

end StagedCalculus
