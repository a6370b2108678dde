import StagedCalculus.Proofs.Staging.Instances

/-!
# Compiling a type instantiates it

Resolution compiles the types of positions in a context that binds quantified variables: to a
placeholder as long as nothing is known about a variable, and to a closed term from then on. This
module proves that compilation gives the instance of the type at these terms
(`Engine.instantiates_ofLevels`).
-/

namespace StagedCalculus

namespace Store

variable {s s' : Store} {σ : Filling} {scope : List VarId} {t u : TermId}

/-- The instance of a term, if it has one. -/
noncomputable def instanceOf (s : Store) (σ : Filling) (t : TermId) : TermId :=
  @Classical.epsilon TermId ⟨t⟩ (s.Instance σ t)

namespace Instance

theorem instanceOf_eq (hs : s.Canonical) (h : s.Instance σ t u) (ht : s.Schema scope t) :
    s.instanceOf σ t = u :=
  h.unique hs ht.reduced (fun _ _ => rfl) (Classical.epsilon_spec ⟨u, h⟩)

theorem to_instanceOf (hs : s.Canonical) (h : s.Instance σ t u) (ht : s.Schema scope t) :
    s.Instance σ t (s.instanceOf σ t) := by rwa [h.instanceOf_eq hs ht]

end Instance

theorem Covers.map {shape : Shape TermId} (h : s.Covers shape) {image : TermId → TermId}
    (himage : ∀ child ∈ shape.children, s.Allocated (image child)) :
    s.Covers (shape.map image) := by
  obtain ⟨-, hvars, hconstants⟩ := Shape.forall_mem_handles.1 h
  refine Shape.forall_mem_handles.2 ⟨?_, by rwa [Shape.ownVars_map], ?_⟩
  · rw [Shape.children_map]
    exact List.forall_mem_map.2 himage
  · revert hconstants
    cases shape <;> exact id

end Store

namespace Attempt

variable {s s' : Store} {scope vars : List VarId} {σ : Filling} {ctx : Context} {v : VarId}

/-- What a computation gives may be looked at in the store that it leaves. -/
theorem Idles.later {α : Type} {post post' : α → Store → Prop} {c : Attempt α}
    (hc : Idles post c s) (h : ∀ a s₁, s.Extends s₁ → post a s₁ → post' a s₁) :
    Idles post' c s := by
  intro hs
  have hends := hc hs
  generalize c.run s = r at hends ⊢
  cases hends with
  | deep => exact .deep
  | gives hle hs₁ houtput hpost => exact .gives hle hs₁ houtput (h _ _ hle hpost)

/-- A term that may be new. -/
theorem Idles.builds {shape : Shape TermId} (hshape : s.Covers shape)
    (hne : ∀ body, shape ≠ .forAll [] body) :
    Idles (fun t s' => s'.Allocated t ∧ s'.shape t = shape) (Build.intern shape) s := fun hs =>
  .gives (Store.extends_intern s shape) (Store.intact_intern hs hshape)
    (Store.output_intern s shape)
    ⟨Store.allocated_intern hs.toLinked (Store.Covers.children hshape), Store.shape_intern hne⟩

/-- The context binds each variable in scope to what fills it, or to a placeholder if nothing
does. -/
def Fills (s : Store) (scope : List VarId) (σ : Filling) (ctx : Context) : Prop :=
  ∀ v ∈ scope, ∃ value, ctx.get? v = some value ∧
    (σ v = none ∧ (s.shape value).isDeferred = true ∨ σ v = some value ∧ s.Reduced [] value)

namespace Fills

theorem mono (h : Fills s scope σ ctx) (hle : s.Extends s') : Fills s' scope σ ctx := by
  intro v hv
  obtain ⟨value, hget, hvalue⟩ := h v hv
  refine ⟨value, hget, hvalue.imp (fun hopen => ⟨hopen.1, ?_⟩) fun hfilled => ⟨hfilled.1, ?_⟩⟩
  · exact hle.isDeferred hopen.2
  · exact hfilled.2.mono hle

theorem child (h : Fills s scope σ ctx) : Fills s scope σ ctx.child := by
  intro v hv
  rw [Context.get?_child]
  exact h v hv

/-- What fills a variable is closed. -/
theorem closed (h : Fills s scope σ ctx) : ∀ v ∈ scope, ∀ u, σ v = some u → s.Reduced [] u := by
  intro v hv u hu
  obtain ⟨value, -, ⟨hnone, -⟩ | ⟨hfilled, hvalue⟩⟩ := h v hv
  · rw [hnone] at hu
    cases hu
  · rw [hfilled] at hu
    cases hu
    exact hvalue

end Fills

/-- Binding a variable that its frame does not bind yet to a placeholder leaves it open. -/
theorem idles_bindOpen (hctx : Fills s scope σ ctx) {placeholder : TermId}
    (hv : ctx.innermost.get? v = none) (hdeferred : (s.shape placeholder).isDeferred = true) :
    Idles (fun bound s' => Fills s' (v :: scope) (σ.under [v]) bound ∧
        ∀ w, w ≠ v → ctx.innermost.get? w = none → bound.innermost.get? w = none)
      (Attempt.bind ctx v placeholder) s := by
  have hbind : ctx.bind? v placeholder =
      some { ctx with innermost := (v, placeholder) :: ctx.innermost } := by
    simp [Context.bind?, hv]
  unfold Attempt.bind
  rw [hbind]
  refine .pure ⟨fun w hw => ?_, fun w hne hw => ?_⟩
  · rw [Context.get?_bind? hbind]
    split
    · rename_i heq
      exact ⟨placeholder, rfl, .inl ⟨Filling.under_of_mem (by simp [heq]), hdeferred⟩⟩
    · rename_i hne
      rw [Filling.under_of_not_mem (by simpa using hne)]
      exact hctx w ((List.mem_cons.1 hw).resolve_left hne)
  · simpa [Frame.get?, Ne.symm hne] using hw

theorem idles_bindQuantifiedOpen (htype : (s.shape Store.comptimeType).isDeferred = true)
    (hctx : Fills s scope σ ctx) (hnodup : vars.Nodup)
    (hfresh : ∀ v ∈ vars, ctx.innermost.get? v = none) :
    Idles (fun bound s' => Fills s' (vars ++ scope) (σ.under vars) bound)
      (bindQuantified ctx vars) s := by
  induction vars generalizing s ctx scope σ with
  | nil => exact .pure (by simpa using hctx)
  | cons v rest ih =>
    obtain ⟨hnew, hrest⟩ := List.nodup_cons.1 hnodup
    refine .bind (idles_bindOpen hctx (hfresh v (by simp)) htype) fun bound s₁ hle hs₁ hbound => ?_
    refine (ih (hle.isDeferred htype) hbound.1 hrest fun w hw => ?_).imp
      fun inner s₂ hinner w hw => ?_
    · refine hbound.2 w ?_ (hfresh w (List.mem_cons_of_mem _ hw))
      rintro rfl
      exact hnew hw
    · have hunder : σ.under (v :: rest) = (σ.under [v]).under rest := σ.under_append [v] rest
      rw [hunder]
      refine hinner w ?_
      simp only [List.cons_append, List.mem_cons, List.mem_append] at hw ⊢
      tauto

end Attempt

namespace Engine

open Attempt Store

variable {e : Engine} {s : Store} {ctx : Context} {scope : List VarId} {σ : Filling} {t : TermId}

/-- One level further down, compilation gives the instance of a schema. -/
def Instantiates (e : Engine) : Prop :=
  ∀ {s ctx scope σ t}, s.Schema scope t → Fills s scope σ ctx →
    (s.shape comptimeType).isDeferred = true →
    Idles (fun t' s' => s'.Instance σ t t') (e.compile ctx t) s

/-! ## The rules -/

section Rules

variable (he : e.Instantiates) (htype : (s.shape comptimeType).isDeferred = true)
  (hctx : Fills s scope σ ctx)

include he htype hctx

theorem idles_fillNamed {named : List (String × TermId)}
    (hnamed : ∀ c ∈ named, s.Schema scope c.2) :
    Idles (fun named' s' => named' = named.map (fun c => (c.1, s'.instanceOf σ c.2)) ∧
        ∀ c ∈ named, s'.Instance σ c.2 (s'.instanceOf σ c.2))
      (e.reduceNamed .compile ctx named) s := by
  induction named generalizing s with
  | nil => exact .pure ⟨rfl, by simp⟩
  | cons c rest ih =>
    have hc := hnamed c (by simp)
    refine .bind (he hc hctx htype) fun t s₁ h₁ hs₁ hinstance => ?_
    refine .bind (ih (h₁.isDeferred htype) (hctx.mono h₁) fun c' hc' => ?_)
      fun rest' s₂ h₂ hs₂ hrest => .pure ?_
    · exact (hnamed c' (List.mem_cons_of_mem _ hc')).mono h₁
    · have hc₂ := hc.mono (h₁.trans h₂)
      have hinstance₂ := hinstance.mono h₂
      refine ⟨?_, List.forall_mem_cons.2 ⟨hinstance₂.to_instanceOf hs₂.toCanonical hc₂, hrest.2⟩⟩
      rw [List.map_cons, hrest.1, hinstance₂.instanceOf_eq hs₂.toCanonical hc₂]

theorem idles_fillSlots {slots : List (Slot TermId)}
    (hslots : ∀ slot ∈ slots, s.Schema scope slot.ty) :
    Idles (fun slots' s' => slots' = slots.map (Slot.map (s'.instanceOf σ)) ∧
        ∀ slot ∈ slots, s'.Instance σ slot.ty (s'.instanceOf σ slot.ty))
      (e.reduceSlots .compile ctx slots) s := by
  induction slots generalizing s with
  | nil => exact .pure ⟨rfl, by simp⟩
  | cons slot rest ih =>
    have hslot := hslots slot (by simp)
    refine .bind (he hslot hctx htype) fun t s₁ h₁ hs₁ hinstance => ?_
    refine .bind (ih (h₁.isDeferred htype) (hctx.mono h₁) fun slot' hslot' => ?_)
      fun rest' s₂ h₂ hs₂ hrest => .pure ?_
    · exact (hslots slot' (List.mem_cons_of_mem _ hslot')).mono h₁
    · have hslot₂ := hslot.mono (h₁.trans h₂)
      have hinstance₂ := hinstance.mono h₂
      refine ⟨?_, List.forall_mem_cons.2 ⟨hinstance₂.to_instanceOf hs₂.toCanonical hslot₂, hrest.2⟩⟩
      rw [List.map_cons, hrest.1, Slot.map, hinstance₂.instanceOf_eq hs₂.toCanonical hslot₂]

omit he htype in
/-- A variable that is filled gives way to its filling. One that is left open stands for itself. -/
theorem idles_fillVariable {v : VarId} (hshape : s.shape t = .variable v) (hv : v ∈ scope) :
    Idles (fun t' s' => s'.Instance σ t t') (e.reduceVariable .compile ctx t v) s := by
  obtain ⟨value, hget, ⟨hnone, hdeferred⟩ | ⟨hfilled, hvalue⟩⟩ := hctx v hv <;>
    unfold reduceVariable <;> rw [hget] <;> refine .reads rfl ?_
  · cases hplaceholder : s.shape value with
    | deferred ty availability => exact .pure (.kept hshape hnone)
    | _ =>
      rw [hplaceholder] at hdeferred
      cases hdeferred
  · have hinstance : s.Instance σ t value := .filled hshape hfilled
    -- A closed reduced term is neither a placeholder nor a variable.
    cases hvalue with
    | «variable» _ hmem => cases hmem
    | constant _ hconstant =>
      cases hterm : s.shape value <;> rw [hterm] at hconstant
      all_goals first | exact .pure hinstance | cases hconstant
    | unitValue hterm | productValue hterm | functionType hterm | productType hterm
    | function hterm | quantified hterm =>
      rw [hterm]
      exact .pure hinstance

omit he htype in
/-- A node is built from the instances of its subterms. -/
theorem idles_fillNode {shape : Shape TermId} (hcompound : (s.shape t).isCompound = true)
    (hparts : ∀ child ∈ (s.shape t).children, s.Schema scope child)
    (hchildren : ∀ child ∈ (s.shape t).children, s.Instance σ child (s.instanceOf σ child))
    (hshape : shape = (s.shape t).map (s.instanceOf σ)) :
    Idles (fun t' s' => s'.Instance σ t t') (Build.intern shape) s := by
  intro hs
  have ht : s.Allocated t := allocated_of_isCompound hcompound
  have hcovers : s.Covers shape := by
    rw [hshape]
    exact (hs.owned t ht).map fun child hchild => ((hchildren child hchild).schema hs
      (hparts child hchild) hctx.closed fun v hv _ => hv).allocated
  have hne : ∀ body, shape ≠ .forAll [] body := by
    rintro body rfl
    have hkind := congrArg Shape.isCompound hshape
    rw [Shape.isCompound_map, hcompound] at hkind
    cases hkind
  refine (Idles.builds hcovers hne).later (fun u s₁ hle hu => ?_) hs
  rw [← hle.shape_eq ht] at hcompound hchildren hshape
  exact .node hcompound hu.1 (hu.2.trans hshape) fun child hchild =>
    (hchildren child hchild).mono hle

omit he htype in
/-- A quantifier stays, because its variables are free in the instance of what it binds. -/
theorem idles_fillQuantified {body body' : TermId} {vars : List VarId}
    (hshape : s.shape t = .forAll vars body)
    (hused : ∀ v ∈ vars, (s.freeVariables body).contains v = true)
    (hinner : s.Schema (vars ++ scope) body) (hbody : s.Instance (σ.under vars) body body') :
    Idles (fun t' s' => s'.Instance σ t t') (quantify vars body') s := by
  intro hs
  have ht : s.Allocated t := allocated_of_shape (by simp [hshape])
  have hstays : ∀ v ∈ vars, (s.freeVariables body').contains v = true := fun v hv => by
    have hfree := hused v hv
    rw [VarMap.contains_eq, ← VarMap.mem_vars] at hfree ⊢
    exact hbody.mem_free hs.toLinked (Filling.under_of_mem hv) hfree
  have hbody' := (hbody.schema hs hinner (Filling.holds_under hctx.closed)
    fun v hv _ => hv).allocated
  have hcovers : s.Covers (.forAll vars body') := by
    have hmap : s.Covers ((s.shape t).map fun _ => body') :=
      (hs.owned t ht).map fun _ _ => hbody'
    rwa [hshape] at hmap
  have hne : ∀ inner, Shape.forAll vars body' ≠ .forAll [] inner := by
    rintro inner heq
    obtain ⟨rfl, -⟩ := Shape.forAll.inj heq
    exact hs.quantified t body hshape
  refine Idles.reads (c := freeVariables body') rfl ?_ hs
  rw [List.filter_eq_self.2 hstays]
  refine (Idles.builds hcovers hne).later fun u s₁ hle hu => ?_
  exact .quantified (hle.shape_kept hshape nofun) hu.2 (hbody.mono hle)

omit he htype in
/-- So a node is built once its subterms were compiled, in a later store. -/
theorem idles_fillLater (hcompound : (s.shape t).isCompound = true)
    (hparts : ∀ child ∈ (s.shape t).children, s.Schema scope child) {s₁ : Store}
    {shape : Shape TermId} (hle : s.Extends s₁)
    (hchildren : ∀ child ∈ (s.shape t).children, s₁.Instance σ child (s₁.instanceOf σ child))
    (hshape : shape = (s.shape t).map (s₁.instanceOf σ)) :
    Idles (fun t' s' => s'.Instance σ t t') (Build.intern shape) s₁ := by
  have hkept := hle.shape_eq (allocated_of_isCompound hcompound)
  rw [← hkept] at hcompound hparts hchildren hshape
  exact idles_fillNode (hctx.mono hle) hcompound
    (fun child hchild => (hparts child hchild).mono hle) hchildren hshape

/-- The subterms of a node are compiled first. -/
theorem idles_fillCompound (hcompound : (s.shape t).isCompound = true)
    (hparts : ∀ child ∈ (s.shape t).children, s.Schema scope child) :
    Idles (fun t' s' => s'.Instance σ t t') (e.reduceStep .compile ctx t) s := by
  have hbuild := @idles_fillLater s ctx scope σ t hctx hcompound hparts
  refine .reads rfl ?_
  cases hshape : s.shape t with
  | unitValue ty =>
    rw [hshape] at hparts hbuild
    have hty := hparts ty (by simp [Shape.children])
    refine .bind (he hty hctx htype) fun ty' s₁ h₁ hs₁ hinstance => ?_
    have hty₁ := hty.mono h₁
    refine hbuild h₁ ?_ ?_
    · simpa [Shape.children] using hinstance.to_instanceOf hs₁.toCanonical hty₁
    · rw [Shape.map, hinstance.instanceOf_eq hs₁.toCanonical hty₁]
  | productValue ty fields =>
    rw [hshape] at hparts hbuild
    obtain ⟨hty, hfields⟩ := List.forall_mem_cons.1 hparts
    refine .bind (he hty hctx htype) fun ty' s₁ h₁ hs₁ hinstance => ?_
    refine .bind (idles_fillNamed he (h₁.isDeferred htype) (hctx.mono h₁) fun field hfield =>
      (List.forall_mem_map.1 hfields field hfield).mono h₁) fun fields' s₂ h₂ hs₂ hpost => ?_
    obtain ⟨rfl, hinstances⟩ := hpost
    have hty₂ := hty.mono (h₁.trans h₂)
    have hinstance₂ := hinstance.mono h₂
    refine hbuild (h₁.trans h₂) (List.forall_mem_cons.2
      ⟨hinstance₂.to_instanceOf hs₂.toCanonical hty₂, List.forall_mem_map.2 hinstances⟩) ?_
    rw [Shape.map, hinstance₂.instanceOf_eq hs₂.toCanonical hty₂]
  | functionType params result =>
    rw [hshape] at hparts hbuild
    obtain ⟨hparams, hresult⟩ := List.forall_mem_append.1 hparts
    have hparams := List.forall_mem_map.1 hparams
    have hresult := List.forall_mem_singleton.1 hresult
    refine .bind (idles_fillSlots he htype hctx hparams) fun params' s₁ h₁ hs₁ hpost => ?_
    obtain ⟨rfl, hinstances⟩ := hpost
    refine .bind (he (hresult.mono h₁) (hctx.mono h₁) (h₁.isDeferred htype))
      fun result' s₂ h₂ hs₂ hinstance => ?_
    have hle := h₁.trans h₂
    have hresult₂ := hresult.mono hle
    -- The instances of the positions stay the same while the result is compiled.
    have hslots : ∀ slot ∈ params, s₂.Instance σ slot.ty (s₂.instanceOf σ slot.ty) ∧
        s₁.instanceOf σ slot.ty = s₂.instanceOf σ slot.ty := fun slot hslot => by
      have hslot₂ := (hparams slot hslot).mono hle
      have hinstance₂ := (hinstances slot hslot).mono h₂
      exact ⟨hinstance₂.to_instanceOf hs₂.toCanonical hslot₂,
        (hinstance₂.instanceOf_eq hs₂.toCanonical hslot₂).symm⟩
    refine hbuild hle (List.forall_mem_append.2
      ⟨List.forall_mem_map.2 fun slot hslot => (hslots slot hslot).1,
        List.forall_mem_singleton.2 (hinstance.to_instanceOf hs₂.toCanonical hresult₂)⟩) ?_
    rw [Shape.map, hinstance.instanceOf_eq hs₂.toCanonical hresult₂]
    congr 1
    exact List.map_congr_left fun slot hslot => by rw [Slot.map, Slot.map, (hslots slot hslot).2]
  | productType members =>
    rw [hshape] at hparts hbuild
    refine .bind (idles_fillNamed he htype hctx (List.forall_mem_map.1 hparts))
      fun members' s₁ h₁ hs₁ hpost => ?_
    obtain ⟨rfl, hinstances⟩ := hpost
    exact hbuild h₁ (List.forall_mem_map.2 hinstances) rfl
  | _ =>
    rw [hshape] at hcompound
    cases hcompound

/-- Compilation gives the instance of a schema, by its shape. -/
theorem idles_fillStep (ht : s.Schema scope t) (hopen : ¬ s.Reduced [] t) :
    Idles (fun t' s' => s'.Instance σ t t') (e.reduceStep .compile ctx t) s := by
  cases ht with
  | closed hreduced => exact absurd hreduced hopen
  | «variable» hshape hmem =>
    refine .reads rfl ?_
    rw [hshape]
    exact idles_fillVariable hctx hshape hmem
  | node hcompound hparts => exact idles_fillCompound he htype hctx hcompound hparts
  | quantified hshape hnodup hused hbody =>
    refine .reads rfl ?_
    rw [hshape]
    refine .bind (idles_bindQuantifiedOpen htype hctx.child hnodup fun _ _ => rfl)
      fun inner s₁ h₁ hs₁ hinner => ?_
    refine .bind (he (hbody.mono h₁) hinner (h₁.isDeferred htype))
      fun body' s₂ h₂ hs₂ hinstance => ?_
    have hle := h₁.trans h₂
    have hused₂ : ∀ v ∈ _, (s₂.freeVariables _).contains v = true := fun v hv => by
      rw [hle.freeVariables_eq hbody.allocated]
      exact hused v hv
    refine .bind (idles_fillQuantified (hctx.mono hle) (hle.shape_kept hshape (by simp)) hused₂
      (hbody.mono hle) hinstance) fun function s₃ _ _ hfunction => ?_
    rw [if_neg (by simp)]
    exact .pure hfunction

end Rules

/-- At every number of levels compilation gives the instance of a schema. -/
theorem instantiates_ofLevels (n : Nat) : (ofLevels n).Instantiates := by
  induction n with
  | zero => exact fun _ _ _ _ => .deep
  | succ n ih =>
    intro s ctx scope σ t ht hctx htype
    by_cases hclosed : s.Reduced [] t
    · refine Idles.later (restores_ofLevels (n + 1) hclosed nofun htype (.inr rfl)) ?_
      rintro t' s₁ hle rfl
      exact .closed (hclosed.mono hle)
    · exact idles_fillStep ih htype hctx ht hclosed

end Engine

end StagedCalculus
