import StagedCalculus.Proofs.Native.Resupply
import StagedCalculus.Proofs.Staging.PartialApplication

/-!
# Types of applications in two steps

The type of a partial application quantifies over the variables that its arguments left open, and
its positions are those that are left, instantiated at what the arguments determined. This module
proves that resolving the other arguments against that type goes on where resolution stopped.

* `Store.Resumes`: such a type, compared with the one of the callee;
* `Attempt.ensures_infer_partial`: the type of a partial application is of that kind;
* `Attempt.ensures_infer_whole`, `Attempt.ensures_infer_curried`: the type of a complete call, with
  a record of how it came about, and the call of the partial application on the other arguments,
  which has that type.
-/

namespace StagedCalculus

/-! ## Lists -/

theorem forall₂_imp_mem {α β : Type} {R S : α → β → Prop} {l : List α} {l' : List β}
    (h : List.Forall₂ R l l') (himp : ∀ a b, b ∈ l' → R a b → S a b) : List.Forall₂ S l l' := by
  induction h with
  | nil => exact .nil
  | cons hab _ ih =>
    exact .cons (himp _ _ List.mem_cons_self hab)
      (ih fun a b hb => himp a b (List.mem_cons_of_mem _ hb))

theorem zip_append_left {α β : Type} (l₁ l₂ : List α) (l : List β) :
    (l₁ ++ l₂).zip l = l₁.zip l ++ l₂.zip (l.drop l₁.length) := by
  induction l₁ generalizing l with
  | nil => rfl
  | cons a l₁ ih =>
    cases l with
    | nil => simp
    | cons b l => simp [ih]

theorem exists_of_forall₂ {α β : Type} {R : α → β → Prop} {l : List α} {l' : List β}
    (h : List.Forall₂ R l l') : ∀ b ∈ l', ∃ a ∈ l, R a b := by
  induction h with
  | nil => exact fun b hb => absurd hb List.not_mem_nil
  | cons hab _ ih =>
    refine List.forall_mem_cons.2 ⟨⟨_, List.mem_cons_self, hab⟩, fun b hb => ?_⟩
    obtain ⟨a, ha, hab⟩ := ih b hb
    exact ⟨a, List.mem_cons_of_mem _ ha, hab⟩

namespace Matching

/-- The state before any argument is supplied: all variables await their values. -/
def start (vars : List VarId) : Matching :=
  ⟨vars, Context.child ⟨(vars.map fun v => (v, Store.comptimeType)).reverse, [[]]⟩⟩

theorem get?_start {vars : List VarId} {v : VarId} (hv : v ∈ vars) :
    (start vars).context.get? v = some Store.comptimeType := by
  have hframe : Frame.get? (vars.map fun v => (v, Store.comptimeType)).reverse v =
      some Store.comptimeType := by
    rw [Frame.get?]
    cases hfind : (vars.map fun v => (v, Store.comptimeType)).reverse.find? fun e => e.1 = v with
    | none =>
      have hmiss := List.find?_eq_none.1 hfind (v, Store.comptimeType) (by simpa using hv)
      simp at hmiss
    | some b =>
      have hb := List.mem_of_find?_eq_some hfind
      obtain ⟨w, -, rfl⟩ := List.mem_map.1 (List.mem_reverse.1 hb)
      rfl
  rw [start, Context.get?_child, Context.get?, Context.frames, List.findSome?_cons, hframe]

theorem fits_start {s : Store} {vars : List VarId}
    (hplaceholder : (s.shape Store.comptimeType).isDeferred = true) (hnodup : vars.Nodup)
    (hvars : ∀ v ∈ vars, s.Owns (.var v)) : (start vars).Fits s vars where
  within _ hv := hv
  nodup := hnodup
  vacant _ _ := rfl
  fills v hv := ⟨_, get?_start hv, .inl ⟨filling_of_mem hv, hplaceholder⟩⟩
  owned handle hhandle := by
    have hcases : ∃ v ∈ vars, handle = .var v ∨ handle = .term Store.comptimeType := by
      simpa [start, Context.child, Context.handles, Context.frames] using hhandle
    obtain ⟨v, hv, rfl | rfl⟩ := hcases
    · exact hvars v hv
    · refine Store.allocated_of_shape fun hshape => ?_
      rw [hshape] at hplaceholder
      cases hplaceholder

end Matching

namespace Store

open Matching

variable {s s' : Store} {σ : Filling} {scope vars vars' : List VarId} {m m₁ m' : Matching}
  {ty result result' : TermId} {slots slots' : List (Slot TermId)}

/-- The quantified variables, positions and result of a function type. -/
structure Signature (s : Store) (ty : TermId) (vars : List VarId) (slots : List (Slot TermId))
    (result : TermId) : Prop where
  parts : ∃ function, (s.shape ty = .forAll vars function ∨ vars = [] ∧ function = ty) ∧
    s.shape function = .functionType slots result
  nodup : vars.Nodup

theorem Signature.mono (h : s.Signature ty vars slots result) (hle : s.Extends s') :
    s'.Signature ty vars slots result := by
  obtain ⟨⟨function, htype, hfunction⟩, hnodup⟩ := h
  exact ⟨⟨function, htype.imp_left fun h => hle.shape_kept h nofun,
    hle.shape_kept hfunction nofun⟩, hnodup⟩

theorem Signature.owns (h : s.Signature ty vars slots result) (hs : s.Canonical) :
    ∀ v ∈ vars, s.Owns (.var v) := by
  obtain ⟨function, htype | ⟨rfl, -⟩, -⟩ := h.parts
  · have hvars := (Shape.forall_mem_handles.1
      (hs.owned ty (allocated_of_shape_eq htype nofun))).2.1
    rw [htype] at hvars
    exact fun v hv => hvars v (by simpa [Shape.ownVars, Shape.binders] using .inr hv)
  · simp

theorem Signature.binds (h : s.Signature ty vars slots result) (hs : s.Canonical) :
    ∀ slot ∈ slots, ∀ v, slot.binds = some v → s.Owns (.var v) := by
  obtain ⟨function, -, hfunction⟩ := h.parts
  have hvars := (Shape.forall_mem_handles.1
    (hs.owned function (allocated_of_shape_eq hfunction nofun))).2.1
  rw [hfunction] at hvars
  exact fun slot hslot v hv => hvars v (Shape.mem_ownVars_functionType.2 ⟨slot, hslot, hv⟩)

theorem Signature.positioned (h : s.Signature ty vars slots result) :
    ∃ k, s.Positioned (slots.map (·.comptime)) k ty := by
  obtain ⟨function, htype | ⟨-, rfl⟩, hfunction⟩ := h.parts
  · exact ⟨1, .quantified htype (.function hfunction rfl)⟩
  · exact ⟨0, .function hfunction rfl⟩

/-- A term with a known function type, in whose positions and result the quantified variables can be
filled. -/
structure Callable (s : Store) (callee ty : TermId) (vars : List VarId) (slots : List (Slot TermId))
    (result : TermId) : Prop where
  inferred : s.Inferred callee ty
  signature : s.Signature ty vars slots result
  schemas : ∀ slot ∈ slots, s.Schema vars slot.ty
  schema : s.Schema vars result

theorem Callable.mono {callee : TermId} (h : s.Callable callee ty vars slots result)
    (hle : s.Precedes s') : s'.Callable callee ty vars slots result where
  inferred := h.inferred.mono hle
  signature := h.signature.mono hle.toExtends
  schemas slot hslot := (h.schemas slot hslot).mono hle.toExtends
  schema := h.schema.mono hle.toExtends

/-- The type is what is left of another one after arguments were supplied: its positions and its
result were instantiated, and matching can go on where it stopped. -/
structure Resumes (s : Store) (scope : List VarId) (σ : Filling) (vars vars' : List VarId)
    (m : Matching) (slots slots' : List (Slot TermId)) (result result' ty : TermId) : Prop where
  signature : s.Signature ty vars' slots' result'
  slots : List.Forall₂ (s.Instantiated scope σ) slots slots'
  schema : s.Schema scope result
  result : s.Instance σ result result'
  sight : s.Sight scope vars' σ m
  sub : vars' ⊆ vars
  tracks : Tracks vars' m (start vars')

theorem Resumes.mono (h : s.Resumes scope σ vars vars' m slots slots' result result' ty)
    (hle : s.Extends s') : s'.Resumes scope σ vars vars' m slots slots' result result' ty where
  signature := h.signature.mono hle
  slots := h.slots.imp fun _ _ h => h.mono hle
  schema := h.schema.mono hle
  result := h.result.mono hle
  sight := h.sight.mono hle
  sub := h.sub
  tracks := h.tracks

/-- The types of instantiated positions are schemas, with those variables in scope that are in
sight. -/
theorem schemas_of_instantiated (hs : s.Intact) (hsight : s.Sight scope vars' σ m)
    (h : List.Forall₂ (s.Instantiated scope σ) slots slots') :
    ∀ slot ∈ slots', s.Schema vars' slot.ty := by
  induction h with
  | nil => nofun
  | cons hslot _ ih =>
    refine List.forall_mem_cons.2 ⟨?_, ih⟩
    exact hslot.type.schema hs hslot.schema hsight.closed hsight.inSight

end Store

namespace Attempt

open Store Engine Correspondence Matching

variable {n : Nat} {s s₁ s₂ : Store} {σ : Filling} {vars vars' scope : List VarId}
  {m m' m₁ : Matching} {ctx : Context} {t ty callee result result' : TermId}
  {types : TermId → TermId} {slots slots' : List (Slot TermId)} {args : List TermId}
  {tolerated : Error → Prop}

theorem run_bindQuantified (hnodup : vars.Nodup)
    (hfresh : ∀ v ∈ vars, ctx.innermost.get? v = none) :
    (bindQuantified ctx vars).run s = (.ok { ctx with innermost :=
      (vars.map fun v => (v, comptimeType)).reverse ++ ctx.innermost }, s) := by
  induction vars generalizing ctx with
  | nil => rfl
  | cons v rest ih =>
    obtain ⟨hnew, hrest⟩ := List.nodup_cons.1 hnodup
    have hbind : (Attempt.bind ctx v comptimeType).run s =
        (.ok { ctx with innermost := (v, comptimeType) :: ctx.innermost }, s) := by
      unfold Attempt.bind
      rw [Context.bind?, hfresh v List.mem_cons_self]
      rfl
    change (Attempt.bind ctx v comptimeType >>= fun ctx => bindQuantified ctx rest).run s = _
    rw [run_bind, hbind]
    dsimp only
    rw [ih hrest fun w hw => ?_]
    · simp
    · have hne : w ≠ v := ne_of_mem_of_not_mem hw hnew
      simpa [Frame.get?, Ne.symm hne] using hfresh w (List.mem_cons_of_mem _ hw)

/-- Resolution against a known type binds the variables, and then supplies the arguments. -/
theorem ensures_resolve_start {post : Resolution → Store → Prop}
    (hsignature : s.Signature ty vars slots result) (hlength : args.length ≤ slots.length)
    (hrest : Ensures tolerated post (do
        let (m, supplied) ← (ofLevels n).supplyAll .root (start vars) 0 (args.zip slots)
        let remaining ← (ofLevels n).compileSlots m.context (slots.drop args.length)
        let result ← (ofLevels n).compile m.context result
        let determined := (vars.filter (· ∉ m.undetermined)).filterMap fun v =>
          (m.context.get? v).map fun value => (v, value)
        return { supplied, undetermined := m.undetermined, determined, remaining, result }) s) :
    Ensures tolerated post ((ofLevels n).resolveTyped .root ty args) s := by
  obtain ⟨function, htype, hfunction⟩ := hsignature.parts
  refine .reads (run_functionParts htype hfunction) ?_
  dsimp only
  rw [if_neg (Nat.not_lt.2 hlength)]
  refine .reads (run_bindQuantified hsignature.nodup fun _ _ => rfl) ?_
  rw [show Context.root.child.innermost = [] from rfl, List.append_nil]
  exact hrest

/-- The types of the positions that remain are instantiated. -/
theorem ensures_compileSlots (hslots : ∀ slot ∈ slots, s.Schema vars slot.ty) (hm : m.Fits s vars) :
    Ensures Error.IsDepth
      (fun slots' s' => List.Forall₂ (s'.Instantiated vars m.filling) slots slots')
      ((ofLevels n).compileSlots m.context slots) s := by
  induction slots generalizing s with
  | nil => exact .pure .nil
  | cons slot rest ih =>
    obtain ⟨hslot, hslots⟩ := List.forall_mem_cons.1 hslots
    refine .bind (ensures_compile_fits hslot hm) fun ty s₁ h₁ hty => ?_
    refine .bind (ih (fun slot hslot => (hslots slot hslot).mono h₁.toExtends)
      (hm.mono h₁.toExtends)) fun rest' s₂ h₂ hrest => .pure (.cons ?_ hrest)
    exact ⟨rfl, rfl, hslot.mono (h₁.trans h₂).toExtends, hty.mono h₂.toExtends⟩

/-- A call with all arguments, with a record of how its type came about. -/
theorem ensures_resolve_saturated (hcallee : s.Callable callee ty vars slots result)
    (hlength : args.length = slots.length)
    (htypes : ∀ arg ∈ args, s.Inferred arg (types arg))
    (hargs : ∀ p ∈ args.zip slots, p.2.comptime = true → s.Reduced [] p.1) :
    Ensures (fun _ => True)
      (fun r s' => r.isSaturated = true ∧ ∃ m,
        s'.Supplies types vars (start vars) (args.zip slots) m ∧
        s'.Instance m.filling result r.result)
      ((ofLevels n).resolve .root callee args) s := by
  refine .withCertain fun hs => ?_
  refine .bind ((ensures_infer_remembered hcallee.inferred.closed
    hcallee.inferred.remembered).tolerate fun _ _ => trivial) fun ty' s₁ h₁ heq => ?_
  subst heq
  have hcallee₁ := hcallee.mono h₁
  refine .withCertain fun hs₁ => ensures_resolve_start hcallee₁.signature hlength.le ?_
  have hstart := fits_start hs₁.placeholder hcallee₁.signature.nodup
    (hcallee₁.signature.owns hs₁.toCanonical)
  refine .bind (ensures_supplyAll hstart
    (fun p hp => (htypes _ (List.of_mem_zip hp).1).mono h₁)
    (fun p hp hcomptime => (hargs p hp hcomptime).mono h₁.toExtends)
    fun p hp => hcallee₁.schemas _ (List.of_mem_zip hp).2) fun r s₂ h₂ hr => ?_
  obtain ⟨m, supplied⟩ := r
  obtain ⟨hm, hsupplies⟩ := hr
  rw [hlength, List.drop_length]
  refine .reads rfl ?_
  refine .bind ((ensures_compile_fits (hcallee₁.mono h₂).schema hm).tolerate
    fun _ _ => trivial) fun result' s₃ h₃ hresult' => .pure ?_
  exact ⟨rfl, m, hsupplies.mono h₃.toExtends, hresult'⟩

/-- What a call that goes on where another one stopped finds out. -/
structure Resumed (s : Store) (vars' : List VarId) (m₁ : Matching) (slots' : List (Slot TermId))
    (result' : TermId) (r : Resolution) (m₁' : Matching) : Prop where
  fits : m₁'.Fits s vars'
  tracks : Tracks vars' m₁ m₁'
  undetermined : r.undetermined = m₁'.undetermined
  remaining : List.Forall₂ (s.Instantiated vars' m₁'.filling) slots' r.remaining
  schema : s.Schema vars' result'
  result : s.Instance m₁'.filling result' r.result

theorem Resumed.mono {s' : Store} {r : Resolution} {m₁' : Matching}
    (h : Resumed s vars m₁ slots result r m₁') (hle : s.Extends s') :
    Resumed s' vars m₁ slots result r m₁' where
  fits := h.fits.mono hle
  tracks := h.tracks
  undetermined := h.undetermined
  remaining := h.remaining.imp fun _ _ h => h.mono hle
  schema := h.schema.mono hle
  result := h.result.mono hle

/-- The function type over the positions that are left can be built. -/
theorem Resumed.covers {r : Resolution} {m₁' : Matching} (hs : s.Intact)
    (h : Resumed s vars m₁ slots result r m₁')
    (hbinds : ∀ slot ∈ slots, ∀ v, slot.binds = some v → s.Owns (.var v)) :
    s.Covers (.functionType r.remaining r.result) := by
  refine Shape.forall_mem_handles.2 ⟨?_, fun v hv => ?_, by simp [Shape.constants]⟩
  · refine List.forall_mem_append.2 ⟨List.forall_mem_map.2 fun slot' hslot' => ?_,
      List.forall_mem_singleton.2 ?_⟩
    · obtain ⟨slot, -, hslot⟩ := exists_of_forall₂ h.remaining slot' hslot'
      exact (hslot.type.schema hs hslot.schema h.fits.fills.closed fun v hv _ => hv).allocated
    · exact (h.result.schema hs h.schema h.fits.fills.closed fun v hv _ => hv).allocated
  · obtain ⟨slot', hslot', hv⟩ := Shape.mem_ownVars_functionType.1 hv
    obtain ⟨slot, hmem, hslot⟩ := exists_of_forall₂ h.remaining slot' hslot'
    exact hbinds slot hmem v (hslot.binds ▸ hv)

/-- Resolution goes on where another one stopped. -/
theorem ensures_resolve_again (result : TermId) {post : Resolution → Store → Prop}
    (hsupplies : s.Supplies types vars m (args.zip slots) m₁)
    (htypes : ∀ arg ∈ args, s.Inferred arg (types arg)) (hlength : args.length ≤ slots.length)
    (hinfer : Ensures Error.IsDepth (fun ty s₁ => ∃ scope σ vars' slots' result',
        s₁.Resumes scope σ vars vars' m slots slots' result result' ty ∧
        ∀ r s₂ m₁', s₁.Precedes s₂ →
          Resumed s₂ vars' m₁ (slots'.drop args.length) result' r m₁' → post r s₂)
      ((ofLevels n).infer .root callee) s) :
    Ensures Error.IsDepth post ((ofLevels n).resolve .root callee args) s := by
  refine .bind hinfer fun ty s₁ h₁ hty => .withCertain fun hs₁ => ?_
  obtain ⟨scope, σ, vars', slots', result', h, hpost⟩ := hty
  have hcount : args.length ≤ slots'.length := hlength.trans h.slots.length_eq.le
  refine ensures_resolve_start h.signature hcount ?_
  have hstart := fits_start hs₁.placeholder h.signature.nodup
    (h.signature.owns hs₁.toCanonical)
  refine .bind (ensures_supplyAll_again (hsupplies.mono h₁.toExtends) h.slots h.sight h.sub hstart
    h.tracks fun arg harg => (htypes arg harg).mono h₁) fun r s₂ h₂ hr => ?_
  obtain ⟨m₁', supplied⟩ := r
  obtain ⟨hfits, htracks⟩ := hr
  have hschemas : ∀ slot ∈ slots'.drop args.length, s₁.Schema vars' slot.ty := fun slot hslot =>
    schemas_of_instantiated hs₁.toIntact h.sight h.slots slot (List.mem_of_mem_drop hslot)
  have hschema := h.result.schema hs₁.toIntact h.schema h.sight.closed h.sight.inSight
  refine .bind (ensures_compileSlots (fun slot hslot => (hschemas slot hslot).mono h₂.toExtends)
    hfits) fun remaining s₃ h₃ hremaining => ?_
  have hle₃ := h₂.trans h₃
  refine .bind (ensures_compile_fits (hschema.mono hle₃.toExtends) (hfits.mono h₃.toExtends))
    fun result'' s₄ h₄ hresult => .pure ?_
  have hle₄ := hle₃.trans h₄
  exact hpost _ _ m₁' hle₄ ⟨hfits.mono (h₃.trans h₄).toExtends, htracks, rfl,
    hremaining.imp fun _ _ h => h.mono h₄.toExtends, hschema.mono hle₄.toExtends, hresult⟩

/-! ## The two calls -/

variable {part : TermId} {first rest : List TermId}

/-- At the start the callee itself is resumed. -/
theorem resumes_start (h : s.Callable callee ty vars slots result) :
    s.Resumes vars (fun _ => none) vars vars (start vars) slots slots result result ty where
  signature := h.signature
  slots := by
    refine List.forall₂_same.2 fun slot hslot => ⟨rfl, rfl, h.schemas slot hslot, ?_⟩
    exact .self (h.schemas slot hslot) fun _ _ => rfl
  schema := h.schema
  result := .self h.schema fun _ _ => rfl
  sight := ⟨fun _ _ _ h => (by cases h), fun v hv _ => hv, fun _ _ _ h => (by cases h)⟩
  sub := List.Subset.refl vars
  tracks := .refl vars _

/-- Quantifying over those variables that are free in a term. -/
theorem ensures_quantify {body : TermId} (hbody : s.Allocated body)
    (hvars : ∀ v ∈ vars, s.Owns (.var v)) :
    Ensures tolerated
      (fun t s' => s'.shape t = .forAll (vars.filter (s.freeVariables body).contains) body ∨
        vars.filter (s.freeVariables body).contains = [] ∧ body = t)
      (quantify vars body) s := by
  refine .reads rfl ?_
  have howned : ∀ v ∈ vars.filter (s.freeVariables body).contains, s.Owns (.var v) :=
    fun v hv => hvars v (List.mem_of_mem_filter hv)
  cases hkept : vars.filter (s.freeVariables body).contains with
  | nil => exact .pure (.inr ⟨rfl, rfl⟩)
  | cons v rest =>
    rw [hkept] at howned
    have hcovers : s.Covers (.forAll (v :: rest) body) := by
      refine Shape.forall_mem_handles.2 ⟨List.forall_mem_singleton.2 hbody, ?_, nofun⟩
      simpa [Shape.ownVars, Shape.leaf, Shape.binders] using howned
    exact (Ensures.intern hcovers (by simp)).imp fun t s₁ _ ht => .inl ht.shape_eq

/-- A function type over the positions that are left, below the variables that it leaves open, goes
on where the arguments stopped. -/
theorem resumes_partial {r : Resolution} {m₁' : Matching} {function : TermId} (hs : s.Intact)
    (h : Resumed s vars m₁ slots result r m₁')
    (hfunction : s.shape function = .functionType r.remaining r.result)
    (hty : s.shape ty =
        .forAll (r.undetermined.filter (s.freeVariables function).contains) function ∨
      r.undetermined.filter (s.freeVariables function).contains = [] ∧ function = ty) :
    ∃ scope σ vars' slots' result',
      s.Resumes scope σ vars vars' m₁ slots slots' result result' ty := by
  generalize hvars' : r.undetermined.filter (s.freeVariables function).contains = vars' at hty
  have hmem : ∀ v, v ∈ vars' ↔ v ∈ m₁'.undetermined ∧ v ∈ (s.freeVariables function).vars := by
    intro v
    rw [← hvars', List.mem_filter, h.undetermined, VarMap.contains_eq, ← VarMap.mem_vars]
  have hchild : ∀ child ∈ (s.shape function).children, ∀ v, v ∈ (s.freeVariables child).vars →
      v ∈ (s.freeVariables function).vars := fun child hchild v hv =>
    hs.toLinked.mem_free_of_child (by rw [hfunction]; rfl) hchild hv
  rw [hfunction, Shape.children] at hchild
  -- A variable that is neither filled nor in sight is free in nothing that is left.
  have hnarrow : ∀ t u, s.Schema vars t → s.Instance m₁'.filling t u →
      (∀ v, v ∈ (s.freeVariables u).vars → v ∈ (s.freeVariables function).vars) →
      s.Schema (vars.filter fun v => m₁'.filling v ≠ none ∨ v ∈ vars') t := by
    intro t u ht hu hfree
    refine ht.narrow hs.toLinked fun v hv hvfree => List.mem_filter.2 ⟨hv, ?_⟩
    rw [decide_eq_true_eq]
    by_cases hnone : m₁'.filling v = none
    · refine .inr ((hmem v).2 ⟨h.fits.mem_of_filling hv hnone, hfree v ?_⟩)
      exact hu.mem_free hs.toLinked hnone hvfree
    · exact .inl hnone
  refine ⟨vars.filter fun v => m₁'.filling v ≠ none ∨ v ∈ vars', m₁'.filling, vars', r.remaining,
    r.result, ⟨⟨function, hty, hfunction⟩, ?_⟩, ?_, ?_, h.result, ⟨?_, ?_, ?_⟩, ?_, ?_⟩
  · rw [← hvars', h.undetermined]
    exact h.fits.nodup.filter _
  · refine forall₂_imp_mem h.remaining fun slot slot' hslot' hslot => ⟨hslot.comptime, hslot.binds,
      hnarrow _ _ hslot.schema hslot.type fun v hv => ?_, hslot.type⟩
    exact hchild _ (List.mem_append_left _ (List.mem_map_of_mem hslot')) v hv
  · exact hnarrow _ _ h.schema h.result fun v hv => hchild _ (by simp) v hv
  · exact fun v hv => h.fits.fills.closed v (List.mem_of_mem_filter hv)
  · intro v hv hnone
    have hor := (List.mem_filter.1 hv).2
    rw [decide_eq_true_eq] at hor
    exact hor.resolve_left fun hne => hne hnone
  · intro v hv u hu
    rwa [h.tracks.filling_eq (List.mem_of_mem_filter hv)] at hu
  · exact fun v hv => h.fits.within v ((hmem v).1 hv).1
  · have hopen : ∀ v ∈ vars', v ∈ m₁.undetermined := fun v hv =>
      (h.tracks.undetermined v (h.fits.within v ((hmem v).1 hv).1)).1 ((hmem v).1 hv).1
    exact ⟨fun v hv => ⟨fun _ => hopen v hv, fun _ => hv⟩,
      fun v hv hclosed => absurd (hopen v hv) hclosed⟩

/-- Resolution of the partial application goes on from the start. -/
theorem ensures_resolve_first (hcallee : s.Callable callee ty vars slots result)
    (htypes : ∀ arg ∈ first, s.Inferred arg (types arg))
    (hlength : first.length ≤ slots.length)
    (hsupplies : s.Supplies types vars (start vars) (first.zip slots) m₁) :
    Ensures Error.IsDepth
      (fun r s₁ => ∃ m₁', Resumed s₁ vars m₁ (slots.drop first.length) result r m₁')
      ((ofLevels n).resolve .root callee first) s := by
  refine ensures_resolve_again result hsupplies htypes hlength ?_
  have hinfer := ensures_infer_remembered (n := n) hcallee.inferred.closed
    hcallee.inferred.remembered
  refine hinfer.imp fun ty' s₁ h₁ heq => ?_
  subst heq
  exact ⟨vars, fun _ => none, vars, slots, result, resumes_start (hcallee.mono h₁),
    fun r s₂ m₁' _ hr => ⟨m₁', hr⟩⟩

/-- The type of a partial application goes on where its arguments stopped. -/
theorem ensures_infer_partial (hcallee : s.Callable callee ty vars slots result)
    (htypes : ∀ arg ∈ first, s.Inferred arg (types arg)) (hlength : first.length < slots.length)
    (hsupplies : s.Supplies types vars (start vars) (first.zip slots) m₁)
    (hpart : s.shape part = .application callee first)
    (hclosed : (s.freeVariables part).isEmpty = true) (hnew : s.types.get? part [] = none) :
    Ensures Error.IsDepth (fun ty' s₁ => ∃ scope σ vars' slots' result',
        s₁.Resumes scope σ vars vars' m₁ (slots.drop first.length) slots' result result' ty')
      ((ofLevels n).infer .root part) s := by
  cases n with
  | zero => exact .fails rfl ⟨_, rfl⟩
  | succ n =>
    refine ensures_infer_new hclosed (allocated_of_shape_eq hpart nofun) hnew ?_ ?_
    · refine .reads rfl ?_
      rw [hpart]
      have hresolve := ensures_resolve_first (n := n) hcallee htypes hlength.le hsupplies
      refine .bind hresolve fun r s₁ h₁ hr => ?_
      · obtain ⟨m₁', hr⟩ := hr
        refine .withCertain fun hs₁ => ?_
        have hsignature₁ := hcallee.signature.mono h₁.toExtends
        -- Some position is left, so that the answer is a function type over those that are.
        have hopen : ¬ r.isSaturated = true := by
          have hcount := hr.remaining.length_eq
          rw [List.length_drop] at hcount
          rw [Resolution.isSaturated, List.isEmpty_iff_length_eq_zero]
          omega
        rw [if_neg hopen]
        refine .bind (Ensures.intern (hr.covers hs₁.toIntact fun slot hslot =>
          hsignature₁.binds hs₁.toCanonical slot (List.mem_of_mem_drop hslot)) (by simp))
          fun function s₂ h₂ hfunction => .withCertain fun hs₂ => ?_
        have hr₂ := hr.mono h₂.toExtends
        have howned : ∀ v ∈ r.undetermined, s₂.Owns (.var v) := fun v hv =>
          (hsignature₁.mono h₂.toExtends).owns hs₂.toCanonical v
            (hr.fits.within v (hr.undetermined ▸ hv))
        refine (ensures_quantify hfunction.allocated howned).imp fun ty' s₃ h₃ hty' => ?_
        have hfunction₃ := hfunction.mono h₃.toExtends
        rw [← h₃.freeVariables_eq hfunction.allocated] at hty'
        exact resumes_partial h₃.intact (hr₂.mono h₃.toExtends) hfunction₃.shape_eq hty'
    · rintro ty' s₁ s₂ ⟨scope, σ, vars', slots', result', h⟩ hle
      exact ⟨scope, σ, vars', slots', result', h.mono hle⟩

/-- What compiling a partial application gives is a function. It may fail as well. -/
theorem ensures_compile_partial (hcallee : s.Callable callee ty vars slots result)
    (hpart : s.shape part = .application callee first) (hfewer : first.length < slots.length)
    (hn : n ≤ s.config.maxDepth) (hdepth : ∀ e, Error.IsDepth e → tolerated e)
    (hfails : ∀ e s₁, (compile .root part).run s = (.error e, s₁) → tolerated e) :
    Ensures tolerated (fun g s₁ => ∃ params k, s₁.Takes params k g)
      ((ofLevels n).compile .root part) s := by
  intro hs
  have hown : Ended _ _ s (((ofLevels n).reduce .compile .root part).run s) :=
    ensures_reduce (allocated_of_shape_eq hpart nofun) hs
  change Ended _ _ s (((ofLevels n).reduce .compile .root part).run s)
  rcases hrun : ((ofLevels n).reduce .compile .root part).run s with ⟨e | g, s₁⟩
  · refine .fails ?_
    -- What fails at fewer levels fails at all of them, unless it lacks depth.
    rcases reduce_level hn with ⟨limit, hlacks⟩ | hsame
    · rw [hrun] at hlacks
      cases hlacks
      exact hdepth _ ⟨limit, rfl⟩
    · exact hfails e s₁ (hsame.trans hrun)
  · rw [hrun] at hown
    cases hown with
    | gives hle hs₁ _ =>
      refine .gives hle hs₁ ?_
      cases n with
      | zero => cases hrun
      | succ n =>
        rw [reduce_ofLevels, run_reduceStep_application hpart] at hrun
        have he : Replay.untilFailure.Engines (ofLevels n) (ofLevels n) :=
          Replay.engines_ofLevels Replay.lawful_untilFailure (Nat.le_refl n)
        have hinfer : Gives (fun ty s' => ∃ k, s'.Positioned (slots.map (·.comptime)) k ty)
            ((ofLevels n).infer .root callee) s := by
          refine .of_runs (he.infer .root callee s) fun ty' s' hrun' => ?_
          obtain ⟨hle', -, rfl⟩ := (ensures_infer_remembered hcallee.inferred.closed
            hcallee.inferred.remembered).gives_of_ok hs hrun'
          exact (hcallee.mono hle').signature.positioned
        have hfewer' : first.length < (slots.map (·.comptime)).length := by simpa using hfewer
        obtain ⟨-, names, ⟨k, -, params, htakes, -⟩, -⟩ :=
          (gives_partial he (keepsFunctions_ofLevels n) hfewer' hinfer).holds hrun
        exact ⟨params, k, htakes⟩

/-- So a partial application does not come to a native. -/
theorem ensures_nativeCallee_partial (hcallee : s.Callable callee ty vars slots result)
    (hpart : s.shape part = .application callee first) (hfewer : first.length < slots.length)
    (hn : n ≤ s.config.maxDepth) (hdepth : ∀ e, Error.IsDepth e → tolerated e)
    (hfails : ∀ e s₁, (compile .root part).run s = (.error e, s₁) → tolerated e) :
    Ensures tolerated (fun id? _ => id? = none) ((ofLevels n).nativeCallee .root part) s := by
  refine .reads rfl ?_
  rw [hpart]
  refine .bind (ensures_compile_partial hcallee hpart hfewer hn hdepth hfails)
    fun g s₁ _ hg => ?_
  obtain ⟨params, k, htakes⟩ := hg
  refine .reads rfl ?_
  cases htakes with
  | function hshape _ | quantified hshape _ =>
    rw [hshape]
    exact .pure rfl

/-- The call with all arguments, and how its type came about. -/
theorem ensures_infer_whole {whole : TermId} (hs : s.Linked)
    (hfunction : (∃ lets params body, s.shape callee = .abstraction lets params body) ∨
      ∃ vars body, s.shape callee = .forAll vars body)
    (hcallee : s.Callable callee ty vars slots result)
    (hlength : args.length = slots.length) (htypes : ∀ arg ∈ args, s.Inferred arg (types arg))
    (hargs : ∀ p ∈ args.zip slots, p.2.comptime = true → s.Reduced [] p.1)
    (hwhole : s.shape whole = .application callee args) (hnew : s.types.get? whole [] = none) :
    Ensures (fun _ => True)
      (fun ty s' => ∃ m, s'.Supplies types vars (start vars) (args.zip slots) m ∧
        s'.Instance m.filling result ty)
      ((ofLevels n).infer .root whole) s := by
  have hclosed : (s.freeVariables whole).isEmpty = true :=
    hs.closed_of_shape hwhole nofun rfl (List.forall_mem_cons.2
      ⟨hcallee.inferred.closed, fun arg harg => (htypes arg harg).closed⟩)
  cases n with
  | zero => exact .fails rfl trivial
  | succ n =>
    refine ensures_infer_new hclosed (allocated_of_shape_eq hwhole nofun) hnew ?_ ?_
    · refine .reads rfl ?_
      rw [hwhole]
      refine .bind (ensures_resolve_saturated hcallee hlength htypes hargs) fun r s₁ h₁ hr => ?_
      rw [if_pos hr.1]
      have hnative : ((ofLevels n).nativeCallee .root callee).run s₁ = (.ok none, s₁) := by
        have hread : (Attempt.shape callee).run s₁ = (.ok (s₁.shape callee), s₁) := rfl
        rw [nativeCallee, run_bind, hread]
        obtain ⟨lets, params, body, h⟩ | ⟨vars, body, h⟩ := hfunction <;>
          rw [h₁.shape_kept h nofun] <;> rfl
      have hrefined : ((ofLevels n).refinedType .root callee args).run s₁ = (.ok none, s₁) := by
        rw [refinedType, run_bind, hnative]
        rfl
      exact .reads hrefined (.pure hr.2)
    · rintro ty s₁ s₂ ⟨m, hsupplies, hinstance⟩ hle
      exact ⟨m, hsupplies.mono hle, hinstance.mono hle⟩

/-- A call that goes on where the partial application stopped has the result of the whole call. -/
theorem ensures_resolve_rest {T : TermId} (hcallee : s.Callable callee ty vars slots result)
    (hlength : (first ++ rest).length = slots.length) (hfewer : first.length < slots.length)
    (htypes : ∀ arg ∈ first ++ rest, s.Inferred arg (types arg))
    (hpart : s.shape part = .application callee first)
    (hclosed : (s.freeVariables part).isEmpty = true) (hnew : s.types.get? part [] = none)
    (hsupplies : s.Supplies types vars (start vars) ((first ++ rest).zip slots) m)
    (hinstance : s.Instance m.filling result T) :
    Ensures Error.IsDepth (fun r _ => r.isSaturated = true ∧ r.result = T)
      ((ofLevels n).resolve .root part rest) s := by
  rw [List.length_append] at hlength
  rw [zip_append_left] at hsupplies
  obtain ⟨m₁, hfirst, hsecond⟩ := hsupplies.split
  have hinfer := ensures_infer_partial (n := n) hcallee
    (fun arg harg => htypes arg (List.mem_append_left _ harg)) hfewer hfirst hpart hclosed hnew
  have hcount : rest.length ≤ (slots.drop first.length).length := by
    rw [List.length_drop]
    omega
  refine ensures_resolve_again result hsecond
    (fun arg harg => htypes arg (List.mem_append_right _ harg)) hcount
    (hinfer.imp fun ty' s₁ h₁ hty' => ?_)
  obtain ⟨scope, σ, vars', slots', result', h⟩ := hty'
  -- No position is left, and the result was instantiated in two steps.
  refine ⟨scope, σ, vars', slots', result', h, fun r s₂ m₂ h₂ hr => ⟨?_, ?_⟩⟩
  · have hslots := h.slots.length_eq
    have hremaining := hr.remaining.length_eq
    rw [List.length_drop] at hslots hremaining
    rw [Resolution.isSaturated, List.isEmpty_iff_length_eq_zero]
    omega
  · have hsight : s₂.Sight scope vars' σ m :=
      ⟨(h.sight.mono h₂.toExtends).closed, h.sight.inSight, fun v hv u hu =>
        hsecond.filling (h.sight.filled v hv u hu)⟩
    exact (hinstance.mono (h₁.trans h₂).toExtends).again h₂.intact.toCanonical
      (h.schema.mono h₂.toExtends) hsight hr.tracks (h.result.mono h₂.toExtends) hr.result

/-- The type of a call in two steps, from a record of how the type of the whole call came about. -/
theorem ensures_infer_curried {curried T : TermId}
    (hcallee : s.Callable callee ty vars slots result)
    (hlength : (first ++ rest).length = slots.length) (hrest : rest ≠ [])
    (htypes : ∀ arg ∈ first ++ rest, s.Inferred arg (types arg))
    (hpart : s.shape part = .application callee first)
    (hcurried : s.shape curried = .application part rest)
    (hpartNew : s.types.get? part [] = none) (hcurriedNew : s.types.get? curried [] = none)
    (hsupplies : s.Supplies types vars (start vars) ((first ++ rest).zip slots) m)
    (hinstance : s.Instance m.filling result T) (hn : n ≤ s.config.maxDepth)
    (hdepth : ∀ e, Error.IsDepth e → tolerated e)
    (hfails : ∀ e s₁ s₂, s.Precedes s₁ → (compile .root part).run s₁ = (.error e, s₂) →
      tolerated e) :
    Ensures tolerated (fun ty' _ => ty' = T) ((ofLevels n).infer .root curried) s := by
  refine .withCertain fun hs => ?_
  have hfewer : first.length < slots.length := by
    have hpositive := List.length_pos_iff.2 hrest
    rw [List.length_append] at hlength
    omega
  obtain ⟨hfirst, hsecond⟩ := List.forall_mem_append.1 fun arg harg => (htypes arg harg).closed
  have hpartClosed : (s.freeVariables part).isEmpty = true :=
    hs.closed_of_shape hpart nofun rfl (List.forall_mem_cons.2 ⟨hcallee.inferred.closed, hfirst⟩)
  have hclosed : (s.freeVariables curried).isEmpty = true :=
    hs.closed_of_shape hcurried nofun rfl (List.forall_mem_cons.2 ⟨hpartClosed, hsecond⟩)
  cases n with
  | zero => exact .fails rfl (hdepth _ ⟨_, rfl⟩)
  | succ n =>
    refine ensures_infer_new hclosed (allocated_of_shape_eq hcurried nofun) hcurriedNew ?_
      fun _ _ _ h _ => h
    refine .reads rfl ?_
    rw [hcurried]
    have hresolve := ensures_resolve_rest (n := n) hcallee hlength hfewer htypes hpart hpartClosed
      hpartNew hsupplies hinstance
    refine .bind (hresolve.tolerate hdepth) fun r s₁ h₁ hr => ?_
    obtain ⟨hsaturated, rfl⟩ := hr
    rw [if_pos hsaturated]
    -- The callee of this call is no native, so that the result of resolution stands.
    have hnative := ensures_nativeCallee_partial (hcallee.mono h₁) (h₁.shape_kept hpart nofun)
      hfewer (h₁.sameConfig ▸ Nat.le_of_succ_le hn) hdepth
      fun e s₂ hrun => hfails e s₁ s₂ h₁ hrun
    have hrefined : Ensures tolerated (fun ty? _ => ty? = none)
        ((ofLevels n).refinedType .root part rest) s₁ := by
      refine .bind hnative fun id? s₂ _ hid => ?_
      subst hid
      exact .pure rfl
    refine .bind hrefined fun ty? s₂ _ hty => ?_
    subst hty
    exact .pure rfl

end Attempt

end StagedCalculus
