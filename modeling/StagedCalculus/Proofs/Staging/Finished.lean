import StagedCalculus.Proofs.Staging.Idempotence

/-!
# Values that are finished

A term passes as a value if it is closed, is no placeholder, and has no work left in it. Work is
looked for in the outermost layer of a term and, if the term is a product, in its fields. It is not
looked for in the annotation of a value, in a type, or under a binder.

* `Store.Candid`: terms in which nothing is left to do in the places that are not looked at;
* `Store.Candid.isValue_iff`: of these, exactly the finished ones pass as values;
* `Attempt.evaluate_finished`: a residual program of that kind which passes as a value is its own
  value, and evaluating it writes nothing;
* `Attempt.compile_passes_call`: any other one may hold a call.
-/

namespace StagedCalculus

namespace Store

variable {s : Store} {scope : List VarId} {t : TermId}

/-! ## Work that shows -/

/-- If something is left to do in the term, then its outermost layer says so, or that of a field. -/
inductive Candid (s : Store) : TermId → Prop
  | pending {t : TermId} : s.pending t = true → Candid s t
  | reduced {t : TermId} : s.Reduced [] t → Candid s t
  | productValue {t ty : TermId} {fields : List (String × TermId)} :
      s.shape t = .productValue ty fields → s.Reduced [] ty →
      (∀ field ∈ fields, Candid s field.2) → Candid s t

/-- A product has work left exactly if a field has. -/
theorem Canonical.pending_productValue (hs : s.Canonical) {ty : TermId}
    {fields : List (String × TermId)} (ht : s.shape t = .productValue ty fields) :
    s.pending t = fields.any fun field => s.pending field.2 := by
  have hallocated : s.Allocated t := allocated_of_shape (by simp [ht])
  rw [hs.pending t hallocated, ht, Shape.map, Shape.pending, List.any_map]
  rfl

namespace Reduced

/-- Nothing is looked for in vain in a reduced term. -/
theorem pending_eq (hs : s.Canonical) (h : s.Reduced scope t) : s.pending t = false := by
  have ht := h.allocated
  induction h with
  | productValue hshape _ hfields _ ih =>
    rw [hs.pending_productValue hshape, List.any_eq_false]
    exact fun field hfield => by simp [ih field hfield (hfields field hfield).allocated]
  | @constant scope t _ hconstant =>
    rw [hs.pending t ht]
    revert hconstant
    cases s.shape t <;> simp [Shape.isConstant, Shape.map, Shape.pending]
  | @function scope t body params hshape hparams _ _ _ _ _ =>
    rw [hs.pending t ht, hshape]
    simpa [Shape.map, Shape.pending] using hparams
  | _ => rw [hs.pending _ ht]; simp [*, Shape.map, Shape.pending]

/-- A reduced term is no placeholder. -/
theorem not_isDeferred (h : s.Reduced scope t) : (s.shape t).isDeferred = false := by
  cases h with
  | constant _ hconstant =>
    revert hconstant
    cases s.shape t <;> simp [Shape.isConstant, Shape.isDeferred]
  | _ => simp [*, Shape.isDeferred]

/-- A closed reduced term passes as a value. -/
theorem isValue (hs : s.Intact) (h : s.Reduced [] t) : s.isValue t = true := by
  simp [Store.isValue, isConcrete, h.not_isDeferred, h.closed hs.toLinked,
    h.pending_eq hs.toCanonical]

end Reduced

namespace Candid

/-- A candid term without work left is reduced. -/
theorem reduced_of_pending (hs : s.Canonical) (h : s.Candid t) (ht : s.pending t = false) :
    s.Reduced [] t := by
  induction h with
  | pending hpending => simp [hpending] at ht
  | reduced hreduced => exact hreduced
  | productValue hshape hty _ ih =>
    rw [hs.pending_productValue hshape, List.any_eq_false] at ht
    exact .productValue hshape hty fun field hfield =>
      ih field hfield (by simpa using ht field hfield)

/-- A candid term passes as a value exactly if it is one. -/
theorem isValue_iff (hs : s.Intact) (h : s.Candid t) : s.isValue t = true ↔ s.Reduced [] t := by
  refine ⟨fun hvalue => h.reduced_of_pending hs.toCanonical ?_, Reduced.isValue hs⟩
  simp only [isValue, Bool.and_eq_true, Bool.not_eq_true'] at hvalue
  exact hvalue.2

end Candid

end Store

namespace Attempt

variable {s s' : Store} {t r : TermId}

/-- A residual program that is candid and passes as a value is its own value, and evaluating it
writes nothing, unless depth is lacking. -/
theorem evaluate_finished {ctx : Context} (hs : s.Genuine)
    (hctx : ∀ handle ∈ ctx.handles, s.Owns handle) (ht : s.Allocated t)
    (hrun : (compile ctx t).run s = (.ok r, s')) (hcandid : s'.Candid r)
    (hvalue : s'.isValue r = true) (outer : Context) :
    (∃ limit, ((evaluate outer r).run s').1 = .error (.depthExceeded limit)) ∨
      ((evaluate outer r).run s').1 = .ok r ∧ ((evaluate outer r).run s').2.output = s'.output := by
  have hs' : s'.Genuine := by
    have hcompiled : ((compile ctx t).run s).2.Genuine := .reduce hs hctx ht
    rwa [hrun] at hcompiled
  have hends := evaluate_reduced hs' outer ((hcandid.isValue_iff hs'.intact).1 hvalue)
  generalize (evaluate outer r).run s' = answer at hends ⊢
  cases hends with
  | deep => exact Or.inl ⟨_, rfl⟩
  | gives _ _ houtput hpost =>
    subst hpost
    exact Or.inr ⟨rfl, houtput⟩

end Attempt

/-! ## A product of texts -/

namespace Sample

open Build

/-- `{let x = "A"; {a = x}}`. -/
def labelledText : Build TermId := do
  let x ← freshVariable false (some "x")
  let text ← string "A"
  let ty ← productType [("a", ← stringType "A")]
  letIn [(x, text)] (← product ty [("a", ← variableTerm x)])

seal Store.intern Store.initial in
/-- The term in a new store. -/
def labelled : Store.Setup TermId := labelledText.setup <| by
  repeat' apply Store.Built.add
  · exact fun _ : True => .freshVariable _ _ (.initial {})
  · decide +kernel

end Sample

namespace Attempt

open Sample

/-- The residual program is `{a = "A"}`. -/
theorem evaluate_finished_labelledText :
    ∃ s : Store, s.Built ∧ ∃ t r s', s.Allocated t ∧ (compile .root t).run s = (.ok r, s') ∧
      s'.Candid r ∧ s'.isValue r = true ∧
      ((∃ limit, ((evaluate .root r).run s').1 = .error (.depthExceeded limit)) ∨
        ((evaluate .root r).run s').1 = .ok r ∧
          ((evaluate .root r).run s').2.output = s'.output) := by
  have hbuilt := labelled.built
  have hchecks :
      let r := (compile .root ⟨28⟩).run labelled.store
      labelled.store.Allocated ⟨28⟩ ∧ r.1 = .ok ⟨29⟩ ∧
        r.2.shape ⟨29⟩ = .productValue ⟨25⟩ [("a", ⟨23⟩)] ∧
        r.2.shape ⟨25⟩ = .productType [("a", ⟨24⟩)] ∧ r.2.shape ⟨24⟩ = .stringLiteralType "A" ∧
        r.2.shape ⟨23⟩ = .stringLiteral "A" ∧ r.2.isValue ⟨29⟩ = true := by
    decide +kernel
  obtain ⟨ht, hresult, hproduct, hmembers, htype, htext, hvalue⟩ := hchecks
  generalize labelled.store = s at *
  rcases hrun : (compile .root ⟨28⟩).run s with ⟨r, s'⟩
  rw [hrun] at hresult hproduct hmembers htype htext hvalue
  obtain rfl : r = .ok ⟨29⟩ := hresult
  have hconstant : ∀ (u : TermId) (text : String),
      s'.shape u = .stringLiteral text ∨ s'.shape u = .stringLiteralType text →
      s'.Reduced [] u := by
    rintro u text (hu | hu) <;>
      exact .constant (Store.allocated_of_shape (by simp [hu])) (by simp [hu, Shape.isConstant])
  have hcandid : s'.Candid ⟨29⟩ := by
    refine .productValue hproduct (.productType hmembers ?_) ?_
    · simpa using hconstant ⟨24⟩ "A" (.inr htype)
    · simpa using .reduced (hconstant ⟨23⟩ "A" (.inl htext))
  exact ⟨s, hbuilt, ⟨28⟩, ⟨29⟩, s', ht, hrun, hcandid, hvalue,
    evaluate_finished hbuilt.genuine (List.forall_mem_nil _) ht hrun hcandid hvalue .root⟩

end Attempt

/-! ## A call in an annotation -/

namespace Sample

open Build

/-- The unit value with the annotation `{let x = printf("A"); Unit}`. -/
def annotatedUnit : Build TermId := do
  let x ← freshVariable false (some "x")
  unitValue (← letIn [(x, ← plainCall)] Store.unitType)

seal Store.intern Store.initial in
/-- The term in a new store. -/
def annotated : Store.Setup TermId := annotatedUnit.setup <| by
  repeat' apply Store.Built.add
  · exact fun _ : True => .freshVariable _ _ (.initial {})
  · decide +kernel

end Sample

namespace Attempt

open Sample

/-- A residual program that passes as a value may hold a call, which is made when it is
evaluated. -/
theorem compile_passes_call :
    ∃ s : Store, s.Built ∧ ∃ t r w, s.Allocated t ∧ (s.freeVariables t).isEmpty = true ∧
      ((compile .root t).run s).1 = .ok r ∧ ((compile .root t).run s).2.isValue r = true ∧
      ((compile .root t).run s).2.output.text = "" ∧
      ((evaluate .root r).run ((compile .root t).run s).2).1 = .ok w ∧ w ≠ r ∧
      ((evaluate .root r).run ((compile .root t).run s).2).2.output.text = "A" := by
  refine ⟨annotated.store, annotated.built, ⟨26⟩, ⟨26⟩, ⟨31⟩, ?_⟩
  decide +kernel

end Attempt

end StagedCalculus
