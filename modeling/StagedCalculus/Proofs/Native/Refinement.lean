import StagedCalculus.Proofs.Native.Promises

/-!
# Refined types and the results of calls

A built-in native refines the type of its calls. This module compares the type that it gives to a
call with the type of what the call comes to.

* `Attempt.refined_types_agree`: the native, inference and the result of the call agree on the type,
  if the fields of products have their annotated types already;
* `Attempt.infer_projected_differs`: the type of a projection is the one that the annotation of the
  product declares. The field itself may be given another type later, for what was remembered while
  the call was evaluated may decide it.
-/

namespace StagedCalculus

namespace Attempt

open Store Engine

/-- The computation gives a result of which a condition holds, unless depth is lacking. -/
def ComesTo {α : Type} (post : α → Store → Prop) (c : Attempt α) (s : Store) : Prop :=
  (∃ limit, (c.run s).1 = .error (.depthExceeded limit)) ∨
    ∃ a s', c.run s = (.ok a, s') ∧ post a s'

theorem Ensures.comesTo {α : Type} {post : α → Store → Prop} {c : Attempt α} {s : Store}
    (h : Ensures Error.IsDepth post c s) (hs : s.Certain) : ComesTo post c s := by
  have hends := h hs
  rcases hrun : c.run s with ⟨e | a, s'⟩
  · rw [hrun] at hends
    cases hends with
    | fails he =>
      obtain ⟨limit, rfl⟩ := he
      exact .inl ⟨limit, by rw [hrun]⟩
  · rw [hrun] at hends
    cases hends with
    | gives _ _ hpost => exact .inr ⟨a, s', hrun, hpost⟩

variable {s s' : Store} {call callee v : TermId} {args : List TermId} {id : NativeId}
  {registered : RegisteredNative} {hook : List TermId → Script (Option TermId)}
  {layer : Shape TermId}

/-- Nothing is left open in a call of a leaf on reduced arguments. -/
theorem closed_call (hs : s.Linked) (hcall : s.shape call = .application callee args)
    (hcallee : s.shape callee = .native id) (hargs : ∀ arg ∈ args, s.Reduced [] arg) :
    (s.freeVariables call).isEmpty = true :=
  hs.closed_of_shape hcall nofun rfl (List.forall_mem_cons.2
    ⟨hs.closed_leaf hcallee, fun arg harg => (hargs arg harg).closed hs⟩)

/-- For a complete call on reduced arguments that evaluation performs, there is one type, here given
by its outermost layer: the type of the call, if it is asked for now for the first time; the type
that the native gives to the call; and the type of what the call came to, asked for afterwards. The
fields of a product among the arguments have to be remembered with the types of its annotation. -/
theorem refined_types_agree (hs : s.Orderly) (hstandard : s.Standard)
    (hcall : s.shape call = .application callee args) (hcallee : s.shape callee = .native id)
    (hid : s.native? id = some registered) (hhook : registered.native.resultType = some hook)
    (hpoly : s.Polymorphic args.length registered.signature)
    (hargs : ∀ arg ∈ args, s.Reduced [] arg) (hannotated : ∀ arg ∈ args, s.Annotated arg)
    (hrun : (evaluate .root call).run s = (.ok v, s')) :
    ∃ layer : Shape TermId,
      (s.types.get? call [] = none →
        ComesTo (fun ty s₁ => s₁.Represents layer ty) (infer .root call) s) ∧
      ComesTo (fun ty? s₁ => ∃ ty, ty? = some ty ∧ s₁.Represents layer ty)
        (do (← engine).run .root (hook args)) s ∧
      ComesTo (fun ty s₁ => s₁.Represents layer ty) (infer .root v) s' := by
  have hcertain : s.Certain :=
    ⟨hs.neat.toIntact, hstandard, hs.remembers ruled_evidentLaw⟩
  rw [evaluate, run_reduce] at hrun
  cases hdepth : s.config.maxDepth with
  | zero =>
    rw [hdepth] at hrun
    cases hrun
  | succ n =>
    have hread : (Attempt.shape call).run s = (.ok (s.shape call), s) := rfl
    rw [hdepth, reduce_ofLevels, reduceStep, run_bind, hread, hcall] at hrun
    obtain ⟨hle, hs', layer, hpromise, hfulfils⟩ := (ensures_evaluate_application hcallee hid hpoly
      hargs hannotated).gives_of_ok hcertain hrun
    obtain ⟨r, s₁, hresolve, -⟩ := run_bind_ok hrun
    have hallocated : ∀ arg ∈ args, s.Allocated arg := fun arg harg => (hargs arg harg).allocated
    have hbefore := hpromise.before hcertain.toLinked hle.toExtends hallocated
    refine ⟨layer, fun hnew => ?_, ?_, ?_⟩
    · have hshape : Ensures Error.IsDepth (fun ty s₁ => s₁.Represents layer ty)
          ((ofLevels n).inferShape .root call) s := by
        refine .reads rfl ?_
        rw [hcall]
        exact ensures_inferApplication hcallee hid hpoly hallocated hhook hbefore hresolve
      refine Ensures.comesTo (.reads (run_engine s) ?_) hcertain
      rw [hdepth]
      exact ensures_infer_new (closed_call hcertain.toLinked hcall hcallee hargs)
        (allocated_of_shape (by simp [hcall])) hnew hshape fun _ _ _ hty hle => hty.mono hle
    · exact Ensures.comesTo (.reads (run_engine s) (ensures_resultType hbefore hhook)) hcertain
    · exact Ensures.comesTo (.reads (run_engine s') (hfulfils _)) hs'

end Attempt

namespace Sample

open Build

/-- `{a = 3 : {a: literal 3}}`, with its field, its field name, and a projection of the field as a
call. -/
def projectedNumeral : Build (TermId × TermId × TermId × TermId) := do
  let three ← numeric 3
  let module ← product (← productType [("a", ← numericType 3)]) [("a", three)]
  let field ← string "a"
  let call ← apply (← intern (.native ⟨1⟩)) [module, field]
  return (three, module, field, call)

seal Store.intern Store.initial in
/-- The call in a new store. -/
def numeralCall : Store.Setup (TermId × TermId × TermId × TermId) := projectedNumeral.setup <| by
  repeat' apply Store.Built.add
  · exact fun _ : True => .initial {}
  · decide +kernel

/-- The store after the type of the field was asked for. -/
def annotatedStore : Store := ((Attempt.infer .root numeralCall.value.1).run numeralCall.store).2

end Sample

namespace Attempt

open Sample

/-- The call, its native and what it comes to agree on a type, which is `literal 3`. -/
theorem refined_types_agree_numeral :
    ∃ s : Store, s.Orderly ∧ s.Standard ∧ ∃ call three s', s.types.get? call [] = none ∧
      (evaluate .root call).run s = (.ok three, s') ∧ s.shape three = .numericLiteral 3 ∧
      ∃ layer, ComesTo (fun ty s₁ => s₁.Represents layer ty) (infer .root call) s ∧
        ComesTo (fun ty s₁ => s₁.Represents layer ty) (infer .root three) s' := by
  have hstart : (∀ i < numeralCall.store.entries.size,
      (numeralCall.store.shape ⟨i⟩).binders.Nodup) ∧
      numeralCall.store.Allocated numeralCall.value.1 ∧
      ((infer .root numeralCall.value.1).run numeralCall.store).1 = .ok ⟨24⟩ := by decide +kernel
  obtain ⟨hbinders, hthree, hinfer⟩ := hstart
  have hasked : annotatedStore.Orderly ∧ annotatedStore.Standard :=
    orderly_infer numeralCall.built.orderly numeralCall.built.standard hbinders hthree hinfer
  have hshapes : annotatedStore.shape ⟨23⟩ = .numericLiteral 3 ∧
      annotatedStore.shape ⟨24⟩ = .numericLiteralType 3 ∧
      annotatedStore.shape ⟨25⟩ = .productType [("a", ⟨24⟩)] ∧
      annotatedStore.shape ⟨26⟩ = .productValue ⟨25⟩ [("a", ⟨23⟩)] ∧
      annotatedStore.shape ⟨27⟩ = .stringLiteral "a" ∧
      annotatedStore.shape ⟨28⟩ = .application ⟨14⟩ [⟨26⟩, ⟨27⟩] ∧
      annotatedStore.shape ⟨14⟩ = .native ⟨1⟩ ∧
      annotatedStore.shape (Store.signatureOf ⟨1⟩) = .forAll [⟨2⟩, ⟨3⟩] ⟨12⟩ ∧
      annotatedStore.shape ⟨12⟩ =
        .functionType [⟨⟨10⟩, false, none⟩, ⟨⟨11⟩, true, none⟩] Store.topType := by
    decide +kernel
  have hruns : annotatedStore.types.get? ⟨23⟩ [] = some (.ok ⟨24⟩) ∧
      annotatedStore.types.get? ⟨28⟩ [] = none ∧
      ((evaluate .root ⟨28⟩).run annotatedStore).1 = .ok ⟨23⟩ := by decide +kernel
  generalize annotatedStore = s at hasked hshapes hruns
  obtain ⟨hasked, hstandard⟩ := hasked
  obtain ⟨hthree, hliteral, hdeclared, hmodule, hfield, hcall, hleaf, hsignature, hfunction⟩ :=
    hshapes
  obtain ⟨hget, hnew, hvalue⟩ := hruns
  have hconstant : ∀ {t shape}, s.shape t = shape → shape.isConstant = true →
      shape ≠ .typeOfTypes → s.Reduced [] t := fun ht h hne =>
    .constant (Store.allocated_of_shape_eq ht hne) (ht ▸ h)
  have hreduced : s.Reduced [] ⟨26⟩ := .productValue hmodule
    (.productType hdeclared (List.forall_mem_singleton.2 (hconstant hliteral rfl nofun)))
    (List.forall_mem_singleton.2 (hconstant hthree rfl nofun))
  have hannotated : s.Annotated ⟨26⟩ := by
    intro ty fields hshape
    cases hmodule.symm.trans hshape
    exact ⟨_, hdeclared, .cons ⟨rfl, hget⟩ .nil⟩
  have hplain : s.Annotated ⟨27⟩ := fun ty fields hshape => nomatch hfield.symm.trans hshape
  obtain ⟨layer, hinfer, -, hresult⟩ := refined_types_agree hasked hstandard hcall hleaf
    (hstandard.native?_eq rfl) rfl (.signature hsignature (by decide) hfunction rfl)
    (List.forall_mem_cons.2 ⟨hreduced, List.forall_mem_singleton.2 (hconstant hfield rfl nofun)⟩)
    (List.forall_mem_cons.2 ⟨hannotated, List.forall_mem_singleton.2 hplain⟩)
    (Prod.ext hvalue rfl)
  exact ⟨s, hasked, hstandard, ⟨28⟩, ⟨23⟩, _, hnew, Prod.ext hvalue rfl, hthree, layer, hinfer hnew,
    hresult⟩

end Attempt

namespace Sample

open Build

/-- Two functions with parameters `p` and `g`, the product of both, which is annotated by their
types, and a projection of the second one as a call. The type of `g` is generic in a runtime
variable, and its result is the type of a call that keeps `p`. -/
def annotatedFunctions : Build (TermId × TermId × TermId × TermId × TermId × TermId) := do
  let p ← freshVariable true (some "p")
  let a ← freshVariable true (some "A")
  let ty ← freshVariable false (some "T")
  let g ← freshVariable false (some "g")
  let pTerm ← variableTerm p
  let members ← productType [("m", ← variableTerm a), ("n", pTerm)]
  let pairing ← forAll [a] (← functionType [⟨Store.typeOfTypes, true, some a⟩] members)
  let maker ← cast (← unitValue Store.unitType) pairing
  let castLeaf ← intern (.native ⟨0⟩)
  let made (argument : TermId) : Build TermId := do
    apply castLeaf [Store.typeOfTypes, ← apply maker [argument]]
  let tyTerm ← variableTerm ty
  let generic ← forAll [ty] (← functionType [⟨tyTerm, false, none⟩] (← made tyTerm))
  let gTerm ← variableTerm g
  let callThree ← apply gTerm [← numeric 3]
  let callFour ← apply gTerm [← numeric 4]
  let params := [(p, Store.typeOfTypes), (g, generic)]
  let first ← abstraction [] params (← cast callThree pTerm)
  let second ← abstraction [] params callFour
  let slots : List (Slot TermId) := [⟨Store.typeOfTypes, true, some p⟩, ⟨generic, false, none⟩]
  let firstType ← forAll [p] (← functionType slots pTerm)
  let secondType ← forAll [p] (← functionType slots (← made (← numericType 4)))
  let both ← product (← productType [("a", firstType), ("b", secondType)])
    [("a", first), ("b", second)]
  let call ← apply (← intern (.native ⟨1⟩)) [both, ← string "b"]
  return (first, firstType, second, secondType, both, call)

seal Store.intern Store.initial in
/-- The functions, their types, the product and the call in a new store. -/
def projectedFunction :
    Store.Setup (TermId × TermId × TermId × TermId × TermId × TermId) :=
  annotatedFunctions.setup <| by
    repeat' apply Store.Built.add
    · exact fun _ : True => .freshVariable _ _ (.freshVariable _ _ (.freshVariable _ _
        (.freshVariable _ _ (.initial {}))))
    · decide +kernel

end Sample

namespace Attempt

open Sample

/-- In a new store the functions have the types that the product declares, whichever of them is
asked for first, and the call has the declared type of the function that it comes to. After the call
was evaluated, that function has another type: the type of `g(3)` was remembered while the product
was evaluated, and is taken for the type of `g(4)`. -/
theorem infer_projected_differs :
    ∃ s : Store, s.Built ∧ ∃ first firstType second secondType both members call other,
      s.shape both = .productValue members [("a", first), ("b", second)] ∧
      s.shape members = .productType [("a", firstType), ("b", secondType)] ∧
      ((infer .root first).run s).1 = .ok firstType ∧
      ((infer .root second).run s).1 = .ok secondType ∧
      ((infer .root second).run ((infer .root first).run s).2).1 = .ok secondType ∧
      ((evaluate .root both).run s).1 = .ok both ∧
      ((infer .root call).run s).1 = .ok secondType ∧
      ((evaluate .root call).run s).1 = .ok second ∧
      ((infer .root call).run ((evaluate .root call).run s).2).1 = .ok secondType ∧
      ((infer .root second).run ((evaluate .root call).run s).2).1 = .ok other ∧
      other ≠ secondType := by
  refine ⟨projectedFunction.store, projectedFunction.built, projectedFunction.value.1,
    projectedFunction.value.2.1, projectedFunction.value.2.2.1, projectedFunction.value.2.2.2.1,
    projectedFunction.value.2.2.2.2.1, ⟨50⟩, projectedFunction.value.2.2.2.2.2, ⟨67⟩, ?_⟩
  decide +kernel

end Attempt

end StagedCalculus
