import StagedCalculus.Proofs.Native.CurriedTypes

/-!
# Applications in two steps

A function may be given some of its arguments first and the others later. This module compares the
type of the application in two steps with the type of the application in one.

* `Attempt.infer_curried`: for functions there is one type, however the arguments are divided;
* `Attempt.infer_curried_loses_refinement`: a native that refines the type of its calls does so only
  for calls of itself. What is left of it after some arguments is a function, so that a call of that
  has the declared result.
-/

namespace StagedCalculus

namespace Attempt

open Store Engine

variable {s s₁ s₂ : Store} {vars : List VarId} {callee ty result part t : TermId}
  {types : TermId → TermId} {slots : List (Slot TermId)} {first rest : List TermId}

/-- A call of a function that is given some of its arguments first and the others later has the type
of the call with all of them, which was asked for before. The types of the positions and the result
may depend on the arguments, and the types of the callee and the arguments are known already. There
are two ways to fail: depth may be lacking, and the partial application may fail to compile, for it
is compiled to find out that it is no native. -/
theorem infer_curried {whole curried T : TermId} (hs : s.Orderly) (hstandard : s.Standard)
    (hfunction : (∃ lets params body, s.shape callee = .abstraction lets params body) ∨
      ∃ vars body, s.shape callee = .forAll vars body)
    (hcallee : s.Callable callee ty vars slots result)
    (hlength : (first ++ rest).length = slots.length) (hrest : rest ≠ [])
    (htypes : ∀ arg ∈ first ++ rest, s.Inferred arg (types arg))
    (hargs : ∀ p ∈ (first ++ rest).zip slots, p.2.comptime = true → s.Reduced [] p.1)
    (hwhole : s.shape whole = .application callee (first ++ rest))
    (hpart : s.shape part = .application callee first)
    (hcurried : s.shape curried = .application part rest)
    (hnew : s.types.get? whole [] = none) (hrun : (infer .root whole).run s = (.ok T, s₁))
    (hle : s₁.Precedes s₂) (hs₂ : s₂.Orderly) (hpartNew : s₂.types.get? part [] = none)
    (hcurriedNew : s₂.types.get? curried [] = none) :
    ((infer .root curried).run s₂).1 = .ok T ∨
      ∃ e, ((infer .root curried).run s₂).1 = .error e ∧ (e.IsDepth ∨
        ∃ s₃ s₄, s₂.Precedes s₃ ∧ (compile .root part).run s₃ = (.error e, s₄)) := by
  have hcertain : s.Certain :=
    ⟨hs.neat.toIntact, hstandard, hs.remembers ruled_evidentLaw⟩
  rw [run_infer] at hrun
  obtain ⟨hle₁, hs₁, m, hsupplies, hinstance⟩ := (ensures_infer_whole hcertain.toLinked hfunction
    hcallee hlength htypes hargs hwhole hnew).gives_of_ok hcertain hrun
  have hle₂ := hle₁.trans hle
  have hcertain₂ : s₂.Certain :=
    ⟨hs₂.neat.toIntact, hstandard.later hle₂, hs₂.remembers ruled_evidentLaw⟩
  have hends : Ensures (fun e => e.IsDepth ∨
      ∃ s₃ s₄, s₂.Precedes s₃ ∧ (compile .root part).run s₃ = (.error e, s₄))
      (fun ty' _ => ty' = T) (infer .root curried) s₂ :=
    .reads (run_engine s₂) (ensures_infer_curried (hcallee.mono hle₂) hlength hrest
      (fun arg harg => (htypes arg harg).mono hle₂) (hle₂.shape_kept hpart nofun)
      (hle₂.shape_kept hcurried nofun) hpartNew hcurriedNew
      (hsupplies.mono hle.toExtends) (hinstance.mono hle.toExtends) (Nat.le_refl _)
      (fun _ he => .inl he) fun e s₃ s₄ h₃ hrun => .inr ⟨s₃, s₄, h₃, hrun⟩)
  have hended := hends hcertain₂
  rcases hresult : (infer .root curried).run s₂ with ⟨e | ty', s₃⟩ <;> rw [hresult] at hended
  · cases hended with
    | fails he => exact .inr ⟨e, rfl, he⟩
  · cases hended with
    | gives _ _ hty => exact .inl (congrArg Except.ok hty)

end Attempt

namespace Sample

open Build

/-- With the function `fn(comptime T: Type, x: T) => x`, the calls of it on `Type` and `Unit` and on
`Type` twice, the partial application to `Type`, and the second call in two steps. -/
def identityCalls : Build (TermId × TermId × TermId × TermId) := do
  let ty ← freshVariable true (some "T")
  let x ← freshVariable false (some "x")
  let tyTerm ← variableTerm ty
  let function ← abstraction [] [(ty, Store.typeOfTypes), (x, tyTerm)] (← variableTerm x)
  let asked ← apply function [Store.typeOfTypes, Store.unitType]
  let whole ← apply function [Store.typeOfTypes, Store.typeOfTypes]
  let part ← apply function [Store.typeOfTypes]
  let curried ← apply part [Store.typeOfTypes]
  return (asked, whole, part, curried)

seal Store.intern Store.initial in
/-- The calls in a new store. -/
def identityCall : Store.Setup (TermId × TermId × TermId × TermId) := identityCalls.setup <| by
  repeat' apply Store.Built.add
  · exact fun _ : True => .freshVariable _ _ (.freshVariable _ _ (.initial {}))
  · decide +kernel

/-- The store after the type of the first call was asked for. -/
def identityStore : Store := ((Attempt.infer .root identityCall.value.1).run identityCall.store).2

end Sample

namespace Attempt

open Sample Store

/-- The identity at `Type`, applied to `Type`, has the type `Type` in one step and in two. -/
theorem infer_curried_identity :
    ∃ s : Store, s.Orderly ∧ s.Standard ∧ ∃ whole part curried s₁,
      s.display whole = "fn(comptime T: Type, x: T) => x(Type, Type)" ∧
      s.display curried = "fn(comptime T: Type, x: T) => x(Type)(Type)" ∧
      (infer .root whole).run s = (.ok Store.typeOfTypes, s₁) ∧
      (((infer .root curried).run s₁).1 = .ok Store.typeOfTypes ∨
        ∃ e, ((infer .root curried).run s₁).1 = .error e ∧ (e.IsDepth ∨
          ∃ s₃ s₄, s₁.Precedes s₃ ∧ (compile .root part).run s₃ = (.error e, s₄))) := by
  have hstart : (∀ i < identityCall.store.entries.size,
      (identityCall.store.shape ⟨i⟩).binders.Nodup) ∧
      identityCall.store.Allocated identityCall.value.1 ∧
      ((infer .root identityCall.value.1).run identityCall.store).1 = .ok typeOfTypes := by
    decide +kernel
  obtain ⟨hbinders, hasked, hinfer⟩ := hstart
  obtain ⟨horderly, hstandard⟩ := orderly_infer identityCall.built.orderly
    identityCall.built.standard hbinders hasked hinfer
  change identityStore.Orderly at horderly
  change identityStore.Standard at hstandard
  have hshapes : (∀ i < identityStore.entries.size,
      (identityStore.shape ⟨i⟩).binders.Nodup) ∧
      identityStore.shape ⟨25⟩ = .abstraction [] [(⟨6⟩, typeOfTypes), (⟨7⟩, ⟨23⟩)] ⟨24⟩ ∧
      identityStore.shape ⟨23⟩ = .variable ⟨6⟩ ∧
      identityStore.shape ⟨27⟩ = .application ⟨25⟩ [typeOfTypes, typeOfTypes] ∧
      identityStore.shape ⟨28⟩ = .application ⟨25⟩ [typeOfTypes] ∧
      identityStore.shape ⟨29⟩ = .application ⟨28⟩ [typeOfTypes] ∧
      identityStore.shape ⟨33⟩ = .forAll [⟨6⟩] ⟨32⟩ ∧
      identityStore.shape ⟨32⟩ =
        .functionType [⟨typeOfTypes, true, some ⟨6⟩⟩, ⟨⟨23⟩, false, none⟩] ⟨23⟩ := by
    decide +kernel
  have hruns : (identityStore.freeVariables ⟨25⟩).isEmpty = true ∧
      (identityStore.freeVariables typeOfTypes).isEmpty = true ∧
      (identityStore.freeVariables ⟨32⟩).contains ⟨6⟩ = true ∧
      identityStore.Allocated typeOfTypes ∧ identityStore.shape typeOfTypes = .typeOfTypes ∧
      identityStore.types.get? ⟨25⟩ [] = some (.ok ⟨33⟩) ∧
      identityStore.types.get? typeOfTypes [] = some (.ok typeOfTypes) ∧
      identityStore.types.get? ⟨27⟩ [] = none ∧
      ((infer .root ⟨27⟩).run identityStore).1 = .ok typeOfTypes ∧
      ((infer .root ⟨27⟩).run identityStore).2.types.get? ⟨28⟩ [] = none ∧
      ((infer .root ⟨27⟩).run identityStore).2.types.get? ⟨29⟩ [] = none ∧
      identityStore.display ⟨27⟩ = "fn(comptime T: Type, x: T) => x(Type, Type)" ∧
      identityStore.display ⟨29⟩ = "fn(comptime T: Type, x: T) => x(Type)(Type)" := by
    decide +kernel
  generalize identityStore = s at horderly hstandard hshapes hruns
  obtain ⟨hbinders, hfunction, hvariable, hwhole, hpart, hcurried, hquantified, htype⟩ := hshapes
  obtain ⟨hfunctionClosed, htypeClosed, hfree, htypeAllocated, htypeShape, hget, hgetType, hnew,
    hrun, hpartNew, hcurriedNew, hdisplay, hdisplay'⟩ := hruns
  obtain ⟨horderly₁, -⟩ := orderly_infer horderly hstandard hbinders
    (allocated_of_shape_eq hwhole nofun) hrun
  have hreduced : ∀ scope, s.Reduced scope typeOfTypes := fun scope =>
    .constant htypeAllocated (htypeShape ▸ rfl)
  have hopen : s.Reduced [⟨6⟩] ⟨23⟩ := .variable hvariable (List.mem_singleton.2 rfl)
  have hresult : s.Schema [⟨6⟩] ⟨23⟩ := .variable hvariable (List.mem_singleton.2 rfl)
  have hcallee : s.Inferred ⟨25⟩ ⟨33⟩ := by
    refine ⟨allocated_of_shape_eq hfunction nofun, hfunctionClosed, hget,
      .quantified hquantified (List.nodup_singleton _) (List.forall_mem_singleton.2 hfree) ?_⟩
    exact .functionType htype (List.forall_mem_cons.2
      ⟨hreduced _, List.forall_mem_singleton.2 hopen⟩) hopen
  have hcallable : s.Callable ⟨25⟩ ⟨33⟩ [⟨6⟩]
      [⟨typeOfTypes, true, some ⟨6⟩⟩, ⟨⟨23⟩, false, none⟩] ⟨23⟩ := by
    refine ⟨hcallee, ⟨⟨⟨32⟩, .inl hquantified, htype⟩, List.nodup_singleton _⟩, ?_, hresult⟩
    exact List.forall_mem_cons.2 ⟨.closed (hreduced []), List.forall_mem_singleton.2 hresult⟩
  have hargument : ∀ arg ∈ [typeOfTypes] ++ [typeOfTypes], s.Inferred arg typeOfTypes := by
    simpa using ⟨htypeAllocated, htypeClosed, hgetType, hreduced []⟩
  refine ⟨s, horderly, hstandard, ⟨27⟩, ⟨28⟩, ⟨29⟩, _, hdisplay, hdisplay', Prod.ext hrun rfl, ?_⟩
  exact infer_curried horderly hstandard (.inl ⟨_, _, _, hfunction⟩) hcallable rfl
    (List.cons_ne_nil _ _) hargument (by simpa using hreduced []) hwhole hpart hcurried hnew
    (Prod.ext hrun rfl) (.refl horderly₁.neat.toIntact) horderly₁ hpartNew hcurriedNew

end Attempt

namespace Sample

open Build

/-- `cast(Unit, Unit{})` and `cast(Unit)(Unit{})`, and the subject of both. -/
def castCalls : Build (TermId × TermId × TermId) := do
  let cast ← intern (.native ⟨0⟩)
  let subject ← unitValue Store.unitType
  let direct ← apply cast [Store.unitType, subject]
  let curried ← apply (← apply cast [Store.unitType]) [subject]
  return (direct, curried, subject)

seal Store.intern Store.initial in
/-- The two calls in a new store. -/
def castInSteps : Store.Setup (TermId × TermId × TermId) := castCalls.setup <| by
  repeat' apply Store.Built.add
  · exact fun _ : True => .initial {}
  · decide +kernel

end Sample

namespace Attempt

open Sample

/-- A cast has the type it casts to, and the same cast in two steps has the type `Top`, in a new
store and after the cast itself was typed. Both come to the same value. -/
theorem infer_curried_loses_refinement :
    ∃ s : Store, s.Built ∧ ∃ direct curried value,
      s.display direct = "native cast(Unit, Unit{})" ∧
      s.display curried = "native cast(Unit)(Unit{})" ∧
      ((evaluate .root direct).run s).1 = .ok value ∧
      ((evaluate .root curried).run s).1 = .ok value ∧
      ((infer .root direct).run s).1 = .ok Store.unitType ∧
      ((infer .root curried).run s).1 = .ok Store.topType ∧
      ((infer .root curried).run ((infer .root direct).run s).2).1 = .ok Store.topType := by
  refine ⟨castInSteps.store, castInSteps.built, castInSteps.value.1, castInSteps.value.2.1,
    castInSteps.value.2.2, ?_⟩
  decide +kernel

end Attempt

end StagedCalculus
