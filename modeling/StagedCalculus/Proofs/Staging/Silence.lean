import StagedCalculus.Proofs.Staging.Reachable

/-!
# Inference and compilation are silent

This module proves that inference, compilation, resolution and matching hand nothing to the output,
whether they succeed or fail, as long as they leave no smuggler in the store. The condition is
needed: `Attempt.compile_smuggled` compiles a cast whose operands pass as values, and a text is
written.
-/

namespace StagedCalculus

open Attempt

namespace Attempt.Keeps

variable {α : Type} {quiet : Store → Prop} {post : α → α → Store → Prop} {c : Attempt α} {s : Store}

/-- A computation that ends in a quiet store hands nothing to the output. -/
theorem output_eq (h : Keeps quiet [] post c c s) (hs : s.Closed) (hquiet : quiet (c.run s).2) :
    (c.run s).2.output = s.output :=
  have hstep := h.evolves hs
  hstep.output _ (.refl _) hstep.sound.toClosed hquiet

/-- The natives of an honest store are those that it started with. -/
theorem honest (h : Keeps quiet [] post c c s) (hs : s.Closed)
    (hnatives : ∀ id registered, s.native? id = some registered → registered.native.Discreet)
    (hsmugglers : (c.run s).2.smugglers = []) : (c.run s).2.Honest := by
  refine ⟨fun id registered hid => hnatives id registered ?_, hsmugglers⟩
  rw [← hid, Store.native?, Store.native?, (h.evolves hs).natives]

end Attempt.Keeps

namespace Attempt

variable {s : Store} {ctx : Context}

/-- Whatever the judgments are asked in a reachable store whose natives are discreet, the output is
the same as before, unless a smuggler was built on the way. Nothing is assumed of the calls of
impure natives, so none of them is made. -/
theorem output_judgments (hs : s.Reachable)
    (hnatives : ∀ id registered, s.native? id = some registered → registered.native.Discreet)
    (hctx : ctx.Within s) :
    (∀ t, s.Allocated t → ((infer ctx t).run s).2.smugglers = [] →
      ((infer ctx t).run s).2.output = s.output) ∧
    (∀ t, s.Allocated t → ((compile ctx t).run s).2.smugglers = [] →
      ((compile ctx t).run s).2.output = s.output) ∧
    (∀ callee args, s.Allocated callee → (∀ arg ∈ args, s.Allocated arg) →
      ((resolve ctx callee args).run s).2.smugglers = [] →
      ((resolve ctx callee args).run s).2.output = s.output) ∧
    (∀ m expected arg, ((unify m expected arg).run s).2.output = s.output) := by
  have hclosed := hs.closed
  refine ⟨fun t ht hsmugglers => ?_, fun t ht hsmugglers => ?_,
    fun callee args hcallee hargs hsmugglers => ?_, fun m expected arg => rfl⟩
  · have hkeeps := keeps_infer hctx ht
    exact hkeeps.output_eq hclosed (hkeeps.honest hclosed hnatives hsmugglers)
  · have hkeeps := keeps_compile hctx ht
    exact hkeeps.output_eq hclosed (hkeeps.honest hclosed hnatives hsmugglers)
  · have hkeeps := keeps_resolve hctx hcallee hargs
    exact hkeeps.output_eq hclosed (hkeeps.honest hclosed hnatives hsmugglers)

end Attempt

/-! ## A call that is seen and one that is not -/

namespace Native

/-- The natives that every store starts with are discreet. -/
theorem discreet_builtins {s : Store}
    (hnatives : s.nativeFunctions = [cast, project, cimport, printf]) (id : NativeId)
    (registered : RegisteredNative) (hid : s.native? id = some registered) :
    registered.native.Discreet := by
  have hmem := Store.mem_nativeFunctions hid
  rw [hnatives] at hmem
  simp only [List.mem_cons, List.not_mem_nil, or_false] at hmem
  rcases hmem with h | h | h | h <;> rw [h]
  · exact discreet_cast
  · exact discreet_project
  · exact discreet_cimport
  · exact discreet_printf

end Native

namespace Sample

open Build

/-- `printf("A")`, with the leaf of the fourth built-in native. -/
def plainCall : Build TermId := do
  let text ← string "A"
  apply (← intern (.native ⟨3⟩)) [text]

/-- A cast to `Top`, as a call of the first built-in native. Its subject is a unit value with a call
of `printf` in its annotation. -/
def smuggledCall : Build TermId := do
  let subject ← unitValue (← plainCall)
  apply (← intern (.native ⟨0⟩)) [Store.topType, subject]

theorem reaches_plainCall {s : Store} : Reaches Store.Allocated plainCall s := by
  refine .bind (.leaf rfl) fun text s₁ h₁ htext => ?_
  refine .bind (.leaf rfl) fun leaf s₂ h₂ hleaf => ?_
  exact .intern fun _ => by simpa [Shape.children] using ⟨hleaf, h₂.allocated htext⟩

theorem reaches_smuggledCall {s : Store} : Reaches Store.Allocated smuggledCall s := by
  refine .bind reaches_plainCall fun call s₁ h₁ hcall => ?_
  refine .bind (.intern fun _ => by simpa [Shape.children] using hcall)
    fun subject s₂ h₂ hsubject => ?_
  refine .bind (.leaf rfl) fun leaf s₃ h₃ hleaf => .intern fun hcommon => ?_
  simpa [Shape.children] using ⟨hleaf, hcommon 3 (by decide), h₃.allocated hsubject⟩

seal Store.intern Store.initial in
theorem nativeFunctions_plainCall : (plainCall.run (.initial {})).2.nativeFunctions =
    [Native.cast, Native.project, Native.cimport, Native.printf] := by
  refine (Store.nativeFunctions_intern _ _).trans ((Store.nativeFunctions_intern _ _).trans ?_)
  exact (Store.nativeFunctions_intern _ _).trans (Store.nativeFunctions_initial {})

seal Store.intern plainCall in
theorem nativeFunctions_smuggledCall : (smuggledCall.run (.initial {})).2.nativeFunctions =
    [Native.cast, Native.project, Native.cimport, Native.printf] := by
  refine (Store.nativeFunctions_intern _ _).trans ((Store.nativeFunctions_intern _ _).trans ?_)
  exact (Store.nativeFunctions_intern _ _).trans nativeFunctions_plainCall

end Sample

namespace Attempt

open Sample

/-- A call of `printf` that stays residual, seen by three of the judgments. -/
theorem output_judgments_plainCall :
    ((infer .root (plainCall.run (.initial {})).1).run (plainCall.run (.initial {})).2).2.output =
      (plainCall.run (.initial {})).2.output ∧
    ((compile .root (plainCall.run (.initial {})).1).run (plainCall.run (.initial {})).2).2.output =
      (plainCall.run (.initial {})).2.output ∧
    ((resolve .root ⟨22⟩ [⟨23⟩]).run (plainCall.run (.initial {})).2).2.output =
      (plainCall.run (.initial {})).2.output := by
  obtain ⟨hinfer, hcompile, hresolve, -⟩ := output_judgments reaches_plainCall.reachable
    (Native.discreet_builtins nativeFunctions_plainCall) (Context.within_root _)
  refine ⟨hinfer _ ?_ ?_, hcompile _ ?_ ?_, hresolve _ _ ?_ ?_ ?_⟩
  all_goals decide +kernel

/-- Without the condition on smugglers a call may be made: `cast` is pure, its arguments pass as
values, and evaluating the cast evaluates the annotation. -/
theorem compile_smuggled :
    ∃ s : Store, s.Reachable ∧
      (∀ id registered, s.native? id = some registered → registered.native.Discreet) ∧
      ∃ t, s.Allocated t ∧ ((compile .root t).run s).2.output ≠ s.output :=
  have hwrites : ((compile .root (smuggledCall.run (.initial {})).1).run
      (smuggledCall.run (.initial {})).2).2.output ≠ (smuggledCall.run (.initial {})).2.output := by
    decide +kernel
  ⟨_, reaches_smuggledCall.reachable, Native.discreet_builtins nativeFunctions_smuggledCall, _,
    reaches_smuggledCall.holds, hwrites⟩

end Attempt

end StagedCalculus
