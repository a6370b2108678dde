import StagedCalculus.Proofs.Native.StraightLine
import StagedCalculus.Proofs.Staging.Agreement
import StagedCalculus.Proofs.Staging.Idempotence
import StagedCalculus.Proofs.Staging.Silence

/-!
# Residual terms

Compilation keeps a binding or an argument that cannot be inlined as a residual binding; evaluation
keeps none (`Engine.residual_bindLets`, `Engine.residual_bindArgs`).

* `Attempt.evaluate_residual`: a residual term does what the term does if evaluation comes to values
  only, or if the program is straight-line;
* `Attempt.evaluate_residual_loses_text`: any other one need not. Compiling a projection keeps the
  projected field alone, and the call in the other field is lost.
-/

namespace StagedCalculus

namespace Engine

open Attempt

variable {e : Engine}

/-- Evaluation binds every value, whatever it is. -/
theorem residual_bindLets {lets : List (VarId × TermId)} {ctx : Context} {s : Store}
    {r : Context × List (VarId × TermId)}
    (h : ((e.bindLets .evaluate ctx lets).run s).1 = .ok r) : r.2 = [] := by
  induction lets generalizing ctx s with
  | nil =>
    cases h
    rfl
  | cons b rest ih =>
    obtain ⟨value, s₁, -, h⟩ := ok_of_bind h
    obtain ⟨canInline, s₂, -, h⟩ := ok_of_bind h
    simp only [decide_true, Bool.true_or, if_true] at h
    obtain ⟨inner, s₃, -, h⟩ := ok_of_bind h
    exact ih h

theorem residual_bindArgs {args : List (VarId × TermId)} {outer ctx : Context} {s : Store}
    {r : Context × List (VarId × TermId)}
    (h : ((e.bindArgs .evaluate outer ctx args).run s).1 = .ok r) : r.2 = [] := by
  induction args generalizing ctx s with
  | nil =>
    cases h
    rfl
  | cons b rest ih =>
    obtain ⟨canInline, s₁, -, h⟩ := ok_of_bind h
    simp only [decide_true, Bool.true_or, if_true] at h
    obtain ⟨inner, s₂, -, h⟩ := ok_of_bind h
    exact ih h

/-- So the value of a call is the value of the body itself, with no block around it. -/
theorem evaluate_callAbstraction {lets params : List (VarId × TermId)} {body value : TermId}
    {args : List TermId} {ctx : Context} {s : Store}
    (h : ((e.callAbstraction .evaluate ctx lets params body args).run s).1 = .ok value) :
    ∃ inner s', ((e.reduce .evaluate inner body).run s').1 = .ok value := by
  unfold callAbstraction at h
  dsimp only at h
  split at h
  · cases h
  · obtain ⟨r₁, s₁, hlets, h⟩ := ok_of_bind h
    obtain ⟨r₂, s₂, hargs, h⟩ := ok_of_bind h
    obtain ⟨v, s₃, hbody, h⟩ := ok_of_bind h
    have hfirst : r₁.2 = [] := residual_bindLets (congrArg Prod.fst hlets)
    have hsecond : r₂.2 = [] := residual_bindArgs (congrArg Prod.fst hargs)
    rw [hfirst, hsecond] at h
    cases h
    exact ⟨r₂.1, s₂, congrArg Prod.fst hbody⟩

end Engine

namespace Attempt

open Replay Store

/-- Staging keeps what a program does in two cases. If evaluation comes to values only, and nothing
is left to do in its result, then evaluation and compilation give that result and write nothing, and
the result is its own value. If the program is straight-line, then its residual term writes the same
text and comes to the same literals. -/
theorem evaluate_residual (t : TermId) :
    (∀ s v s', s.Genuine → s.Allocated t →
      (∀ id registered, s.native? id = some registered → registered.native.Discreet) →
      (cautious .root t).run s = (.ok v, s') → s'.smugglers = [] → s'.Reduced [] v →
      (evaluate .root t).run s = (.ok v, s') ∧ (compile .root t).run s = (.ok v, s') ∧
        s'.output = s.output ∧
        ((∃ limit, ((evaluate .root v).run s').1 = .error (.depthExceeded limit)) ∨
          ((evaluate .root v).run s').1 = .ok v ∧
            ((evaluate .root v).run s').2.output = s'.output)) ∧
    ∀ s written meaning, s.Serves → s.StraightLine t written meaning →
      Yields written (fun v s' => s'.Attains v meaning) (evaluate .root t) s ∧
      Yields "" (fun r s' => Yields written (fun v s'' => s''.Attains v meaning)
        (evaluate .root r) s') (compile .root t) s := by
  refine ⟨fun s v s' hs ht hnatives hrun hsmugglers hv => ?_,
    fun s written meaning hs ht => ⟨?_, ?_⟩⟩
  · have hlevel : ((Engine.cautious s.config.maxDepth).reduce .evaluate .root t).run s =
        (.ok v, s') := hrun
    have hevaluate := (engines_cautious s.config.maxDepth).reduce .evaluate .root t s trivial
    have hcompile := agrees_cautious s.config.maxDepth .root t s trivial
    rw [hlevel] at hevaluate hcompile
    have hcompiles : (compile .root t).run s = (.ok v, s') := hcompile.same nofun
    refine ⟨hevaluate.same nofun, hcompiles, ?_, ?_⟩
    · -- Compilation makes no call, and evaluation leaves the same store.
      have hkeeps := keeps_compile (Context.within_root s) ht
      have hclosed := hs.intact.toClosed
      have houtput := hkeeps.output_eq hclosed (hkeeps.honest hclosed hnatives ?_)
      · rwa [hcompiles] at houtput
      · rwa [hcompiles]
    · have hs' : s'.Genuine := by
        have hreduced : ((compile .root t).run s).2.Genuine := .reduce hs nofun ht
        rwa [hcompiles] at hreduced
      have hends := evaluate_reduced hs' .root hv
      generalize (evaluate .root v).run s' = r at hends ⊢
      cases hends with
      | deep => exact Or.inl ⟨_, rfl⟩
      | gives _ _ houtput heq => exact Or.inr ⟨congrArg _ heq, houtput⟩
  · exact .reduce hs (yields_evaluate_straightLine hs ht)
  · have hcompile : Yields "" (fun r s' => s'.StraightLine r written meaning) (compile .root t) s :=
      .reduce hs (yields_compile_straightLine hs ht)
    obtain ⟨r, s₁, hrun, hstep, hs₁, hr⟩ := hcompile
    exact ⟨r, s₁, hrun, hstep, hs₁, .reduce hs₁ (yields_evaluate_straightLine hs₁ hr)⟩

end Attempt

namespace Sample

open Build

seal Store.intern Store.initial in
/-- The block with a partial application in a new store. -/
def partially : Store.Setup TermId := partialCall.setup <| by
  repeat' apply Store.Built.add
  · exact fun _ : True =>
      .freshVariable _ _ (.freshVariable _ _ (.freshVariable _ _ (.initial {})))
  · decide +kernel

/-- `{let x = printf("A"); let y = printf("BC"); {a = y, b = x, c = y}}`. -/
def twoCallsBlock : Build TermId := do
  let x ← freshVariable false (some "x")
  let y ← freshVariable false (some "y")
  let leaf ← intern (.native ⟨3⟩)
  let first ← apply leaf [← string "A"]
  let second ← apply leaf [← string "BC"]
  let one ← numericType 1
  let two ← numericType 2
  let ty ← productType [("a", two), ("b", one), ("c", two)]
  let xTerm ← variableTerm x
  let yTerm ← variableTerm y
  letIn [(x, first), (y, second)] (← product ty [("a", yTerm), ("b", xTerm), ("c", yTerm)])

seal Store.intern Store.initial in
/-- The block in a new store. -/
def twoCalls : Store.Setup TermId := twoCallsBlock.setup <| by
  repeat' apply Store.Built.add
  · exact fun _ : True => .freshVariable _ _ (.freshVariable _ _ (.initial {}))
  · decide +kernel

/-- What the block comes to. -/
def twoCounts : Meaning := .product ⟨29⟩ [("a", .number 2), ("b", .number 1), ("c", .number 2)]

theorem straightLine_twoCalls : twoCalls.store.StraightLine twoCalls.value "ABC" twoCounts := by
  have hshapes :
      twoCalls.store.shape twoCalls.value = .abstraction [(⟨6⟩, ⟨24⟩), (⟨7⟩, ⟨26⟩)] [] ⟨32⟩ ∧
      twoCalls.store.shape ⟨32⟩ = .productValue ⟨29⟩ [("a", ⟨31⟩), ("b", ⟨30⟩), ("c", ⟨31⟩)] ∧
      twoCalls.store.shape ⟨29⟩ = .productType [("a", ⟨28⟩), ("b", ⟨27⟩), ("c", ⟨28⟩)] ∧
      twoCalls.store.shape ⟨30⟩ = .variable ⟨6⟩ ∧ twoCalls.store.shape ⟨31⟩ = .variable ⟨7⟩ := by
    decide +kernel
  have hcalls :
      twoCalls.store.shape ⟨24⟩ = .application ⟨22⟩ [⟨23⟩] ∧
      twoCalls.store.shape ⟨26⟩ = .application ⟨22⟩ [⟨25⟩] ∧
      twoCalls.store.shape ⟨22⟩ = .native Store.printfId ∧
      twoCalls.store.shape ⟨23⟩ = .stringLiteral "A" ∧
      twoCalls.store.shape ⟨25⟩ = .stringLiteral "BC" ∧
      ∀ member ∈ [("a", (⟨28⟩ : TermId)), ("b", ⟨27⟩), ("c", ⟨28⟩)],
        (twoCalls.store.shape member.2).isConstant = true ∧
          twoCalls.store.Allocated member.2 := by decide +kernel
  obtain ⟨hblock, hproduct, hty, hx, hy⟩ := hshapes
  obtain ⟨hfirst, hsecond, hleaf, htext, htext', hmembers⟩ := hcalls
  have hlets : twoCalls.store.Bindings [(⟨6⟩, ⟨24⟩), (⟨7⟩, ⟨26⟩)] "ABC"
      [(⟨6⟩, .call "A"), (⟨7⟩, .call "BC")] :=
    .cons (.call (.call hfirst (.leaf hleaf) htext))
      (.cons (.call (.call hsecond (.leaf hleaf) htext')) .nil)
  have hfirstName : twoCalls.store.Operand [(⟨6⟩, .call "A"), (⟨7⟩, .call "BC")] ⟨30⟩ ""
      (Line.call "A").value := .name hx (.head _)
  have hsecondName : twoCalls.store.Operand [(⟨6⟩, .call "A"), (⟨7⟩, .call "BC")] ⟨31⟩ ""
      (Line.call "BC").value := .name hy (.tail _ (.head _))
  exact .block hblock (by decide) hlets (.product hproduct (.members hty hmembers)
    (.cons hsecondName (.cons hfirstName (.cons hsecondName .nil))))

end Sample

namespace Attempt

open Sample Store

/-- The first program makes a function on the way. The second one writes two texts and uses one of
the two numbers twice. -/
theorem evaluate_residual_twoCalls :
    (∃ s t v s', s.Genuine ∧ s.Allocated t ∧ (cautious .root t).run s = (.ok v, s') ∧
      (evaluate .root t).run s = (.ok v, s') ∧ (compile .root t).run s = (.ok v, s') ∧
      s'.output = s.output ∧
      ((∃ limit, ((evaluate .root v).run s').1 = .error (.depthExceeded limit)) ∨
        ((evaluate .root v).run s').1 = .ok v ∧
          ((evaluate .root v).run s').2.output = s'.output)) ∧
    ∃ s t, s.Serves ∧ s.StraightLine t "ABC" twoCounts ∧
      Yields "ABC" (fun v s' => s'.Attains v twoCounts) (evaluate .root t) s ∧
      Yields "" (fun r s' => Yields "ABC" (fun v s'' => s''.Attains v twoCounts)
        (evaluate .root r) s') (compile .root t) s := by
  refine ⟨?_, twoCalls.store, twoCalls.value, ?_⟩
  · have hbuilt := partially.built
    have hchecks : let r := (cautious .root partially.value).run partially.store
        partially.store.Allocated partially.value ∧ r.1 = .ok ⟨26⟩ ∧ r.2.smugglers = [] ∧
        r.2.shape ⟨26⟩ = .unitValue unitType ∧ r.2.shape unitType = .unitType := by
      decide +kernel
    obtain ⟨hterm, hvalue, hsmugglers, hshape, hunit⟩ := hchecks
    generalize partially.store = s at *
    rcases hrun : (cautious .root partially.value).run s with ⟨r, s'⟩
    rw [hrun] at hvalue hsmugglers hshape hunit
    obtain rfl : r = .ok ⟨26⟩ := hvalue
    have hreduced : s'.Reduced [] ⟨26⟩ := .unitValue hshape
      (.constant (allocated_of_shape (by rw [hunit]; exact nofun)) (by rw [hunit]; rfl))
    exact ⟨s, partially.value, ⟨26⟩, s', hbuilt.genuine, hterm, hrun,
      (evaluate_residual partially.value).1 s ⟨26⟩ s' hbuilt.genuine hterm
        (Native.discreet_builtins hbuilt.standard.nativeFunctions_eq) hrun hsmugglers hreduced⟩
  · have hserves : twoCalls.store.Serves :=
      twoCalls.built.serves (by decide +kernel) (by decide +kernel)
    exact ⟨hserves, straightLine_twoCalls,
      (evaluate_residual twoCalls.value).2 _ _ _ hserves straightLine_twoCalls⟩

end Attempt

namespace Sample

open Build

/-- `{a = printf("A"), b = 2}.b`. -/
def projectedCall : Build TermId := do
  let call ← plainCall
  let one ← numericType 1
  let two ← numericType 2
  let ty ← productType [("a", one), ("b", two)]
  let value ← numeric 2
  let pair ← product ty [("a", call), ("b", value)]
  project pair "b"

theorem reaches_projectedCall {s : Store} : Reaches Store.Allocated projectedCall s := by
  refine .bind reaches_plainCall fun call s₁ h₁ hcall => ?_
  refine .bind (.leaf rfl) fun one s₂ h₂ hone => .bind (.leaf rfl) fun two s₃ h₃ htwo => ?_
  refine .bind (.intern fun _ => ?_) fun ty s₄ h₄ hty => ?_
  · simpa [Shape.children] using ⟨h₃.allocated hone, htwo⟩
  refine .bind (.leaf rfl) fun value s₅ h₅ hvalue => ?_
  have hcall₅ := (((h₂.trans h₃).trans h₄).trans h₅).allocated hcall
  refine .bind (.intern fun _ => ?_) fun pair s₆ h₆ hpair => .intern fun _ => ?_
  · simpa [Shape.children] using ⟨h₅.allocated hty, hcall₅, hvalue⟩
  · simpa [Shape.children] using hpair

end Sample

namespace Attempt

open Sample

/-- Evaluation reduces every field and writes a text; compilation reduces the fields to a residual
call and a value, of which the projection keeps the value. -/
theorem evaluate_residual_loses_text :
    ∃ s : Store, s.Reachable ∧ s.output = {} ∧
      ∃ t r v, s.Allocated t ∧ (s.freeVariables t).isEmpty = true ∧
        ((evaluate .root t).run s).1 = .ok v ∧ ((evaluate .root t).run s).2.output.text = "A" ∧
        ((compile .root t).run s).1 = .ok r ∧
        ((evaluate .root r).run ((compile .root t).run s).2).1 = .ok v ∧
        ((evaluate .root r).run ((compile .root t).run s).2).2.output.text = "" := by
  refine ⟨(projectedCall.run (.initial {})).2, reaches_projectedCall.reachable, ?_,
    (projectedCall.run (.initial {})).1, ⟨28⟩, ⟨28⟩, ?_⟩
  all_goals decide +kernel

end Attempt

end StagedCalculus
