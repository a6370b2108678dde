import StagedCalculus.Proofs.Staging.Built
import StagedCalculus.Proofs.Staging.ReplayReduce

/-!
# Stages of residual bindings

The variable of a residual binding stands for a placeholder while the rest is compiled, and this
placeholder decides whether the variable is known at compile time.

* `Engine.awaits_of_bindArgs`: the variable that keeps an argument waits as long as the parameter
  that the argument is for, so it can be passed on (`Engine.takes_kept_argument`);
* `Engine.awaits_of_bindLets`: the variable of a binding waits for run time, even if it is a
  comptime variable, so it is refused at comptime positions (`Engine.refuses_kept_binding`);
* `Attempt.compile_refuses_residual`: a call keeps its argument for a comptime position, and the
  residual program, where that is a binding, is refused when it is compiled.
-/

namespace StagedCalculus

namespace Attempt

variable {s s' : Store} {ctx bound : Context} {v : VarId} {t : TermId} {stage : Availability}

/-! ## Placeholders of variables -/

/-- The innermost frame binds the variable to a placeholder. -/
def AwaitsAt (s : Store) (ctx : Context) (v : VarId) (stage : Availability) : Prop :=
  ∃ placeholder ty, ctx.innermost.get? v = some placeholder ∧
    s.shape placeholder = .deferred ty stage

/-- The innermost frame of the second context has all bindings of that of the first one. -/
def Enlarges (ctx bound : Context) : Prop :=
  ∀ v t, ctx.innermost.get? v = some t → bound.innermost.get? v = some t

theorem Enlarges.trans {ctx' : Context} (h : Enlarges ctx ctx') (h' : Enlarges ctx' bound) :
    Enlarges ctx bound := fun v t hv => h' v t (h v t hv)

theorem AwaitsAt.mono (h : AwaitsAt s ctx v stage) (hle : s.Extends s')
    (hbound : Enlarges ctx bound) : AwaitsAt s' bound v stage := by
  obtain ⟨placeholder, ty, hget, hshape⟩ := h
  exact ⟨placeholder, ty, hbound v placeholder hget, hle.shape_kept hshape nofun⟩

theorem AwaitsAt.get? (h : AwaitsAt s ctx v stage) :
    ∃ placeholder ty, ctx.get? v = some placeholder ∧ s.shape placeholder = .deferred ty stage := by
  obtain ⟨placeholder, ty, hget, hshape⟩ := h
  refine ⟨placeholder, ty, ?_, hshape⟩
  rw [Context.get?, Context.frames, List.findSome?_cons, hget]

/-- A binding that succeeds leaves the store alone and enlarges the frame by itself. -/
theorem run_bind_cases (h : (Attempt.bind ctx v t).run s = (.ok bound, s')) :
    s' = s ∧ Enlarges ctx bound ∧ bound.innermost.get? v = some t := by
  unfold Attempt.bind Context.bind? at h
  cases hv : ctx.innermost.get? v with
  | some old =>
    rw [hv] at h
    cases h
  | none =>
    rw [hv] at h
    cases h
    refine ⟨rfl, fun w u hw => ?_, by simp [Frame.get?]⟩
    have hne : v ≠ w := by
      rintro rfl
      rw [hv] at hw
      cases hw
    simpa [Frame.get?, hne] using hw

/-- A variable that is bound to a new placeholder waits for what the placeholder waits for. -/
theorem awaitsAt_of_deferred {ty placeholder : TermId} {s₁ s₂ : Store}
    (hdeferred : (Build.deferred ty stage : Attempt TermId).run s = (.ok placeholder, s₁))
    (hbind : (Attempt.bind ctx v placeholder).run s₁ = (.ok bound, s₂)) :
    s₂ = s₁ ∧ Enlarges ctx bound ∧ AwaitsAt s₂ bound v stage := by
  obtain ⟨rfl, hbound, hget⟩ := run_bind_cases hbind
  have hshape : ∀ body, Shape.deferred ty stage ≠ .forAll [] body := fun _ h => by cases h
  refine ⟨rfl, hbound, placeholder, ty, hget, ?_⟩
  cases hdeferred
  exact Store.shape_intern hshape

end Attempt

namespace Engine

open Attempt Replay

variable {s s' : Store} {ctx : Context} {n : Nat} {mode : Mode}

/-! ## Kept bindings and arguments -/

/-- The variable of a binding that is kept waits for run time, whatever variable it is. -/
theorem awaits_of_bindLets {lets : List (VarId × TermId)} {r : Context × List (VarId × TermId)}
    (h : ((ofLevels n).bindLets mode ctx lets).run s = (.ok r, s')) :
    Enlarges ctx r.1 ∧ ∀ b ∈ r.2, AwaitsAt s' r.1 b.1 .runtime := by
  induction lets generalizing s ctx r with
  | nil =>
    cases h
    exact ⟨fun _ _ hv => hv, by simp⟩
  | cons b rest ih =>
    obtain ⟨v, t⟩ := b
    obtain ⟨value, s₁, -, h⟩ := run_bind_ok h
    obtain ⟨canInline, s₂, -, h⟩ := run_bind_ok h
    split at h
    · obtain ⟨bound, s₃, hbind, h⟩ := run_bind_ok h
      obtain ⟨hrest, hkept⟩ := ih h
      exact ⟨(run_bind_cases hbind).2.1.trans hrest, hkept⟩
    · obtain ⟨ty, s₃, -, h⟩ := run_bind_ok h
      obtain ⟨placeholder, s₄, hdeferred, h⟩ := run_bind_ok h
      obtain ⟨bound, s₅, hbind, h⟩ := run_bind_ok h
      obtain ⟨⟨inner, residual⟩, s₆, hrun, h⟩ := run_bind_ok h
      cases h
      obtain ⟨-, hbound, hawaits⟩ := awaitsAt_of_deferred hdeferred hbind
      obtain ⟨hrest, hkept⟩ := ih hrun
      have hle := (follows_bindLets lawful_untilFailure (engines_self n) bound rest).extends hrun
      exact ⟨hbound.trans hrest, List.forall_mem_cons.2 ⟨hawaits.mono hle hrest, hkept⟩⟩

/-- The variable that keeps an argument is a variable of the same stage as the parameter, and waits
accordingly. -/
theorem awaits_of_bindArgs {outer : Context} {args : List (VarId × TermId)}
    {r : Context × List (VarId × TermId)}
    (h : ((ofLevels n).bindArgs mode outer ctx args).run s = (.ok r, s')) :
    Enlarges ctx r.1 ∧
      ∀ b ∈ r.2, AwaitsAt s' r.1 b.1 (.ofComptime (s'.isComptime b.1)) := by
  induction args generalizing s ctx r with
  | nil =>
    cases h
    exact ⟨fun _ _ hv => hv, by simp⟩
  | cons b rest ih =>
    obtain ⟨v, arg⟩ := b
    obtain ⟨canInline, s₁, -, h⟩ := run_bind_ok h
    split at h
    · obtain ⟨bound, s₂, hbind, h⟩ := run_bind_ok h
      obtain ⟨hrest, hkept⟩ := ih h
      exact ⟨(run_bind_cases hbind).2.1.trans hrest, hkept⟩
    · obtain ⟨comptime, s₂, -, h⟩ := run_bind_ok h
      obtain ⟨name, s₃, -, h⟩ := run_bind_ok h
      obtain ⟨fresh, s₄, hfresh, h⟩ := run_bind_ok h
      obtain ⟨freshTerm, s₅, hterm, h⟩ := run_bind_ok h
      obtain ⟨ty, s₆, hty, h⟩ := run_bind_ok h
      obtain ⟨placeholder, s₇, hdeferred, h⟩ := run_bind_ok h
      obtain ⟨first, s₈, hfirst, h⟩ := run_bind_ok h
      obtain ⟨second, s₉, hsecond, h⟩ := run_bind_ok h
      obtain ⟨⟨inner, residual⟩, s₁₀, hrun, h⟩ := run_bind_ok h
      cases h
      obtain ⟨hsame, hbound, hawaits⟩ := awaitsAt_of_deferred hdeferred hfirst
      obtain ⟨hsame', hbound', -⟩ := run_bind_cases hsecond
      obtain ⟨hrest, hkept⟩ := ih hrun
      have hle : s₈.Extends s' := hsame' ▸
        (follows_bindArgs lawful_untilFailure (engines_self n) outer second rest).extends hrun
      -- The fresh variable keeps its stage while the store grows.
      have hlater : s₄.Extends s' := by
        have h₅ := (Follows.intern lawful_untilFailure _).extends hterm
        have h₆ := ((engines_self n).infer outer arg s₅).extends hty
        have h₇ := (Follows.intern lawful_untilFailure _).extends hdeferred
        exact (h₅.trans h₆).trans (h₇.trans (hsame ▸ hle))
      have hstage : s'.isComptime fresh = comptime := by
        cases hfresh
        rw [hlater.isComptime_eq (by simp)]
        simp [Store.isComptime, Store.variableInfo, Array.getD_eq_getD_getElem?]
      refine ⟨(hbound.trans hbound').trans hrest, List.forall_mem_cons.2 ⟨?_, hkept⟩⟩
      rw [hstage]
      exact hawaits.mono hle (hbound'.trans hrest)

/-! ## Comptime positions -/

variable {m : Matching} {index : Nat} {t : TermId} {v : VarId} {slot : Slot TermId}
  {stage : Availability}

/-- Compilation gives a variable back that waits for its value. -/
theorem compile_awaiting (ht : s.shape t = .variable v) (hv : AwaitsAt s ctx v stage) :
    ((ofLevels (n + 1)).compile ctx t).run s = (.ok t, s) := by
  obtain ⟨placeholder, ty, hget, hshape⟩ := hv.get?
  have hstep : ((ofLevels n).reduceVariable .compile ctx t v).run s = (.ok t, s) := by
    have hrun : (Attempt.shape placeholder).run s = (.ok (s.shape placeholder), s) := rfl
    unfold reduceVariable
    rw [hget]
    dsimp only
    rw [run_bind, hrun, hshape]
    rfl
  have hrun : (Attempt.shape t).run s = (.ok (s.shape t), s) := rfl
  rw [compile, reduce_ofLevels, reduceStep, run_bind, hrun, ht]
  exact hstep

/-- A variable that waits is known at compile time unless it waits for run time. -/
theorem run_knownAtCompileTime (hs : s.Linked) (ht : s.shape t = .variable v)
    (hv : AwaitsAt s ctx v stage) :
    (knownAtCompileTime ctx t).run s = (.ok (stage = .comptime), s) := by
  obtain ⟨placeholder, ty, hget, hshape⟩ := hv.get?
  have hopen : (s.freeVariables t).isEmpty = false := by
    rw [hs.free t (Store.allocated_of_shape (by simp [ht])), ht]
    rfl
  have hvalue : (Attempt.isValue t).run s = (.ok false, s) := by
    have hfalse : s.isValue t = false := by
      rw [Store.isValue, Store.isConcrete, hopen, Bool.and_false, Bool.false_and]
    rw [← hfalse]
    rfl
  have hrun : (Attempt.shape t).run s = (.ok (.variable v), s) := by
    rw [← ht]
    rfl
  have hplaceholder : (Attempt.shape placeholder).run s = (.ok (.deferred ty stage), s) := by
    rw [← hshape]
    rfl
  unfold knownAtCompileTime
  rw [run_bind, hvalue]
  dsimp only
  rw [if_neg (by simp), run_bind, hrun]
  dsimp only
  rw [hget]
  dsimp only
  rw [run_bind, hplaceholder]
  cases stage <;> rfl

/-- The variable of a kept binding is refused at every comptime position, whatever the position
supplies. -/
theorem refuses_kept_binding {lets : List (VarId × TermId)} {r : Context × List (VarId × TermId)}
    {k : Nat} (h : ((ofLevels n).bindLets mode ctx lets).run s = (.ok r, s')) (hs' : s'.Linked)
    {b : VarId × TermId} (hb : b ∈ r.2) (ht : s'.shape t = .variable b.1) :
    ((ofLevels (k + 1)).supplyComptime r.1 m index t slot).run s' =
      (.error (.comptimeArgumentUnavailable index), s') := by
  have hawaits := (awaits_of_bindLets h).2 b hb
  rw [supplyComptime, run_bind, compile_awaiting ht hawaits]
  dsimp only
  rw [run_bind, run_knownAtCompileTime hs' ht hawaits]
  rfl

/-- The variable that keeps the argument of a comptime parameter is taken at every comptime position,
and changes nothing there unless the position supplies a variable. -/
theorem takes_kept_argument {outer : Context} {args : List (VarId × TermId)}
    {r : Context × List (VarId × TermId)} {k : Nat}
    (h : ((ofLevels n).bindArgs mode outer ctx args).run s = (.ok r, s')) (hs' : s'.Linked)
    {b : VarId × TermId} (hb : b ∈ r.2) (hcomptime : s'.isComptime b.1 = true)
    (ht : s'.shape t = .variable b.1) (hslot : slot.binds = none) :
    ((ofLevels (k + 1)).supplyComptime r.1 m index t slot).run s' = (.ok m, s') := by
  have hawaits := (awaits_of_bindArgs h).2 b hb
  rw [hcomptime] at hawaits
  rw [supplyComptime, run_bind, compile_awaiting ht hawaits]
  dsimp only
  rw [run_bind, run_knownAtCompileTime hs' ht hawaits]
  dsimp only
  rw [hslot]
  rfl

end Engine

/-! ## A residual program that is refused -/

namespace Sample

open Build

/-- `fn(comptime X: Type, comptime p: fn(X) -> Unit, q: fn(comptime fn(comptime X) -> Unit) -> Unit)`
with the body `(fn(comptime g: fn(comptime X) -> Unit) => q(g))(p)`. -/
def relayedParameter : Build TermId := do
  let x ← freshVariable true (some "X")
  let p ← freshVariable true (some "p")
  let q ← freshVariable false (some "q")
  let g ← freshVariable true (some "g")
  let ty ← variableTerm x
  let plain ← functionType [⟨ty, false, none⟩] Store.unitType
  let strict ← functionType [⟨ty, true, none⟩] Store.unitType
  let taking ← functionType [⟨strict, true, none⟩] Store.unitType
  let qTerm ← variableTerm q
  let gTerm ← variableTerm g
  let call ← apply qTerm [gTerm]
  let relay ← abstraction [] [(g, strict)] call
  let pTerm ← variableTerm p
  let body ← apply relay [pTerm]
  abstraction [] [(x, Store.typeOfTypes), (p, plain), (q, taking)] body

seal Store.intern Store.initial in
/-- The function in a new store. -/
def relayed : Store.Setup TermId := relayedParameter.setup <| by
  repeat' apply Store.Built.add
  · exact fun _ : True => .freshVariable _ _ (.freshVariable _ _ (.freshVariable _ _
      (.freshVariable _ _ (.initial {}))))
  · decide +kernel

end Sample

namespace Attempt

open Sample

/-- The parameter `p` is accepted for `g` but has another type, so a cast is kept in its place. The
position of `q` takes the variable of the kept argument, and not that of the binding which is left
of it. -/
theorem compile_refuses_residual :
    ∃ s : Store, s.Built ∧ ∃ t r, s.Allocated t ∧ (s.freeVariables t).isEmpty = true ∧
      s.display t = "fn(comptime X: Type, comptime p: fn(X) -> Unit, " ++
        "q: fn(comptime fn(comptime X) -> Unit) -> Unit) => " ++
        "fn(comptime g: fn(comptime X) -> Unit) => q(g)(p)" ∧
      ((compile .root t).run s).1 = .ok r ∧
      (((compile .root t).run s).2.freeVariables r).isEmpty = true ∧
      ((compile .root t).run s).2.display r = "fn(comptime X: Type, comptime p: fn(X) -> Unit, " ++
        "q: fn(comptime fn(comptime X) -> Unit) -> Unit) => " ++
        "\x7blet g = (p as fn(comptime X) -> Unit); q(g)\x7d" ∧
      ((compile .root r).run ((compile .root t).run s).2).1 =
        .error (.comptimeArgumentUnavailable 0) := by
  refine ⟨relayed.store, relayed.built, relayed.value, ⟨41⟩, ?_⟩
  decide +kernel

end Attempt

end StagedCalculus
