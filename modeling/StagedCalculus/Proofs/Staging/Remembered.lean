import StagedCalculus.Proofs.Staging.Observing
import StagedCalculus.Proofs.Staging.Silence

/-!
# Remembered answers

Inference remembers an answer under what the term observes of its context, and gives it to a later
query that observes the same. A runtime variable that is used as a value only is observed by the
type of its value, so the two queries may be made while it has different values.

* `Attempt.infer_alike`: if the first query comes to its answer without such a value, the second one
  has the same answer, and is given it from memory;
* `Attempt.infer_depends_on_memory`: if it does not, the two may have different answers, for a value
  may decide a type through another variable.
-/

namespace StagedCalculus

open Attempt

namespace Attempt

variable {hidden : List VarId} {s s' : Store} {ctx ctx' : Context}

/-- Inference that finds no value of the hidden variables. -/
def inferSealed (hidden : List VarId) (ctx : Context) (t : TermId) : Attempt TermId := do
  (Engine.sealed hidden (← get).config.maxDepth).infer ctx t

/-- Runs that stay in step end the same way, unless the first one misses a value. -/
theorem Keeps.run_eq {quiet : Store → Prop} {α : Type} {p : α → Store → Prop} {c c' : Attempt α}
    {answer : Except Error α} (h : Keeps quiet hidden (Same p) c c' s) (hs : s.Sound hidden)
    (hrun : c.run s = (answer, s')) (hfound : ∀ name, answer ≠ .error (.valueNotAvailable name)) :
    c'.run s = (answer, s') ∧ s.Evolves quiet hidden s' := by
  have hends := h hs
  rw [hrun] at hends
  generalize c'.run s = r' at hends ⊢
  cases hends with
  | misses => exact absurd rfl (hfound _)
  | fails hstep => exact ⟨rfl, hstep⟩
  | gives hstep hpost =>
    obtain ⟨rfl, -⟩ := hpost
    exact ⟨rfl, hstep⟩

/-- Whatever was computed is remembered afterwards, unless depth was lacking. -/
theorem remembered_stores {t : TermId} {restriction : Restriction} {compute : Attempt TermId}
    {answer : TypeAnswer} (hrun : (remembered t restriction compute).run s = (answer, s'))
    (hdepth : ∀ limit, answer ≠ .error (.depthExceeded limit)) :
    s'.types.get? t restriction = some answer := by
  cases hget : s.types.get? t restriction with
  | some old =>
    rw [run_remembered_hit hget] at hrun
    cases hrun
    exact hget
  | none =>
    rcases hcompute : compute.run s with ⟨computed, s''⟩
    by_cases hlimit : ∃ limit, computed = .error (.depthExceeded limit)
    · obtain ⟨limit, rfl⟩ := hlimit
      rw [run_remembered_depth hget hcompute] at hrun
      cases hrun
      exact absurd rfl (hdepth limit)
    · rw [run_remembered_miss hget hcompute fun limit h => hlimit ⟨limit, h⟩] at hrun
      cases hrun
      exact TypeCache.get?_insert_self ..

/-- A level of inference remembers the type of a value. -/
theorem inferStep_value_stores {e : Engine} {value : TermId} {answer : TypeAnswer}
    (hvalue : s.isValue value = true) (hrun : (e.inferStep ctx value).run s = (answer, s'))
    (hdepth : ∀ limit, answer ≠ .error (.depthExceeded limit)) :
    s'.types.get? value [] = some answer := by
  unfold Engine.inferStep at hrun
  rw [run_bind, Engine.run_restrict_value hvalue] at hrun
  exact remembered_stores hrun hdepth

theorem not_settled_sealed_zero {t : TermId} {answer : TypeAnswer}
    (hrun : ((Engine.sealed hidden 0).infer ctx t).run s = (answer, s')) : ¬ Settled answer := by
  intro hsettled
  cases hrun
  exact hsettled.deep _ rfl

theorem recalls_sealed (hidden : List VarId) (n : Nat) (ctx ctx' : Context) :
    Recalls hidden ctx ctx' ((Engine.sealed hidden n).infer ctx)
      ((Engine.ofLevels n).infer ctx') := by
  cases n with
  | zero =>
    exact ⟨fun _ _ _ _ hrun h => absurd h (not_settled_sealed_zero hrun),
      fun _ _ _ hrun h => absurd h (not_settled_sealed_zero hrun)⟩
  | succ n =>
    constructor
    · intro s s₁ value answer hs hctx hclear hvalue hrun hsettled
      have hkeeps := (Engine.inStep_sealed hidden (n + 1)).infer hctx (hclear.plain hs.toLinked)
      obtain ⟨-, hstep⟩ := hkeeps.run_eq hs hrun hsettled.found
      have hgrows := hstep.growsTo hs.toLinked
      have hstored := inferStep_value_stores hvalue hrun hsettled.deep
      refine ⟨hstep.sound, hgrows, fun hlater => ?_⟩
      refine Engine.run_inferStep_value ?_ (hlater.types _ _ _ hstored)
      rw [(hgrows.trans hlater).isValue_eq hclear.allocated, hvalue]
    · intro s s₁ value value' ty answer hs hknows hknows' hrun _
      have hknown : ((Engine.sealed hidden (n + 1)).infer ctx value).run s = (.ok ty, s) :=
        Engine.run_inferStep_value hknows.isValue hknows.remembered
      rw [hknown] at hrun
      cases hrun
      refine ⟨hs, .refl hs.toLinked, fun hlater => ?_⟩
      exact Engine.run_inferStep_value (hknows'.mono hlater).isValue
        (hknows'.mono hlater).remembered

/-- The answer of one level is remembered for every context that is alike. -/
theorem inferStep_again {n : Nat} {t : TermId} {answer : TypeAnswer} {later : Store}
    (hs : s.Sound hidden) (hctx : ctx.Alike hidden s ctx') (hdeclared : ctx.Declared s)
    (ht : s.Plain hidden t) (hterm : s.Declares t)
    (hrun : ((Engine.sealed hidden n).inferStep ctx t).run s = (answer, s'))
    (hsettled : Settled answer) (hlater : s'.GrowsTo later) :
    ((Engine.ofLevels n).inferStep ctx' t).run later = (answer, later) := by
  have he := Engine.inStep_sealed hidden n
  have hquiet : ∀ final : Store, final.Honest → final.Honest := fun _ h => h
  have hrestrict := Engine.keeps_restrict he hquiet hctx ht
  unfold Engine.inferStep at hrun ⊢
  rw [run_bind] at hrun ⊢
  rcases hobserved : (restrict ((Engine.sealed hidden n).infer ctx) ctx t).run s with
    ⟨e | restriction, s₁⟩
  · rw [hobserved] at hrun
    cases hrun
    obtain ⟨-, hstep⟩ := hrestrict.run_eq hs hobserved hsettled.error.found
    rw [restrict_again (recalls_sealed hidden n ctx ctx') hs hctx hdeclared ht hterm hobserved
      hsettled.error (hstep.growsTo hs.toLinked) hlater]
  · rw [hobserved] at hrun
    obtain ⟨-, hstep⟩ := hrestrict.run_eq hs hobserved (Settled.ok _).found
    have hgrows := hstep.growsTo hs.toLinked
    have hshape := Engine.keeps_inferShape he hquiet (hctx.mono hgrows) (hgrows.plain ht)
    obtain ⟨-, hstep'⟩ := (Keeps.remembered hshape).run_eq hstep.sound hrun hsettled.found
    rw [restrict_again (recalls_sealed hidden n ctx ctx') hs hctx hdeclared ht hterm hobserved
      (.ok _) hgrows ((hstep'.growsTo hstep.sound.toLinked).trans hlater)]
    exact run_remembered_hit (hlater.types _ _ _ (remembered_stores hrun hsettled.deep))

/-- A query that misses no hidden value ends like the plain one, in either context. -/
theorem run_infer_of_sealed {t : TermId} {answer : TypeAnswer} (hs : s.Sound hidden)
    (hctx : ctx.Alike hidden s ctx') (ht : s.Plain hidden t)
    (hrun : (inferSealed hidden ctx t).run s = (answer, s'))
    (hfound : ∀ name, answer ≠ .error (.valueNotAvailable name)) :
    (infer ctx t).run s = (answer, s') ∧ (infer ctx' t).run s = (answer, s') ∧
      s.Evolves Store.Honest hidden s' := by
  have he := Engine.inStep_sealed hidden s.config.maxDepth
  have hlimit : ((Engine.sealed hidden s.config.maxDepth).infer ctx t).run s = (answer, s') := hrun
  obtain ⟨hfirst, -⟩ := (he.infer hctx.left ht).run_eq hs hlimit hfound
  obtain ⟨hsecond, hstep⟩ := (he.infer hctx ht).run_eq hs hlimit hfound
  exact ⟨hfirst, hsecond, hstep⟩

/-- A query that misses no hidden value keeps nothing of the hidden variables. -/
theorem sound_infer {t : TermId} (hs : s.Sound hidden) (hctx : ctx.Alike hidden s ctx')
    (ht : s.Plain hidden t) (hsettled : Settled ((inferSealed hidden ctx t).run s).1) :
    ((infer ctx t).run s).2.Sound hidden := by
  rcases hrun : (inferSealed hidden ctx t).run s with ⟨answer, s'⟩
  rw [hrun] at hsettled
  obtain ⟨hfirst, -, hstep⟩ := run_infer_of_sealed hs hctx ht hrun hsettled.found
  rw [hfirst]
  exact hstep.sound

/-- Values of one type are not told apart by a query that misses neither of them. Its answer is the
same, and it is given from memory: to the later query, which leaves the store alone. -/
theorem infer_alike {t : TermId} (hs : s.Sound hidden) (hctx : ctx.Alike hidden s ctx')
    (hdeclared : ctx.Declared s) (ht : s.Plain hidden t) (hterm : s.Declares t)
    (hsettled : Settled ((inferSealed hidden ctx t).run s).1) :
    (infer ctx' t).run s = (infer ctx t).run s ∧
      (infer ctx' t).run ((infer ctx t).run s).2 = (infer ctx t).run s := by
  rcases hrun : (inferSealed hidden ctx t).run s with ⟨answer, s'⟩
  rw [hrun] at hsettled
  obtain ⟨hfirst, hsecond, hstep⟩ := run_infer_of_sealed hs hctx ht hrun hsettled.found
  rw [hfirst, hsecond]
  refine ⟨rfl, ?_⟩
  have hlimit : ((Engine.sealed hidden s.config.maxDepth).infer ctx t).run s = (answer, s') := hrun
  have hagain : ((Engine.ofLevels s.config.maxDepth).infer ctx' t).run s' = (answer, s') := by
    generalize s.config.maxDepth = n at hlimit ⊢
    cases n with
    | zero => exact absurd hsettled (not_settled_sealed_zero hlimit)
    | succ n =>
      exact inferStep_again hs hctx hdeclared ht hterm hlimit hsettled (.refl hstep.sound.toLinked)
  have hengine : (infer ctx' t).run s' =
      ((Engine.ofLevels s'.config.maxDepth).infer ctx' t).run s' := rfl
  rw [hengine, hstep.config, hagain]

end Attempt

/-! ## Values of one type and of two -/

namespace Native

/-- The natives that every store starts with are careful. -/
theorem careful_builtins {s : Store} {hidden : List VarId}
    (hnatives : s.nativeFunctions = [cast, project, cimport, printf]) (id : NativeId)
    (registered : RegisteredNative) (hid : s.native? id = some registered) :
    registered.native.Careful hidden [] := by
  have hmem := Store.mem_nativeFunctions hid
  rw [hnatives] at hmem
  simp only [List.mem_cons, List.not_mem_nil, or_false] at hmem
  rcases hmem with h | h | h | h <;> rw [h]
  · exact careful_cast
  · exact careful_project
  · exact careful_cimport
  · exact careful_printf

end Native

namespace Sample

open Build

/-- A context that binds one variable. -/
def binding (v : VarId) (t : TermId) : Context := ⟨[(v, t)], []⟩

theorem get?_binding (v w : VarId) (t : TermId) :
    (binding v t).get? w = if w = v then some t else none :=
  Context.get?_bind? (show Context.root.bind? v t = some (binding v t) from rfl) w

theorem within_binding {v : VarId} {t : TermId} {s : Store} (ht : s.Allocated t) :
    (binding v t).Within s :=
  (Context.within_root s).bind ht rfl

/-- A variable may be bound to any value of a known type. -/
theorem alike_binding {v : VarId} {value value' ty : TermId} {s : Store} (h : s.Knows value ty)
    (h' : s.Knows value' ty) : (binding v value).Alike [v] s (binding v value') := by
  refine ⟨fun w hw => ?_, fun w t hw hget => ?_, fun w hw => ?_⟩
  · rw [get?_binding, get?_binding, if_neg (by simpa using hw), if_neg (by simpa using hw)]
  · rw [get?_binding, if_neg (by simpa using hw)] at hget
    cases hget
  · rw [List.mem_singleton.1 hw, get?_binding, get?_binding, if_pos rfl, if_pos rfl]
    exact .typed h h'

theorem declared_binding {v : VarId} {value : TermId} {s : Store}
    (h : (s.freeVariables value).vars = []) : (binding v value).Declared s := by
  intro w t hget u hu
  rw [get?_binding] at hget
  split at hget
  · cases hget
    rw [h] at hu
    cases hu
  · cases hget

/-- `(fn(y: Type) => y)(x)` for a runtime variable `x`. -/
def passedVariable : Build (VarId × TermId) := do
  let x ← freshVariable false (some "x")
  let y ← freshVariable false (some "y")
  let body ← variableTerm y
  let callee ← abstraction [] [(y, Store.typeOfTypes)] body
  let arg ← variableTerm x
  return (x, ← apply callee [arg])

/-- `x`, the term, and a store that has them. -/
def passed : (VarId × TermId) × Store := passedVariable.run (.initial {})

seal Store.intern Store.initial in
theorem sound_passedVariable :
    passed.2.Sound [passed.1.1] := by
  have hclosed := Store.closed_freshVariable (Store.closed_initial {}) false (some "x")
  have hx : ((Store.initial {}).freshVariable false (some "x")).2.Sound [passed.1.1] :=
    hclosed.sound_of_unmentioned ?_ ?_
      (Native.careful_builtins (Store.nativeFunctions_initial {}))
  · have hy := Store.sound_freshVariable hx false (some "y")
    refine Store.sound_intern (Store.sound_intern (Store.sound_intern (Store.sound_intern hy
      ?_) ?_) ?_) ?_
    all_goals decide +kernel
  · decide +kernel
  · have habsent : ∀ i, i < ((Store.initial {}).freshVariable false (some "x")).2.entries.size →
        ∀ v ∈ [passed.1.1],
          ((Store.initial {}).freshVariable false (some "x")).2.mentions v ⟨i⟩ = false := by
      decide +kernel
    exact fun t ht => habsent t.index ht

/-- The store of `passed` after the types of `Top` and `Unit` were asked for. -/
def askedStore : Store :=
  ((infer .root Store.unitType).run
    ((infer .root Store.topType).run passed.2).2).2

theorem sound_askedStore : askedStore.Sound [passed.1.1] := by
  have htop : passed.2.Plain [passed.1.1] Store.topType ∧
      ((inferSealed [passed.1.1] .root Store.topType).run passed.2).1 = .ok Store.typeOfTypes := by
    decide +kernel
  have hunit : ((infer .root Store.topType).run passed.2).2.Plain [passed.1.1] Store.unitType ∧
      ((inferSealed [passed.1.1] .root Store.unitType).run
        ((infer .root Store.topType).run passed.2).2).1 = .ok Store.typeOfTypes := by
    decide +kernel
  have hasked := sound_infer sound_passedVariable (Context.root_alike _ _) htop.1 (.of_ok htop.2)
  exact sound_infer hasked (Context.root_alike _ _) hunit.1 (.of_ok hunit.2)

/-- `{let T = x; (3 as T)}` for runtime variables `x` and `T`. -/
def castThroughLet : Build (VarId × TermId) := do
  let x ← freshVariable false (some "x")
  let ty ← freshVariable false (some "T")
  let subject ← numeric 3
  let target ← variableTerm ty
  let body ← cast subject target
  let value ← variableTerm x
  return (x, ← letIn [(ty, value)] body)

theorem reaches_castThroughLet {s : Store} :
    Reaches (fun s r => s.Allocated r.2) castThroughLet s := by
  refine .bind (.freshVariable _ _) fun x s₁ h₁ _ => .bind (.freshVariable _ _) fun ty s₂ h₂ _ => ?_
  refine .bind (.leaf rfl) fun subject s₃ h₃ hsubject => ?_
  refine .bind (.leaf rfl) fun target s₄ h₄ htarget => .bind (.intern fun _ => ?_) ?_
  · simpa [Shape.children] using ⟨h₄.allocated hsubject, htarget⟩
  intro body s₅ h₅ hbody
  refine .bind (.leaf rfl) fun value s₆ h₆ hvalue => .bind (.intern fun _ => ?_) ?_
  · simpa [Shape.children] using ⟨hvalue, h₆.allocated hbody⟩
  exact fun block s₇ h₇ hblock => .pure hblock

end Sample

namespace Attempt

open Sample

/-- With `x` bound to `Unit` the answer is the one that was given while `x` was bound to `Top`, with
the memory of it and without. -/
theorem infer_alike_passedVariable :
    (infer (binding passed.1.1 Store.unitType) passed.1.2).run askedStore =
        (infer (binding passed.1.1 Store.topType) passed.1.2).run askedStore ∧
      (infer (binding passed.1.1 Store.unitType) passed.1.2).run
          ((infer (binding passed.1.1 Store.topType) passed.1.2).run askedStore).2 =
        (infer (binding passed.1.1 Store.topType) passed.1.2).run askedStore := by
  have hvalues : askedStore.Knows Store.topType Store.typeOfTypes ∧
      askedStore.Knows Store.unitType Store.typeOfTypes ∧
      (askedStore.freeVariables Store.topType).vars = [] := by
    decide +kernel
  obtain ⟨htop, hunit, hfree⟩ := hvalues
  have hterm : askedStore.Plain [passed.1.1] passed.1.2 ∧
      (∀ v ∈ (askedStore.freeVariables passed.1.2).vars, v.index < askedStore.vars.size) ∧
      ((inferSealed [passed.1.1] (binding passed.1.1 Store.topType) passed.1.2).run
        askedStore).1 = .ok Store.typeOfTypes := by
    decide +kernel
  obtain ⟨hplain, hdeclared, hanswer⟩ := hterm
  exact infer_alike sound_askedStore (alike_binding htop hunit) (declared_binding hfree) hplain
    hdeclared (.of_ok hanswer)

/-- The memory decides the type of a term: with `x` bound to `Unit` it is the answer that was given
while `x` was bound to `Top`. Both values have the type of types, and that is all that is observed
of them. -/
theorem infer_depends_on_memory :
    ∃ s : Store, s.Reachable ∧ ∃ ctx t, ctx.Within s ∧ s.Allocated t ∧
      ((infer ctx t).run s).1 = .ok Store.topType ∧
      ((infer ctx t).run { s with types := .empty }).1 = .ok Store.unitType := by
  let start := castThroughLet.run (.initial {})
  have hstart : start.2.Reachable := reaches_castThroughLet.reachable
  have hterm : start.2.Allocated start.1.2 := by decide +kernel
  let s := ((infer (binding start.1.1 Store.topType) start.1.2).run start.2).2
  have hs : s.Reachable :=
    .infer hstart (within_binding (hstart.closed.allocated_common (by decide))) hterm
  refine ⟨s, hs, binding start.1.1 Store.unitType, start.1.2,
    within_binding (hs.closed.allocated_common (by decide)), ?_⟩
  decide +kernel

end Attempt

end StagedCalculus
