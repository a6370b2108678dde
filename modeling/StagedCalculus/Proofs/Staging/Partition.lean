import StagedCalculus.Proofs.Staging.Built
import StagedCalculus.Proofs.Staging.CleanInfer

/-!
# Resolution divides variables and positions

Resolving a callee divides the quantified variables of its type into those that the arguments
determine and those that they leave open, and its positions into those that are supplied and those
that remain. This module states

* `Resolution.Partitions`: what this means for a resolution;
* `Matching.Splits`: the invariant of the loop over the arguments, by which a variable is either
  open or bound in the innermost frame;
* `Attempt.blaming`: a computation whose failures to bind a variable twice are relabelled. Resolution
  has none of its own: relabelling those of the judgments that it calls relabels all of them
  (`Attempt.resolve_partitions`).
-/

namespace StagedCalculus

/-! ## What is divided -/

/-- So many arguments supply the first positions, and determine some of the variables. -/
structure Resolution.Partitions (vars : List VarId) (params : List (Slot TermId)) (count : Nat)
    (r : Resolution) : Prop where
  enough : count ≤ params.length
  supplied : r.supplied.length = count
  /-- The positions that remain keep their order, their stages and their marks. -/
  remaining : r.remaining.map (fun slot => (slot.comptime, slot.binds)) =
    (params.drop count).map fun slot => (slot.comptime, slot.binds)
  undetermined : r.undetermined.Sublist vars
  determined : (r.determined.map (·.1)).Sublist vars
  divided : ∀ v ∈ vars, v ∈ r.undetermined ↔ v ∉ r.determined.map (·.1)
  /-- A supplied comptime position determines the variable that it supplies. -/
  dependent : ∀ slot ∈ params.take count, slot.comptime = true → ∀ v ∈ vars,
    slot.binds = some v → v ∈ r.determined.map (·.1)

namespace Matching

variable {vars : List VarId} {m : Matching} {v : VarId}

/-- The open variables are those that the innermost frame does not bind. -/
def Splits (vars : List VarId) (m : Matching) : Prop :=
  m.undetermined = vars.filter fun v => v ∉ m.context.innermost.map (·.1)

namespace Splits

theorem start (vars : List VarId) (ctx : Context) : Splits vars ⟨vars, ctx.child⟩ := by
  simp [Splits, Context.child]

theorem mem_iff (h : m.Splits vars) :
    v ∈ m.undetermined ↔ v ∈ vars ∧ v ∉ m.context.innermost.map (·.1) := by
  rw [h, List.mem_filter, decide_eq_true_eq]

theorem vacant (h : m.Splits vars) (hv : v ∈ m.undetermined) : m.context.Vacant v :=
  Frame.get?_eq_none.2 fun _ hb heq => (h.mem_iff.1 hv).2 (heq ▸ List.mem_map_of_mem hb)

theorem assign (h : m.Splits vars) (v : VarId) (t : TermId) : (m.assign v t).Splits vars := by
  change m.undetermined.filter (· ≠ v) =
    vars.filter fun w => w ∉ v :: m.context.innermost.map (·.1)
  rw [h, List.filter_filter]
  refine List.filter_congr fun w _ => ?_
  simp only [List.mem_cons, not_or, ne_eq, Bool.decide_and]

/-- A variable that is no longer open has a value. -/
theorem get?_isSome (h : m.Splits vars) (hv : v ∈ vars) (hclosed : v ∉ m.undetermined) :
    (m.context.get? v).isSome = true := by
  have hbound : m.context.innermost.get? v ≠ none := fun hnone =>
    hclosed (h.mem_iff.2 ⟨hv, fun hmem => by
      obtain ⟨b, hb, rfl⟩ := List.mem_map.1 hmem
      exact Frame.get?_eq_none.1 hnone b hb rfl⟩)
  obtain ⟨value, hvalue⟩ := Option.ne_none_iff_exists'.1 hbound
  simp [Context.get?, Context.frames, hvalue]

/-- The determined variables with their values, as resolution lists them. -/
theorem map_determined (h : m.Splits vars) :
    ((vars.filter (· ∉ m.undetermined)).filterMap fun v =>
        (m.context.get? v).map fun value => (v, value)).map (·.1) =
      vars.filter (· ∉ m.undetermined) := by
  rw [List.map_filterMap]
  refine (List.filterMap_congr fun v hv => ?_).trans (List.filterMap_some ..)
  obtain ⟨hv, hclosed⟩ := List.mem_filter.1 hv
  obtain ⟨value, hvalue⟩ := Option.isSome_iff_exists.1 (h.get?_isSome hv (by simpa using hclosed))
  rw [hvalue]
  rfl

end Splits

/-- The variables stay divided, and none becomes open again. -/
def Closing (vars stillOpen : List VarId) (m : Matching) : Prop :=
  m.Splits vars ∧ m.undetermined ⊆ stillOpen

theorem closing_invariant (s : Store) (vars stillOpen : List VarId) :
    Match.Invariant s (fun _ => True) (Closing vars stillOpen) where
  parts _ _ := trivial
  vacant hm hv := hm.1.vacant hv
  assign hm _ _ := ⟨hm.1.assign _ _, fun _ hw => hm.2 (List.mem_of_mem_filter hw)⟩

end Matching

/-! ## Relabelled failures -/

namespace Attempt

variable {α β : Type} {reason : Error} {s : Store} {post : α → Prop} {post' : β → Prop}

/-- The outcome with another reason for binding a variable twice. -/
def relabel (reason : Error) : Except Error α → Except Error α
  | .error (.alreadyBound _) => .error reason
  | answer => answer

/-- A computation that gives this reason where it fails because a variable is bound already. -/
def blaming (reason : Error) (c : Attempt α) : Attempt α := ExceptT.mk (relabel reason <$> c.run)

theorem run_blaming (c : Attempt α) (s : Store) :
    (c.blaming reason).run s = (relabel reason (c.run s).1, (c.run s).2) := rfl

theorem relabel_of_ne {answer : Except Error α} (h : ∀ name, answer ≠ .error (.alreadyBound name)) :
    relabel reason answer = answer := by
  unfold relabel
  split
  · exact absurd rfl (h _)
  · rfl

theorem blaming_bind (c : Attempt α) (f : α → Attempt β) :
    ((c >>= f).blaming reason).run s = (c.blaming reason >>= fun a => (f a).blaming reason).run s := by
  rw [run_blaming, run_bind, run_bind, run_blaming]
  rcases c.run s with ⟨e | a, s'⟩
  · cases e <;> rfl
  · rfl

/-- The first computation is the second one with relabelled failures, and the results satisfy a
condition. -/
structure Blames (reason : Error) (post : α → Prop) (c' c : Attempt α) (s : Store) : Prop where
  run_eq : c'.run s = (c.blaming reason).run s
  result : ∀ {a s'}, c.run s = (.ok a, s') → post a

namespace Blames

variable {c c' : Attempt α} {f f' : α → Attempt β}

theorem bind (hc : Blames reason post c' c s)
    (hf : ∀ a s₁, c.run s = (.ok a, s₁) → post a → Blames reason post' (f' a) (f a) s₁) :
    Blames reason post' (c' >>= f') (c >>= f) s := by
  constructor
  · rw [blaming_bind, run_bind, run_bind, hc.run_eq, run_blaming]
    rcases hrun : c.run s with ⟨e | a, s₁⟩
    · cases e <;> rfl
    · exact (hf a s₁ hrun (hc.result hrun)).run_eq
  · intro b s' hrun
    obtain ⟨a, s₁, hfirst, hrest⟩ := run_bind_ok hrun
    exact (hf a s₁ hfirst (hc.result hfirst)).result hrest

theorem imp {post₁ : α → Prop} (hc : Blames reason post c' c s) (h : ∀ a, post a → post₁ a) :
    Blames reason post₁ c' c s :=
  ⟨hc.run_eq, fun hrun => h _ (hc.result hrun)⟩

/-- A computation that does not come to bind a variable twice needs no relabelling. -/
theorem own (h : ∀ name, (c.run s).1 ≠ .error (.alreadyBound name))
    (hpost : ∀ a s', c.run s = (.ok a, s') → post a) : Blames reason post c c s :=
  ⟨Prod.ext (relabel_of_ne h).symm rfl, hpost _ _⟩

theorem pure {a : α} (h : post a) : Blames reason post (Pure.pure a) (Pure.pure a) s :=
  .own (fun _ heq => by cases heq) fun _ _ heq => by cases heq; exact h

/-- The continuations of a failure do not matter. -/
theorem fails {e : Error} (h' : c'.run s = (.error e, s)) (h : c.run s = (.error e, s))
    (he : ∀ name, e ≠ .alreadyBound name) : Blames reason post c' c s := by
  constructor
  · rw [h', run_blaming, h, relabel_of_ne fun name heq => he name (Except.error.inj heq)]
  · intro a s₁ heq
    rw [h] at heq
    cases heq

/-- A step that only looks at the store. -/
theorem reads {a : α} (h : c.run s = (.ok a, s)) (hf : Blames reason post' (f' a) (f a) s) :
    Blames reason post' (c >>= f') (c >>= f) s := by
  have hread : Blames reason (· = a) c c s := by
    refine .own (fun name heq => ?_) fun b s' heq => ?_
    · rw [h] at heq
      cases heq
    · rw [h] at heq
      cases heq
      rfl
  refine hread.bind ?_
  rintro b s₁ hrun rfl
  rw [h] at hrun
  cases hrun
  exact hf

theorem asked (c : Attempt α) : Blames reason (fun _ => True) (c.blaming reason) c s :=
  ⟨rfl, fun _ => trivial⟩

end Blames

end Attempt

namespace Engine

open Attempt

/-- The engine whose judgments have relabelled failures. -/
def blaming (reason : Error) (e : Engine) : Engine :=
  ⟨e.levels, fun ctx t => (e.infer ctx t).blaming reason,
    fun mode ctx t => (e.reduce mode ctx t).blaming reason⟩

variable {e : Engine} {reason : Error} {s : Store} {ctx : Context} {vars : List VarId}

/-! ## The parts of resolution -/

/-- Distinct variables are bound in a frame of their own. -/
theorem blames_bindQuantified (hdistinct : vars.Nodup) :
    Blames reason (fun _ => True) (bindQuantified ctx.child vars) (bindQuantified ctx.child vars)
      s := by
  suffices hall : ∀ ctx : Context, (∀ v ∈ vars, ctx.Vacant v) →
      Blames reason (fun _ => True) (bindQuantified ctx vars) (bindQuantified ctx vars) s from
    hall ctx.child fun v _ => ctx.vacant_child v
  induction vars with
  | nil => exact fun _ _ => .pure trivial
  | cons v rest ih =>
    intro ctx hvacant
    obtain ⟨hnew, hrest⟩ := List.nodup_cons.1 hdistinct
    obtain ⟨hfirst, hvacant⟩ := List.forall_mem_cons.1 hvacant
    refine .reads (run_bind_vacant hfirst _) (ih hrest _ fun w hw => (hvacant w hw).cons ?_ _)
    rintro rfl
    exact hnew hw

theorem blames_knownAtCompileTime (value : TermId) :
    Blames reason (fun _ => True) (knownAtCompileTime ctx value) (knownAtCompileTime ctx value)
      s := by
  refine .reads rfl ?_
  split
  · exact .pure trivial
  · refine .reads rfl ?_
    split
    · split
      · refine .reads rfl ?_
        split <;> exact .pure trivial
      · exact .pure trivial
    · exact .pure trivial

/-- A comptime position closes the variable that it supplies. -/
theorem blames_supplyComptime {m : Matching} (hm : m.Splits vars) (index : Nat) (arg : TermId)
    (slot : Slot TermId) :
    Blames reason (fun m' => m'.Closing vars m.undetermined ∧
        ∀ v, slot.binds = some v → v ∉ m'.undetermined)
      ((e.blaming reason).supplyComptime ctx m index arg slot)
      (e.supplyComptime ctx m index arg slot) s := by
  have hsame : m.Closing vars m.undetermined := ⟨hm, fun _ hv => hv⟩
  refine .bind (.asked _) fun value s₁ _ _ => ?_
  refine .bind (blames_knownAtCompileTime value) fun known s₂ _ _ => ?_
  cases known with
  | false => exact .fails rfl rfl fun _ h => by cases h
  | true =>
    simp only [Bool.not_true, Bool.false_eq_true, if_false]
    split
    · rename_i v hbinds
      split
      · rename_i hv
        refine .reads (run_bind_vacant (hm.vacant hv) value) (.pure ⟨?_, ?_⟩)
        · exact (Matching.closing_invariant s₂ vars m.undetermined).assign hsame hv trivial
        · rintro w hw hmem
          cases hbinds.symm.trans hw
          simpa using List.of_mem_filter hmem
      · rename_i hv
        refine .pure ⟨hsame, fun w hw hmem => hv ?_⟩
        cases hbinds.symm.trans hw
        exact hmem
    · rename_i hbinds
      exact .pure ⟨hsame, fun w hw => by rw [hbinds] at hw; cases hw⟩

theorem blames_unify {m : Matching} {stillOpen : List VarId} (hm : m.Closing vars stillOpen)
    (expected arg : TermId) :
    Blames reason (fun m' => m'.Closing vars stillOpen) (e.unify m expected arg)
      (e.unify m expected arg) s := by
  refine .reads rfl ?_
  have hkeeps : Match.Preserves (·.Closing vars stillOpen) (s.unify e.levels expected arg) :=
    (Matching.closing_invariant s vars stillOpen).keeps_unify e.levels expected trivial
  obtain ⟨hm', herror⟩ := hkeeps m hm
  generalize (s.unify e.levels expected arg).run m = r at hm' herror ⊢
  obtain ⟨err | u, m'⟩ := r
  · exact .fails rfl rfl fun name heq => herror name (congrArg Except.error heq)
  · exact .pure hm'

/-- One argument closes no variable but those that it determines, and the one that a comptime
position supplies. -/
theorem blames_supply {m : Matching} (hm : m.Splits vars) (index : Nat) (arg : TermId)
    (slot : Slot TermId) :
    Blames reason (fun r => r.1.Closing vars m.undetermined ∧
        (slot.comptime = true → ∀ v, slot.binds = some v → v ∉ r.1.undetermined))
      ((e.blaming reason).supply ctx m index arg slot) (e.supply ctx m index arg slot) s := by
  -- Whether or not the position is comptime, the rest closes more variables.
  have hrest : ∀ (m₁ : Matching) s₁, m₁.Closing vars m.undetermined →
      Blames reason (fun r => r.1.Closing vars m.undetermined ∧ r.1.undetermined ⊆ m₁.undetermined)
        (do
          let argType ← (e.blaming reason).infer ctx arg
          let expected ← (e.blaming reason).compile m₁.context slot.ty
          let m ← (e.blaming reason).unify m₁ expected argType
          return (m, ← (e.blaming reason).compile m.context slot.ty))
        (do
          let argType ← e.infer ctx arg
          let expected ← e.compile m₁.context slot.ty
          let m ← e.unify m₁ expected argType
          return (m, ← e.compile m.context slot.ty)) s₁ := by
    intro m₁ s₁ hm₁
    refine .bind (.asked _) fun argType s₂ _ _ => .bind (.asked _) fun expected s₃ _ _ => ?_
    refine .bind (blames_unify ⟨hm₁.1, fun _ hv => hv⟩ expected argType) fun m₂ s₄ _ hm₂ => ?_
    refine .bind (.asked _) fun ty s₅ _ _ => .pure ⟨⟨hm₂.1, fun v hv => ?_⟩, hm₂.2⟩
    exact hm₁.2 (hm₂.2 hv)
  unfold supply
  dsimp only
  split
  · refine .bind (blames_supplyComptime hm index arg slot) fun m₁ s₁ _ hm₁ => ?_
    refine (hrest m₁ s₁ hm₁.1).imp fun r hr => ⟨hr.1, fun _ v hv hmem => ?_⟩
    exact hm₁.2 v hv (hr.2 hmem)
  · rename_i hruntime
    have hsame : Blames reason (· = m) (pure m) (pure m) s := .pure rfl
    refine hsame.bind ?_
    rintro m s₁ - rfl
    exact (hrest m s₁ ⟨hm, fun _ hv => hv⟩).imp fun r hr =>
      ⟨hr.1, fun hcomptime => absurd hcomptime hruntime⟩

/-- The loop over the arguments keeps the variables divided. -/
theorem blames_supplyAll {m : Matching} (hm : m.Splits vars) (index : Nat)
    (args : List (TermId × Slot TermId)) :
    Blames reason (fun r => r.1.Closing vars m.undetermined ∧ r.2.length = args.length ∧
        ∀ p ∈ args, p.2.comptime = true → ∀ v, p.2.binds = some v → v ∉ r.1.undetermined)
      ((e.blaming reason).supplyAll ctx m index args) (e.supplyAll ctx m index args) s := by
  induction args generalizing s m index with
  | nil => exact .pure ⟨⟨hm, fun _ hv => hv⟩, rfl, List.forall_mem_nil _⟩
  | cons p rest ih =>
    refine .bind (blames_supply hm index p.1 p.2) fun r s₁ _ hr => ?_
    refine .bind (ih hr.1.1 (index + 1)) fun q s₂ _ hq => .pure ⟨⟨hq.1.1, fun v hv => ?_⟩, ?_, ?_⟩
    · exact hr.1.2 (hq.1.2 hv)
    · simp [hq.2.1]
    · refine List.forall_mem_cons.2 ⟨fun hcomptime v hv hmem => ?_, hq.2.2⟩
      exact hr.2 hcomptime v hv (hq.1.2 hmem)

/-- The positions that remain get other types and keep the rest. -/
theorem blames_compileSlots (slots : List (Slot TermId)) :
    Blames reason (fun slots' => slots'.map (fun slot => (slot.comptime, slot.binds)) =
        slots.map fun slot => (slot.comptime, slot.binds))
      ((e.blaming reason).compileSlots ctx slots) (e.compileSlots ctx slots) s := by
  induction slots generalizing s with
  | nil => exact .pure rfl
  | cons slot rest ih =>
    refine .bind (.asked _) fun ty s₁ _ _ => .bind ih fun rest' s₂ _ hrest => .pure ?_
    simp [hrest]

/-! ## Resolution -/

theorem blames_resolve {callee ty result : TermId} {args : List TermId}
    {params : List (Slot TermId)} {s₁ : Store} (hinfer : (e.infer ctx callee).run s = (.ok ty, s₁))
    (hparts : (functionParts ty).run s₁ = (.ok (vars, params, result), s₁))
    (hdistinct : vars.Nodup) :
    Blames reason (fun r => r.Partitions vars params args.length)
      ((e.blaming reason).resolve ctx callee args) (e.resolve ctx callee args) s := by
  refine .bind (.asked _) fun ty' s' hrun _ => ?_
  cases hinfer.symm.trans hrun
  refine .reads hparts ?_
  dsimp only
  split
  · exact .fails rfl rfl fun _ h => by cases h
  rename_i henough
  refine .bind (blames_bindQuantified hdistinct) fun quantified s₂ _ _ => ?_
  refine .bind (blames_supplyAll (.start vars quantified) 0 _) fun r s₃ _ hr => ?_
  obtain ⟨⟨hm, hopen⟩, hlength, hdependent⟩ := hr
  refine .bind (blames_compileSlots _) fun remaining s₄ _ hremaining => ?_
  refine .bind (.asked _) fun result s₅ _ _ => .pure ?_
  -- What the loop left open is all that is left open, so the determined variables are the rest.
  have hle : args.length ≤ params.length := Nat.le_of_not_lt henough
  have hdetermined := hm.map_determined
  refine ⟨hle, by simpa [hle] using hlength, hremaining, ?_, ?_, fun v hv => ?_, ?_⟩
  · exact hm ▸ List.filter_sublist
  · rw [hdetermined]
    exact List.filter_sublist
  · rw [hdetermined]
    simp [hv]
  · intro slot hslot hcomptime v hv hbinds
    have htake : (args.zip params).map (·.2) = params.take args.length := by
      rw [List.zip_eq_zip_take_min, Nat.min_eq_left hle, List.take_length,
        List.map_snd_zip (by simp)]
    rw [← htake] at hslot
    obtain ⟨p, hp, rfl⟩ := List.mem_map.1 hslot
    rw [hdetermined, List.mem_filter, decide_eq_true_eq]
    exact ⟨hv, hdependent p hp hcomptime v hbinds⟩

/-- The parts of a function type, alone or under one quantifier. -/
theorem run_functionParts {ty function result : TermId} {params : List (Slot TermId)}
    (htype : s.shape ty = .forAll vars function ∨ vars = [] ∧ function = ty)
    (hfunction : s.shape function = .functionType params result) :
    (functionParts ty).run s = (.ok (vars, params, result), s) := by
  have hshape : ∀ t, (Attempt.shape t).run s = (.ok (s.shape t), s) := fun _ => rfl
  have hpure : ∀ {α : Type} (a : α), (pure a : Attempt α).run s = (.ok a, s) := fun _ => rfl
  unfold functionParts
  rw [run_bind, hshape]
  rcases htype with htype | ⟨rfl, rfl⟩
  · simp only [htype, hfunction, run_bind, hshape, hpure]
  · simp only [hfunction, run_bind, hshape, hpure]

end Engine

namespace Attempt

open Engine

theorem run_engine (s : Store) : engine.run s = (.ok (ofLevels s.config.maxDepth), s) := rfl

theorem run_infer (ctx : Context) (t : TermId) (s : Store) :
    (infer ctx t).run s = ((ofLevels s.config.maxDepth).infer ctx t).run s := by
  rw [infer, run_bind, run_engine]

theorem run_resolve (ctx : Context) (callee : TermId) (args : List TermId) (s : Store) :
    (resolve ctx callee args).run s =
      ((ofLevels s.config.maxDepth).resolve ctx callee args).run s := by
  rw [resolve, run_bind, run_engine]

/-- If the type of a callee is a function type, alone or under one quantifier over distinct
variables, then a resolution divides the variables and the positions. However it ends, it does not
fail because it binds a variable twice itself: with other reasons for the failures of the judgments
that it calls, it is the same computation, and has those other reasons for all its failures. -/
theorem resolve_partitions {s s₁ : Store} {ctx : Context} {callee ty function result : TermId}
    {args : List TermId} {vars : List VarId} {params : List (Slot TermId)}
    (hinfer : (infer ctx callee).run s = (.ok ty, s₁))
    (htype : s₁.shape ty = .forAll vars function ∨ vars = [] ∧ function = ty)
    (hfunction : s₁.shape function = .functionType params result) (hdistinct : vars.Nodup) :
    (∀ r s', (resolve ctx callee args).run s = (.ok r, s') →
        r.Partitions vars params args.length) ∧
      ∀ reason, (((ofLevels s.config.maxDepth).blaming reason).resolve ctx callee args).run s =
        ((resolve ctx callee args).blaming reason).run s := by
  have hblames : ∀ reason, Blames reason (fun r => r.Partitions vars params args.length)
      (((ofLevels s.config.maxDepth).blaming reason).resolve ctx callee args)
      ((ofLevels s.config.maxDepth).resolve ctx callee args) s := fun reason =>
    blames_resolve (run_infer ctx callee s ▸ hinfer) (run_functionParts htype hfunction) hdistinct
  simp only [run_blaming, run_resolve]
  exact ⟨fun r s' hrun => (hblames (.arityMismatch 0 0)).result hrun,
    fun reason => (hblames reason).run_eq⟩

end Attempt

namespace Sample

open Build

/-- `fn(comptime T: Type, x: T) => x`. -/
def dependentIdentity : Build TermId := do
  let ty ← freshVariable true (some "T")
  let x ← freshVariable false (some "x")
  let tyTerm ← variableTerm ty
  let xTerm ← variableTerm x
  abstraction [] [(ty, Store.typeOfTypes), (x, tyTerm)] xTerm

seal Store.intern Store.initial in
/-- The function in a new store. -/
def dependentFunction : Store.Setup TermId := dependentIdentity.setup <| by
  repeat' apply Store.Built.add
  · exact fun _ : True => .freshVariable _ _ (.freshVariable _ _ (.initial {}))
  · decide +kernel

end Sample

namespace Attempt

open Sample

/-- One argument determines `T` and leaves the position of `x`. -/
theorem resolve_partitions_dependentIdentity :
    ∃ s : Store, s.Built ∧ ∃ callee t params r s', s.variableName t = "T" ∧
      s.display callee = "fn(comptime T: Type, x: T) => x" ∧
      (resolve .root callee [Store.unitType]).run s = (.ok r, s') ∧
      r.Partitions [t] params 1 ∧ params.length = 2 ∧ r.determined = [(t, Store.unitType)] := by
  have hbuilt := dependentFunction.built
  have hchecks : ∃ callee t ty function result params r,
      dependentFunction.store.variableName t = "T" ∧
      dependentFunction.store.display callee = "fn(comptime T: Type, x: T) => x" ∧
      ((infer .root callee).run dependentFunction.store).1 = .ok ty ∧
      ((infer .root callee).run dependentFunction.store).2.shape ty = .forAll [t] function ∧
      ((infer .root callee).run dependentFunction.store).2.shape function =
        .functionType params result ∧ params.length = 2 ∧
      ((resolve .root callee [Store.unitType]).run dependentFunction.store).1 = .ok r ∧
      r.determined = [(t, Store.unitType)] :=
    ⟨dependentFunction.value, ⟨6⟩, ⟨29⟩, ⟨28⟩, ⟨23⟩,
      [⟨Store.typeOfTypes, true, some ⟨6⟩⟩, ⟨⟨23⟩, false, none⟩],
      ⟨[Store.typeOfTypes], [], [(⟨6⟩, Store.unitType)], [⟨Store.unitType, false, none⟩],
        Store.unitType⟩, by decide +kernel⟩
  generalize dependentFunction.store = s at hbuilt hchecks
  obtain ⟨callee, t, ty, function, result, params, r, hname, htext, hty, htype, hfunction, hlength,
    hok, hdetermined⟩ := hchecks
  have hinfer : (infer .root callee).run s = (.ok ty, ((infer .root callee).run s).2) :=
    Prod.ext hty rfl
  have hrun : (resolve .root callee [Store.unitType]).run s =
      (.ok r, ((resolve .root callee [Store.unitType]).run s).2) := Prod.ext hok rfl
  have hpartitions := (resolve_partitions hinfer (.inl htype) hfunction
    (List.pairwise_singleton _ t)).1 r _ hrun
  exact ⟨s, hbuilt, callee, t, params, r, _, hname, htext, hrun, hpartitions, hlength, hdetermined⟩

end Attempt

end StagedCalculus
