import StagedCalculus.Proofs.Staging.Built
import StagedCalculus.Proofs.Staging.ReplayReduce
import StagedCalculus.Proofs.Staging.Silence

/-!
# The depth limit

Each judgment calls the others one level further down, and fails when no level is left. This module
proves that the limit is nothing but a guard:

* a call that does not lack depth ends with the same result under every greater limit, and leaves
  the same store behind;
* a call leaves the limit alone, so the next call at its depth has as many levels;
* a call that lacks depth reports the limit that was set;
* a lack of depth is not remembered.
-/

namespace StagedCalculus

namespace Store

/-- The store under another depth limit. -/
def withLimit (s : Store) (limit : Nat) : Store :=
  { s with config := { s.config with maxDepth := limit } }

/-- No remembered answer is a lack of depth. -/
def RemembersNoDepth (s : Store) : Prop :=
  ∀ t restriction limit, s.types.get? t restriction ≠ some (.error (.depthExceeded limit))

/-- A native that lacks depth passes on the failure of a question, and makes up none. -/
def PropagatesDepth (s : Store) : Prop :=
  ∀ id registered, s.native? id = some registered →
    registered.native.FailsWith fun e => ∀ limit, e ≠ .depthExceeded limit

variable {s : Store}

theorem remembersNoDepth_of_untouched {config : Config} (h : (empty config).Untouched s) :
    s.RemembersNoDepth := by
  intro t restriction limit hget
  rw [h.types] at hget
  exact nomatch (TypeCache.get?_empty t restriction).symm.trans hget

theorem propagatesDepth_of_builtins
    (h : s.nativeFunctions = [Native.cast, Native.project, Native.cimport, Native.printf]) :
    s.PropagatesDepth := by
  intro id registered hid
  refine Native.failsWith_builtin (fun name message => nofun) ?_
  rw [← h]
  exact mem_nativeFunctions hid

end Store

namespace Attempt

variable {α : Type} {s : Store} {depth : Nat}

/-- A call made at some depth: the levels above it are in use. -/
def atDepth (depth : Nat) (call : Engine → Attempt α) : Attempt α := do
  call (.ofLevels ((← get).config.maxDepth - depth))

/-! At depth 0 the judgments are called from outside. -/

theorem infer_eq_atDepth (ctx : Context) (t : TermId) :
    infer ctx t = atDepth 0 fun e => e.infer ctx t := rfl

theorem reduce_eq_atDepth (mode : Mode) (ctx : Context) (t : TermId) :
    reduce mode ctx t = atDepth 0 fun e => e.reduce mode ctx t := rfl

theorem resolve_eq_atDepth (ctx : Context) (callee : TermId) (args : List TermId) :
    resolve ctx callee args = atDepth 0 fun e => e.resolve ctx callee args := rfl

/-- The depth limit guards a computation and does nothing else to it. -/
structure Guarded (c : Attempt α) (s : Store) : Prop where
  /-- A greater limit gives the same result and the same store. -/
  deeper : ∀ more, s.config.maxDepth ≤ more →
    (∀ limit, (c.run s).1 ≠ .error (.depthExceeded limit)) →
    c.run (s.withLimit more) = ((c.run s).1, (c.run s).2.withLimit more)
  /-- The limit, and with it the number of levels of the next call, is the same afterwards. -/
  restores : (c.run s).2.config = s.config
  reports : s.PropagatesDepth → ∀ limit, (c.run s).1 = .error (.depthExceeded limit) →
    limit = s.config.maxDepth
  forgets : (c.run s).2.RemembersNoDepth

end Attempt

/-! ## Raising the limit -/

namespace Replay

open Attempt

/-- The replay under a greater limit. If natives make up no lack of depth, then neither do the
judgments. -/
def deeper (limit more : Nat) (propagates : Prop) : Replay where
  config c := { c with maxDepth := more }
  excused e := ∃ limit, e = .depthExceeded limit
  allowed e := propagates → ∀ found, e = .depthExceeded found → found = limit
  inv s := s.config.maxDepth = limit ∧ s.RemembersNoDepth ∧ (propagates → s.PropagatesDepth)

variable {limit more : Nat} {propagates : Prop} {s s' : Store}

/-- What a step keeps that changes neither the settings nor the natives nor the memory. -/
theorem inv_deeper_of_eq (h : (deeper limit more propagates).inv s) (hconfig : s'.config = s.config)
    (htypes : s'.types = s.types) (hnatives : s'.natives = s.natives) :
    (deeper limit more propagates).inv s' := by
  obtain ⟨hlimit, hmemory, hpropagates⟩ := h
  refine ⟨?_, ?_, fun hp id registered hid => hpropagates hp id registered ?_⟩
  · rw [hconfig]
    exact hlimit
  · intro t restriction found
    rw [htypes]
    exact hmemory t restriction found
  · rw [Store.native?, hnatives] at hid
    exact hid

theorem lawful_deeper : (deeper limit more propagates).Lawful where
  intern shape hs := inv_deeper_of_eq hs (Store.config_intern _ shape) (Store.types_intern _ shape)
    (Store.natives_intern _ shape)
  freshVariable _ _ hs := inv_deeper_of_eq hs rfl rfl rfl
  withOutput _ hs := inv_deeper_of_eq hs rfl rfl rfl
  remember t restriction answer hs hanswer := by
    obtain ⟨hlimit, hmemory, hpropagates⟩ := hs
    refine ⟨hlimit, fun t' restriction' found hget => ?_, hpropagates⟩
    rcases TypeCache.get?_insert_cases hget with heq | hbefore
    · exact hanswer found heq.symm
    · exact hmemory t' restriction' found hbefore
  remembered hs hget _ found he := by
    subst he
    exact absurd hget (hs.2.1 _ _ found)
  natives {s id registered} hs hid := by
    obtain ⟨-, -, hpropagates⟩ := hs
    by_cases hp : propagates
    · exact (hpropagates hp id registered hid).mono fun e he _ found heq => absurd heq (he found)
    · exact Native.failsWith_of_forall (fun e hpropagates => absurd hpropagates hp) _
  ordinary he _ found heq := absurd heq (he found)
  limit hs _ found heq := by
    cases heq
    exact hs.1
  depth limit := ⟨limit, rfl⟩

/-- A call that is replayed under every greater limit is guarded. -/
theorem guarded_of_follows {α : Type} {depth : Nat} {call : Engine → Attempt α}
    (hmemory : s.RemembersNoDepth)
    (h : ∀ more, s.config.maxDepth ≤ more →
      (deeper s.config.maxDepth more s.PropagatesDepth).Follows Any
        (call (.ofLevels (s.config.maxDepth - depth))) (call (.ofLevels (more - depth))) s) :
    Guarded (atDepth depth call) s := by
  have hinv : ∀ more, (deeper s.config.maxDepth more s.PropagatesDepth).inv s :=
    fun more => ⟨rfl, hmemory, id⟩
  have hends : ∀ more, s.config.maxDepth ≤ more →
      (deeper s.config.maxDepth more s.PropagatesDepth).Ends Any s ((atDepth depth call).run s)
        ((atDepth depth call).run (s.withLimit more)) :=
    fun more hmore => h more hmore (hinv more)
  -- All but the comparison with a greater limit is read off the replay under the same one.
  have hsame := hends s.config.maxDepth (Nat.le_refl _)
  refine ⟨fun more hmore hdepth => ?_, hsame.step.config, fun hpropagates limit hlimit => ?_,
    hsame.step.inv.2.1⟩
  · refine (hends more hmore).same fun e he hexcused => ?_
    obtain ⟨limit, rfl⟩ := hexcused
    exact hdepth limit he
  · exact hsame.allowed hlimit hpropagates limit rfl

end Replay

namespace Sample

open Store

/-- The store with the call `printf("A")` under a given depth limit. -/
def plainCallUnder (limit : Nat) : Store := (plainCall.run (.initial { maxDepth := limit })).2

seal Store.intern Store.initial in
theorem untouched_plainCallUnder (limit : Nat) :
    (empty { maxDepth := limit }).Untouched (plainCallUnder limit) :=
  (((untouched_initial _).trans (untouched_intern _ _)).trans (untouched_intern _ _)).trans
    (untouched_intern _ _)

seal Store.intern Store.initial in
theorem nativeFunctions_plainCallUnder (limit : Nat) : (plainCallUnder limit).nativeFunctions =
    [Native.cast, Native.project, Native.cimport, Native.printf] := by
  refine (nativeFunctions_intern _ _).trans ((nativeFunctions_intern _ _).trans ?_)
  exact (nativeFunctions_intern _ _).trans (nativeFunctions_initial _)

end Sample

namespace Attempt

open Sample

variable {s : Store}

/-- The depth limit guards every call, at every depth: inference, reduction in both modes,
resolution, and matching, which comes to the same bindings even if it fails. -/
theorem judgments_guarded (h : s.RemembersNoDepth) (depth : Nat) :
    (∀ ctx t, Guarded (atDepth depth fun e => e.infer ctx t) s) ∧
    (∀ mode ctx t, Guarded (atDepth depth fun e => e.reduce mode ctx t) s) ∧
    (∀ ctx callee args, Guarded (atDepth depth fun e => e.resolve ctx callee args) s) ∧
    (∀ m expected arg, Guarded (atDepth depth fun e => e.unify m expected arg) s) ∧
    ∀ (m : Matching) expected arg more, s.config.maxDepth ≤ more →
      (∀ limit, ((s.unify (s.config.maxDepth - depth) expected arg).run m).1 ≠
        .error (.depthExceeded limit)) →
      ((s.withLimit more).unify (more - depth) expected arg).run m =
        (s.unify (s.config.maxDepth - depth) expected arg).run m := by
  have hlevels : ∀ {more}, s.config.maxDepth ≤ more → s.config.maxDepth - depth ≤ more - depth :=
    fun hmore => Nat.sub_le_sub_right hmore depth
  have hengines : ∀ {more}, s.config.maxDepth ≤ more →
      (Replay.deeper s.config.maxDepth more s.PropagatesDepth).Engines
        (.ofLevels (s.config.maxDepth - depth)) (.ofLevels (more - depth)) :=
    fun hmore => Replay.engines_ofLevels Replay.lawful_deeper (hlevels hmore)
  refine ⟨fun ctx t => ?_, fun mode ctx t => ?_, fun ctx callee args => ?_,
    fun m expected arg => ?_, fun m expected arg more hmore hdepth => ?_⟩
  · exact Replay.guarded_of_follows h fun more hmore => (hengines hmore).infer ctx t s
  · exact Replay.guarded_of_follows h fun more hmore => (hengines hmore).reduce mode ctx t s
  · exact Replay.guarded_of_follows h fun more hmore =>
      Replay.follows_resolve Replay.lawful_deeper (hengines hmore) ctx callee args
  · exact Replay.guarded_of_follows h fun more hmore =>
      Replay.follows_unify Replay.lawful_deeper (hengines hmore) m expected arg
  · have hsettles := Replay.settles_unify (Replay.deeper s.config.maxDepth more True) s
      (hlevels hmore) expected arg m
    rcases hsettles with hlacks | ⟨hsame, -⟩
    · exact absurd hlacks (hdepth _)
    · exact hsame

seal plainCallUnder in
/-- With two levels a call of `printf` is evaluated, so it is evaluated alike with many. -/
theorem judgments_guarded_plainCall :
    (plainCallUnder 2).RemembersNoDepth ∧ (plainCallUnder 2).PropagatesDepth ∧
      Guarded (evaluate .root ⟨24⟩) (plainCallUnder 2) ∧
      ((evaluate .root ⟨24⟩).run (plainCallUnder 2)).1 = .ok ⟨26⟩ ∧
      ((evaluate .root ⟨24⟩).run ((plainCallUnder 2).withLimit 512)).1 = .ok ⟨26⟩ := by
  have hmemory := Store.remembersNoDepth_of_untouched (untouched_plainCallUnder 2)
  have hguarded : Guarded (evaluate .root ⟨24⟩) (plainCallUnder 2) :=
    (judgments_guarded hmemory 0).2.1 .evaluate .root ⟨24⟩
  have hvalue : ((evaluate .root ⟨24⟩).run (plainCallUnder 2)).1 = .ok ⟨26⟩ := by
    decide +kernel
  have hlimit : (plainCallUnder 2).config.maxDepth ≤ 512 := by
    rw [(untouched_plainCallUnder 2).config]
    decide
  have hdeeper := hguarded.deeper 512 hlimit (by rw [hvalue]; exact fun _ => nofun)
  exact ⟨hmemory, Store.propagatesDepth_of_builtins (nativeFunctions_plainCallUnder 2), hguarded,
    hvalue, (congrArg Prod.fst hdeeper).trans hvalue⟩

end Attempt

end StagedCalculus
