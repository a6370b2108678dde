import StagedCalculus.Proofs.Native.Failures
import StagedCalculus.Proofs.Staging.Keeps
import StagedCalculus.Proofs.Store.Unfolding
import StagedCalculus.Staging.Engine

/-!
# A computation that replays another one

This module compares two computations that do the same, of which the first one may give up early. The
second one runs on the same store, but for its settings.

* `Replay`: the settings of the second store, the failures of the first computation that say nothing
  about the second one, and what holds of the first store at every step;
* `Replay.Follows`: unless the first computation gives up, the second one ends with the same result
  and leaves the same store behind.

The rules follow the constructs that computations are made of. Nothing is asked of terms or contexts,
so they hold on every store.
-/

namespace StagedCalculus

/-! ## Replays -/

/-- In which way a second computation follows a first one. -/
structure Replay where
  /-- The settings of the second store, given those of the first one. -/
  config : Config → Config
  /-- The failures of the first computation after which the second one may go on. -/
  excused : Error → Prop
  /-- The failures that the first computation may come to. -/
  allowed : Error → Prop
  /-- What holds of the first store at every step. -/
  inv : Store → Prop

namespace Replay

open Attempt

variable {F : Replay} {α β : Type} {s s₁ s₂ : Store}

/-- The store of the second computation. -/
def image (F : Replay) (s : Store) : Store := { s with config := F.config s.config }

/-- What every operation on a store has to respect. -/
structure Lawful (F : Replay) : Prop where
  intern : ∀ {s} (shape : Shape TermId), F.inv s → F.inv (s.intern shape).2
  freshVariable : ∀ {s} (comptime : Bool) (name : Option String), F.inv s →
    F.inv (s.freshVariable comptime name).2
  withOutput : ∀ {s} (output : Output), F.inv s → F.inv { s with output }
  remember : ∀ {s} (t : TermId) (restriction : Restriction) {answer : TypeAnswer}, F.inv s →
    (∀ limit, answer ≠ .error (.depthExceeded limit)) →
    F.inv { s with types := s.types.insert t restriction answer }
  remembered : ∀ {s t restriction e}, F.inv s →
    s.types.get? t restriction = some (.error e) → F.allowed e
  natives : ∀ {s id registered}, F.inv s → s.native? id = some registered →
    registered.native.FailsWith F.allowed
  ordinary : ∀ {e}, (∀ limit, e ≠ .depthExceeded limit) → F.allowed e
  limit : ∀ {s}, F.inv s → F.allowed (.depthExceeded s.config.maxDepth)
  depth : ∀ limit, F.excused (.depthExceeded limit)

/-- How a computation may change the first store. -/
structure Step (F : Replay) (s s' : Store) : Prop where
  later : s.Extends s'
  inv : F.inv s'
  config : s'.config = s.config

namespace Step

theorem refl (hs : F.inv s) : F.Step s s := ⟨.refl s, hs, rfl⟩

theorem trans (h : F.Step s s₁) (h' : F.Step s₁ s₂) : F.Step s s₂ :=
  ⟨h.later.trans h'.later, h'.inv, h'.config.trans h.config⟩

end Step

/-- How two runs may end. -/
inductive Ends (F : Replay) (post : α → Store → Prop) (s : Store) :
    Except Error α × Store → Except Error α × Store → Prop
  | excused {e : Error} {s₁ : Store} {r : Except Error α × Store} : F.Step s s₁ → F.allowed e →
      F.excused e → Ends F post s (.error e, s₁) r
  | fails {e : Error} {s₁ : Store} : F.Step s s₁ → F.allowed e →
      Ends F post s (.error e, s₁) (.error e, F.image s₁)
  | gives {a : α} {s₁ : Store} : F.Step s s₁ → post a s₁ →
      Ends F post s (.ok a, s₁) (.ok a, F.image s₁)

namespace Ends

variable {post : α → Store → Prop} {r r' : Except Error α × Store}

theorem step (h : F.Ends post s r r') : F.Step s r.2 := by
  cases h with
  | excused hstep => exact hstep
  | fails hstep => exact hstep
  | gives hstep => exact hstep

theorem allowed {e : Error} (h : F.Ends post s r r') (he : r.1 = .error e) : F.allowed e := by
  cases h with
  | excused _ hallowed =>
    cases he
    exact hallowed
  | fails _ hallowed =>
    cases he
    exact hallowed
  | gives => cases he

theorem holds {a : α} (h : F.Ends post s r r') (ha : r.1 = .ok a) : post a r.2 := by
  cases h with
  | excused => cases ha
  | fails => cases ha
  | gives _ hpost =>
    cases ha
    exact hpost

/-- Unless the first run gives up, both runs end alike. -/
theorem same (h : F.Ends post s r r') (he : ∀ e, r.1 = .error e → ¬ F.excused e) :
    r' = (r.1, F.image r.2) := by
  cases h with
  | excused _ _ hexcused => exact absurd hexcused (he _ rfl)
  | fails => rfl
  | gives => rfl

end Ends

/-- From this store on, the second computation follows the first one, whose result satisfies a
condition. -/
def Follows (F : Replay) (post : α → Store → Prop) (c c' : Attempt α) (s : Store) : Prop :=
  F.inv s → F.Ends post s (c.run s) (c'.run (F.image s))

/-- Any result. -/
abbrev Any : α → Store → Prop := fun _ _ => True

/-! ## The store of the second computation -/

section Image

theorem intern_image (F : Replay) (s : Store) (shape : Shape TermId) :
    (F.image s).intern shape = ((s.intern shape).1, F.image (s.intern shape).2) := by
  have hfind : (F.image s).find? shape = s.find? shape := rfl
  unfold Store.intern
  split
  · rfl
  · rw [hfind]
    cases s.find? shape <;> rfl

theorem line_image (F : Replay) (s : Store) : Shape.line (F.image s) = Shape.line s := by
  funext shape
  cases shape <;> rfl

theorem display_image (F : Replay) (s : Store) : (F.image s).display = s.display := by
  have hentries : (F.image s).entries = s.entries := rfl
  funext t
  unfold Store.display
  rw [line_image]
  exact Store.fold_congr hentries _ _ t

theorem write_image (F : Replay) (s : Store) (text : String) :
    (F.image s).write text = ((s.write text).1, F.image (s.write text).2) := by
  have houtput : (F.image s).output = s.output := rfl
  unfold Store.write
  rw [houtput]
  split <;> rfl

theorem builtin_image (F : Replay) (s : Store) (name : String) :
    (F.image s).builtin name = ((s.builtin name).1, F.image (s.builtin name).2) := by
  have hfind : (F.image s).findNative? name = s.findNative? name := rfl
  unfold Store.builtin
  rw [hfind]
  cases s.findNative? name with
  | none => rfl
  | some id =>
    dsimp only
    rw [intern_image]

end Image

namespace Follows

variable {post : α → Store → Prop} {post' : β → Store → Prop} {c c' : Attempt α}
  {f f' : α → Attempt β}

/-! ## Rules -/

theorem pure {a : α} (h : post a s) : F.Follows post (Pure.pure a) (Pure.pure a) s :=
  fun hs => .gives (.refl hs) h

/-- Any result will do. -/
theorem done (a : α) : F.Follows Any (Pure.pure a) (Pure.pure a) s := pure trivial

theorem bind (hc : F.Follows post c c' s)
    (hf : ∀ a s₁, F.Step s s₁ → post a s₁ → F.Follows post' (f a) (f' a) s₁) :
    F.Follows post' (c >>= f) (c' >>= f') s := by
  intro hs
  have hends := hc hs
  rw [run_bind, run_bind]
  generalize c.run s = r, c'.run (F.image s) = r' at hends ⊢
  cases hends with
  | excused hstep hallowed hexcused => exact .excused hstep hallowed hexcused
  | fails hstep hallowed => exact .fails hstep hallowed
  | @gives a s₁ hstep hpost =>
    have hrest := hf a s₁ hstep hpost hstep.inv
    change F.Ends post' s ((f a).run s₁) ((f' a).run (F.image s₁))
    generalize (f a).run s₁ = r, (f' a).run (F.image s₁) = r' at hrest ⊢
    cases hrest with
    | excused hstep' hallowed hexcused => exact .excused (hstep.trans hstep') hallowed hexcused
    | fails hstep' hallowed => exact .fails (hstep.trans hstep') hallowed
    | gives hstep' hpost' => exact .gives (hstep.trans hstep') hpost'

/-- A first part of which nothing but the result matters. -/
theorem next (hc : F.Follows Any c c' s) (hf : ∀ a s, F.Follows post' (f a) (f' a) s) :
    F.Follows post' (c >>= f) (c' >>= f') s := bind hc fun a s₁ _ _ => hf a s₁

/-- Computations that leave the stores alone. -/
theorem reads {a : α} (h : c.run s = (.ok a, s)) (h' : c'.run (F.image s) = (.ok a, F.image s))
    (hf : F.Follows post' (f a) (f' a) s) : F.Follows post' (c >>= f) (c' >>= f') s := by
  intro hs
  rw [run_bind, run_bind, h, h']
  exact hf hs

theorem imp {post₁ : α → Store → Prop} (hc : F.Follows post c c' s)
    (h : ∀ a s₁, F.Step s s₁ → post a s₁ → post₁ a s₁) : F.Follows post₁ c c' s := by
  intro hs
  have hends := hc hs
  generalize c.run s = r, c'.run (F.image s) = r' at hends ⊢
  cases hends with
  | excused hstep hallowed hexcused => exact .excused hstep hallowed hexcused
  | fails hstep hallowed => exact .fails hstep hallowed
  | gives hstep hpost => exact .gives hstep (h _ _ hstep hpost)

/-- A computation that looks at the store first. -/
theorem withStore {f f' : Store → Attempt β} (hf : F.Follows post' (f s) (f' (F.image s)) s) :
    F.Follows post' (get >>= f) (get >>= f') s := hf

/-- The text of a term is the same on both sides. -/
theorem display {f f' : String → Attempt β} (t : TermId)
    (hf : F.Follows post' (f (s.display t)) (f' (s.display t)) s) :
    F.Follows post' (Attempt.display t >>= f) (Attempt.display t >>= f') s := by
  have hrun : ∀ s : Store, (Attempt.display t).run s = (.ok (s.display t), s) := fun _ => rfl
  refine reads (hrun s) ?_ hf
  rw [hrun, display_image]

/-- The condition may be taken to hold of the store. -/
theorem withInv (h : F.inv s → F.Follows post c c' s) : F.Follows post c c' s :=
  fun hs => h hs hs

section Laws

variable (hF : F.Lawful)

include hF

/-- A failure for another reason than the depth limit. -/
theorem throws {e : Error} (h : ∀ limit, e ≠ .depthExceeded limit) :
    F.Follows post (throw e) (throw e) s := fun hs => .fails (.refl hs) (hF.ordinary h)

/-- Computations that fail with a message and leave the stores alone. -/
theorem fails {e : Error} (h : c.run s = (.error e, s))
    (h' : c'.run (F.image s) = (.error e, F.image s)) (he : ∀ limit, e ≠ .depthExceeded limit) :
    F.Follows post c c' s := by
  intro hs
  rw [h, h']
  exact .fails (.refl hs) (hF.ordinary he)

theorem throwDepth : F.Follows post throwDepth c' s := fun hs =>
  .excused (.refl hs) (hF.limit hs) (hF.depth _)

theorem intern (shape : Shape TermId) :
    F.Follows Any (Build.intern shape) (Build.intern shape) s := by
  intro hs
  have hrun : ∀ s : Store, (Build.intern shape : Attempt _).run s =
      (.ok (s.intern shape).1, (s.intern shape).2) := fun _ => rfl
  rw [hrun, hrun, intern_image]
  exact .gives ⟨Store.extends_intern s shape, hF.intern shape hs, Store.config_intern s shape⟩
    trivial

theorem freshVariable (comptime : Bool) (name : Option String) :
    F.Follows Any (Build.freshVariable comptime name) (Build.freshVariable comptime name) s :=
  fun hs => .gives
    ⟨Store.extends_freshVariable s comptime name, hF.freshVariable comptime name hs, rfl⟩ trivial

theorem builtin (name : String) :
    F.Follows Any (Build.builtin name) (Build.builtin name) s := by
  intro hs
  have hrun : ∀ s : Store, (Build.builtin name : Attempt _).run s =
      (.ok (s.builtin name).1, (s.builtin name).2) := fun _ => rfl
  rw [hrun, hrun, builtin_image]
  refine .gives ?_ trivial
  unfold Store.builtin
  cases s.findNative? name with
  | none => exact .refl hs
  | some id =>
    exact ⟨Store.extends_intern s _, hF.intern _ hs, Store.config_intern s _⟩

theorem write (text : String) : F.Follows Any (Attempt.write text) (Attempt.write text) s := by
  intro hs
  change F.Ends Any s (s.write text) ((F.image s).write text)
  rw [write_image]
  -- Only the output changes, and a refusal by the output is no lack of depth.
  have hrefusal : ∀ e, (s.write text).1 = .error e → ∀ limit, e ≠ .depthExceeded limit := by
    intro e he limit
    unfold Store.write Output.write at he
    grind
  obtain ⟨output, houtput⟩ := Store.write_cases s text
  have hstep : F.Step s (s.write text).2 := by
    rw [houtput]
    exact ⟨.of_eq rfl rfl rfl, hF.withOutput output hs, rfl⟩
  generalize s.write text = r at hstep hrefusal ⊢
  obtain ⟨result, s₁⟩ := r
  cases result with
  | ok bytes => exact .gives hstep trivial
  | error e => exact .fails hstep (hF.ordinary (hrefusal e rfl))

theorem variableTerms (vars : List VarId) :
    F.Follows Any (Build.variableTerms vars) (Build.variableTerms vars) s := by
  induction vars generalizing s with
  | nil => exact .done []
  | cons v rest ih =>
    let rest' := fun t => (do return t :: (← Build.variableTerms rest) : Attempt _)
    change F.Follows Any (Build.variableTerm v >>= rest') (Build.variableTerm v >>= rest') s
    exact .next (intern hF _) fun t s => .next ih fun ts s => .done _

/-! ## Contexts -/

theorem bindContext (ctx : Context) (v : VarId) (t : TermId) :
    F.Follows Any (Attempt.bind ctx v t) (Attempt.bind ctx v t) s := by
  unfold Attempt.bind
  cases ctx.bind? v t with
  | some ctx => exact .done ctx
  | none => exact .fails hF rfl rfl nofun

theorem bindAll (ctx : Context) (bindings : List (VarId × TermId)) :
    F.Follows Any (Attempt.bindAll ctx bindings) (Attempt.bindAll ctx bindings) s := by
  induction bindings generalizing s ctx with
  | nil => exact .done ctx
  | cons b rest ih => exact .next (bindContext hF ctx b.1 b.2) fun ctx s => ih ctx

theorem bindQuantified (ctx : Context) (vars : List VarId) :
    F.Follows Any (Attempt.bindQuantified ctx vars) (Attempt.bindQuantified ctx vars) s :=
  bindAll hF ctx _

theorem quantify (vars : List VarId) (body : TermId) :
    F.Follows Any (Attempt.quantify vars body) (Attempt.quantify vars body) s :=
  .reads rfl rfl (intern hF _)

/-! ## Observations -/

omit hF in
theorem observe {typeOf typeOf' : TermId → Attempt TermId} {ctx : Context} {bound : Nat}
    {found : Observations} {pending : List (VarId × Usage)}
    (htypeOf : ∀ t s, F.Follows Any (typeOf t) (typeOf' t) s) :
    F.Follows Any (Attempt.observe typeOf ctx bound found pending)
      (Attempt.observe typeOf' ctx bound found pending) s := by
  induction bound generalizing s found pending with
  | zero => exact .done found
  | succ bound ih =>
    unfold Attempt.observe
    generalize pending.dropWhile (fun e => found.contains e.1) = left
    cases left with
    | nil => exact .done found
    | cons e pending =>
      obtain ⟨v, usage⟩ := e
      dsimp only
      cases ctx.get? v with
      | none => exact ih
      | some value =>
        refine .reads rfl rfl ?_
        split
        · exact .next (htypeOf value s) fun ty s => ih
        · exact .reads rfl rfl ih

omit hF in
theorem restrict {typeOf typeOf' : TermId → Attempt TermId} {ctx : Context} {t : TermId}
    (htypeOf : ∀ t s, F.Follows Any (typeOf t) (typeOf' t) s) :
    F.Follows Any (Attempt.restrict typeOf ctx t) (Attempt.restrict typeOf' ctx t) s :=
  .withStore (.next (observe htypeOf) fun _ _ => .done _)

/-- What the first computation remembers, the second one remembers too. -/
theorem remembered {t : TermId} {restriction : Restriction} {compute compute' : Attempt TermId}
    (h : F.Follows Any compute compute' s) :
    F.Follows Any (Attempt.remembered t restriction compute)
      (Attempt.remembered t restriction compute') s := by
  intro hs
  have htypes : (F.image s).types.get? t restriction = s.types.get? t restriction := rfl
  cases hget : s.types.get? t restriction with
  | some answer =>
    rw [run_remembered_hit hget, run_remembered_hit (htypes.trans hget)]
    cases answer with
    | ok ty => exact .gives (.refl hs) trivial
    | error e => exact .fails (.refl hs) (hF.remembered hs hget)
  | none =>
    have hstored : ∀ {s₁ answer}, F.Step s s₁ → (∀ limit, answer ≠ .error (.depthExceeded limit)) →
        F.Step s { s₁ with types := s₁.types.insert t restriction answer } :=
      fun hstep hanswer => ⟨⟨hstep.later.entries, hstep.later.vars, hstep.later.natives⟩,
        hF.remember t restriction hstep.inv hanswer, hstep.config⟩
    have hends := h hs
    rcases hrun : compute.run s with ⟨answer, s₁⟩
    rcases hrun' : compute'.run (F.image s) with ⟨answer', s₁'⟩
    rw [hrun, hrun'] at hends
    have hmiss' := htypes.trans hget
    -- A failure is remembered unless it is a lack of depth.
    have hkeep : ∀ {e : Error}, (¬ ∃ limit, e = .depthExceeded limit) →
        ∀ limit, (.error e : TypeAnswer) ≠ .error (.depthExceeded limit) :=
      fun hdepth limit heq => hdepth ⟨limit, by simpa using heq⟩
    cases hends with
    | @excused e _ _ hstep hallowed hexcused =>
      by_cases hdepth : ∃ limit, e = .depthExceeded limit
      · obtain ⟨limit, rfl⟩ := hdepth
        rw [run_remembered_depth hget hrun]
        exact .excused hstep hallowed hexcused
      · rw [run_remembered_miss hget hrun (hkeep hdepth)]
        exact .excused (hstored hstep (hkeep hdepth)) hallowed hexcused
    | @fails e _ hstep hallowed =>
      by_cases hdepth : ∃ limit, e = .depthExceeded limit
      · obtain ⟨limit, rfl⟩ := hdepth
        rw [run_remembered_depth hget hrun]
        exact .excused hstep hallowed (hF.depth limit)
      · rw [run_remembered_miss hget hrun (hkeep hdepth),
          run_remembered_miss hmiss' hrun' (hkeep hdepth)]
        exact .fails (hstored hstep (hkeep hdepth)) hallowed
    | @gives ty _ hstep _ =>
      rw [run_remembered_miss hget hrun nofun, run_remembered_miss hmiss' hrun' nofun]
      exact .gives (hstored hstep nofun) trivial

end Laws

end Follows

end Replay

end StagedCalculus
