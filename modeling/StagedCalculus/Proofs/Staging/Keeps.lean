import StagedCalculus.Proofs.Store.Builders
import StagedCalculus.Proofs.Store.Context
import StagedCalculus.Staging.Restriction

/-!
# Two computations in step

This module compares two computations that start from one store, of which the first may do without
the values of hidden variables.

* `Store.Evolves`: how a computation may change a store;
* `Attempt.Keeps`: the two computations leave the same store behind and end alike, unless the first
  one fails because it misses a value.

With nothing to hide, a computation is compared with itself, and `Keeps` says what it keeps. The
rules follow the constructs that computations are made of.
-/

namespace StagedCalculus

namespace Store

/-- How a computation may change a store: the store grows and stays sound, and the output is the
same as before if some later store is quiet. -/
structure Evolves (quiet : Store → Prop) (hidden : List VarId) (s s' : Store) : Prop where
  later : s.Extends s'
  sound : s'.Sound hidden
  natives : s'.natives = s.natives
  config : s'.config = s.config
  types : ∀ t restriction answer,
    s.types.get? t restriction = some answer → s'.types.get? t restriction = some answer
  output : ∀ final, s'.Extends final → final.Closed → quiet final → s'.output = s.output

namespace Evolves

variable {quiet : Store → Prop} {hidden : List VarId} {s s' s'' : Store}

theorem refl (hs : s.Sound hidden) : s.Evolves quiet hidden s :=
  ⟨.refl s, hs, rfl, rfl, fun _ _ _ h => h, fun _ _ _ _ => rfl⟩

theorem trans (h : s.Evolves quiet hidden s') (h' : s'.Evolves quiet hidden s'') :
    s.Evolves quiet hidden s'' where
  later := h.later.trans h'.later
  sound := h'.sound
  natives := h'.natives.trans h.natives
  config := h'.config.trans h.config
  types := fun t restriction answer hget =>
    h'.types t restriction answer (h.types t restriction answer hget)
  output := by
    intro final hle hfinal hquiet
    calc s''.output = s'.output := h'.output final hle hfinal hquiet
      _ = s.output := h.output final (h'.later.trans hle) hfinal hquiet

theorem growsTo (h : s.Evolves quiet hidden s') (hs : s.Linked) : s.GrowsTo s' :=
  ⟨h.later, hs, h.sound.toLinked, h.types⟩

end Evolves

end Store

namespace Attempt

variable {α β : Type} {quiet : Store → Prop} {hidden : List VarId} {s : Store}

/-- How two runs from one store may end. A failure to find a value ends the comparison, if there is
a hidden variable that may have been the reason. -/
inductive Outcome (quiet : Store → Prop) (hidden : List VarId) (post : α → α → Store → Prop)
    (s : Store) : Except Error α × Store → Except Error α × Store → Prop
  | misses {name : String} {s₁ : Store} {r : Except Error α × Store} : hidden ≠ [] →
      Outcome quiet hidden post s (.error (.valueNotAvailable name), s₁) r
  | fails {e : Error} {s' : Store} : s.Evolves quiet hidden s' →
      Outcome quiet hidden post s (.error e, s') (.error e, s')
  | gives {a a' : α} {s' : Store} : s.Evolves quiet hidden s' → post a a' s' →
      Outcome quiet hidden post s (.ok a, s') (.ok a', s')

/-- From this store the two computations stay in step, and their results satisfy a condition. -/
def Keeps (quiet : Store → Prop) (hidden : List VarId) (post : α → α → Store → Prop)
    (c c' : Attempt α) (s : Store) : Prop :=
  s.Sound hidden → Outcome quiet hidden post s (c.run s) (c'.run s)

/-- The two results are the same. -/
def Same (p : α → Store → Prop) (a a' : α) (s : Store) : Prop := a' = a ∧ p a s

/-- The two results are the same clear term. -/
abbrev SameClear (hidden : List VarId) : TermId → TermId → Store → Prop :=
  Same fun t s => s.Clear hidden t

theorem run_bind (c : Attempt α) (f : α → Attempt β) (s : Store) :
    (c >>= f).run s =
      match c.run s with
      | (.ok a, s') => (f a).run s'
      | (.error e, s') => (.error e, s') := by
  change (match c.run s with
    | (r, s') => (ExceptT.bindCont f r : Build (Except Error β)) s') = _
  rcases c.run s with ⟨e | a, s'⟩ <;> rfl

/-- A sequence that gives a result is made of two parts that do. -/
theorem ok_of_bind {c : Attempt α} {f : α → Attempt β} {b : β}
    (h : ((c >>= f).run s).1 = .ok b) :
    ∃ a s', c.run s = (.ok a, s') ∧ ((f a).run s').1 = .ok b := by
  rw [run_bind] at h
  rcases hrun : c.run s with ⟨e | a, s'⟩
  · rw [hrun] at h
    cases h
  · rw [hrun] at h
    exact ⟨a, s', rfl, h⟩

theorem run_bind_ok {c : Attempt α} {f : α → Attempt β} {b : β} {s' : Store}
    (h : (c >>= f).run s = (.ok b, s')) :
    ∃ a s₁, c.run s = (.ok a, s₁) ∧ (f a).run s₁ = (.ok b, s') := by
  obtain ⟨a, s₁, hrun, -⟩ := ok_of_bind (congrArg Prod.fst h)
  rw [run_bind, hrun] at h
  exact ⟨a, s₁, hrun, h⟩

theorem run_remembered_hit {t : TermId} {restriction : Restriction} {compute : Attempt TermId}
    {answer : TypeAnswer} (h : s.types.get? t restriction = some answer) :
    (remembered t restriction compute).run s = (answer, s) := by
  change StateT.run (remembered t restriction compute).run s = _
  simp only [remembered, ExceptT.run_mk, StateT.run_bind, StateT.run_get, pure_bind, h]
  rfl

/-- A failure for lack of depth is not remembered. -/
theorem run_remembered_depth {t : TermId} {restriction : Restriction} {compute : Attempt TermId}
    {s' : Store} {limit : Nat} (h : s.types.get? t restriction = none)
    (hrun : compute.run s = (.error (.depthExceeded limit), s')) :
    (remembered t restriction compute).run s = (.error (.depthExceeded limit), s') := by
  have hrun' : StateT.run compute.run s = (.error (.depthExceeded limit), s') := hrun
  change StateT.run (remembered t restriction compute).run s = _
  simp only [remembered, ExceptT.run_mk, StateT.run_bind, StateT.run_get, pure_bind, h, hrun']
  rfl

theorem run_remembered_miss {t : TermId} {restriction : Restriction} {compute : Attempt TermId}
    {answer : TypeAnswer} {s' : Store} (h : s.types.get? t restriction = none)
    (hrun : compute.run s = (answer, s'))
    (hdepth : ∀ limit, answer ≠ .error (.depthExceeded limit)) :
    (remembered t restriction compute).run s =
      (answer, { s' with types := s'.types.insert t restriction answer }) := by
  have hrun' : StateT.run compute.run s = (answer, s') := hrun
  change StateT.run (remembered t restriction compute).run s = _
  simp only [remembered, ExceptT.run_mk, StateT.run_bind, StateT.run_get, pure_bind, h, hrun']
  rcases answer with e | ty
  · cases e with
    | depthExceeded limit => exact absurd rfl (hdepth limit)
    | _ => rfl
  · rfl

namespace Keeps

variable {post : α → α → Store → Prop} {post' : β → β → Store → Prop} {p : α → Store → Prop}
  {c c' : Attempt α} {f f' : α → Attempt β}

/-! ## Rules -/

theorem pure {a a' : α} (h : post a a' s) :
    Keeps quiet hidden post (pure a) (Pure.pure a') s := fun hs => .gives (.refl hs) h

theorem done {a : α} (h : p a s) : Keeps quiet hidden (Same p) (Pure.pure a) (Pure.pure a) s :=
  pure ⟨rfl, h⟩

/-- Computations that fail and leave the store alone. -/
theorem fails {e : Error} (h : c.run s = (.error e, s)) (h' : c'.run s = (.error e, s)) :
    Keeps quiet hidden post c c' s := by
  intro hs
  rw [h, h']
  exact .fails (.refl hs)

/-- A computation that misses the value of a hidden variable. -/
theorem misses {name : String} (hhidden : hidden ≠ [])
    (h : c.run s = (.error (.valueNotAvailable name), s)) : Keeps quiet hidden post c c' s := by
  intro _
  rw [h]
  exact .misses hhidden

theorem bind (hc : Keeps quiet hidden post c c' s)
    (hf : ∀ a a' s', s.GrowsTo s' → post a a' s' → Keeps quiet hidden post' (f a) (f' a') s') :
    Keeps quiet hidden post' (c >>= f) (c' >>= f') s := by
  intro hs
  have hrun := hc hs
  rw [run_bind, run_bind]
  generalize c.run s = r at hrun ⊢
  generalize c'.run s = r' at hrun ⊢
  cases hrun with
  | misses hhidden => exact .misses hhidden
  | fails hstep => exact .fails hstep
  | @gives a a' s' hstep hpost =>
    have hrest := hf a a' s' (hstep.growsTo hs.toLinked) hpost hstep.sound
    change Outcome quiet hidden post' s ((f a).run s') ((f' a').run s')
    generalize (f a).run s' = r at hrest ⊢
    generalize (f' a').run s' = r' at hrest ⊢
    cases hrest with
    | misses hhidden => exact .misses hhidden
    | fails hstep' => exact .fails (hstep.trans hstep')
    | gives hstep' hpost' => exact .gives (hstep.trans hstep') hpost'

theorem bindSame (hc : Keeps quiet hidden (Same p) c c' s)
    (hf : ∀ a s', s.GrowsTo s' → p a s' → Keeps quiet hidden post' (f a) (f' a) s') :
    Keeps quiet hidden post' (c >>= f) (c' >>= f') s := by
  refine bind hc fun a a' s' hgrows hpost => ?_
  obtain ⟨rfl, hp⟩ := hpost
  exact hf _ s' hgrows hp

/-- Computations that give the same result and leave the store alone. -/
theorem readsBoth {a : α} (h : c.run s = (.ok a, s)) (h' : c'.run s = (.ok a, s))
    (hf : Keeps quiet hidden post' (f a) (f' a) s) :
    Keeps quiet hidden post' (c >>= f) (c' >>= f') s := by
  intro hs
  rw [run_bind, run_bind, h, h']
  exact hf hs

theorem reads {a : α} (h : c.run s = (.ok a, s)) (hf : Keeps quiet hidden post' (f a) (f' a) s) :
    Keeps quiet hidden post' (c >>= f) (c >>= f') s := readsBoth h h hf

/-- The same as a computation of its own. -/
theorem gives {a : α} (h : c.run s = (.ok a, s)) (hp : p a s) :
    Keeps quiet hidden (Same p) c c s := by
  intro hs
  rw [h]
  exact .gives (.refl hs) ⟨rfl, hp⟩

theorem imp {post₁ : α → α → Store → Prop} (hc : Keeps quiet hidden post c c' s)
    (h : ∀ a a' s', s.GrowsTo s' → post a a' s' → post₁ a a' s') :
    Keeps quiet hidden post₁ c c' s := by
  intro hs
  have hrun := hc hs
  generalize c.run s = r at hrun ⊢
  generalize c'.run s = r' at hrun ⊢
  cases hrun with
  | misses hhidden => exact .misses hhidden
  | fails hstep => exact .fails hstep
  | gives hstep hpost => exact .gives hstep (h _ _ _ (hstep.growsTo hs.toLinked) hpost)

theorem impSame {p₁ : α → Store → Prop} (hc : Keeps quiet hidden (Same p) c c' s)
    (h : ∀ a s', s.GrowsTo s' → p a s' → p₁ a s') : Keeps quiet hidden (Same p₁) c c' s :=
  hc.imp fun a _ s' hgrows hpost => ⟨hpost.1, h a s' hgrows hpost.2⟩

/-- What is promised under fewer conditions on later stores is promised under more. -/
theorem quieter {quiet' : Store → Prop} (hc : Keeps quiet' hidden post c c' s)
    (h : ∀ final, s.Extends final → final.Closed → quiet final → quiet' final) :
    Keeps quiet hidden post c c' s := by
  intro hs
  have hrun := hc hs
  have hstep' : ∀ s', s.Evolves quiet' hidden s' → s.Evolves quiet hidden s' := fun s' hstep =>
    ⟨hstep.later, hstep.sound, hstep.natives, hstep.config, hstep.types,
      fun final hle hfinal hquiet =>
        hstep.output final hle hfinal (h final (hstep.later.trans hle) hfinal hquiet)⟩
  generalize c.run s = r at hrun ⊢
  generalize c'.run s = r' at hrun ⊢
  cases hrun with
  | misses hhidden => exact .misses hhidden
  | fails hstep => exact .fails (hstep' _ hstep)
  | gives hstep hpost => exact .gives (hstep' _ hstep) hpost

/-- With nothing to hide the first computation changes the store as it may. -/
theorem evolves (h : Keeps quiet [] post c c' s) (hs : s.Closed) :
    s.Evolves quiet [] (c.run s).2 := by
  have hrun := h hs.sound
  generalize c.run s = r at hrun ⊢
  generalize c'.run s = r' at hrun
  cases hrun with
  | misses hhidden => exact absurd rfl hhidden
  | fails hstep => exact hstep
  | gives hstep _ => exact hstep

theorem holds {a : α} (h : Keeps quiet [] (Same p) c c' s) (hs : s.Closed)
    (hok : (c.run s).1 = .ok a) : p a (c.run s).2 := by
  have hrun := h hs.sound
  generalize c.run s = r at hrun hok ⊢
  generalize c'.run s = r' at hrun
  cases hrun with
  | misses hhidden => exact absurd rfl hhidden
  | fails => cases hok
  | gives _ hpost =>
    cases hok
    exact hpost.2

/-- The store may be taken to be sound. -/
theorem withSound (h : s.Sound hidden → Keeps quiet hidden post c c' s) :
    Keeps quiet hidden post c c' s := fun hs => h hs hs

/-! ## The store -/

theorem evolves_intern {shape : Shape TermId} (hs : s.Sound hidden)
    (hshape : ∀ child ∈ shape.children, s.Allocated child) :
    s.Evolves quiet hidden (s.intern shape).2 where
  later := Store.extends_intern s shape
  sound := Store.sound_intern hs hshape
  natives := Store.natives_intern s shape
  config := Store.config_intern s shape
  types := (Store.growsTo_intern hs.toLinked hshape).types
  output := fun _ _ _ _ => Store.output_intern s shape

theorem intern {shape : Shape TermId} (hvariables : ∀ v ∈ shape.ownVars, v ∉ hidden)
    (hchildren : ∀ child ∈ shape.children, s.Clear hidden child) :
    Keeps quiet hidden (SameClear hidden) (Build.intern shape)
      (Build.intern shape) s := by
  intro hs
  have hallocated : ∀ child ∈ shape.children, s.Allocated child := fun child hchild =>
    (hchildren child hchild).allocated
  exact .gives (evolves_intern hs hallocated)
    ⟨rfl, Store.clear_intern hs.toLinked hvariables hchildren⟩

/-- A node that mentions no variable itself. -/
theorem build {shape : Shape TermId} (hnone : shape.ownVars = [])
    (hchildren : ∀ child ∈ shape.children, s.Clear hidden child) :
    Keeps quiet hidden (SameClear hidden) (Build.intern shape)
      (Build.intern shape) s := by
  refine intern (fun v hv => ?_) hchildren
  rw [hnone] at hv
  cases hv

/-- A node of plain values. It is clear if its parts are, and it has the shape that was asked for,
but for a quantifier over nothing. -/
theorem internPlain {shape : Shape TermId} (hvariables : ∀ v ∈ shape.ownVars, v ∉ hidden)
    (htypes : ∀ part ∈ shape.typeParts, s.Clear hidden part)
    (hvalues : ∀ part ∈ shape.valueParts, s.Plain hidden part) :
    Keeps quiet hidden (Same fun t s' => s'.Plain hidden t ∧
        ((∀ child ∈ shape.children, s.Clear hidden child) → s'.Clear hidden t) ∧
        ((∀ body, shape ≠ .forAll [] body) → s'.shape t = shape))
      (Build.intern shape) (Build.intern shape) s := by
  intro hs
  have hallocated : ∀ child ∈ shape.children, s.Allocated child := by
    intro child hchild
    rcases Shape.mem_children.1 hchild with htype | hvalue
    · exact (htypes child htype).allocated
    · exact (hvalues child hvalue).allocated
  have hbinders : ∀ v ∈ shape.binders, v ∉ hidden := fun v hv =>
    hvariables v (List.mem_append_right _ hv)
  exact .gives (evolves_intern hs hallocated) ⟨rfl,
    Store.plain_intern hs.toLinked hbinders htypes hvalues,
    Store.clear_intern hs.toLinked hvariables, Store.shape_intern⟩

theorem builtin (name : String) :
    Keeps quiet hidden (Same fun leaf s' => ∀ t ∈ leaf, s'.Clear hidden t)
      (Build.builtin name : Attempt _) (Build.builtin name : Attempt _) s := by
  intro hs
  have hrun : (Build.builtin name : Attempt _).run s =
      (.ok (s.builtin name).1, (s.builtin name).2) := rfl
  rw [hrun]
  unfold Store.builtin
  cases s.findNative? name with
  | none => exact .gives (.refl hs) ⟨rfl, by simp⟩
  | some id =>
    have hchildren : ∀ child ∈ (Shape.native id : Shape TermId).children, s.Clear hidden child := by
      simp [Shape.children]
    have hallocated : ∀ child ∈ (Shape.native id : Shape TermId).children, s.Allocated child :=
      fun child hchild => (hchildren child hchild).allocated
    refine .gives (evolves_intern hs hallocated) ⟨rfl, fun t ht => ?_⟩
    cases ht
    exact Store.clear_intern hs.toLinked (by simp [Shape.ownVars, Shape.leaf, Shape.binders])
      hchildren

/-- A fresh variable is not hidden. -/
theorem freshVariable (comptime : Bool) (name : Option String) :
    Keeps quiet hidden (Same fun v _ => v ∉ hidden)
      (Build.freshVariable comptime name : Attempt VarId)
      (Build.freshVariable comptime name : Attempt VarId) s := fun hs =>
  .gives ⟨Store.extends_freshVariable s comptime name, Store.sound_freshVariable hs comptime name,
    rfl, rfl, fun _ _ _ h => h, fun _ _ _ _ => rfl⟩ ⟨rfl, hs.fresh⟩

/-- Writing is allowed where no later store is quiet. -/
theorem write {text : String} (h : ∀ final, s.Extends final → final.Closed → ¬ quiet final) :
    Keeps quiet hidden (Same fun _ _ => True) (Attempt.write text) (Attempt.write text) s := by
  intro hs
  obtain ⟨output, houtput⟩ := Store.write_cases s text
  have hle : s.Extends { s with output } := .of_eq rfl rfl rfl
  have hstep : s.Evolves quiet hidden { s with output } :=
    ⟨hle, Store.sound_output hs output, rfl, rfl, fun _ _ _ h => h,
      fun final hfinal hclosed hquiet => absurd hquiet (h final (hle.trans hfinal) hclosed)⟩
  have hrun : ((Attempt.write text).run s).2 = { s with output } := houtput
  rcases hresult : (Attempt.write text).run s with ⟨e | a, s'⟩
  all_goals
    rw [hresult] at hrun
    cases hrun
  · exact .fails hstep
  · exact .gives hstep ⟨rfl, trivial⟩

/-- Remembering an answer adds nothing but a type that was given. -/
theorem remembered {t : TermId} {restriction : Restriction} {compute compute' : Attempt TermId}
    (h : Keeps quiet hidden (SameClear hidden) compute compute' s) :
    Keeps quiet hidden (SameClear hidden)
      (Attempt.remembered t restriction compute) (Attempt.remembered t restriction compute') s := by
  intro hs
  cases hget : s.types.get? t restriction with
  | some answer =>
    rw [run_remembered_hit hget, run_remembered_hit hget]
    cases answer with
    | error e => exact .fails (.refl hs)
    | ok ty => exact .gives (.refl hs) ⟨rfl, hs.typesClear t restriction ty hget⟩
  | none =>
    -- Whatever was computed is remembered under a key that was not in use.
    have hstored : ∀ answer s', s.Evolves quiet hidden s' →
        (∀ ty, answer = .ok ty → s'.Clear hidden ty) →
        s.Evolves quiet hidden { s' with types := s'.types.insert t restriction answer } := by
      intro answer s' hstep hanswer
      refine ⟨⟨hstep.later.entries, hstep.later.vars, hstep.later.natives⟩,
        Store.sound_remember hstep.sound hanswer, hstep.natives, hstep.config,
        fun t' restriction' old hold => ?_, fun final hle hfinal hquiet =>
          hstep.output final ⟨hle.entries, hle.vars, hle.natives⟩ hfinal hquiet⟩
      rw [TypeCache.get?_insert, if_neg]
      · exact hstep.types _ _ _ hold
      · rintro ⟨rfl, rfl⟩
        rw [hget] at hold
        cases hold
    have hends := h hs
    rcases hrun : compute.run s with ⟨answer, s₁⟩
    rcases hrun' : compute'.run s with ⟨answer', s₁'⟩
    rw [hrun, hrun'] at hends
    cases hends with
    | misses hhidden =>
      rw [run_remembered_miss hget hrun nofun]
      exact .misses hhidden
    | @fails e _ hstep =>
      by_cases hdepth : ∃ limit, e = .depthExceeded limit
      · obtain ⟨limit, rfl⟩ := hdepth
        rw [run_remembered_depth hget hrun, run_remembered_depth hget hrun']
        exact .fails hstep
      · have hkept : ∀ limit, (.error e : TypeAnswer) ≠ .error (.depthExceeded limit) :=
          fun limit heq => hdepth ⟨limit, by simpa using heq⟩
        rw [run_remembered_miss hget hrun hkept, run_remembered_miss hget hrun' hkept]
        exact .fails (hstored _ _ hstep nofun)
    | @gives ty _ _ hstep hpost =>
      obtain ⟨rfl, hty⟩ := hpost
      rw [run_remembered_miss hget hrun nofun, run_remembered_miss hget hrun' nofun]
      exact .gives (hstored _ _ hstep fun ty h => by cases h; exact hty) ⟨rfl, hty.withTypes _⟩

/-! ## Contexts -/

theorem bindContext {ctx ctx' : Context} {v : VarId} {t : TermId}
    (hctx : ctx.Paired hidden s ctx') (ht : s.Clear hidden t) (hv : v ∉ hidden) :
    Keeps quiet hidden (fun ctx ctx' s' => ctx.Paired hidden s' ctx') (Attempt.bind ctx v t)
      (Attempt.bind ctx' v t) s := by
  unfold Attempt.bind
  rcases hctx.bind_cases ht hv with ⟨bound, bound', hbound, hbound', hpaired⟩ | ⟨hnone, hnone'⟩
  · rw [hbound, hbound']
    exact .pure hpaired
  · rw [hnone, hnone']
    exact .fails rfl rfl

theorem bindAll {ctx ctx' : Context} {bindings : List (VarId × TermId)}
    (hctx : ctx.Paired hidden s ctx')
    (hbindings : ∀ b ∈ bindings, b.1 ∉ hidden ∧ s.Clear hidden b.2) :
    Keeps quiet hidden (fun ctx ctx' s' => ctx.Paired hidden s' ctx') (Attempt.bindAll ctx bindings)
      (Attempt.bindAll ctx' bindings) s := by
  induction bindings generalizing s ctx ctx' with
  | nil => exact .pure hctx
  | cons b rest ih =>
    obtain ⟨hv, ht⟩ := hbindings b (by simp)
    refine .bind (bindContext hctx ht hv) fun ctx ctx' s₁ h₁ hctx₁ => ?_
    refine ih hctx₁ fun b' hb' => ?_
    obtain ⟨hv', ht'⟩ := hbindings b' (by simp [hb'])
    exact ⟨hv', h₁.clear ht'⟩

theorem bindQuantified {ctx ctx' : Context} {vars : List VarId} (hctx : ctx.Paired hidden s ctx')
    (hvars : ∀ v ∈ vars, v ∉ hidden) :
    Keeps quiet hidden (fun ctx ctx' s' => ctx.Paired hidden s' ctx')
      (Attempt.bindQuantified ctx vars) (Attempt.bindQuantified ctx' vars) s := by
  refine .withSound fun hs => bindAll hctx fun b hb => ?_
  obtain ⟨v, hv, rfl⟩ := List.mem_map.1 hb
  exact ⟨hvars v hv, hs.commonClear 4 (by decide)⟩

theorem quantify {vars : List VarId} {body : TermId} (hvars : ∀ v ∈ vars, v ∉ hidden)
    (hbody : s.Clear hidden body) :
    Keeps quiet hidden (SameClear hidden) (Attempt.quantify vars body)
      (Attempt.quantify vars body) s := by
  refine .reads rfl (intern (fun v hv => ?_) (by simpa [Shape.children] using hbody))
  have hkept : v ∈ vars.filter (s.freeVariables body).contains := hv
  exact hvars v (List.mem_filter.1 hkept).1

theorem variableTerm {v : VarId} (hv : v ∉ hidden) :
    Keeps quiet hidden (SameClear hidden) (Build.variableTerm v : Attempt _)
      (Build.variableTerm v : Attempt _) s :=
  intern (by simpa [Shape.ownVars, Shape.leaf, Shape.binders] using hv) (by simp [Shape.children])

theorem variableTerms {vars : List VarId} (hvars : ∀ v ∈ vars, v ∉ hidden) :
    Keeps quiet hidden (Same fun ts s' => ∀ t ∈ ts, s'.Clear hidden t)
      (Build.variableTerms vars : Attempt _) (Build.variableTerms vars : Attempt _) s := by
  induction vars generalizing s with
  | nil => exact .done (by simp)
  | cons v rest ih =>
    let next := fun t => (do return t :: (← Build.variableTerms rest) : Attempt _)
    change Keeps quiet hidden _ (Build.variableTerm v >>= next) (Build.variableTerm v >>= next) s
    refine .bindSame (variableTerm (hvars v (by simp))) fun t s₁ h₁ ht => ?_
    refine .bindSame (ih fun w hw => hvars w (by simp [hw])) fun ts s₂ h₂ hts => ?_
    refine .done fun u hu => ?_
    rcases List.mem_cons.1 hu with rfl | hu
    · exact h₂.clear ht
    · exact hts u hu

/-! ## Observations -/

section Observations

variable {typeOf typeOf' : TermId → Attempt TermId} {ctx ctx' : Context}

/-- A hidden variable that is used as a value only is observed by the type of its value, which is
known and the same. -/
theorem observe {bound : Nat} {found : Observations} {pending : List (VarId × Usage)}
    (hctx : ctx.Alike hidden s ctx')
    (hpending : ∀ e ∈ pending, e.1 ∈ hidden → e.2 = .intoValue)
    (htypeOf : ∀ s' t, s.GrowsTo s' → s'.Clear hidden t →
      Keeps quiet hidden (Same fun _ _ => True) (typeOf t) (typeOf' t) s')
    (hknown : ∀ s' value value' ty, s.GrowsTo s' → s'.Knows value ty → s'.Knows value' ty →
      Keeps quiet hidden (Same fun _ _ => True) (typeOf value) (typeOf' value') s') :
    Keeps quiet hidden (Same fun _ _ => True) (Attempt.observe typeOf ctx bound found pending)
      (Attempt.observe typeOf' ctx' bound found pending) s := by
  induction bound generalizing s found pending with
  | zero => exact .done trivial
  | succ bound ih =>
    refine .withSound fun hs => ?_
    have hgrow : ∀ s₁, s.GrowsTo s₁ → ∀ (found : Observations) pending,
        (∀ e ∈ pending, e.1 ∈ hidden → e.2 = .intoValue) →
        Keeps quiet hidden (Same fun _ _ => True) (Attempt.observe typeOf ctx bound found pending)
          (Attempt.observe typeOf' ctx' bound found pending) s₁ := fun s₁ h₁ found pending hp =>
      ih (hctx.mono h₁) hp (fun s' t h' ht => htypeOf s' t (h₁.trans h') ht)
        fun s' value value' ty h' hv hv' => hknown s' value value' ty (h₁.trans h') hv hv'
    have hrest : ∀ found pending, (∀ e ∈ pending, e.1 ∈ hidden → e.2 = .intoValue) →
        Keeps quiet hidden (Same fun _ _ => True) (Attempt.observe typeOf ctx bound found pending)
          (Attempt.observe typeOf' ctx' bound found pending) s := fun found pending hp =>
      ih hctx hp htypeOf hknown
    unfold Attempt.observe
    have hleft : ∀ e ∈ pending.dropWhile fun e => found.contains e.1, e.1 ∈ hidden →
        e.2 = .intoValue := fun e he => hpending e ((List.dropWhile_sublist _).subset he)
    generalize pending.dropWhile (fun e => found.contains e.1) = left at hleft ⊢
    cases left with
    | nil => exact .done trivial
    | cons e pending =>
      obtain ⟨v, usage⟩ := e
      have hpending' : ∀ e ∈ pending, e.1 ∈ hidden → e.2 = .intoValue := fun e he =>
        hleft e (List.mem_cons_of_mem _ he)
      dsimp only
      by_cases hv : v ∈ hidden
      · have husage : usage = .intoValue := hleft (v, usage) (by simp) hv
        have hby : ∀ {value ty}, s.Knows value ty →
            (observedByType v usage value).run s = (.ok true, s) := by
          intro value ty hknows
          change (Except.ok _, s) = _
          simp [husage, hs.runtime v hv, hknows.isValue]
        have htwins := hctx.twins v hv
        generalize ctx.get? v = value, ctx'.get? v = value' at htwins ⊢
        cases htwins with
        | unbound => exact hrest _ _ hpending'
        | typed hknows hknows' =>
          refine .readsBoth (hby hknows) (hby hknows') ?_
          exact .bindSame (hknown s _ _ _ (.refl hs.toLinked) hknows hknows')
            fun ty s₁ h₁ _ => hgrow s₁ h₁ _ _ hpending'
      · rw [hctx.same v hv]
        cases hget : ctx.get? v with
        | none => exact hrest _ _ hpending'
        | some value =>
          have hvalue := hctx.clear v value hv hget
          refine .reads rfl ?_
          split
          · exact .bindSame (htypeOf s value (.refl hs.toLinked) hvalue) fun ty s₁ h₁ _ =>
              hgrow s₁ h₁ _ _ hpending'
          · refine .reads rfl (hrest _ _ fun e he hmem => ?_)
            rcases List.mem_append.1 he with he | he
            · have hfree : e.1 ∈ (s.freeVariables value).vars :=
                List.mem_map_of_mem (List.mem_reverse.1 he)
              exact absurd hmem (hvalue.not_free hs.toLinked hfree)
            · exact hpending' e he hmem

theorem restrict {t : TermId} (hctx : ctx.Alike hidden s ctx') (ht : s.Plain hidden t)
    (htypeOf : ∀ s' t, s.GrowsTo s' → s'.Clear hidden t →
      Keeps quiet hidden (Same fun _ _ => True) (typeOf t) (typeOf' t) s')
    (hknown : ∀ s' value value' ty, s.GrowsTo s' → s'.Knows value ty → s'.Knows value' ty →
      Keeps quiet hidden (Same fun _ _ => True) (typeOf value) (typeOf' value') s') :
    Keeps quiet hidden (Same fun _ _ => True) (Attempt.restrict typeOf ctx t)
      (Attempt.restrict typeOf' ctx' t) s := by
  refine .withSound fun hs => .reads rfl ?_
  refine .bindSame (observe hctx (fun e he hv => ?_) htypeOf hknown) fun _ _ _ _ => .done trivial
  exact ht.usage_eq hs.toLinked (List.mem_reverse.1 he) hv

end Observations

end Keeps

end Attempt

end StagedCalculus
