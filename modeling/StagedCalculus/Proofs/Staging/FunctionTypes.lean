import StagedCalculus.Proofs.Staging.TypeLaw

/-!
# Types of functions

A function with parameters has a function type with one position for each of them, below at most
one quantifier more than the function itself: the type of a function quantifies over its dependent
parameters, and the type of a quantified function over the quantified variables on top of that.

* `Store.Takes`: functions with given parameters, below some quantifiers;
* `Store.Positioned`: function types with positions at given stages, below some quantifiers;
* `Engine.positioned_functionTypeOf`, `Engine.ruled_functionLaw`: the rules give such types;
* `Store.RemembersFunctions`: so does memory, as long as inference alone remembers answers;
* `Attempt.fits_infer`: whatever inference gives as the type of a function has this form.
-/

namespace StagedCalculus

namespace Store

variable {s s' : Store} {n m : Nat} {t ty : TermId} {params : List (VarId × TermId)}
  {stages : List Bool}

/-! ## Functions and their types -/

/-- The term is a function with these parameters below so many quantifiers. -/
inductive Takes (s : Store) (params : List (VarId × TermId)) : Nat → TermId → Prop
  | function {t body : TermId} {lets : List (VarId × TermId)} :
      s.shape t = .abstraction lets params body → params ≠ [] → Takes s params 0 t
  | quantified {n : Nat} {t function : TermId} {vars : List VarId} :
      s.shape t = .forAll vars function → Takes s params n function → Takes s params (n + 1) t

/-- The term is a function type with positions at these stages below so many quantifiers. -/
inductive Positioned (s : Store) (stages : List Bool) : Nat → TermId → Prop
  | function {t result : TermId} {slots : List (Slot TermId)} :
      s.shape t = .functionType slots result → slots.map (·.comptime) = stages →
      Positioned s stages 0 t
  | quantified {n : Nat} {t function : TermId} {vars : List VarId} :
      s.shape t = .forAll vars function → Positioned s stages n function →
      Positioned s stages (n + 1) t

/-- The stages of parameters. -/
def stagesOf (s : Store) (params : List (VarId × TermId)) : List Bool :=
  params.map fun p => s.isComptime p.1

/-- The second term has a position for each parameter of the first one, and there may be a
quantifier over dependent parameters. -/
def Fits (s : Store) (t ty : TermId) : Prop :=
  ∀ n params, s.Takes params n t → ∃ m ≤ n + 1, s.Positioned (s.stagesOf params) m ty

theorem stagesOf_eq (s : Store) (params : List (VarId × TermId)) :
    s.stagesOf params = (params.map (·.1)).map s.isComptime := by
  rw [List.map_map]
  rfl

theorem Takes.allocated (h : s.Takes params n t) : s.Allocated t := by
  cases h with
  | function hshape => exact allocated_of_shape (by simp [hshape])
  | quantified hshape => exact allocated_of_shape (by simp [hshape])

theorem Takes.mono (h : s.Takes params n t) (hle : s.Extends s') : s'.Takes params n t := by
  induction h with
  | function hshape hne => exact .function (hle.shape_kept hshape nofun) hne
  | quantified hshape _ ih => exact .quantified (hle.shape_kept hshape nofun) ih

/-- A term of a store is a function later if it is one now. -/
theorem Takes.before (h : s'.Takes params n t) (hs : s.Linked) (hle : s.Extends s')
    (ht : s.Allocated t) : s.Takes params n t := by
  induction h with
  | function hshape hne => exact .function ((hle.shape_eq ht).symm.trans hshape) hne
  | @quantified _ t function vars hshape _ ih =>
    have hbefore := (hle.shape_eq ht).symm.trans hshape
    refine .quantified hbefore (ih (hs.allocated_children ht ?_))
    simp [hbefore, Shape.children]

theorem Takes.stagesOf_eq (h : s.Takes params n t) (hs : s.Canonical) (hle : s.Extends s') :
    s'.stagesOf params = s.stagesOf params := by
  induction h with
  | @function t body lets hshape =>
    refine List.map_congr_left fun p hp => hle.isComptime_eq ?_
    have ht := (Takes.function hshape ‹_›).allocated
    have howned := (Shape.forall_mem_handles.1 (hs.owned t ht)).2.1
    exact howned p.1 (by simp [hshape, Shape.ownVars, Shape.binders]; grind)
  | quantified _ _ ih => exact ih

theorem Positioned.mono (h : s.Positioned stages n t) (hle : s.Extends s') :
    s'.Positioned stages n t := by
  induction h with
  | function hshape hstages => exact .function (hle.shape_kept hshape nofun) hstages
  | quantified hshape _ ih => exact .quantified (hle.shape_kept hshape nofun) ih

theorem Fits.mono (h : s.Fits t ty) (hs : s.Intact) (hle : s.Extends s') (ht : s.Allocated t) :
    s'.Fits t ty := by
  intro n params htakes
  have hbefore := htakes.before hs.toLinked hle ht
  obtain ⟨m, hm, hpositioned⟩ := h n params hbefore
  rw [hbefore.stagesOf_eq hs.toCanonical hle]
  exact ⟨m, hm, hpositioned.mono hle⟩

theorem shape_of_intern {shape : Shape TermId} (h : s.intern shape = (t, s'))
    (hshape : ∀ body, shape ≠ .forAll [] body) : s'.shape t = shape := by
  have hintern := s.shape_intern hshape
  rwa [h] at hintern

theorem stagesOf_of_intern {shape : Shape TermId} (h : s.intern shape = (t, s')) :
    s'.stagesOf params = s.stagesOf params := by
  have hvars : s'.vars = s.vars := by
    rw [← s.vars_intern shape, h]
  simp only [stagesOf, isComptime, variableInfo, hvars]

/-- A quantifier over nothing is not built. -/
theorem Positioned.forAll (h : s.Positioned stages m t) {vars : List VarId}
    (hintern : s.intern (.forAll vars t) = (ty, s')) : ∃ n ≤ m + 1, s'.Positioned stages n ty := by
  cases vars with
  | nil =>
    cases hintern
    exact ⟨m, Nat.le_succ m, h⟩
  | cons v rest =>
    have hle : s.Extends s' := by
      have hle := s.extends_intern (.forAll (v :: rest) t)
      rwa [hintern] at hle
    refine ⟨m + 1, Nat.le_refl _, .quantified (shape_of_intern hintern fun body heq => ?_) ?_⟩
    · cases heq
    · exact h.mono hle

/-- What is remembered of a function of the store fits it. -/
def RemembersFunctions (s : Store) : Prop :=
  ∀ t restriction ty, s.types.get? t restriction = some (.ok ty) → s.Allocated t ∧ s.Fits t ty

/-- The types of functions fit them. -/
def functionLaw : TypeLaw where
  holds s t answer := ∀ ty, answer = .ok ty → s.Allocated t ∧ s.Fits t ty
  lasts hs h hle ty hty := ⟨hle.allocated (h ty hty).1, (h ty hty).2.mono hs hle (h ty hty).1⟩
  deep _ _ _ := nofun
  silent _ _ := nofun

theorem remembersFunctions_iff : s.RemembersFunctions ↔ s.Remembers functionLaw := by
  constructor
  · rintro h t restriction answer hget ty rfl
    exact h t restriction ty hget
  · exact fun h t restriction ty hget => h t restriction (.ok ty) hget ty rfl

/-- A new store remembers nothing. -/
theorem Built.remembersFunctions (h : s.Built) : s.RemembersFunctions :=
  remembersFunctions_iff.2 (h.remembers functionLaw)

end Store

namespace Engine

open Attempt

variable {e : Engine} {s s' : Store} {ctx : Context} {t ty result : TermId}
  {params : List (VarId × TermId)}

/-! ## The rule for functions -/

theorem run_plainSlots (params : List (VarId × TermId)) (s : Store) :
    (plainSlots params).run s = (.ok (params.map fun p => ⟨p.2, s.isComptime p.1, none⟩), s) := by
  induction params with
  | nil => rfl
  | cons p rest ih =>
    have hfirst : (Attempt.isComptime p.1).run s = (.ok (s.isComptime p.1), s) := rfl
    unfold plainSlots
    rw [run_bind, hfirst]
    dsimp only
    rw [run_bind, ih]
    rfl

theorem markDependent_comptime (free : FreeVariables) (v : VarId) (slot : Slot TermId) :
    (markDependent free v slot).comptime = slot.comptime := by
  unfold markDependent
  split <;> rfl

/-- Marking a position does not change its stage. -/
theorem comptime_marked (free : FreeVariables) (params : List (VarId × TermId))
    (slotOf : VarId × TermId → Slot TermId) :
    ((params.zip (params.map slotOf)).map fun e => markDependent free e.1.1 e.2).map (·.comptime) =
      params.map fun p => (slotOf p).comptime := by
  induction params with
  | nil => rfl
  | cons p rest ih => simp [markDependent_comptime, ih]

theorem intern_of_run {shape : Shape TermId}
    (hrun : (Build.intern shape : Attempt TermId).run s = (.ok t, s')) : s.intern shape = (t, s') := by
  have hintern : (Build.intern shape : Attempt TermId).run s =
      (.ok (s.intern shape).1, (s.intern shape).2) := rfl
  rw [hintern, Prod.mk.injEq, Except.ok.injEq] at hrun
  exact Prod.ext hrun.1 hrun.2

/-- The type of a function with parameters. -/
theorem positioned_functionTypeOf (hrun : (functionTypeOf params result).run s = (.ok ty, s')) :
    ∃ n ≤ 1, s'.Positioned (s'.stagesOf params) n ty := by
  unfold functionTypeOf at hrun
  obtain ⟨slots, s₁, hslots, h₁⟩ := run_bind_ok hrun
  obtain ⟨plain, s₂, hplain, h₂⟩ := run_bind_ok h₁
  obtain ⟨free, s₃, hfree, h₃⟩ := run_bind_ok h₂
  obtain ⟨function, s₄, hfunction, hquantified⟩ := run_bind_ok h₃
  rw [run_plainSlots, Prod.mk.injEq, Except.ok.injEq] at hslots
  obtain ⟨rfl, rfl⟩ := hslots
  obtain rfl : s₂ = s₃ := congrArg Prod.snd hfree
  have hstages : s'.stagesOf params = s.stagesOf params :=
    calc s'.stagesOf params
      _ = s₄.stagesOf params := Store.stagesOf_of_intern (intern_of_run hquantified)
      _ = s₂.stagesOf params := Store.stagesOf_of_intern (intern_of_run hfunction)
      _ = s.stagesOf params := Store.stagesOf_of_intern (intern_of_run hplain)
  have hpositioned : s₄.Positioned (s'.stagesOf params) 0 function := by
    refine .function (Store.shape_of_intern (intern_of_run hfunction) nofun) ?_
    rw [comptime_marked, hstages]
    rfl
  exact hpositioned.forAll (intern_of_run hquantified)

theorem names_bindParams {r : Context × List (VarId × TermId)}
    (hrun : (e.bindParams ctx params).run s = (.ok r, s')) :
    r.2.map (·.1) = params.map (·.1) := by
  induction params generalizing s ctx r with
  | nil =>
    cases hrun
    rfl
  | cons p rest ih =>
    unfold bindParams at hrun
    obtain ⟨ty, s₁, -, hrun⟩ := run_bind_ok hrun
    obtain ⟨comptime, s₂, -, hrun⟩ := run_bind_ok hrun
    obtain ⟨placeholder, s₃, -, hrun⟩ := run_bind_ok hrun
    obtain ⟨inner, s₄, -, hrun⟩ := run_bind_ok hrun
    obtain ⟨r', s₅, hrest, hrun⟩ := run_bind_ok hrun
    cases hrun
    rw [List.map_cons, List.map_cons, ih hrest]

/-! ## Inference -/

open Store (functionLaw)

/-- A rule gives functions types that fit them if the level below does. -/
theorem ruled_functionLaw : functionLaw.Ruled := by
  intro n s s' ctx ctx' t answer he hobeys hs hctx ht hrun ty hty
  subst hty
  obtain ⟨_, _, hleads, -⟩ :=
    (Correspondence.corresponds_inferShape functionLaw.steady_typing he hctx ⟨rfl, ht⟩).gives_of_ok
      hs hrun
  refine ⟨hleads.left.allocated ht, fun k params htakes => ?_⟩
  have hbefore := htakes.before hs.2.1.toLinked hleads.left ht
  unfold inferShape at hrun
  obtain ⟨shape, s₀, hread, hrule⟩ := run_bind_ok hrun
  cases hread
  cases hbefore with
  | function hshape hne =>
    -- The parameters keep their variables, and with them their stages, while their types are bound.
    rw [hshape] at hrule
    obtain ⟨inner, s₁, -, h₁⟩ := run_bind_ok hrule
    obtain ⟨r, s₂, hparams, h₂⟩ := run_bind_ok h₁
    obtain ⟨bodyType, s₃, -, h₃⟩ := run_bind_ok h₂
    have hnames := names_bindParams hparams
    have hnonempty : r.2.isEmpty = false := by
      rw [← List.isEmpty_map, hnames, List.isEmpty_map, List.isEmpty_eq_false_iff]
      exact hne
    rw [hnonempty, if_neg Bool.false_ne_true] at h₃
    obtain ⟨m, hm, hpositioned⟩ := positioned_functionTypeOf h₃
    rw [Store.stagesOf_eq, ← hnames, ← Store.stagesOf_eq]
    exact ⟨m, hm, hpositioned⟩
  | quantified hshape hfunction =>
    -- One level down, the body has a type that fits it, and this rule adds at most one quantifier.
    rw [hshape] at hrule
    obtain ⟨inner, s₁, hbound, h₁⟩ := run_bind_ok hrule
    obtain ⟨bodyType, s₂, hinfer, hquantify⟩ := run_bind_ok h₁
    have hlayer := functionLaw.steady_typing.shape hs ⟨rfl, ht⟩
    rw [hshape] at hlayer
    cases hlayer with
    | forAll hvars hbody =>
      obtain ⟨inner', _, hleads₁, hinner⟩ :=
        (Correspondence.Corresponds.bindQuantified functionLaw.steady_typing
          (functionLaw.steady_typing.child hctx) hvars).gives_of_ok hs hbound
      obtain ⟨rfl, hs₁⟩ := hleads₁.after
      have hbody₁ := hleads₁.left.allocated hbody.2
      obtain ⟨_, _, hleads₂, -⟩ := (he.infer hinner ⟨rfl, hbody₁⟩).gives_of_ok ⟨rfl, hs₁⟩ hinfer
      have hfits := (hobeys ⟨rfl, hs₁⟩ hinner hbody₁ hinfer bodyType rfl).2
      obtain ⟨m, hm, hpositioned⟩ :=
        hfits _ params (hfunction.mono (hleads₁.left.trans hleads₂.left))
      obtain ⟨free, s₃, hfree, hintern⟩ := run_bind_ok hquantify
      obtain rfl : s₂ = s₃ := congrArg Prod.snd hfree
      obtain ⟨k, hk, htype⟩ := hpositioned.forAll (intern_of_run hintern)
      rw [Store.stagesOf_of_intern (intern_of_run hintern)]
      exact ⟨k, hk.trans (Nat.succ_le_succ hm), htype⟩

end Engine

/-! ## The judgments -/

namespace Attempt

variable {s s' : Store} {ctx : Context} {t ty : TermId}

/-- Whatever inference gives as the type of a function has a position for each of its parameters. -/
theorem fits_infer (hs : s.Intact) (hmemory : s.RemembersFunctions)
    (hctx : ∀ handle ∈ ctx.handles, s.Owns handle) (ht : s.Allocated t)
    (hrun : (infer ctx t).run s = (.ok ty, s')) : s'.Fits t ty :=
  (obeys_infer Engine.ruled_functionLaw hs (Store.remembersFunctions_iff.1 hmemory) hctx ht hrun ty
    rfl).2

end Attempt

namespace Store

variable {s : Store}

/-- As long as only inference remembers answers, what is remembered of functions fits them. -/
theorem Orderly.remembersFunctions (h : s.Orderly) : s.RemembersFunctions :=
  remembersFunctions_iff.2 (h.remembers Engine.ruled_functionLaw)

end Store

end StagedCalculus
