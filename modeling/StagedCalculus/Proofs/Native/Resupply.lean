import StagedCalculus.Proofs.Native.Certain
import StagedCalculus.Proofs.Staging.MatchingAgain

/-!
# Supplying arguments again

Resolution supplies the arguments of a call one after the other. This module records what a run of
it found out about the variables of the callee, and proves that a later run finds the same: from a
state that agrees on the variables in sight, with positions whose types were instantiated meanwhile.

* `Store.Supplies`: the arguments took matching from one state to another;
* `Attempt.ensures_supplyAll`: a run of resolution comes with such a record;
* `Attempt.ensures_supplyAll_again`: the arguments are supplied again, unless depth is lacking.
-/

namespace StagedCalculus

namespace Matching

variable {s : Store} {vars : List VarId} {m m' : Matching} {slot slot' : Slot TermId} {arg : TermId}

/-- The state after a comptime position has supplied its variable. -/
def supplied (m : Matching) (slot : Slot TermId) (arg : TermId) : Matching :=
  match slot.binds with
  | some v => if slot.comptime = true ∧ v ∈ m.undetermined then m.assign v arg else m
  | none => m

theorem supplied_cases (m : Matching) (slot : Slot TermId) (arg : TermId) :
    m.supplied slot arg = m ∨ slot.comptime = true ∧
      ∃ v ∈ m.undetermined, slot.binds = some v ∧ m.supplied slot arg = m.assign v arg := by
  unfold supplied
  cases slot.binds with
  | none => exact .inl rfl
  | some v =>
    dsimp only
    split
    · rename_i hopen
      exact .inr ⟨hopen.1, v, hopen.2, rfl, rfl⟩
    · exact .inl rfl

theorem Fits.supplied (h : m.Fits s vars) (harg : slot.comptime = true → s.Reduced [] arg) :
    (m.supplied slot arg).Fits s vars := by
  rcases m.supplied_cases slot arg with heq | ⟨hcomptime, v, hv, -, heq⟩
  · rwa [heq]
  · rw [heq]
    exact h.assign hv (harg hcomptime)

theorem filling_supplied {v : VarId} {u : TermId} (h : m.filling v = some u) :
    (m.supplied slot arg).filling v = some u := by
  rcases m.supplied_cases slot arg with heq | ⟨-, w, hw, -, heq⟩
  · rwa [heq]
  · rw [heq, filling_assign, if_neg]
    · exact h
    · rintro rfl
      rw [filling_of_mem hw] at h
      cases h

/-- A position with the same marks supplies the same variable on both sides, or one that is out of
sight. -/
theorem Tracks.supplied (h : Tracks vars m m') (hwithin : ∀ v ∈ m'.undetermined, v ∈ vars)
    (hcomptime : slot'.comptime = slot.comptime) (hbinds : slot'.binds = slot.binds) :
    Tracks vars (m.supplied slot arg) (m'.supplied slot' arg) := by
  unfold Matching.supplied
  rw [hbinds, hcomptime]
  cases slot.binds with
  | none => exact h
  | some v =>
    dsimp only
    by_cases hv : v ∈ vars
    · simp only [h.undetermined v hv]
      split
      · exact h.assign v arg
      · exact h
    · have hopen : ¬ (slot.comptime = true ∧ v ∈ m'.undetermined) := fun hboth =>
        hv (hwithin v hboth.2)
      rw [if_neg hopen]
      split
      · exact h.assign_left hv arg
      · exact h

end Matching

namespace Store

variable {s s' : Store} {σ : Filling} {vars vars' scope : List VarId} {m m' m₁ : Matching}
  {t t' u u' : TermId} {types : TermId → TermId} {arg : TermId} {slot slot' : Slot TermId}

/-- One argument, of a known type, took matching from one state to another. -/
structure Supply (s : Store) (types : TermId → TermId) (vars : List VarId) (m : Matching)
    (arg : TermId) (slot : Slot TermId) (m₁ : Matching) : Prop where
  known : slot.comptime = true → s.Reduced [] arg ∧ s.isValue arg = true
  matched : ∃ expected s₀ levels, s.Instance (m.supplied slot arg).filling slot.ty expected ∧
    s₀.Linked ∧ s₀.Extends s ∧ (m.supplied slot arg).Fits s₀ vars ∧ s₀.Allocated expected ∧
    s₀.Reduced [] (types arg) ∧
    (s₀.unify levels expected (types arg)).run (m.supplied slot arg) = (.ok (), m₁)

/-- The arguments took matching from one state to another. -/
inductive Supplies (s : Store) (types : TermId → TermId) (vars : List VarId) :
    Matching → List (TermId × Slot TermId) → Matching → Prop
  | nil {m : Matching} : Supplies s types vars m [] m
  | cons {m m₁ m₂ : Matching} {arg : TermId} {slot : Slot TermId}
      {rest : List (TermId × Slot TermId)} : s.Supply types vars m arg slot m₁ →
      Supplies s types vars m₁ rest m₂ → Supplies s types vars m ((arg, slot) :: rest) m₂

theorem Supply.mono (h : s.Supply types vars m arg slot m₁) (hle : s.Extends s') :
    s'.Supply types vars m arg slot m₁ where
  known hcomptime := by
    obtain ⟨harg, hvalue⟩ := h.known hcomptime
    exact ⟨harg.mono hle, (hle.isValue_eq harg.allocated).trans hvalue⟩
  matched := by
    obtain ⟨expected, s₀, levels, hinstance, hs₀, hle₀, hmatched⟩ := h.matched
    exact ⟨expected, s₀, levels, hinstance.mono hle, hs₀, hle₀.trans hle, hmatched⟩

theorem Supplies.mono {pairs : List (TermId × Slot TermId)}
    (h : s.Supplies types vars m pairs m') (hle : s.Extends s') :
    s'.Supplies types vars m pairs m' := by
  induction h with
  | nil => exact .nil
  | cons hsupply _ ih => exact .cons (hsupply.mono hle) ih

theorem Supplies.split {first rest : List (TermId × Slot TermId)}
    (h : s.Supplies types vars m (first ++ rest) m') :
    ∃ m₁, s.Supplies types vars m first m₁ ∧ s.Supplies types vars m₁ rest m' := by
  induction first generalizing m with
  | nil => exact ⟨m, .nil, h⟩
  | cons p first ih =>
    cases h with
    | cons hsupply hrest =>
      obtain ⟨m₁, hfirst, hrest⟩ := ih hrest
      exact ⟨m₁, .cons hsupply hfirst, hrest⟩

/-- Supplying an argument keeps what determines a variable already. -/
theorem Supply.filling (h : s.Supply types vars m arg slot m₁) {v : VarId}
    (hu : m.filling v = some u) : m₁.filling v = some u := by
  obtain ⟨expected, s₀, levels, -, -, -, hfits, -, -, hrun⟩ := h.matched
  exact filling_unify hfits.vacant hrun v u (Matching.filling_supplied hu)

theorem Supplies.filling {pairs : List (TermId × Slot TermId)}
    (h : s.Supplies types vars m pairs m') {v : VarId} (hu : m.filling v = some u) :
    m'.filling v = some u := by
  induction h with
  | nil => exact hu
  | cons hsupply _ ih => exact ih (hsupply.filling hu)

/-- Some variables in scope are filled, by what the state fills them with, and the other ones are in
sight. -/
structure Sight (s : Store) (scope vars' : List VarId) (σ : Filling) (m : Matching) : Prop where
  closed : ∀ v ∈ scope, ∀ u, σ v = some u → s.Reduced [] u
  inSight : ∀ v ∈ scope, σ v = none → v ∈ vars'
  filled : ∀ v ∈ scope, ∀ u, σ v = some u → m.filling v = some u

theorem Sight.mono (h : s.Sight scope vars' σ m) (hle : s.Extends s') : s'.Sight scope vars' σ m :=
  ⟨fun v hv u hu => (h.closed v hv u hu).mono hle, h.inSight, h.filled⟩

/-- A type that was instantiated in part comes to the same instance as the type itself. -/
theorem Instance.again (hs : s.Canonical) (h : s.Instance m.filling t u) (ht : s.Schema scope t)
    (hsight : s.Sight scope vars' σ m) (htracks : Matching.Tracks vars' m m')
    (hpart : s.Instance σ t t') (h' : s.Instance m'.filling t' u') : u' = u := by
  refine h.unique hs ht.reduced (fun v hv => ?_)
    (hpart.followedBy hs ht.reduced hsight.closed h')
  unfold Filling.followedBy
  cases hσ : σ v with
  | none => exact htracks.filling_eq (hsight.inSight v hv hσ)
  | some u => exact (hsight.filled v hv u hσ).symm

/-- A position with the same marks, whose type was instantiated. -/
structure Instantiated (s : Store) (scope : List VarId) (σ : Filling) (slot slot' : Slot TermId) :
    Prop where
  comptime : slot'.comptime = slot.comptime
  binds : slot'.binds = slot.binds
  schema : s.Schema scope slot.ty
  type : s.Instance σ slot.ty slot'.ty

theorem Instantiated.mono (h : s.Instantiated scope σ slot slot') (hle : s.Extends s') :
    s'.Instantiated scope σ slot slot' :=
  ⟨h.comptime, h.binds, h.schema.mono hle, h.type.mono hle⟩

/-- The type of a closed term is remembered, and nothing is left to do in it. -/
structure Inferred (s : Store) (t ty : TermId) : Prop where
  allocated : s.Allocated t
  closed : (s.freeVariables t).isEmpty = true
  remembered : s.types.get? t [] = some (.ok ty)
  reduced : s.Reduced [] ty

theorem Inferred.mono (h : s.Inferred t u) (hle : s.Precedes s') : s'.Inferred t u where
  allocated := hle.allocated h.allocated
  closed := by
    rw [hle.freeVariables_eq h.allocated]
    exact h.closed
  remembered := hle.types _ _ _ h.remembered
  reduced := h.reduced.mono hle.toExtends

end Store

namespace Attempt

open Store Engine Correspondence Matching

variable {n : Nat} {s : Store} {σ : Filling} {vars vars' scope : List VarId} {m m' m₁ : Matching}
  {ctx : Context} {t arg : TermId} {types : TermId → TermId} {slot slot' : Slot TermId}
  {tolerated : Error → Prop}

/-- Compiling a schema gives its instance. -/
theorem ensures_instance (ht : s.Schema scope t) (hctx : Fills s scope σ ctx)
    (howned : ∀ handle ∈ ctx.handles, s.Owns handle) :
    Ensures Error.IsDepth (fun u s' => s'.Instance σ t u) ((ofLevels n).compile ctx t) s := by
  intro hs
  have hends := instantiates_ofLevels n ht hctx hs.placeholder hs.toIntact
  have hrepeats : Repeats ((ofLevels n).compile ctx t) s :=
    (repeating_ofLevels n).reduce (Likeness.scope_diagonal howned) ⟨rfl, ht.allocated⟩
  have hown := ensures_own
    ((engines_evidentLaw n).reduce (Likeness.scope_diagonal howned) ⟨rfl, ht.allocated⟩) hrepeats
  have hany : Ended _ _ s (((ofLevels n).compile ctx t).run s) := hown hs
  generalize ((ofLevels n).compile ctx t).run s = r at hends hany ⊢
  cases hends with
  | deep => exact .fails ⟨_, rfl⟩
  | gives _ _ _ hpost =>
    cases hany with
    | gives hle hs' _ => exact .gives hle hs' hpost

/-- Compiling in a state of matching gives the instance at what determines its variables. -/
theorem ensures_compile_fits (ht : s.Schema vars t) (hm : m.Fits s vars) :
    Ensures Error.IsDepth (fun u s' => s'.Instance m.filling t u)
      ((ofLevels n).compile m.context t) s := ensures_instance ht hm.fills hm.owned

/-- A closed reduced term is known at compile time if it is a value. -/
theorem run_knownAtCompileTime (ht : s.Reduced [] t) :
    (knownAtCompileTime .root t).run s = (.ok (s.isValue t), s) := by
  have hread : (Attempt.isValue t).run s = (.ok (s.isValue t), s) := rfl
  have hshape : (Attempt.shape t).run s = (.ok (s.shape t), s) := rfl
  unfold knownAtCompileTime
  rw [run_bind, hread]
  cases hvalue : s.isValue t with
  | true => rfl
  | false =>
    dsimp only
    rw [if_neg (by simp), run_bind, hshape]
    cases hterm : s.shape t with
    | «variable» v => cases ht.mem_scope hterm
    | _ => rfl

/-- A comptime position supplies its variable, if the argument is known. -/
theorem ensures_supplyComptime {index : Nat} (hdepth : ∀ e, Error.IsDepth e → tolerated e)
    (hunknown : s.isValue arg = false → tolerated (.comptimeArgumentUnavailable index))
    (hvacant : ∀ v ∈ m.undetermined, m.context.innermost.get? v = none)
    (harg : s.Reduced [] arg) (hcomptime : slot.comptime = true) :
    Ensures tolerated (fun m₁ s' => m₁ = m.supplied slot arg ∧ s'.isValue arg = true)
      ((ofLevels n).supplyComptime .root m index arg slot) s := by
  refine .bind ((ensures_reduce_reduced harg).tolerate hdepth) fun value s₁ h₁ heq => ?_
  subst heq
  have harg₁ := harg.mono h₁.toExtends
  have hsame := h₁.isValue_eq harg.allocated
  refine .reads (run_knownAtCompileTime harg₁) ?_
  cases hvalue : s₁.isValue value with
  | false => exact .fails rfl (hunknown (hsame.symm.trans hvalue))
  | true =>
    rw [if_neg (by simp)]
    unfold supplied
    cases slot.binds with
    | none => exact .pure ⟨rfl, hvalue⟩
    | some v =>
      dsimp only
      by_cases hv : v ∈ m.undetermined
      · rw [if_pos hv, if_pos ⟨hcomptime, hv⟩]
        refine .reads (a := (m.assign v value).context) ?_ (.pure ⟨rfl, hvalue⟩)
        unfold Attempt.bind
        rw [Context.bind?, hvacant v hv]
        rfl
      · rw [if_neg hv, if_neg fun hboth => hv hboth.2]
        exact .pure ⟨rfl, hvalue⟩

/-! ## One argument -/

theorem run_unify_ok {e : Engine} {expected ty : TermId}
    (h : (s.unify e.levels expected ty).run m = (.ok (), m₁)) :
    (e.unify m expected ty).run s = (.ok m₁, s) := by
  have hget : (get : Attempt Store).run s = (.ok s, s) := rfl
  unfold Engine.unify
  rw [run_bind, hget]
  dsimp only
  rw [h]
  rfl

theorem run_unify_error {e : Engine} {expected ty : TermId} {err : Error}
    (h : (s.unify e.levels expected ty).run m = (.error err, m₁)) :
    (e.unify m expected ty).run s = (.error err, s) := by
  have hget : (get : Attempt Store).run s = (.ok s, s) := rfl
  unfold Engine.unify
  rw [run_bind, hget]
  dsimp only
  rw [h]
  rfl

/-- Whatever the position is, its argument is looked at first. -/
theorem ensures_supply_comptime {β : Type} {post : β → Store → Prop} {index : Nat}
    {rest : Matching → Attempt β} (hdepth : ∀ e, Error.IsDepth e → tolerated e)
    (hunknown : slot.comptime = true → s.isValue arg = false →
      tolerated (.comptimeArgumentUnavailable index))
    (hvacant : ∀ v ∈ m.undetermined, m.context.innermost.get? v = none)
    (harg : slot.comptime = true → s.Reduced [] arg)
    (hrest : ∀ s₁, s.Precedes s₁ → (slot.comptime = true → s₁.isValue arg = true) →
      Ensures tolerated post (rest (m.supplied slot arg)) s₁) :
    Ensures tolerated post
      (do
        let m ← if slot.comptime then (ofLevels n).supplyComptime .root m index arg slot else pure m
        rest m) s := by
  by_cases hcomptime : slot.comptime = true
  · rw [if_pos hcomptime]
    refine .bind (ensures_supplyComptime hdepth (hunknown hcomptime) hvacant (harg hcomptime)
      hcomptime) fun m₁ s₁ h₁ hm₁ => ?_
    obtain ⟨rfl, hvalue⟩ := hm₁
    exact hrest s₁ h₁ fun _ => hvalue
  · have hsame : m.supplied slot arg = m :=
      (m.supplied_cases slot arg).resolve_right fun h => hcomptime h.1
    rw [hsame] at hrest
    rw [if_neg hcomptime]
    exact .withCertain fun hs => hrest s (.refl hs.toIntact) fun h => absurd h hcomptime

/-- The state after an argument, with a record of how it came about. -/
theorem ensures_supply {index : Nat} (hm : m.Fits s vars) (htype : s.Inferred arg (types arg))
    (harg : slot.comptime = true → s.Reduced [] arg) (hslot : s.Schema vars slot.ty) :
    Ensures (fun _ => True)
      (fun r s' => r.1.Fits s' vars ∧ s'.Supply types vars m arg slot r.1)
      ((ofLevels n).supply .root m index arg slot) s := by
  refine ensures_supply_comptime (fun _ _ => trivial) (fun _ _ => trivial) hm.vacant harg
    fun s₁ h₁ hvalue => ?_
  have hm₁ := (hm.supplied harg).mono h₁.toExtends
  have htype₁ := htype.mono h₁
  refine .bind ((ensures_infer_remembered htype₁.closed htype₁.remembered).tolerate
    fun _ _ => trivial) fun ty s₂ h₂ heq => ?_
  subst heq
  have hle₂ := h₁.trans h₂
  refine .bind ((ensures_compile_fits (hslot.mono hle₂.toExtends) (hm₁.mono h₂.toExtends)).tolerate
    fun _ _ => trivial) fun expected s₃ h₃ hinstance => .withCertain fun hs₃ => ?_
  have hle₃ := hle₂.trans h₃
  have hm₃ := (hm₁.mono h₂.toExtends).mono h₃.toExtends
  have hslot₃ := hslot.mono hle₃.toExtends
  have hexpected := hinstance.schema hs₃.toIntact hslot₃ hm₃.fills.closed fun v hv _ => hv
  have hargType := (htype.mono hle₃).reduced
  rcases hrun : (s₃.unify (ofLevels n).levels expected (types arg)).run (m.supplied slot arg)
    with ⟨e | u, m₁⟩
  · have hfails : Ensures (fun _ => True) (fun _ _ => False)
        ((ofLevels n).unify (m.supplied slot arg) expected (types arg)) s₃ :=
      .fails (run_unify_error hrun) trivial
    exact .bind hfails fun _ _ _ h => h.elim
  -- Matching from the state itself says how the state looks afterwards.
  have hsame : Related s₃ s₃ vars vars (m.supplied slot arg) (m.supplied slot arg) :=
    ⟨hm₃, hm₃, .refl vars _⟩
  have hagain := again_unify (.refl s₃) (List.Subset.refl vars) _ (ofLevels n).levels
    hexpected.reduced hargType _ _ m₁ hsame hrun
  obtain hdeep | ⟨m₁', hrun', hrelated⟩ := hagain
  · obtain ⟨limit, hdeep⟩ := hdeep
    rw [hrun] at hdeep
    cases hdeep
  obtain rfl : m₁' = m₁ := by
    rw [hrun] at hrun'
    cases hrun'
    rfl
  have hsupply : s₃.Supply types vars m arg slot m₁' := by
    refine ⟨fun hcomptime => ⟨(harg hcomptime).mono hle₃.toExtends, ?_⟩, expected, s₃, _, hinstance,
      hs₃.toLinked, .refl s₃, hm₃, hexpected.allocated, hargType, hrun⟩
    have harg₁ := (harg hcomptime).mono h₁.toExtends
    exact ((h₂.trans h₃).isValue_eq harg₁.allocated).trans (hvalue hcomptime)
  -- The state is looked up again, to resolve the position.
  refine .reads (run_unify_ok hrun) ?_
  refine .bind ((ensures_compile_fits hslot₃ hrelated.fits).tolerate fun _ _ => trivial)
    fun ty s₅ h₅ _ => .pure ?_
  exact ⟨hrelated.fits.mono h₅.toExtends, hsupply.mono h₅.toExtends⟩

/-- An argument that was supplied once is supplied again. -/
theorem ensures_supply_again {index : Nat} (h : s.Supply types vars m arg slot m₁)
    (hslot : s.Instantiated scope σ slot slot') (hsight : s.Sight scope vars' σ m)
    (hsub : vars' ⊆ vars) (hm' : m'.Fits s vars') (htracks : Tracks vars' m m')
    (htype : s.Inferred arg (types arg)) :
    Ensures Error.IsDepth (fun r s' => r.1.Fits s' vars' ∧ Tracks vars' m₁ r.1)
      ((ofLevels n).supply .root m' index arg slot') s := by
  have hknown : slot'.comptime = true → s.Reduced [] arg ∧ s.isValue arg = true :=
    fun hcomptime => h.known (hslot.comptime ▸ hcomptime)
  refine .withCertain fun hs => ?_
  obtain ⟨expected, s₀, levels, hinstance, hs₀, hle₀, hfits₀, hexpected₀, hargType, hrun⟩ :=
    h.matched
  have hsight' : s.Sight scope vars' σ (m.supplied slot arg) :=
    ⟨hsight.closed, hsight.inSight, fun v hv u hu => filling_supplied (hsight.filled v hv u hu)⟩
  have htracks' : Tracks vars' (m.supplied slot arg) (m'.supplied slot' arg) :=
    htracks.supplied hm'.within hslot.comptime hslot.binds
  have hschema : s.Schema vars' slot'.ty :=
    hslot.type.schema hs.toIntact hslot.schema hsight.closed hsight.inSight
  refine ensures_supply_comptime (fun _ he => he) (fun hcomptime hvalue => ?_) hm'.vacant
    (fun hcomptime => (hknown hcomptime).1) fun s₁ h₁ _ => ?_
  · rw [(hknown hcomptime).2] at hvalue
    cases hvalue
  have hm₁ := (hm'.supplied fun hcomptime => (hknown hcomptime).1).mono h₁.toExtends
  refine .bind (ensures_infer_remembered (htype.mono h₁).closed (htype.mono h₁).remembered)
    fun ty s₂ h₂ heq => ?_
  subst heq
  have hle₂ := h₁.trans h₂
  have hm₂ := hm₁.mono h₂.toExtends
  refine .bind (ensures_compile_fits (hschema.mono hle₂.toExtends) hm₂)
    fun expected' s₃ h₃ hinstance' => .withCertain fun hs₃ => ?_
  have hle₃ := (hle₂.trans h₃).toExtends
  have hm₃ := hm₂.mono h₃.toExtends
  -- The position was instantiated in part, and comes to the type that was expected before.
  obtain rfl : expected' = expected := (hinstance.mono hle₃).again hs₃.toCanonical
    (hslot.schema.mono hle₃) (hsight'.mono hle₃) htracks' (hslot.type.mono hle₃) hinstance'
  have hexpected : s₀.Reduced vars' expected' := Reduced.before (hinstance'.schema hs₃.toIntact
    (hschema.mono hle₃) hm₃.fills.closed fun v hv _ => hv).reduced hs₀ (hle₀.trans hle₃) hexpected₀
  rcases again_unify (hle₀.trans hle₃) hsub levels (ofLevels n).levels hexpected hargType _ _ m₁
    ⟨hfits₀, hm₃, htracks'⟩ hrun with ⟨limit, hdeep⟩ | ⟨m₁', hrun', hrelated⟩
  · have hfails : Ensures Error.IsDepth (fun _ _ => False)
        ((ofLevels n).unify (m'.supplied slot' arg) expected' (types arg)) s₃ := by
      rcases hmatch : (s₃.unify (ofLevels n).levels expected' (types arg)).run
        (m'.supplied slot' arg) with ⟨e | u, m₂⟩ <;> rw [hmatch] at hdeep <;> cases hdeep
      exact .fails (run_unify_error hmatch) ⟨limit, rfl⟩
    exact .bind hfails fun _ _ _ h => h.elim
  · refine .reads (run_unify_ok hrun') ?_
    refine .bind (ensures_compile_fits (hschema.mono hle₃) hrelated.fits') fun ty s₄ h₄ _ => ?_
    exact .pure ⟨hrelated.fits'.mono h₄.toExtends, hrelated.tracks⟩

/-! ## All arguments -/

/-- The state after all arguments, with a record of how it came about. -/
theorem ensures_supplyAll {index : Nat} {pairs : List (TermId × Slot TermId)} (hm : m.Fits s vars)
    (htypes : ∀ p ∈ pairs, s.Inferred p.1 (types p.1))
    (hargs : ∀ p ∈ pairs, p.2.comptime = true → s.Reduced [] p.1)
    (hslots : ∀ p ∈ pairs, s.Schema vars p.2.ty) :
    Ensures (fun _ => True)
      (fun r s' => r.1.Fits s' vars ∧ s'.Supplies types vars m pairs r.1)
      ((ofLevels n).supplyAll .root m index pairs) s := by
  induction pairs generalizing s m index with
  | nil => exact .pure ⟨hm, .nil⟩
  | cons p rest ih =>
    obtain ⟨htype, htypes⟩ := List.forall_mem_cons.1 htypes
    obtain ⟨harg, hargs⟩ := List.forall_mem_cons.1 hargs
    obtain ⟨hslot, hslots⟩ := List.forall_mem_cons.1 hslots
    refine .bind (ensures_supply hm htype harg hslot) fun r s₁ h₁ hr => ?_
    refine .bind (ih hr.1 (fun q hq => (htypes q hq).mono h₁)
      (fun q hq hcomptime => (hargs q hq hcomptime).mono h₁.toExtends)
      fun q hq => (hslots q hq).mono h₁.toExtends) fun q s₂ h₂ hq => .pure ⟨hq.1, ?_⟩
    exact .cons (hr.2.mono h₂.toExtends) hq.2

/-- Arguments that were supplied once are supplied again. -/
theorem ensures_supplyAll_again {index : Nat} {args : List TermId}
    {slots slots' : List (Slot TermId)} (h : s.Supplies types vars m (args.zip slots) m₁)
    (hslots : List.Forall₂ (s.Instantiated scope σ) slots slots') (hsight : s.Sight scope vars' σ m)
    (hsub : vars' ⊆ vars) (hm' : m'.Fits s vars') (htracks : Tracks vars' m m')
    (htypes : ∀ arg ∈ args, s.Inferred arg (types arg)) :
    Ensures Error.IsDepth (fun r s' => r.1.Fits s' vars' ∧ Tracks vars' m₁ r.1)
      ((ofLevels n).supplyAll .root m' index (args.zip slots')) s := by
  induction args generalizing s m m' index slots slots' with
  | nil =>
    cases h
    exact .pure ⟨hm', htracks⟩
  | cons arg rest ih =>
    cases hslots with
    | nil =>
      cases h
      exact .pure ⟨hm', htracks⟩
    | cons hslot hslots =>
      cases h with
      | cons hsupply hsupplies =>
        obtain ⟨htype, htypes⟩ := List.forall_mem_cons.1 htypes
        refine .bind (ensures_supply_again hsupply hslot hsight hsub hm' htracks htype)
          fun r s₁ h₁ hr => ?_
        have hle := h₁.toExtends
        have hsight₁ : s₁.Sight scope vars' σ _ := ⟨(hsight.mono hle).closed, hsight.inSight,
          fun v hv u hu => hsupply.filling (hsight.filled v hv u hu)⟩
        exact .bind (ih (hsupplies.mono hle) (hslots.imp fun _ _ h => h.mono hle) hsight₁ hr.1 hr.2
          fun arg harg => (htypes arg harg).mono h₁) fun q s₂ h₂ hq => .pure hq

end Attempt

end StagedCalculus
