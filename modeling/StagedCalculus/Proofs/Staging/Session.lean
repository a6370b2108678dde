import StagedCalculus.Proofs.Staging.Built

/-!
# Sessions

A session is everything that is done to a store between two moments: terms are built, natives are
registered, judgments are asked for and answers are remembered, in any order and with any outcome.
The computation of an answer may itself go on with the session.

* `Store.Session.retains`: a session only adds to a store, also where one of its steps fails half
  way;
* `Store.Refers`, `Store.builtin_spec`: a name refers to the latest native registered under it;
* `Store.Session.append_only`: what can be relied on after any session.
-/

namespace StagedCalculus

namespace Store

variable {s s' s'' : Store}

/-! ## What a store retains -/

/-- Every term, variable, native and remembered answer of one store is in the other one, under the
same handle or key, and the settings are the same. -/
structure Retains (s s' : Store) : Prop extends s.Extends s' where
  types : ∀ t restriction answer,
    s.types.get? t restriction = some answer → s'.types.get? t restriction = some answer
  config : s'.config = s.config

namespace Retains

theorem refl (s : Store) : s.Retains s := ⟨.refl s, fun _ _ _ h => h, rfl⟩

theorem trans (h : s.Retains s') (h' : s'.Retains s'') : s.Retains s'' where
  toExtends := h.toExtends.trans h'.toExtends
  types t restriction answer hget :=
    h'.types t restriction answer (h.types t restriction answer hget)
  config := h'.config.trans h.config

theorem of_untouched (hextends : s.Extends s') (h : s.Untouched s') : s.Retains s' :=
  ⟨hextends, fun t restriction answer hget => by rwa [h.types], h.config⟩

theorem of_evolves {quiet : Store → Prop} {hidden : List VarId} (h : s.Evolves quiet hidden s') :
    s.Retains s' := ⟨h.later, h.types, h.config⟩

end Retains

/-! ## Remembering an answer -/

/-- A computation whose answer is remembered is not run if there is an answer already. Otherwise
nothing but its answer is added to what it leaves behind, under a key that was free before. -/
theorem remembered_cases (s : Store) (t : TermId) (restriction : Restriction)
    (compute : Attempt TermId) :
    ((Attempt.remembered t restriction compute).run s).2 = s ∨
    ((Attempt.remembered t restriction compute).run s).2 = (compute.run s).2 ∨
    s.types.get? t restriction = none ∧
      ((Attempt.remembered t restriction compute).run s).2 =
        { (compute.run s).2 with
          types := (compute.run s).2.types.insert t restriction (compute.run s).1 } := by
  cases hget : s.types.get? t restriction with
  | some answer => exact Or.inl (by rw [Attempt.run_remembered_hit hget])
  | none =>
    by_cases hdepth : ∃ limit, (compute.run s).1 = .error (.depthExceeded limit)
    · obtain ⟨limit, hlimit⟩ := hdepth
      exact Or.inr (Or.inl (by rw [Attempt.run_remembered_depth hget (Prod.ext hlimit rfl)]))
    · refine Or.inr (Or.inr ⟨rfl, ?_⟩)
      have hmiss := Attempt.run_remembered_miss hget (Prod.mk.eta (p := compute.run s)).symm
        fun limit hlimit => hdepth ⟨limit, hlimit⟩
      rw [hmiss]

theorem Retains.remembered {t : TermId} {restriction : Restriction} {compute : Attempt TermId}
    (h : s.Retains (compute.run s).2) :
    s.Retains ((Attempt.remembered t restriction compute).run s).2 := by
  rcases remembered_cases s t restriction compute with heq | heq | ⟨hfree, heq⟩ <;> rw [heq]
  · exact .refl s
  · exact h
  · refine ⟨⟨h.entries, h.vars, h.natives⟩, fun t' restriction' answer hget => ?_, h.config⟩
    -- The key was free before, so it is not the one that is looked up.
    rw [TypeCache.get?_insert, if_neg]
    · exact h.types t' restriction' answer hget
    · rintro ⟨rfl, rfl⟩
      rw [hfree] at hget
      cases hget

theorem intact_remembered {t : TermId} {restriction : Restriction} {compute : Attempt TermId}
    (hs : s.Intact) (h : (compute.run s).2.Intact)
    (hanswer : ∀ ty, (compute.run s).1 = .ok ty → (compute.run s).2.Allocated ty) :
    ((Attempt.remembered t restriction compute).run s).2.Intact := by
  rcases remembered_cases s t restriction compute with heq | heq | ⟨-, heq⟩ <;> rw [heq]
  · exact hs
  · exact h
  · exact intact_remember h hanswer

/-! ## Sessions -/

/-- A session leads from one store to another. Every handle that is passed to a step was given out
by the store before. In the last constructor the computation of an answer is a session too. -/
inductive Session : Store → Store → Prop
  | nothing (s : Store) : Session s s
  | intern {s s₁ : Store} {shape : Shape TermId} : Session s s₁ → s₁.Covers shape →
      Session s (s₁.intern shape).2
  | freshVariable {s s₁ : Store} (comptime : Bool) (name : Option String) : Session s s₁ →
      Session s (s₁.freshVariable comptime name).2
  | freshNamedType {s s₁ : Store} (name : String) : Session s s₁ →
      Session s (s₁.freshNamedType name).2
  | register {s s₁ : Store} {native : Native} {signature : TermId} {captured : List Handle} :
      Session s s₁ → native.Grounded captured → (∀ handle ∈ captured, s₁.Owns handle) →
      s₁.Allocated signature → Session s (s₁.register native signature).2
  | builtin {s s₁ : Store} (name : String) : Session s s₁ → Session s (s₁.builtin name).2
  | redirect {s s₁ : Store} (sink : Sink) : Session s s₁ → Session s (s₁.redirect sink)
  | write {s s₁ : Store} (text : String) : Session s s₁ → Session s (s₁.write text).2
  | infer {s s₁ : Store} {ctx : Context} {t : TermId} : Session s s₁ →
      (∀ handle ∈ ctx.handles, s₁.Owns handle) → s₁.Allocated t →
      Session s ((Attempt.infer ctx t).run s₁).2
  | reduce {s s₁ : Store} {mode : Mode} {ctx : Context} {t : TermId} : Session s s₁ →
      (∀ handle ∈ ctx.handles, s₁.Owns handle) → s₁.Allocated t →
      Session s ((Attempt.reduce mode ctx t).run s₁).2
  | resolve {s s₁ : Store} {ctx : Context} {callee : TermId} {args : List TermId} : Session s s₁ →
      (∀ handle ∈ ctx.handles, s₁.Owns handle) → s₁.Allocated callee →
      (∀ arg ∈ args, s₁.Allocated arg) → Session s ((Attempt.resolve ctx callee args).run s₁).2
  | observed {s s₁ : Store} {ctx : Context} {t : TermId} : Session s s₁ →
      (∀ handle ∈ ctx.handles, s₁.Owns handle) → s₁.Allocated t →
      Session s ((Attempt.observed ctx t).run s₁).2
  | unify {s s₁ : Store} {m : Matching} {expected arg : TermId} : Session s s₁ →
      Session s ((Attempt.unify m expected arg).run s₁).2
  | remembered {s s₁ : Store} {t : TermId} {restriction : Restriction} {compute : Attempt TermId} :
      Session s s₁ → Session s₁ (compute.run s₁).2 →
      (∀ ty, (compute.run s₁).1 = .ok ty → (compute.run s₁).2.Allocated ty) →
      Session s ((Attempt.remembered t restriction compute).run s₁).2

/-- A session led to every new store. -/
theorem Built.session (h : s.Built) : ∃ config, Session (Store.initial config) s := by
  induction h with
  | initial config => exact ⟨config, .nothing _⟩
  | intern _ hshape ih => exact ih.imp fun _ hs => .intern hs hshape
  | freshVariable comptime name _ ih => exact ih.imp fun _ hs => .freshVariable comptime name hs
  | freshNamedType name _ ih => exact ih.imp fun _ hs => .freshNamedType name hs
  | builtin name _ ih => exact ih.imp fun _ hs => .builtin name hs
  | redirect sink _ ih => exact ih.imp fun _ hs => .redirect sink hs

end Store

/-! ## The judgments -/

/-- Contexts of owned handles bind terms of the store. -/
theorem Context.within_of_handles {ctx : Context} {s : Store}
    (h : ∀ handle ∈ ctx.handles, s.Owns handle) : ctx.Within s := by
  intro v t hget
  obtain ⟨frame, hframe, hfind⟩ := List.exists_of_findSome?_eq_some hget
  obtain ⟨b, hb, rfl⟩ := Option.map_eq_some_iff.1 hfind
  have hmem : b ∈ ctx.frames.flatten :=
    List.mem_flatten.2 ⟨frame, hframe, List.mem_of_find?_eq_some hb⟩
  exact h (.term b.2) (List.mem_flatMap.2 ⟨b, hmem, by simp⟩)

namespace Attempt

variable {s : Store} {ctx : Context} {t : TermId}

theorem keeps_observed (hctx : ctx.Within s) (ht : s.Allocated t) :
    Keeps Store.Honest [] (Same fun _ _ => True) (observed ctx t) (observed ctx t) s := by
  refine .restrict hctx.alike (.nil ht) (fun s' u hgrows hu => ?_) ?_
  · have hwithin : ctx.Within s' := fun v value hget => hgrows.allocated (hctx v value hget)
    exact (keeps_infer hwithin hu.allocated).impSame fun _ _ _ _ => trivial
  · intro s' value value' ty _ hvalue hvalue'
    exact .reads rfl (((Engine.inStep_ofLevels _).known hvalue hvalue').impSame
      fun _ _ _ _ => trivial)

end Attempt

namespace Store

variable {config : Config} {s s' : Store}

/-! ## A session only adds -/

/-- Every step keeps the store intact and everything that was in it, however it ends. -/
theorem Session.retains (h : Session s s') (hs : s.Intact) : s'.Intact ∧ s.Retains s' := by
  induction h with
  | nothing s => exact ⟨hs, .refl s⟩
  | intern _ hshape ih =>
    obtain ⟨hs₁, h₁⟩ := ih hs
    exact ⟨intact_intern hs₁ hshape,
      h₁.trans (.of_untouched (extends_intern _ _) (untouched_intern _ _))⟩
  | freshVariable comptime name _ ih =>
    obtain ⟨hs₁, h₁⟩ := ih hs
    exact ⟨intact_freshVariable hs₁ comptime name,
      h₁.trans (.of_untouched (extends_freshVariable _ comptime name) ⟨rfl, rfl⟩)⟩
  | freshNamedType name _ ih =>
    obtain ⟨hs₁, h₁⟩ := ih hs
    exact ⟨intact_freshNamedType hs₁ name,
      h₁.trans (.of_untouched (extends_freshNamedType _ name)
        ⟨types_intern _ _, config_intern _ _⟩)⟩
  | register _ hnative hcaptured hsignature ih =>
    obtain ⟨hs₁, h₁⟩ := ih hs
    refine ⟨intact_register hs₁ (fun t ht => hcaptured _ (Handle.mem_terms.1 ht)) hnative.confined
      (Correspondence.natives_reflexive hnative hcaptured) hsignature, ?_⟩
    exact h₁.trans (.of_untouched (extends_register _ _ _) (untouched_registered _ _ _))
  | builtin name _ ih =>
    obtain ⟨hs₁, h₁⟩ := ih hs
    exact ⟨intact_builtin hs₁ name,
      h₁.trans (.of_untouched (extends_builtin _ name) (untouched_builtin _ name))⟩
  | redirect sink _ ih =>
    obtain ⟨hs₁, h₁⟩ := ih hs
    exact ⟨intact_output hs₁ _, h₁.trans
      (.of_untouched (.of_eq rfl rfl rfl) ⟨rfl, rfl⟩)⟩
  | @write _ s₁ text _ ih =>
    obtain ⟨hs₁, h₁⟩ := ih hs
    obtain ⟨output, houtput⟩ := write_cases s₁ text
    refine ⟨intact_write hs₁ text, h₁.trans ?_⟩
    rw [houtput]
    exact .of_untouched (.of_eq rfl rfl rfl) ⟨rfl, rfl⟩
  | infer _ hctx ht ih =>
    obtain ⟨hs₁, h₁⟩ := ih hs
    have hkeeps := Attempt.keeps_infer (Context.within_of_handles hctx) ht
    exact ⟨Attempt.intact_infer hs₁ hctx ht, h₁.trans (.of_evolves (hkeeps.evolves hs₁.toClosed))⟩
  | @reduce _ s₁ mode ctx t _ hctx ht ih =>
    obtain ⟨hs₁, h₁⟩ := ih hs
    have hkeeps := @Attempt.keeps_reduce s₁ ctx mode t (Context.within_of_handles hctx) ht
    exact ⟨Attempt.intact_reduce hs₁ hctx ht, h₁.trans (.of_evolves (hkeeps.evolves hs₁.toClosed))⟩
  | resolve _ hctx hcallee hargs ih =>
    obtain ⟨hs₁, h₁⟩ := ih hs
    have hkeeps := Attempt.keeps_resolve (Context.within_of_handles hctx) hcallee hargs
    exact ⟨Attempt.intact_resolve hs₁ hctx hcallee hargs,
      h₁.trans (.of_evolves (hkeeps.evolves hs₁.toClosed))⟩
  | observed _ hctx ht ih =>
    obtain ⟨hs₁, h₁⟩ := ih hs
    have hkeeps := Attempt.keeps_observed (Context.within_of_handles hctx) ht
    exact ⟨Attempt.intact_observed hs₁ hctx ht,
      h₁.trans (.of_evolves (hkeeps.evolves hs₁.toClosed))⟩
  | unify _ ih => exact ih hs
  | remembered _ _ hanswer ih ihcompute =>
    obtain ⟨hs₁, h₁⟩ := ih hs
    obtain ⟨hs₂, h₂⟩ := ihcompute hs₁
    exact ⟨intact_remembered hs₁ hs₂ hanswer, h₁.trans h₂.remembered⟩

/-! ## The terms of every store -/

/-- The terms of every store are what their names say. -/
structure Common (s : Store) : Prop where
  typeOfTypes : s.shape typeOfTypes = .typeOfTypes
  unitType : s.shape unitType = .unitType
  bottomType : s.shape bottomType = .bottomType
  topType : s.shape topType = .topType
  comptimeType : s.shape comptimeType = .deferred Store.typeOfTypes .comptime

theorem Common.mono (h : s.Common) (hs : s.Closed) (hextends : s.Extends s') : s'.Common := by
  have hshape : ∀ i < 5, s'.shape ⟨i⟩ = s.shape ⟨i⟩ := fun i hi =>
    hextends.shape_eq (hs.allocated_common hi)
  exact ⟨(hshape 0 (by decide)).trans h.typeOfTypes, (hshape 1 (by decide)).trans h.unitType,
    (hshape 2 (by decide)).trans h.bottomType, (hshape 3 (by decide)).trans h.topType,
    (hshape 4 (by decide)).trans h.comptimeType⟩

theorem common_initial (config : Config) : (initial config).Common :=
  Common.mono (s := (Build.commonTerms.run (empty config)).2) ⟨rfl, rfl, rfl, rfl, rfl⟩
    (closed_commonTerms config) (extends_commonTerms config)

/-! ## Names of natives -/

/-- The name refers to the latest native that was registered under it. -/
structure Refers (s : Store) (name : String) (id : NativeId) : Prop where
  registered : ∃ entry, s.native? id = some entry ∧ entry.native.name = name
  latest : ∀ later entry, s.native? later = some entry → entry.native.name = name →
    later.index ≤ id.index

/-- The first match from the last native on is the latest one. -/
theorem find?_descending {p : NativeId → Bool} {n : Nat} {id : NativeId}
    (h : ((List.range n).reverse.map NativeId.mk).find? p = some id) :
    p id = true ∧ ∀ later : NativeId, later.index < n → p later = true →
      later.index ≤ id.index := by
  induction n with
  | zero => simp at h
  | succ n ih =>
    rw [List.range_succ, List.reverse_append, List.reverse_singleton, List.singleton_append,
      List.map_cons] at h
    by_cases hlast : p ⟨n⟩ = true
    · rw [List.find?_cons_of_pos hlast] at h
      cases h
      exact ⟨hlast, fun later hlater _ => Nat.le_of_lt_succ hlater⟩
    · rw [List.find?_cons_of_neg hlast] at h
      obtain ⟨hp, hlatest⟩ := ih h
      refine ⟨hp, fun later hlater hplater => hlatest later ?_ hplater⟩
      have hne : later.index ≠ n := fun heq => hlast (heq ▸ hplater)
      omega

theorem native?_lt {id : NativeId} {entry : RegisteredNative} (h : s.native? id = some entry) :
    id.index < s.natives.size := (Array.getElem?_eq_some_iff.1 h).1

theorem nativeName_of_native? {id : NativeId} {entry : RegisteredNative}
    (h : s.native? id = some entry) : s.nativeName id = entry.native.name := by
  simp [nativeName, h]

theorem refers_of_findNative? {name : String} {id : NativeId} (h : s.findNative? name = some id) :
    s.Refers name id := by
  obtain ⟨hname, hlatest⟩ := find?_descending h
  obtain ⟨entry, hget⟩ : ∃ entry, s.native? id = some entry :=
    ⟨_, Array.getElem?_eq_getElem (lt_of_findNative? h)⟩
  refine ⟨⟨entry, hget, ?_⟩, fun later entry hlater hentry => hlatest later (native?_lt hlater) ?_⟩
  · simpa [nativeName_of_native? hget] using hname
  · simpa [nativeName_of_native? hlater] using hentry

/-- The name of a registered native refers to some native, if not to this one. -/
theorem findNative?_isSome {id : NativeId} {entry : RegisteredNative}
    (h : s.native? id = some entry) : ∃ found, s.findNative? entry.native.name = some found := by
  refine Option.isSome_iff_exists.1 (List.find?_isSome.2 ⟨id, ?_, ?_⟩)
  · simpa using ⟨id.index, native?_lt h, rfl⟩
  · simpa using nativeName_of_native? h

theorem Refers.unique {name : String} {id id' : NativeId} (h : s.Refers name id)
    (h' : s.Refers name id') : id' = id := by
  obtain ⟨entry, hentry, hname⟩ := h.registered
  obtain ⟨entry', hentry', hname'⟩ := h'.registered
  exact congrArg NativeId.mk (Nat.le_antisymm (h.latest id' entry' hentry' hname')
    (h'.latest id entry hentry hname))

theorem Refers.findNative?_eq {name : String} {id : NativeId} (h : s.Refers name id) :
    s.findNative? name = some id := by
  obtain ⟨entry, hentry, rfl⟩ := h.registered
  obtain ⟨found, hfound⟩ := findNative?_isSome hentry
  rw [hfound, h.unique (refers_of_findNative? hfound)]

/-- A name gives the one leaf of the native that it refers to. -/
theorem Refers.builtin_eq {name : String} {id : NativeId} (h : s.Refers name id)
    (hs : s.Canonical) :
    ∃ t, (s.builtin name).1 = some t ∧ (s.builtin name).2.shape t = .native id ∧
      ∀ leaf, s.Allocated leaf → s.shape leaf = .native id → leaf = t := by
  refine ⟨(s.intern (.native id)).1, ?_, ?_, fun leaf hleaf hshape => ?_⟩
  · rw [builtin, h.findNative?_eq]
  · rw [builtin, h.findNative?_eq]
    exact shape_intern (by simp)
  · have hfind := hs.find?_iff.2 ⟨hleaf, hshape⟩
    simp [intern, hfind]

/-- A name keeps its native until another one is registered under it. -/
theorem Refers.later {name : String} {id : NativeId} (h : s.Refers name id)
    (hextends : s.Extends s') :
    ∃ id', s'.Refers name id' ∧ (id' = id ∨ s.natives.size ≤ id'.index) := by
  obtain ⟨entry, hentry, rfl⟩ := h.registered
  have hentry' := hextends.native?_eq hentry
  obtain ⟨found, hfound⟩ := findNative?_isSome hentry'
  have hfound := refers_of_findNative? hfound
  refine ⟨found, hfound, ?_⟩
  by_cases hold : found.index < s.natives.size
  · -- It was there before, so it is not later than the one that the name referred to.
    obtain ⟨entry'', hentry'', hname⟩ := hfound.registered
    have hget : s.native? found = some s.natives[found.index] := Array.getElem?_eq_getElem hold
    have heq : s.natives[found.index] = entry'' :=
      Option.some.inj ((hextends.native?_eq hget).symm.trans hentry'')
    have hle := h.latest found _ hget (by rw [heq, hname])
    have hge := hfound.latest id entry hentry' rfl
    exact Or.inl (congrArg NativeId.mk (Nat.le_antisymm hle hge))
  · exact Or.inr (Nat.le_of_not_lt hold)

/-! ## After a session -/

/-- Whatever is done to a store, and however it ends: the store keeps its terms with their free
variables, its variables, natives, remembered answers, settings and common terms; a name refers to
the latest native registered under it, and gives the one leaf of that native, while the leaf of an
earlier one still stands for the earlier one; and an answer that is remembered is given without
computing it. -/
theorem Session.append_only {config : Config} (hs : Session (initial config) s)
    (h : Session s s') :
    s.Retains s' ∧ s'.Common ∧ s'.config = config ∧
      (∀ name id, s.Refers name id →
        ∃ id', s'.Refers name id' ∧ (id' = id ∨ s.natives.size ≤ id'.index)) ∧
      (∀ name id, s'.Refers name id → ∃ t, (s'.builtin name).1 = some t ∧
        (s'.builtin name).2.shape t = .native id ∧
        ∀ leaf, s'.Allocated leaf → s'.shape leaf = .native id → leaf = t) ∧
      (∀ leaf id entry, s.shape leaf = .native id → s.native? id = some entry →
        s'.shape leaf = .native id ∧ s'.native? id = some entry) ∧
      (∀ t restriction answer, s.types.get? t restriction = some answer →
        ∀ compute, (Attempt.remembered t restriction compute).run s' = (answer, s')) := by
  obtain ⟨hintact, hbefore⟩ := hs.retains (intact_initial config)
  obtain ⟨hintact', hretains⟩ := h.retains hintact
  have hall := hbefore.trans hretains
  refine ⟨hretains, (common_initial config).mono (intact_initial config).toClosed hall.toExtends,
    hall.config.trans (config_initial config),
    fun name id hrefers => hrefers.later hretains.toExtends,
    fun name id hrefers => hrefers.builtin_eq hintact'.toCanonical,
    fun leaf id entry hshape hentry => ⟨?_, hretains.native?_eq hentry⟩,
    fun t restriction answer hget compute => ?_⟩
  · have hleaf : s.Allocated leaf := allocated_of_shape (by simp [hshape])
    rw [hretains.shape_eq hleaf, hshape]
  · exact Attempt.run_remembered_hit (hretains.types t restriction answer hget)

seal intern in
theorem session_castText : Session (initial {}) (castText.run (initial {})).2 := by
  have htext : (initial {}).Covers (.stringLiteral "a") :=
    covers_of_children rfl rfl (by simp [Shape.children])
  refine .intern (.intern (.nothing _) htext) ?_
  decide +kernel

/-- The cast is refused after the type of the text has entered the store. -/
theorem append_only_refusedCast :
    ∃ s t source target, Session (initial {}) s ∧
      ((Attempt.evaluate .root t).run s).1 = .error (.uncastableTypes source target) ∧
      s.entries.size < ((Attempt.evaluate .root t).run s).2.entries.size ∧
      s.Retains ((Attempt.evaluate .root t).run s).2 := by
  have hrun : Session (castText.run (initial {})).2
      ((Attempt.evaluate .root (castText.run (initial {})).1).run (castText.run (initial {})).2).2 :=
    .reduce (.nothing _) (List.forall_mem_nil _) (by decide +kernel)
  refine ⟨_, (castText.run (initial {})).1, "literal \"a\"", "Top", session_castText, ?_, ?_,
    (Session.append_only session_castText hrun).1⟩
  all_goals decide +kernel

end Store

end StagedCalculus
