import StagedCalculus.Proofs.Staging.Genuine

/-!
# New stores

A new store holds the terms that every store has, the built-in natives, and whatever terms and
variables were built since. Nothing was asked of it, so no answer is remembered
(`Store.Built.types_eq`).
-/

namespace StagedCalculus

namespace Store

/-- Stores in which terms were built and nothing was asked for. -/
inductive Built : Store → Prop
  | initial (config : Config) : Built (initial config)
  | intern {s : Store} {shape : Shape TermId} : Built s → s.Covers shape → Built (s.intern shape).2
  | freshVariable {s : Store} (comptime : Bool) (name : Option String) : Built s →
      Built (s.freshVariable comptime name).2
  | freshNamedType {s : Store} (name : String) : Built s → Built (s.freshNamedType name).2
  | builtin {s : Store} (name : String) : Built s → Built (s.builtin name).2
  | redirect {s : Store} (sink : Sink) : Built s → Built (s.redirect sink)

variable {s : Store}

theorem Built.genuine (h : s.Built) : s.Genuine := by
  induction h with
  | initial config => exact .initial config
  | intern _ hshape ih => exact .intern ih hshape
  | freshVariable comptime name _ ih => exact .freshVariable comptime name ih
  | freshNamedType name _ ih => exact .freshNamedType name ih
  | builtin name _ ih => exact .builtin name ih
  | redirect sink _ ih => exact .redirect sink ih

/-- One more term. The conditions on all of them are collected, to be checked at once. -/
theorem Built.add {conditions : Prop} {shape : Shape TermId} (h : conditions → s.Built)
    (hchecks : conditions ∧ s.Covers shape) : (s.intern shape).2.Built :=
  .intern (h hchecks.1) hchecks.2

/-! ## The initial store -/

/-- What the constructors of terms, variables and natives keep of the rest of a store. -/
structure Untouched (s s' : Store) : Prop where
  types : s'.types = s.types
  config : s'.config = s.config

theorem Untouched.trans {s' s'' : Store} (h : s.Untouched s') (h' : s'.Untouched s'') :
    s.Untouched s'' := ⟨h'.types.trans h.types, h'.config.trans h.config⟩

theorem untouched_intern (s : Store) (shape : Shape TermId) : s.Untouched (s.intern shape).2 :=
  ⟨types_intern s shape, config_intern s shape⟩

seal intern in
theorem untouched_genericSlots (s : Store) (params : List (String × Bool)) :
    s.Untouched ((Build.genericSlots params).run s).2 := by
  induction params generalizing s with
  | nil => exact ⟨rfl, rfl⟩
  | cons p rest ih =>
    have hvariable : s.Untouched (s.freshVariable true (some p.1)).2 := ⟨rfl, rfl⟩
    exact (hvariable.trans (untouched_intern _ _)).trans (ih _)

theorem untouched_registered (s : Store) (native : Native) (signature : TermId) :
    s.Untouched (s.register native signature).2 := by
  have hnatives : s.Untouched { s with natives := s.natives.push ⟨native, signature⟩ } := ⟨rfl, rfl⟩
  exact hnatives.trans (untouched_intern _ _)

seal intern Build.genericSlots in
theorem untouched_register (s : Store) (native : Native) (params : List (String × Bool)) :
    s.Untouched ((Build.register native params).run s).2 :=
  (((untouched_genericSlots s params).trans (untouched_intern _ _)).trans (untouched_intern _ _)).trans
    (untouched_registered _ _ _)

seal intern Build.register in
theorem untouched_initial (config : Config) : (empty config).Untouched (initial config) := by
  have hcommon : (empty config).Untouched (Build.commonTerms.run (empty config)).2 :=
    ((((untouched_intern _ _).trans (untouched_intern _ _)).trans (untouched_intern _ _)).trans
      (untouched_intern _ _)).trans (untouched_intern _ _)
  exact (((hcommon.trans (untouched_register _ _ _)).trans (untouched_register _ _ _)).trans
    (untouched_register _ _ _)).trans (untouched_register _ _ _)

seal intern in
theorem extends_genericSlots (s : Store) (params : List (String × Bool)) :
    s.Extends ((Build.genericSlots params).run s).2 := by
  induction params generalizing s with
  | nil => exact .refl s
  | cons p rest ih =>
    exact ((extends_freshVariable s true (some p.1)).trans (extends_intern _ _)).trans (ih _)

seal intern Build.genericSlots in
theorem extends_registerGeneric (s : Store) (native : Native) (params : List (String × Bool)) :
    s.Extends ((Build.register native params).run s).2 :=
  (((extends_genericSlots s params).trans (extends_intern _ _)).trans (extends_intern _ _)).trans
    (extends_register _ _ _)

seal Build.commonTerms Build.register in
theorem extends_commonTerms (config : Config) :
    (Build.commonTerms.run (empty config)).2.Extends (initial config) :=
  (((extends_registerGeneric _ _ _).trans (extends_registerGeneric _ _ _)).trans
    (extends_registerGeneric _ _ _)).trans (extends_registerGeneric _ _ _)

theorem config_initial (config : Config) : (initial config).config = config :=
  (untouched_initial config).config

/-! ## What is known of new stores -/

theorem natives_builtin (s : Store) (name : String) : (s.builtin name).2.natives = s.natives := by
  unfold builtin
  split
  · exact natives_intern s _
  · rfl

theorem untouched_builtin (s : Store) (name : String) : s.Untouched (s.builtin name).2 := by
  unfold builtin
  split
  · exact untouched_intern s _
  · exact ⟨rfl, rfl⟩

theorem extends_builtin (s : Store) (name : String) : s.Extends (s.builtin name).2 := by
  unfold builtin
  split
  · exact extends_intern s _
  · exact .refl s

/-- A store that grew from the initial one, and has its natives only. -/
structure Standard (s : Store) : Prop where
  natives : s.natives = (Store.initial s.config).natives
  extends_initial : (Store.initial s.config).Extends s

namespace Built

theorem types_eq (h : s.Built) : s.types = .empty := by
  induction h with
  | initial config => exact (untouched_initial config).types
  | intern _ _ ih => exact (types_intern _ _).trans ih
  | freshVariable _ _ _ ih => exact ih
  | freshNamedType _ _ ih => exact (types_intern _ _).trans ih
  | builtin name _ ih => exact (untouched_builtin _ name).types.trans ih
  | redirect _ _ ih => exact ih

theorem natives_eq (h : s.Built) : s.natives = (Store.initial s.config).natives := by
  induction h with
  | initial config => rw [config_initial]
  | intern _ _ ih => rw [natives_intern, config_intern, ih]
  | freshVariable _ _ _ ih => exact ih
  | freshNamedType _ _ ih =>
    rw [Store.freshNamedType, natives_intern, config_intern]
    exact ih
  | builtin name _ ih => rw [natives_builtin, (untouched_builtin _ name).config, ih]
  | redirect _ _ ih => exact ih

/-- New stores still have everything of the initial one. -/
theorem extends_initial (h : s.Built) : (Store.initial s.config).Extends s := by
  induction h with
  | initial config =>
    rw [config_initial]
    exact .refl _
  | intern _ _ ih =>
    rw [config_intern]
    exact ih.trans (extends_intern _ _)
  | freshVariable comptime name _ ih => exact ih.trans (extends_freshVariable _ comptime name)
  | freshNamedType name _ ih =>
    rw [Store.freshNamedType, config_intern]
    exact ih.trans (extends_freshNamedType _ _)
  | builtin name _ ih =>
    rw [(untouched_builtin _ name).config]
    exact ih.trans (extends_builtin _ name)
  | redirect sink _ ih => exact ih.trans (.of_eq rfl rfl rfl)

/-- So its natives are those that every store starts with. -/
theorem standard (h : s.Built) : s.Standard := ⟨h.natives_eq, h.extends_initial⟩

end Built

namespace Standard

theorem nativeFunctions_eq (h : s.Standard) :
    s.nativeFunctions = [Native.cast, Native.project, Native.cimport, Native.printf] :=
  (nativeFunctions_congr h.natives).trans (nativeFunctions_initial _)

/-- The natives of the initial store look at the shapes of handles only. -/
theorem natives_alike (h : s.Standard) {C : Correspondence} (hC : C.Stable) {s₁ s₁' : Store}
    {id : NativeId} {registered : RegisteredNative} (hid : s.native? id = some registered) :
    C.Natives s₁ s₁' registered.native registered.native := by
  have hmem := mem_nativeFunctions hid
  rw [h.nativeFunctions_eq] at hmem
  simp only [List.mem_cons, List.not_mem_nil, or_false] at hmem
  rcases hmem with hname | hname | hname | hname <;> rw [hname]
  · exact Correspondence.natives_cast hC
  · exact Correspondence.natives_project hC
  · exact Correspondence.natives_cimport hC
  · exact Correspondence.natives_printf hC

end Standard

/-- A new store, and what was built in it. -/
structure Setup (α : Type) where
  value : α
  store : Store
  built : store.Built

end Store

/-- What the construction comes to in an initial store. -/
def Build.setup {α : Type} (c : Build α) (h : (c.run (.initial {})).2.Built) : Store.Setup α :=
  ⟨(c.run (.initial {})).1, (c.run (.initial {})).2, h⟩

end StagedCalculus
