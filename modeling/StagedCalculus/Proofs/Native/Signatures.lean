import StagedCalculus.Proofs.Staging.Yields

/-!
# Signatures of natives

The natives that every store starts with are registered under generic signatures, whatever the
settings are. This module follows these natives and their signatures into later stores.

* `Build.Oblivious`: constructions that do not read the settings;
* `Store.initial_eq`: initial stores differ in their settings only;
* `Store.Generic`: the signatures of `cimport` and `printf`, which take an argument of any type;
* `Store.Polymorphic`: signatures with so many positions;
* `Store.Standard.native?_cases`: the natives of a standard store, with the positions of each.
-/

namespace StagedCalculus

namespace Store

/-- The same store under other settings. -/
def configured (s : Store) (config : Config) : Store := { s with config }

theorem extends_configured (s : Store) (config : Config) : s.Extends (s.configured config) :=
  .of_eq rfl rfl rfl

theorem natives_configured (s : Store) (config : Config) :
    (s.configured config).natives = s.natives := rfl

theorem intern_configured (s : Store) (config : Config) (shape : Shape TermId) :
    (s.configured config).intern shape =
      ((s.intern shape).1, (s.intern shape).2.configured config) := by
  have hfind : (s.configured config).find? shape = s.find? shape := rfl
  unfold intern
  split
  · rfl
  · rw [hfind]
    cases s.find? shape <;> rfl

end Store

/-! ## Constructions and settings -/

namespace Build

open Store

variable {α β : Type}

/-- The construction does not read the settings. -/
def Oblivious (c : Build α) : Prop :=
  ∀ s config, c.run (s.configured config) = ((c.run s).1, (c.run s).2.configured config)

theorem Oblivious.bind {c : Build α} {f : α → Build β} (hc : c.Oblivious)
    (hf : ∀ a, (f a).Oblivious) : (c >>= f).Oblivious := by
  intro s config
  change (f (c.run (s.configured config)).1).run (c.run (s.configured config)).2 = _
  rw [hc]
  exact hf _ _ _

theorem oblivious_intern (shape : Shape TermId) : (intern shape).Oblivious :=
  fun s config => intern_configured s config shape

theorem oblivious_genericSlots (params : List (String × Bool)) :
    (genericSlots params).Oblivious := by
  induction params with
  | nil => exact fun _ _ => rfl
  | cons p rest ih =>
    refine .bind (fun _ _ => rfl) fun v => .bind (oblivious_intern _) fun ty => ?_
    exact .bind ih fun r _ _ => rfl

seal Store.intern in
theorem oblivious_register (native : Native) (params : List (String × Bool)) :
    (register native params).Oblivious := by
  refine .bind (.bind (oblivious_genericSlots params) fun r => ?_) fun signature s config => ?_
  · exact .bind (oblivious_intern _) fun function => oblivious_intern _
  · have hintern := intern_configured { s with natives := s.natives.push ⟨native, signature⟩ }
      config (.native ⟨s.natives.size⟩)
    exact hintern

theorem oblivious_commonTerms : commonTerms.Oblivious := by
  refine .bind (oblivious_intern _) fun ty => .bind (oblivious_intern _) fun _ => ?_
  refine .bind (oblivious_intern _) fun _ => .bind (oblivious_intern _) fun _ => ?_
  exact .bind (oblivious_intern _) fun _ _ _ => rfl

seal register in
theorem oblivious_builtinNatives : builtinNatives.Oblivious := by
  refine .bind (oblivious_register _ _) fun _ => .bind (oblivious_register _ _) fun _ => ?_
  exact .bind (oblivious_register _ _) fun _ => .bind (oblivious_register _ _) fun _ _ _ => rfl

end Build

namespace Store

variable {s s' : Store} {t : TermId} {n : Nat} {comptime : Bool}

seal Build.commonTerms Build.builtinNatives in
/-- Initial stores differ in their settings only. -/
theorem initial_eq (config : Config) : initial config = (initial {}).configured config := by
  have hall := Build.oblivious_commonTerms.bind fun _ => Build.oblivious_builtinNatives
  exact congrArg Prod.snd (hall (empty {}) config)

/-! ## Signatures -/

/-- The signature of a native with one position, which takes an argument of any type. -/
inductive Generic (s : Store) (comptime : Bool) (t : TermId) : Prop
  | signature {v : VarId} {function position : TermId} : s.shape t = .forAll [v] function →
      s.shape function = .functionType [⟨position, comptime, none⟩] topType →
      s.shape position = .variable v → (s.freeVariables function).contains v = true →
      (s.freeVariables t).isEmpty = true → Generic s comptime t

theorem Generic.mono (h : s.Generic comptime t) (hle : s.Extends s') : s'.Generic comptime t := by
  obtain ⟨hsignature, hfunction, hposition, hused, hclosed⟩ := h
  refine .signature (hle.shape_kept hsignature nofun) (hle.shape_kept hfunction nofun)
    (hle.shape_kept hposition nofun) ?_ ?_
  · rwa [hle.freeVariables_eq (allocated_of_shape_eq hfunction nofun)]
  · rwa [hle.freeVariables_eq (allocated_of_shape_eq hsignature nofun)]

theorem Generic.closed (h : s.Generic comptime t) : (s.freeVariables t).isEmpty = true := by
  obtain ⟨-, -, -, -, hclosed⟩ := h
  exact hclosed

theorem Generic.allocated (h : s.Generic comptime t) : s.Allocated t := by
  obtain ⟨hsignature⟩ := h
  exact allocated_of_shape_eq hsignature nofun

theorem generic_initial : (initial {}).Generic true (signatureOf cimportId) ∧
    (initial {}).Generic false (signatureOf printfId) := by
  have hcimport : (initial {}).shape (signatureOf cimportId) = .forAll [⟨4⟩] ⟨16⟩ ∧
      (initial {}).shape ⟨16⟩ = .functionType [⟨⟨15⟩, true, none⟩] topType ∧
      (initial {}).shape ⟨15⟩ = .variable ⟨4⟩ ∧
      ((initial {}).freeVariables ⟨16⟩).contains ⟨4⟩ = true ∧
      ((initial {}).freeVariables (signatureOf cimportId)).isEmpty = true := by decide +kernel
  have hprintf : (initial {}).shape (signatureOf printfId) = .forAll [⟨5⟩] ⟨20⟩ ∧
      (initial {}).shape ⟨20⟩ = .functionType [⟨⟨19⟩, false, none⟩] topType ∧
      (initial {}).shape ⟨19⟩ = .variable ⟨5⟩ ∧
      ((initial {}).freeVariables ⟨20⟩).contains ⟨5⟩ = true ∧
      ((initial {}).freeVariables (signatureOf printfId)).isEmpty = true := by decide +kernel
  obtain ⟨hsignature, hfunction, hposition, hused, hclosed⟩ := hcimport
  obtain ⟨hsignature', hfunction', hposition', hused', hclosed'⟩ := hprintf
  exact ⟨.signature hsignature hfunction hposition hused hclosed,
    .signature hsignature' hfunction' hposition' hused' hclosed'⟩

/-- A function type with so many positions, which quantifies over distinct variables. -/
inductive Polymorphic (s : Store) (n : Nat) (t : TermId) : Prop
  | signature {vars : List VarId} {slots : List (Slot TermId)} {function result : TermId} :
      s.shape t = .forAll vars function → vars.Nodup →
      s.shape function = .functionType slots result → slots.length = n → Polymorphic s n t

theorem Polymorphic.mono (h : s.Polymorphic n t) (hle : s.Extends s') : s'.Polymorphic n t := by
  obtain ⟨ht, hnodup, hfunction, hlength⟩ := h
  exact .signature (hle.shape_kept ht nofun) hnodup (hle.shape_kept hfunction nofun) hlength

/-- A signature has so many positions only. -/
theorem Polymorphic.unique {m : Nat} (h : s.Polymorphic n t) (h' : s.Polymorphic m t) : m = n := by
  obtain ⟨ht, -, hfunction, rfl⟩ := h
  obtain ⟨ht', -, hfunction', rfl⟩ := h'
  cases ht.symm.trans ht'
  cases hfunction.symm.trans hfunction'
  rfl

/-- The natives of the initial store, with their signatures. -/
theorem natives_initial : (initial {}).natives.toList =
    [⟨Native.cast, ⟨8⟩⟩, ⟨Native.project, ⟨13⟩⟩, ⟨Native.cimport, ⟨17⟩⟩,
      ⟨Native.printf, ⟨21⟩⟩] := by
  have hsignatures : (initial {}).natives.toList.map (·.signature) =
      [⟨8⟩, ⟨13⟩, ⟨17⟩, ⟨21⟩] := by decide +kernel
  have hnatives := nativeFunctions_initial {}
  rw [nativeFunctions] at hnatives
  generalize (initial {}).natives.toList = natives at hsignatures hnatives
  have hzip : natives = (natives.map (·.native)).zipWith RegisteredNative.mk
      (natives.map (·.signature)) := by
    simp [List.zipWith_map_left, List.zipWith_map_right]
  rw [hzip, hnatives, hsignatures]
  rfl

theorem polymorphic_initial : (initial {}).Polymorphic 2 ⟨8⟩ ∧ (initial {}).Polymorphic 2 ⟨13⟩ ∧
    (initial {}).Polymorphic 1 ⟨17⟩ ∧ (initial {}).Polymorphic 1 ⟨21⟩ := by
  have hcast : (initial {}).shape ⟨8⟩ = .forAll [⟨0⟩, ⟨1⟩] ⟨7⟩ ∧ (initial {}).shape ⟨7⟩ =
      .functionType [⟨⟨5⟩, true, none⟩, ⟨⟨6⟩, false, none⟩] topType := by decide +kernel
  have hproject : (initial {}).shape ⟨13⟩ = .forAll [⟨2⟩, ⟨3⟩] ⟨12⟩ ∧ (initial {}).shape ⟨12⟩ =
      .functionType [⟨⟨10⟩, false, none⟩, ⟨⟨11⟩, true, none⟩] topType := by decide +kernel
  have hcimport : (initial {}).shape ⟨17⟩ = .forAll [⟨4⟩] ⟨16⟩ ∧ (initial {}).shape ⟨16⟩ =
      .functionType [⟨⟨15⟩, true, none⟩] topType := by decide +kernel
  have hprintf : (initial {}).shape ⟨21⟩ = .forAll [⟨5⟩] ⟨20⟩ ∧ (initial {}).shape ⟨20⟩ =
      .functionType [⟨⟨19⟩, false, none⟩] topType := by decide +kernel
  exact ⟨.signature hcast.1 (by decide) hcast.2 rfl,
    .signature hproject.1 (by decide) hproject.2 rfl,
    .signature hcimport.1 (by decide) hcimport.2 rfl,
    .signature hprintf.1 (by decide) hprintf.2 rfl⟩

namespace Standard

theorem extends_first (h : s.Standard) : (initial {}).Extends s := by
  have hle := h.extends_initial
  rw [initial_eq] at hle
  exact (extends_configured _ _).trans hle

theorem natives_first (h : s.Standard) : s.natives = (initial {}).natives := by
  rw [h.natives, initial_eq, natives_configured]

theorem nativeSignature_eq (h : s.Standard) (id : NativeId) :
    s.nativeSignature id = signatureOf id := by
  rw [signatureOf, nativeSignature, nativeSignature, native?, native?, h.natives_first]

theorem findNative?_eq (h : s.Standard) (name : String) :
    s.findNative? name = (initial {}).findNative? name := by
  have hnames : ∀ id, s.nativeName id = (initial {}).nativeName id := fun id => by
    rw [nativeName, nativeName, native?, native?, h.natives_first]
  simp only [findNative?, hnames, h.natives_first]

theorem findNative?_cimport (h : s.Standard) : s.findNative? "cimport" = some cimportId :=
  (h.findNative?_eq _).trans (by decide +kernel)

theorem findNative?_printf (h : s.Standard) : s.findNative? "printf" = some printfId :=
  (h.findNative?_eq _).trans (by decide +kernel)

/-- The built-in natives are numbered in the order in which they were registered. -/
theorem native?_eq (h : s.Standard) {id : NativeId} {native : Native}
    (hid : [Native.cast, Native.project, Native.cimport, Native.printf][id.index]? = some native) :
    s.native? id = some ⟨native, signatureOf id⟩ := by
  rw [← h.nativeFunctions_eq, nativeFunctions, List.getElem?_map,
    Array.getElem?_toList, Option.map_eq_some_iff] at hid
  obtain ⟨registered, hregistered, rfl⟩ := hid
  have hsignature := h.nativeSignature_eq id
  rw [nativeSignature, native?, hregistered] at hsignature
  rw [← hsignature]
  exact hregistered

theorem common (h : s.Standard) : s.Common :=
  (common_initial {}).mono (intact_initial {}).toClosed h.extends_first

theorem generic_cimport (h : s.Standard) : s.Generic true (signatureOf cimportId) :=
  generic_initial.1.mono h.extends_first

theorem generic_printf (h : s.Standard) : s.Generic false (signatureOf printfId) :=
  generic_initial.2.mono h.extends_first

/-- The natives of a standard store, with the positions of each. -/
theorem native?_cases (h : s.Standard) {id : NativeId} {registered : RegisteredNative}
    (hid : s.native? id = some registered) :
    (registered.native = Native.cast ∧ s.Polymorphic 2 registered.signature) ∨
    (registered.native = Native.project ∧ s.Polymorphic 2 registered.signature) ∨
    (registered.native = Native.cimport ∧ s.Polymorphic 1 registered.signature) ∨
    (registered.native = Native.printf ∧ s.Polymorphic 1 registered.signature) := by
  have hsignatures := polymorphic_initial
  have hle := h.extends_first
  have hmem : registered ∈ (initial {}).natives.toList := by
    rw [native?, h.natives_first] at hid
    exact Array.mem_toList_iff.2 (Array.mem_of_getElem? hid)
  rw [natives_initial] at hmem
  simp only [List.mem_cons, List.not_mem_nil, or_false] at hmem
  rcases hmem with rfl | rfl | rfl | rfl
  · exact Or.inl ⟨rfl, hsignatures.1.mono hle⟩
  · exact Or.inr (Or.inl ⟨rfl, hsignatures.2.1.mono hle⟩)
  · exact Or.inr (Or.inr (Or.inl ⟨rfl, hsignatures.2.2.1.mono hle⟩))
  · exact Or.inr (Or.inr (Or.inr ⟨rfl, hsignatures.2.2.2.mono hle⟩))

end Standard

end Store

end StagedCalculus
