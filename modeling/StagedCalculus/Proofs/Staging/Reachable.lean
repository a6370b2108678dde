import StagedCalculus.Proofs.Staging.Sealed

/-!
# Reachable stores

This module follows a compilation as a whole.

- `Attempt.keeps_infer`, `Attempt.keeps_reduce`, `Attempt.keeps_resolve`: what the judgments keep;
- `Store.Reachable`: the stores that a compilation can come to, by building terms, registering
  natives and asking for judgments in any order;
- `Store.Reachable.closed`: all of them are closed.
-/

namespace StagedCalculus

open Attempt

variable {quiet : Store → Prop} {s : Store} {ctx : Context}

namespace Attempt

/-! ## The judgments -/

theorem keeps_infer {t : TermId} (hctx : ctx.Within s) (ht : s.Allocated t) :
    Keeps Store.Honest [] (SameClear []) (infer ctx t) (infer ctx t) s :=
  .reads rfl ((Engine.inStep_ofLevels _).infer hctx.alike (.nil ht))

theorem keeps_reduce {mode : Mode} {t : TermId} (hctx : ctx.Within s) (ht : s.Allocated t) :
    Keeps (fun final => final.Honest ∧ final.Calm mode t) [] (SameClear []) (reduce mode ctx t)
      (reduce mode ctx t) s :=
  .reads rfl ((Engine.inStep_ofLevels _).reduce hctx.alike (.nil ht))

theorem keeps_compile {t : TermId} (hctx : ctx.Within s) (ht : s.Allocated t) :
    Keeps Store.Honest [] (SameClear []) (compile ctx t) (compile ctx t) s :=
  (keeps_reduce hctx ht).quieter fun _ _ _ hq => ⟨hq, Or.inl rfl⟩

theorem keeps_resolve {callee : TermId} {args : List TermId} (hctx : ctx.Within s)
    (hcallee : s.Allocated callee) (hargs : ∀ arg ∈ args, s.Allocated arg) :
    Keeps Store.Honest [] (Same fun r s' => r.Clear [] s') (resolve ctx callee args)
      (resolve ctx callee args) s :=
  .reads rfl (Engine.keeps_resolve (Engine.inStep_ofLevels _) (fun _ h => h) hctx.alike
    (.nil hcallee) fun arg harg => .nil (hargs arg harg))

end Attempt

/-! ## The initial store -/

namespace Store

theorem keeps_genericSlots (params : List (String × Bool)) :
    Keeps quiet [] (Same fun r s' => ∀ slot ∈ r.2, s'.Clear [] slot.ty)
      (Build.genericSlots params : Attempt _) (Build.genericSlots params : Attempt _) s := by
  induction params generalizing s with
  | nil => exact .done (by simp)
  | cons p rest ih =>
    let next := fun v => (do
      let ty ← Build.variableTerm v
      let r ← Build.genericSlots rest
      return (v :: r.1, ⟨ty, p.2, none⟩ :: r.2) : Attempt (List VarId × List (Slot TermId)))
    change Keeps quiet [] _ (Build.freshVariable true (some p.1) >>= next)
      (Build.freshVariable true (some p.1) >>= next) s
    refine .bindSame (Keeps.freshVariable true (some p.1)) fun v s₁ h₁ hv => ?_
    refine .bindSame (Keeps.variableTerm hv) fun ty s₂ h₂ hty => ?_
    refine .bindSame ih fun r s₃ h₃ hr => .done fun slot hslot => ?_
    rcases List.mem_cons.1 hslot with rfl | hslot
    · exact h₃.clear hty
    · exact hr slot hslot

theorem keeps_genericSignature (hs : s.Closed) (params : List (String × Bool)) :
    Keeps quiet [] (SameClear []) (Build.genericSignature params : Attempt _)
      (Build.genericSignature params : Attempt _) s := by
  let next := fun r : List VarId × List (Slot TermId) => (do
    let function ← Build.functionType r.2 Store.topType
    Build.forAll r.1 function : Attempt TermId)
  change Keeps quiet [] _ (Build.genericSlots params >>= next)
    (Build.genericSlots params >>= next) s
  refine .bindSame (keeps_genericSlots params) fun r s₁ h₁ hr => ?_
  refine .bindSame (Keeps.intern (by simp) fun child hchild => ?_) fun function s₂ h₂ hfunction => ?_
  · simp only [Shape.children, List.mem_append, List.mem_map, List.mem_singleton] at hchild
    rcases hchild with ⟨slot, hslot, rfl⟩ | rfl
    · exact hr slot hslot
    · exact h₁.clear (.nil (hs.allocated_common (by decide)))
  · exact Keeps.intern (by simp) (by simpa [Shape.children] using hfunction)

theorem signature_spec (hs : s.Closed) (params : List (String × Bool)) :
    s.Evolves (fun _ => True) [] ((Build.genericSignature params).run s).2 ∧
      ((Build.genericSignature params).run s).2.Allocated
        ((Build.genericSignature params).run s).1 := by
  have hkeeps : Keeps (fun _ => True) [] (SameClear []) (Build.genericSignature params : Attempt _)
      (Build.genericSignature params : Attempt _) s := keeps_genericSignature hs params
  exact ⟨hkeeps.evolves hs, (hkeeps.holds hs rfl).allocated⟩

/-- Registering a native that captured terms of the store. -/
theorem closed_registerGeneric (hs : s.Closed) {native : Native} (hnative : native.Careful [] [])
    (params : List (String × Bool)) : ((Build.register native params).run s).2.Closed := by
  obtain ⟨hstep, hsignature⟩ := signature_spec hs params
  exact closed_register hstep.sound.toClosed (List.forall_mem_nil _) hnative.confined hsignature

/-- The natives of a store, in the order of registration. -/
def nativeFunctions (s : Store) : List Native := s.natives.toList.map (·.native)

theorem mem_nativeFunctions {id : NativeId} {registered : RegisteredNative}
    (h : s.native? id = some registered) : registered.native ∈ s.nativeFunctions :=
  List.mem_map_of_mem (Array.mem_toList_iff.2 (Array.mem_of_getElem? h))

theorem nativeFunctions_congr {s s' : Store} (h : s.natives = s'.natives) :
    s.nativeFunctions = s'.nativeFunctions := by
  rw [nativeFunctions, h, nativeFunctions]

theorem nativeFunctions_intern (s : Store) (shape : Shape TermId) :
    (s.intern shape).2.nativeFunctions = s.nativeFunctions :=
  nativeFunctions_congr (natives_intern s shape)

theorem nativeFunctions_registerGeneric (hs : s.Closed) (native : Native)
    (params : List (String × Bool)) :
    ((Build.register native params).run s).2.nativeFunctions = s.nativeFunctions ++ [native] := by
  obtain ⟨hstep, -⟩ := signature_spec hs params
  change (Store.register _ native _).2.nativeFunctions = _
  rw [register, nativeFunctions_intern, nativeFunctions, Array.toList_push, List.map_append]
  exact congrArg (· ++ [native]) (nativeFunctions_congr hstep.natives)

seal intern in
theorem linked_commonTerms (hs : s.Linked) : (Build.commonTerms.run s).2.Linked := by
  have htype : (s.intern .typeOfTypes).2.Allocated (s.intern .typeOfTypes).1 :=
    allocated_intern hs (by simp [Shape.children])
  have hle := ((extends_intern (s.intern .typeOfTypes).2 .unitType).trans
    (extends_intern _ .bottomType)).trans (extends_intern _ .topType)
  refine linked_intern (linked_intern (linked_intern (linked_intern (linked_intern hs
    ?_) ?_) ?_) ?_) fun child hchild => ?_
  · simp [Shape.children]
  · simp [Shape.children]
  · simp [Shape.children]
  · simp [Shape.children]
  · rw [List.mem_singleton.1 hchild]
    exact hle.allocated htype

seal intern in
theorem nativeFunctions_commonTerms (s : Store) :
    (Build.commonTerms.run s).2.nativeFunctions = s.nativeFunctions := by
  refine (nativeFunctions_intern _ _).trans ((nativeFunctions_intern _ _).trans ?_)
  refine (nativeFunctions_intern _ _).trans ((nativeFunctions_intern _ _).trans ?_)
  exact nativeFunctions_intern _ _

/-- The five terms are distinct, so none of them is found when it is added. -/
theorem closed_commonTerms (config : Config) : (Build.commonTerms.run (empty config)).2.Closed :=
  ⟨linked_commonTerms (linked_empty config), Nat.le_of_eq rfl⟩

seal Build.register in
/-- The built-in natives capture nothing. -/
theorem builtinNatives_spec (hs : s.Closed) :
    (Build.builtinNatives.run s).2.Closed ∧
      (Build.builtinNatives.run s).2.nativeFunctions =
        s.nativeFunctions ++ [Native.cast, Native.project, Native.cimport, Native.printf] := by
  have hcast := closed_registerGeneric hs Native.careful_cast [("Target", true), ("Subject", false)]
  have hproject := closed_registerGeneric hcast Native.careful_project
    [("Product", false), ("Field", true)]
  have hcimport := closed_registerGeneric hproject Native.careful_cimport [("Header", true)]
  refine ⟨closed_registerGeneric hcimport Native.careful_printf [("Format", false)], ?_⟩
  refine (nativeFunctions_registerGeneric hcimport _ _).trans ?_
  rw [nativeFunctions_registerGeneric hproject, nativeFunctions_registerGeneric hcast,
    nativeFunctions_registerGeneric hs]
  simp

seal Build.commonTerms Build.builtinNatives in
theorem closed_initial (config : Config) : (initial config).Closed :=
  (builtinNatives_spec (closed_commonTerms config)).1

seal Build.commonTerms Build.builtinNatives in
theorem nativeFunctions_initial (config : Config) :
    (initial config).nativeFunctions =
      [Native.cast, Native.project, Native.cimport, Native.printf] := by
  refine (builtinNatives_spec (closed_commonTerms config)).2.trans ?_
  rw [nativeFunctions_commonTerms]
  rfl

/-! ## Reachable stores -/

/-- The stores that a compilation can come to. Terms are built of terms of the store, natives
mention no other, and queries are made in contexts over the store; nothing else is asked of a
step. -/
inductive Reachable : Store → Prop
  | initial (config : Config) : Reachable (initial config)
  | intern {s : Store} (shape : Shape TermId) : Reachable s →
      (∀ child ∈ shape.children, s.Allocated child) → Reachable (s.intern shape).2
  | freshVariable {s : Store} (comptime : Bool) (name : Option String) : Reachable s →
      Reachable (s.freshVariable comptime name).2
  | freshNamedType {s : Store} (name : String) : Reachable s → Reachable (s.freshNamedType name).2
  | register {s : Store} {native : Native} {signature : TermId} {captured : List TermId} :
      Reachable s → (∀ t ∈ captured, s.Allocated t) → native.Confined captured →
      s.Allocated signature → Reachable (s.register native signature).2
  | builtin {s : Store} (name : String) : Reachable s → Reachable (s.builtin name).2
  | remember {s : Store} {t : TermId} {restriction : Restriction} {answer : TypeAnswer} :
      Reachable s → (∀ ty, answer = .ok ty → s.Allocated ty) →
      Reachable { s with types := s.types.insert t restriction answer }
  | redirect {s : Store} (sink : Sink) : Reachable s → Reachable (s.redirect sink)
  | write {s : Store} (text : String) : Reachable s → Reachable (s.write text).2
  | infer {s : Store} {ctx : Context} {t : TermId} : Reachable s → ctx.Within s →
      s.Allocated t → Reachable ((Attempt.infer ctx t).run s).2
  | reduce {s : Store} {mode : Mode} {ctx : Context} {t : TermId} : Reachable s → ctx.Within s →
      s.Allocated t → Reachable ((Attempt.reduce mode ctx t).run s).2
  | resolve {s : Store} {ctx : Context} {callee : TermId} {args : List TermId} : Reachable s →
      ctx.Within s → s.Allocated callee → (∀ arg ∈ args, s.Allocated arg) →
      Reachable ((Attempt.resolve ctx callee args).run s).2

theorem Reachable.closed (h : s.Reachable) : s.Closed := by
  induction h with
  | initial config => exact closed_initial config
  | intern shape _ hshape ih => exact closed_intern ih hshape
  | freshVariable comptime name _ ih => exact closed_freshVariable ih comptime name
  | freshNamedType name _ ih => exact closed_freshNamedType ih name
  | register _ hcaptured hnative hsignature ih =>
    exact closed_register ih hcaptured hnative hsignature
  | builtin name _ ih => exact closed_builtin ih name
  | remember _ hanswer ih => exact closed_remember ih hanswer
  | redirect sink _ ih => exact closed_output ih _
  | @write s text _ ih =>
    obtain ⟨output, houtput⟩ := write_cases s text
    rw [houtput]
    exact closed_output ih output
  | infer _ hctx ht ih => exact ((Attempt.keeps_infer hctx ht).evolves ih).sound.toClosed
  | reduce _ hctx ht ih => exact ((Attempt.keeps_reduce hctx ht).evolves ih).sound.toClosed
  | resolve _ hctx hcallee hargs ih =>
    exact ((Attempt.keeps_resolve hctx hcallee hargs).evolves ih).sound.toClosed

end Store

/-! ## Constructions -/

namespace Build

variable {α β : Type} {s : Store}

/-- From a reachable store on, the construction leads to a reachable store and gives something that
satisfies a condition there. -/
def Reaches (post : Store → α → Prop) (c : Build α) (s : Store) : Prop :=
  s.Reachable → (c.run s).2.Reachable ∧ s.Extends (c.run s).2 ∧ post (c.run s).2 (c.run s).1

namespace Reaches

variable {post : Store → α → Prop} {post' : Store → β → Prop} {c : Build α} {f : α → Build β}

theorem pure {a : α} (h : post s a) : Reaches post (Pure.pure a) s := fun hs => ⟨hs, .refl s, h⟩

theorem bind (hc : Reaches post c s)
    (hf : ∀ a s₁, s.Extends s₁ → post s₁ a → Reaches post' (f a) s₁) :
    Reaches post' (c >>= f) s := by
  intro hs
  obtain ⟨hs₁, h₁, ha⟩ := hc hs
  obtain ⟨hs₂, h₂, hb⟩ := hf _ _ h₁ ha hs₁
  exact ⟨hs₂, h₁.trans h₂, hb⟩

/-- The subterms may be terms of every store. -/
theorem intern {shape : Shape TermId}
    (hshape : (∀ i < 5, s.Allocated ⟨i⟩) → ∀ child ∈ shape.children, s.Allocated child) :
    Reaches Store.Allocated (Build.intern shape) s := by
  intro hs
  have hclosed := hs.closed
  have hchildren := hshape fun i hi => hclosed.allocated_common hi
  exact ⟨.intern shape hs hchildren, Store.extends_intern s shape,
    Store.allocated_intern hclosed.toLinked hchildren⟩

/-- A shape without subterms can be added to every store. -/
theorem leaf {shape : Shape TermId} (hleaf : shape.children = []) :
    Reaches Store.Allocated (Build.intern shape) s := .intern fun _ => by simp [hleaf]

theorem freshVariable (comptime : Bool) (name : Option String) :
    Reaches (fun _ _ => True) (Build.freshVariable comptime name) s := fun hs =>
  ⟨.freshVariable comptime name hs, Store.extends_freshVariable s comptime name, trivial⟩

theorem reachable {config : Config} (h : Reaches post c (.initial config)) :
    (c.run (.initial config)).2.Reachable := (h (.initial config)).1

theorem holds {config : Config} (h : Reaches post c (.initial config)) :
    post (c.run (.initial config)).2 (c.run (.initial config)).1 := (h (.initial config)).2.2

end Reaches

end Build

end StagedCalculus
