import StagedCalculus.Proofs.Staging.Intact
import StagedCalculus.Proofs.Store.Tree

/-!
# Stores that a compilation builds

This module follows a store from its start through everything that can be asked of it.

- `Store.Genuine`: the stores that come about, each step using handles that the store gave out;
- `Store.Genuine.intact`: all of them are intact, also after a step that fails;
- `Store.Genuine.hashConsed`: terms, handles and unfolded trees determine each other.
-/

namespace StagedCalculus

namespace Store

/-- The stores that come about by building terms, registering natives and asking for judgments in
any order, whether the judgments succeed or fail. Every handle that is passed to a step was given
out by the store before; a nominal type is named by the number that it was allocated under. -/
inductive Genuine : Store → Prop
  | initial (config : Config) : Genuine (initial config)
  | intern {s : Store} {shape : Shape TermId} : Genuine s → s.Covers shape →
      Genuine (s.intern shape).2
  | freshVariable {s : Store} (comptime : Bool) (name : Option String) : Genuine s →
      Genuine (s.freshVariable comptime name).2
  | freshNamedType {s : Store} (name : String) : Genuine s → Genuine (s.freshNamedType name).2
  | register {s : Store} {native : Native} {signature : TermId} {captured : List Handle} :
      Genuine s → native.Grounded captured → (∀ handle ∈ captured, s.Owns handle) →
      s.Allocated signature → Genuine (s.register native signature).2
  | builtin {s : Store} (name : String) : Genuine s → Genuine (s.builtin name).2
  | remember {s : Store} {t : TermId} {restriction : Restriction} {answer : TypeAnswer} :
      Genuine s → (∀ ty, answer = .ok ty → s.Allocated ty) →
      Genuine { s with types := s.types.insert t restriction answer }
  | redirect {s : Store} (sink : Sink) : Genuine s → Genuine (s.redirect sink)
  | write {s : Store} (text : String) : Genuine s → Genuine (s.write text).2
  | infer {s : Store} {ctx : Context} {t : TermId} : Genuine s →
      (∀ handle ∈ ctx.handles, s.Owns handle) → s.Allocated t →
      Genuine ((Attempt.infer ctx t).run s).2
  | reduce {s : Store} {mode : Mode} {ctx : Context} {t : TermId} : Genuine s →
      (∀ handle ∈ ctx.handles, s.Owns handle) → s.Allocated t →
      Genuine ((Attempt.reduce mode ctx t).run s).2
  | resolve {s : Store} {ctx : Context} {callee : TermId} {args : List TermId} : Genuine s →
      (∀ handle ∈ ctx.handles, s.Owns handle) → s.Allocated callee →
      (∀ arg ∈ args, s.Allocated arg) → Genuine ((Attempt.resolve ctx callee args).run s).2
  | observed {s : Store} {ctx : Context} {t : TermId} : Genuine s →
      (∀ handle ∈ ctx.handles, s.Owns handle) → s.Allocated t →
      Genuine ((Attempt.observed ctx t).run s).2

variable {s : Store}

theorem extends_freshNamedType (s : Store) (name : String) :
    s.Extends (s.freshNamedType name).2 := by
  have hnumbered : s.Extends { s with namedTypes := s.namedTypes + 1 } := .of_eq rfl rfl rfl
  exact hnumbered.trans (extends_intern _ _)

theorem intact_freshNamedType (hs : s.Intact) (name : String) : (s.freshNamedType name).2.Intact :=
  ⟨closed_freshNamedType hs.toClosed name, canonical_freshNamedType hs.toCanonical name,
    hs.natives_mono (extends_freshNamedType s name) (natives_intern _ _)⟩

theorem intact_builtin (hs : s.Intact) (name : String) : (s.builtin name).2.Intact := by
  unfold builtin
  cases hfind : s.findNative? name with
  | none => exact hs
  | some id => exact intact_intern hs (covers_native (lt_of_findNative? hfind))

/-- Every step keeps the store intact, also one that fails. -/
theorem Genuine.intact (h : s.Genuine) : s.Intact := by
  induction h with
  | initial config => exact intact_initial config
  | intern _ hshape ih => exact intact_intern ih hshape
  | freshVariable comptime name _ ih => exact intact_freshVariable ih comptime name
  | freshNamedType name _ ih => exact intact_freshNamedType ih name
  | register _ hnative hcaptured hsignature ih =>
    refine intact_register ih (fun t ht => ?_) hnative.confined
      (Correspondence.natives_reflexive hnative hcaptured) hsignature
    exact hcaptured _ (Handle.mem_terms.1 ht)
  | builtin name _ ih => exact intact_builtin ih name
  | remember _ hanswer ih => exact intact_remember ih hanswer
  | redirect sink _ ih => exact intact_output ih _
  | write text _ ih => exact intact_write ih text
  | infer _ hctx ht ih => exact Attempt.intact_infer ih hctx ht
  | reduce _ hctx ht ih => exact Attempt.intact_reduce ih hctx ht
  | resolve _ hctx hcallee hargs ih => exact Attempt.intact_resolve ih hctx hcallee hargs
  | observed _ hctx ht ih => exact Attempt.intact_observed ih hctx ht

/-! ## Terms, handles and trees -/

/-- Terms, handles and unfolded trees determine each other. -/
structure HashConsed (s : Store) : Prop where
  /-- Looking up a shape is the inverse of reading the shape of a term. -/
  inverse : ∀ shape t, s.find? shape = some t ↔ s.Allocated t ∧ s.shape t = shape
  children : ∀ t, s.Allocated t → ∀ child ∈ (s.shape t).children, child.index < t.index
  vars : ∀ t, s.Allocated t → ∀ v ∈ (s.shape t).ownVars, v.index < s.vars.size
  natives : ∀ t id, s.shape t = .native id → id.index < s.natives.size
  quantified : ∀ t vars body, s.shape t = .forAll vars body → vars ≠ []
  /-- Every handle unfolds to the finite tree of its shape. -/
  tree : ∀ t, s.tree t = .node ((s.shape t).anonymous.map s.tree)
  /-- Handles are equal exactly if their trees are. -/
  equality : ∀ t u, s.Allocated t → s.Allocated u → (t = u ↔ s.tree t = s.tree u)

theorem Genuine.hashConsed (h : s.Genuine) : s.HashConsed := by
  have hs := h.intact
  refine ⟨fun shape t => hs.find?_iff, hs.children, fun t ht v hv => ?_, fun t id hid => ?_,
    fun t vars body hbody hnil => ?_, hs.tree_eq, fun t u ht hu => ⟨congrArg s.tree, ?_⟩⟩
  · exact (Shape.forall_mem_handles.1 (hs.owned t ht)).2.1 v hv
  · have ht : s.Allocated t := allocated_of_shape (by simp [hid])
    exact hs.owned t ht (.native id) (by simp [hid, Shape.handles, Shape.constants])
  · subst hnil
    exact hs.quantified t body hbody
  · exact hs.tree_inj hs.toLinked ht hu

/-- A text, and its cast to the greatest type. -/
def castText : Build TermId := do
  Build.cast (← Build.string "a") topType

seal intern in
theorem genuine_castText : (castText.run (initial {})).2.Genuine := by
  have htext : ((initial {}).intern (.stringLiteral "a")).2.Genuine :=
    .intern (.initial {}) (covers_of_children rfl rfl (by simp [Shape.children]))
  refine .intern htext (covers_of_children rfl rfl fun child hchild => ?_)
  have hcommon := htext.intact.allocated_common (show 3 < 5 by decide)
  have hleaf : ((initial {}).intern (.stringLiteral "a")).2.Allocated
      ((initial {}).intern (.stringLiteral "a")).1 :=
    allocated_intern (intact_initial {}).toLinked (by simp [Shape.children])
  simp only [Shape.children, List.mem_cons, List.not_mem_nil, or_false] at hchild
  rcases hchild with rfl | rfl
  · exact hleaf
  · exact hcommon

/-- The cast is refused, after the type of the text has entered the store. -/
theorem hashConsed_refusedCast :
    ∃ s t source target, s.Genuine ∧
      ((Attempt.evaluate .root t).run s).1 = .error (.uncastableTypes source target) ∧
      s.entries.size < ((Attempt.evaluate .root t).run s).2.entries.size ∧
      ((Attempt.evaluate .root t).run s).2.HashConsed := by
  refine ⟨_, (castText.run (initial {})).1, "literal \"a\"", "Top", genuine_castText, ?_, ?_,
    Genuine.hashConsed (.reduce genuine_castText nofun ?_)⟩
  all_goals decide +kernel

end Store

end StagedCalculus
