import StagedCalculus.Proofs.Staging.Enclosure
import StagedCalculus.Proofs.Staging.Reachable

/-!
# A store beside itself

A store is intact if it is closed and canonical, and its natives ask about its handles only. This
module shows that an intact store corresponds to itself lawfully (`Correspondence.lawful_itself`).
So every computation on handles of an intact store gives handles of the store it leaves, which is
intact again (`Attempt.intact`).
-/

namespace StagedCalculus

namespace Store

variable {s : Store}

/-- Terms have variables of the store only. -/
theorem Canonical.declares (hs : s.Canonical) (hlinked : s.Linked) {t : TermId}
    (ht : s.Allocated t) : s.Declares t := by
  intro v hv
  by_contra hunknown
  have hrank : ∀ n t, s.Allocated t → t.index < n → (s.freeVariables t).rank v = 0 := by
    intro n
    induction n with
    | zero => exact fun t _ hlt => absurd hlt (Nat.not_lt_zero _)
    | succ n ih =>
      intro t ht hlt
      have hchildren : ∀ child ∈ (s.shape t).children, (s.freeVariables child).rank v = 0 := by
        intro child hchild
        have hbelow := hlinked.children t ht child hchild
        exact ih child (hlinked.allocated_children ht hchild) (by omega)
      rw [hlinked.free t ht]
      refine Nat.le_zero.1 (Shape.rank_freeVariables_le (fun hleaf => ?_) ?_ ?_)
      · -- The node is a variable of the store.
        rw [Shape.leaf_map] at hleaf
        exact absurd (hs.owned t ht (.var v) (by simp [Shape.handles, Shape.ownVars, hleaf]))
          hunknown
      · rw [Shape.typeParts_map]
        intro part hpart
        obtain ⟨child, hchild, rfl⟩ := List.mem_map.1 hpart
        exact hchildren child (Shape.mem_children.2 (Or.inl hchild))
      · rw [Shape.valueParts_map]
        intro part hpart
        obtain ⟨child, hchild, rfl⟩ := List.mem_map.1 hpart
        exact Nat.le_of_eq (hchildren child (Shape.mem_children.2 (Or.inr hchild)))
  obtain ⟨⟨w, usage⟩, hmem, rfl⟩ := List.mem_map.1 hv
  have hzero := hrank _ t ht (Nat.lt_succ_self _)
  rw [FreeVariables.rank_of_get? (VarMap.mem_toList.1 hmem)] at hzero
  split at hzero <;> cases hzero

/-- A closed and canonical store whose natives make up no handle. -/
structure Intact (s : Store) : Prop extends Closed s, Canonical s where
  natives : ∀ id registered, s.native? id = some registered →
    Correspondence.reflexive.Natives s s registered.native registered.native

/-- The natives of a store stay what they are while it grows. -/
theorem Intact.natives_mono (hs : s.Intact) {s' : Store} (h : s.Extends s')
    (hnatives : s'.natives = s.natives) (id : NativeId) (registered : RegisteredNative)
    (hid : s'.native? id = some registered) :
    Correspondence.reflexive.Natives s' s' registered.native registered.native := by
  rw [native?, hnatives] at hid
  exact (hs.natives id registered hid).mono ⟨rfl, rfl, h, h⟩

theorem intact_intern (hs : s.Intact) {shape : Shape TermId} (hshape : s.Covers shape) :
    (s.intern shape).2.Intact :=
  ⟨closed_intern hs.toClosed hshape.children, canonical_intern hs.toCanonical hshape,
    hs.natives_mono (extends_intern s shape) (natives_intern s shape)⟩

theorem intact_freshVariable (hs : s.Intact) (comptime : Bool) (name : Option String) :
    (s.freshVariable comptime name).2.Intact :=
  ⟨closed_freshVariable hs.toClosed comptime name,
    canonical_freshVariable hs.toCanonical comptime name,
    hs.natives_mono (extends_freshVariable s comptime name) rfl⟩

theorem intact_remember (hs : s.Intact) {t : TermId} {restriction : Restriction}
    {answer : TypeAnswer} (hanswer : ∀ ty, answer = .ok ty → s.Allocated ty) :
    ({ s with types := s.types.insert t restriction answer } : Store).Intact :=
  ⟨closed_remember hs.toClosed hanswer, canonical_remember hs.toCanonical _,
    hs.natives_mono (.of_eq rfl rfl rfl) rfl⟩

theorem intact_output (hs : s.Intact) (output : Output) : ({ s with output } : Store).Intact :=
  ⟨closed_output hs.toClosed output, canonical_output hs.toCanonical output,
    hs.natives_mono (.of_eq rfl rfl rfl) rfl⟩

theorem intact_write (hs : s.Intact) (text : String) : (s.write text).2.Intact := by
  obtain ⟨output, houtput⟩ := write_cases s text
  rw [houtput]
  exact intact_output hs output

end Store

namespace Correspondence

/-- All handles that an intact store has handed out. -/
def whole : Enclosure := ⟨Store.Owns, Store.Intact, fun s => (Likeness.diagonal s.Owns).Scope⟩

/-- An intact store beside itself. -/
def itself : Correspondence := whole.correspondence

variable {α : Type} {s s' : Store}

/-- Scripts that ask alike from a store on do so from an intact store on. -/
theorem scripts_itself {post : Post α} {script script' : Script α}
    (h : reflexive.Scripts post s s' script script') :
    itself.Scripts post s s' script script' := by
  induction h with
  | done ha => exact .done ha
  | fail he => exact .fail he
  | ask hquestion _ ih =>
    refine .ask ?_ fun hleads hanswer =>
      ih ⟨hleads.before.1, hleads.after.1, hleads.left, hleads.right⟩ hanswer
    cases hquestion <;> constructor <;> assumption

theorem natives_itself {native native' : Native} (h : reflexive.Natives s s' native native') :
    itself.Natives s s' native native' := by
  have hleads : ∀ {s₁ s₁'}, itself.Leads s s' s₁ s₁' → reflexive.Leads s s' s₁ s₁' :=
    fun h₁ => ⟨h₁.before.1, h₁.after.1, h₁.left, h₁.right⟩
  refine ⟨h.isPure, ?_, fun h₁ hargs => scripts_itself (h.call (hleads h₁) hargs)⟩
  have hhook := h.resultType
  generalize native.resultType = hook, native'.resultType = hook' at hhook ⊢
  cases hhook with
  | some hhook => exact .some fun h₁ hargs => scripts_itself (hhook (hleads h₁) hargs)
  | none => exact .none

/-- Every operation on an intact store keeps to its handles. -/
theorem lawful_whole : whole.Lawful where
  contexts := scoped_of_frames rfl (fun h => le_diagonal fun _ hown => h.left.owns hown)
    fun _ => Likeness.ordered_diagonal
  linked hs := hs.toLinked
  lasts _ _ hle hown := hle.owns hown
  common hs i hi := hs.allocated_common hi
  shape hs ht := hs.owned _ ht
  free hs ht := hs.declares hs.toLinked ht
  native hs hid := ⟨natives_itself (hs.natives _ _ hid), hs.signatures _ _ hid⟩
  findNative _ hid := Store.lt_of_findNative? hid
  intern hs hcovers := ⟨Store.intact_intern hs hcovers,
    Store.allocated_intern hs.toLinked (Store.Covers.children hcovers)⟩
  freshVariable hs comptime name := ⟨Store.intact_freshVariable hs comptime name, by
    simp [whole, Store.Owns, Store.freshVariable]⟩
  remembered hs hget := hs.types _ _ _ hget
  remember hs hty := Store.intact_remember hs hty
  write hs text := Store.intact_write hs text

/-- Every operation on an intact store does the same again. -/
theorem lawful_itself : itself.Lawful := Enclosure.correspondence_lawful lawful_whole

end Correspondence

/-! ## Computations on an intact store -/

open Correspondence

namespace Attempt

variable {α : Type} {post : Post α} {c : Attempt α} {s : Store} {ctx : Context}

/-- However a computation ends, it leaves an intact store. -/
theorem intact_run (hs : s.Intact) (h : itself.Corresponds post c c s s) : (c.run s).2.Intact := by
  have hends := h ⟨rfl, hs⟩
  generalize c.run s = r at hends
  cases hends with
  | fails hleads _ => exact hleads.after.2
  | gives hleads _ => exact hleads.after.2

theorem scope_itself (hctx : ∀ handle ∈ ctx.handles, s.Owns handle) :
    itself.scope s s ctx ctx := Likeness.scope_diagonal hctx

theorem intact_infer (hs : s.Intact) (hctx : ∀ handle ∈ ctx.handles, s.Owns handle) {t : TermId}
    (ht : s.Allocated t) : ((infer ctx t).run s).2.Intact :=
  intact_run hs (corresponds_infer lawful_itself (scope_itself hctx) ⟨rfl, ht⟩)

theorem intact_reduce (hs : s.Intact) {mode : Mode}
    (hctx : ∀ handle ∈ ctx.handles, s.Owns handle) {t : TermId} (ht : s.Allocated t) :
    ((reduce mode ctx t).run s).2.Intact :=
  intact_run hs (corresponds_reduce lawful_itself (scope_itself hctx) ⟨rfl, ht⟩)

theorem intact_resolve (hs : s.Intact) (hctx : ∀ handle ∈ ctx.handles, s.Owns handle)
    {callee : TermId} {args : List TermId} (hcallee : s.Allocated callee)
    (hargs : ∀ arg ∈ args, s.Allocated arg) : ((resolve ctx callee args).run s).2.Intact :=
  intact_run hs (corresponds_resolveCallee lawful_itself (scope_itself hctx) ⟨rfl, hcallee⟩
    (Likeness.terms_diagonal.2 ⟨rfl, hargs⟩))

theorem intact_observed (hs : s.Intact) (hctx : ∀ handle ∈ ctx.handles, s.Owns handle)
    {t : TermId} (ht : s.Allocated t) : ((observed ctx t).run s).2.Intact := by
  refine intact_run hs (.restrict lawful_itself.toSteady (scope_itself hctx) ⟨rfl, ht⟩ ?_)
  intro s₁ s₁' u u' hleads hu
  exact corresponds_infer lawful_itself (hleads.scope lawful_itself.toSteady (scope_itself hctx)) hu

end Attempt

/-! ## The initial store -/

namespace Store

variable {s : Store}

theorem extends_register (s : Store) (native : Native) (signature : TermId) :
    s.Extends (s.register native signature).2 := by
  have hpush : s.Extends { s with natives := s.natives.push ⟨native, signature⟩ } := by
    refine ⟨fun _ _ h => h, fun _ _ h => h, fun i registered h => ?_⟩
    have hlt : i < s.natives.size := (Array.getElem?_eq_some_iff.1 h).1
    rw [Array.getElem?_push_lt hlt, ← Array.getElem?_eq_getElem hlt]
    exact h
  exact hpush.trans (extends_intern _ _)

theorem intact_register (hs : s.Intact) {native : Native} {signature : TermId}
    {captured : List TermId} (hcaptured : ∀ t ∈ captured, s.Allocated t)
    (hconfined : native.Confined captured) (hnative : reflexive.Natives s s native native)
    (hsignature : s.Allocated signature) : (s.register native signature).2.Intact := by
  have hextends := extends_register s native signature
  refine ⟨closed_register hs.toClosed hcaptured hconfined hsignature,
    canonical_register hs.toCanonical native signature, fun id registered hid => ?_⟩
  rw [register, native?, natives_intern] at hid
  rcases native?_push hid with rfl | hold
  · exact hnative.mono ⟨rfl, rfl, hextends, hextends⟩
  · exact (hs.natives id registered hold).mono ⟨rfl, rfl, hextends, hextends⟩

/-- Registering a native that captured no handle. -/
theorem intact_registerGeneric (hs : s.Intact) {native : Native} (hcareful : native.Careful [] [])
    (hnative : ∀ s, reflexive.Natives s s native native) (params : List (String × Bool)) :
    ((Build.register native params).run s).2.Intact := by
  have hends := Corresponds.genericSignature (s := s) lawful_itself.toSteady params ⟨rfl, hs⟩
  change itself.Ends itself.Terms s s
    (.ok ((Build.genericSignature params).run s).1, ((Build.genericSignature params).run s).2)
    (.ok ((Build.genericSignature params).run s).1, ((Build.genericSignature params).run s).2)
    at hends
  cases hends with
  | gives hleads hsignature =>
    exact intact_register hleads.after.2 (List.forall_mem_nil _) hcareful.confined (hnative _)
      hsignature.2

seal intern in
theorem canonical_commonTerms (config : Config) :
    (Build.commonTerms.run (empty config)).2.Canonical := by
  have htype : ((empty config).intern .typeOfTypes).2.Allocated
      ((empty config).intern .typeOfTypes).1 :=
    allocated_intern (linked_empty config) (by simp [Shape.children])
  have hle := ((extends_intern ((empty config).intern .typeOfTypes).2 .unitType).trans
    (extends_intern _ .bottomType)).trans (extends_intern _ .topType)
  -- The first four terms mention no handle at all.
  have hconstant : ∀ (s : Store) (shape : Shape TermId), shape.handles = [] → s.Canonical →
      (s.intern shape).2.Canonical := fun s shape h hs => canonical_intern hs (by simp [Covers, h])
  have hconstants := hconstant _ .topType rfl (hconstant _ .bottomType rfl
    (hconstant _ .unitType rfl (hconstant _ .typeOfTypes rfl (canonical_empty config))))
  refine canonical_intern hconstants (covers_of_children rfl rfl fun child hchild => ?_)
  rw [List.mem_singleton.1 hchild]
  exact hle.allocated htype

theorem intact_commonTerms (config : Config) : (Build.commonTerms.run (empty config)).2.Intact := by
  refine ⟨closed_commonTerms config, canonical_commonTerms config, fun id registered hid => ?_⟩
  have hmem := mem_nativeFunctions hid
  rw [nativeFunctions_commonTerms] at hmem
  simp [nativeFunctions, empty] at hmem

seal Build.commonTerms Build.register in
theorem intact_initial (config : Config) : (initial config).Intact := by
  have hcommon := intact_commonTerms config
  have hcast := intact_registerGeneric hcommon Native.careful_cast
    (fun _ => natives_cast stable_reflexive) [("Target", true), ("Subject", false)]
  have hproject := intact_registerGeneric hcast Native.careful_project
    (fun _ => natives_project stable_reflexive) [("Product", false), ("Field", true)]
  have hcimport := intact_registerGeneric hproject Native.careful_cimport
    (fun _ => natives_cimport stable_reflexive) [("Header", true)]
  exact intact_registerGeneric hcimport Native.careful_printf
    (fun _ => natives_printf stable_reflexive) [("Format", false)]

end Store

end StagedCalculus
