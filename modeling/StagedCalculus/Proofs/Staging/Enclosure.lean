import StagedCalculus.Proofs.Native.Grounded
import StagedCalculus.Proofs.Staging.CorrespondingReduce

/-!
# Handles that may be passed around

This module compares a store with itself where only some of its handles may be passed around.

- `Enclosure`: which handles may be passed, in which stores and contexts;
- `Enclosure.Steady`, `Enclosure.Lawful`: no operation on such a store leads to another handle;
- `Enclosure.correspondence_steady`, `Enclosure.correspondence_lawful`: then the store corresponds to
  itself lawfully;
- `Enclosure.run_eq`: so two computations that correspond have the same outcome;
- `Enclosure.given`: the same handles in stores of which more is known.
-/

namespace StagedCalculus

/-- Handles of a store beside itself. -/
structure Enclosure where
  /-- Which handles of a store may be passed. -/
  owns : Store → Handle → Prop
  intact : Store → Prop
  scope : Store → Context → Context → Prop

namespace Enclosure

open Correspondence

variable {E : Enclosure} {s s' : Store}

/-- Every handle that may be passed stands for itself. -/
def correspondence (E : Enclosure) : Correspondence where
  like s _ := .diagonal (E.owns s)
  stores s s' := s' = s ∧ E.intact s
  scope s _ := E.scope s
  text := Eq

/-- Every operation on a store, except for remembering, keeps to the handles that may be passed. -/
structure Steady (E : Enclosure) : Prop where
  contexts : E.correspondence.Scoped
  linked : ∀ {s}, E.intact s → s.Linked
  lasts : ∀ {s s₁ handle}, E.intact s → E.intact s₁ → s.Extends s₁ → E.owns s handle →
    E.owns s₁ handle
  common : ∀ {s}, E.intact s → ∀ i < 5, E.owns s (.term ⟨i⟩)
  shape : ∀ {s t}, E.intact s → E.owns s (.term t) → ∀ handle ∈ (s.shape t).handles,
    E.owns s handle
  free : ∀ {s t}, E.intact s → E.owns s (.term t) → ∀ v ∈ (s.freeVariables t).vars,
    E.owns s (.var v)
  native : ∀ {s id registered}, E.intact s → s.native? id = some registered →
    E.correspondence.Natives s s registered.native registered.native ∧
      E.owns s (.term registered.signature)
  findNative : ∀ {s name id}, E.intact s → s.findNative? name = some id → E.owns s (.native id)
  intern : ∀ {s shape}, E.intact s → (∀ handle ∈ shape.handles, E.owns s handle) →
    E.intact (s.intern shape).2 ∧ E.owns (s.intern shape).2 (.term (s.intern shape).1)
  freshVariable : ∀ {s}, E.intact s → ∀ comptime name,
    E.intact (s.freshVariable comptime name).2 ∧
      E.owns (s.freshVariable comptime name).2 (.var (s.freshVariable comptime name).1)
  remembered : ∀ {s t restriction ty}, E.intact s →
    s.types.get? t restriction = some (.ok ty) → E.owns s (.term ty)
  write : ∀ {s}, E.intact s → ∀ text, E.intact (s.write text).2

/-- Every operation on a store keeps to the handles that may be passed. -/
structure Lawful (E : Enclosure) : Prop extends Steady E where
  remember : ∀ {s t restriction answer}, E.intact s →
    (∀ ty, answer = .ok ty → E.owns s (.term ty)) →
    E.intact { s with types := s.types.insert t restriction answer }

theorem stable_of_lasts (h : ∀ {s s₁ handle}, E.intact s → E.intact s₁ → s.Extends s₁ →
    E.owns s handle → E.owns s₁ handle) : E.correspondence.Stable where
  text_refl _ := rfl
  text_append h h' := congrArg₂ (· ++ ·) h h'
  mono hleads := le_diagonal fun _ => h hleads.before.2 hleads.after.2 hleads.left

/-- Results that stand for each other are equal and may be passed. -/
theorem result_eq {answer answer' : TypeAnswer}
    (h : E.correspondence.Result (E.correspondence.like s s').term answer answer') :
    answer' = answer ∧ ∀ ty, answer = .ok ty → E.owns s (.term ty) := by
  cases h with
  | ok hty =>
    refine ⟨congrArg _ hty.1, fun ty heq => ?_⟩
    cases heq
    exact hty.2
  | error he => exact ⟨congrArg _ (Error.Alike.eq he).symm, nofun⟩

/-- Every operation on the store does the same again. -/
theorem correspondence_steady (hE : E.Steady) : E.correspondence.Steady where
  toStable := stable_of_lasts hE.lasts
  toScoped := hE.contexts
  linked := by
    rintro s _ ⟨rfl, hs⟩
    exact ⟨hE.linked hs, hE.linked hs⟩
  limit h := by rw [h.1]
  size h := by rw [h.1]
  ordered _ := Likeness.ordered_diagonal
  unique := by
    rintro s _ t _ u _ - ⟨rfl, -⟩ ⟨rfl, -⟩
    exact Iff.rfl
  common h i hi := ⟨rfl, hE.common h.2 i hi⟩
  shape := by
    rintro s _ t _ ⟨rfl, hs⟩ ⟨rfl, ht⟩
    exact Likeness.layer_diagonal.2 ⟨rfl, hE.shape hs ht⟩
  free := by
    rintro s _ t _ ⟨rfl, hs⟩ ⟨rfl, ht⟩
    have hfree := hE.free hs ht
    exact List.forall₂_same.2 fun e he => ⟨⟨rfl, hfree _ (List.mem_map_of_mem he)⟩, rfl⟩
  pending := by
    rintro s _ t _ ⟨rfl, -⟩ ⟨rfl, -⟩
    rfl
  display := by
    rintro s _ t _ ⟨rfl, -⟩ ⟨rfl, -⟩
    rfl
  comptime := by
    rintro s _ v _ ⟨rfl, -⟩ ⟨rfl, -⟩
    rfl
  name := by
    rintro s _ v _ ⟨rfl, -⟩ ⟨rfl, -⟩
    rfl
  native := by
    rintro _ s id ⟨rfl, hs⟩ -
    cases hid : s.native? id with
    | none => exact .none
    | some registered =>
      obtain ⟨hnative, hsignature⟩ := hE.native hs hid
      exact .some ⟨hnative, rfl, hsignature⟩
  findNative := by
    rintro s _ ⟨rfl, hs⟩ name
    exact ⟨rfl, fun id hid => hE.findNative hs hid⟩
  intern := by
    rintro s _ shape shape' ⟨rfl, hs⟩ hshape
    obtain ⟨rfl, hhandles⟩ := Likeness.layer_diagonal.1 hshape
    obtain ⟨hs', ht⟩ := hE.intern hs hhandles
    exact ⟨⟨rfl, hs'⟩, rfl, ht⟩
  freshVariable := by
    rintro s _ name name' ⟨rfl, hs⟩ comptime hname
    obtain rfl : name' = name := by
      cases hname with
      | some h => exact congrArg some h.symm
      | none => rfl
    obtain ⟨hs', hv⟩ := hE.freshVariable hs comptime name'
    exact ⟨⟨rfl, hs'⟩, rfl, hv⟩
  remembered := by
    rintro _ s _ t r r' ⟨rfl, hs⟩ ⟨rfl, -⟩ hr
    obtain rfl := Likeness.restricted_diagonal hr
    cases hget : s.types.get? t r' with
    | none => exact .none
    | some answer =>
      refine .some ?_
      cases answer with
      | ok ty => exact .ok ⟨rfl, hE.remembered hs hget⟩
      | error e => exact .error (.refl (fun _ => rfl) e)
  write := by
    rintro _ s ⟨rfl, hs⟩ text
    refine ⟨?_, rfl, hE.write hs text⟩
    cases (s.write text).1 with
    | ok bytes => exact .ok rfl
    | error e => exact .error (.refl (fun _ => rfl) e)

/-- And what is remembered may be passed. -/
theorem correspondence_lawful (hE : E.Lawful) : E.correspondence.Lawful where
  toSteady := correspondence_steady hE.toSteady
  remember := by
    rintro _ s t _ r r' answer answer' ⟨rfl, hs⟩ ⟨rfl, -⟩ hr hanswer
    obtain rfl := Likeness.restricted_diagonal hr
    obtain ⟨rfl, hty⟩ := result_eq hanswer
    exact ⟨rfl, hE.remember hs hty⟩

/-- Two computations that correspond end alike and leave the same store. -/
theorem run_eq {c c' : Attempt TermId} (hs : E.intact s)
    (h : E.correspondence.Corresponds E.correspondence.Terms c c' s s) : c'.run s = c.run s := by
  have hends := h ⟨rfl, hs⟩
  generalize c.run s = r, c'.run s = r' at hends ⊢
  cases hends with
  | fails hleads he => rw [Error.Alike.eq he, hleads.after.1]
  | gives hleads ht => rw [ht.1, hleads.after.1]

/-! ## Stores of which more is known -/

/-- The same handles, in stores of which something else is known too. -/
def given (E : Enclosure) (known : Store → Prop) : Enclosure :=
  { E with intact := fun s => E.intact s ∧ known s }

section Given

variable {known : Store → Prop} {s₁ s₁' : Store}

theorem leads_of_given (h : (E.given known).correspondence.Leads s s' s₁ s₁') :
    E.correspondence.Leads s s' s₁ s₁' :=
  ⟨⟨h.before.1, h.before.2.1⟩, ⟨h.after.1, h.after.2.1⟩, h.left, h.right⟩

theorem scripts_given {α : Type} {post : Post α} {script script' : Script α}
    (h : E.correspondence.Scripts post s s' script script') :
    (E.given known).correspondence.Scripts post s s' script script' := by
  induction h with
  | done ha => exact .done ha
  | fail he => exact .fail he
  | ask hquestion _ ih =>
    refine .ask ?_ fun hleads hanswer => ih (leads_of_given hleads) hanswer
    cases hquestion <;> constructor <;> assumption

theorem natives_given {native native' : Native}
    (h : E.correspondence.Natives s s' native native') :
    (E.given known).correspondence.Natives s s' native native' := by
  refine ⟨h.isPure, ?_, fun h₁ hargs => scripts_given (h.call (leads_of_given h₁) hargs)⟩
  have hhook := h.resultType
  generalize native.resultType = hook, native'.resultType = hook' at hhook ⊢
  cases hhook with
  | some hhook => exact .some fun h₁ hargs => scripts_given (hhook (leads_of_given h₁) hargs)
  | none => exact .none

/-- What is known has to last as long as nothing is remembered and the sink stays. -/
theorem steady_given (hE : E.Steady)
    (hknown : ∀ {s s'}, E.intact s → known s → s.Extends s' → s'.types = s.types →
      s'.output.sink = s.output.sink → known s') :
    (E.given known).Steady where
  contexts :=
    { lasts := fun h hctx => hE.contexts.lasts (leads_of_given h) hctx
      child := fun {s s' _ _} hctx => @Scoped.child _ hE.contexts s s' _ _ hctx
      get? := fun hs => hE.contexts.get? ⟨hs.1, hs.2.1⟩
      bind_cases := fun hs => hE.contexts.bind_cases ⟨hs.1, hs.2.1⟩ }
  linked hs := hE.linked hs.1
  lasts hs hs₁ := hE.lasts hs.1 hs₁.1
  common hs := hE.common hs.1
  shape hs := hE.shape hs.1
  free hs := hE.free hs.1
  native hs hid := ⟨natives_given (hE.native hs.1 hid).1, (hE.native hs.1 hid).2⟩
  findNative hs := hE.findNative hs.1
  intern {s shape} hs hshape := by
    obtain ⟨hs', ht⟩ := hE.intern hs.1 hshape
    exact ⟨⟨hs', hknown hs.1 hs.2 (s.extends_intern shape) (s.types_intern shape)
      (congrArg Output.sink (s.output_intern shape))⟩, ht⟩
  freshVariable {s} hs comptime name := by
    obtain ⟨hs', hv⟩ := hE.freshVariable hs.1 comptime name
    exact ⟨⟨hs', hknown hs.1 hs.2 (s.extends_freshVariable comptime name) rfl rfl⟩, hv⟩
  remembered hs := hE.remembered hs.1
  write {s} hs text := by
    refine ⟨hE.write hs.1 text, ?_⟩
    obtain ⟨output, houtput⟩ := s.write_cases text
    have hsink := s.sink_write text
    rw [houtput] at hsink ⊢
    exact hknown hs.1 hs.2 (.of_eq rfl rfl rfl) rfl hsink

end Given

end Enclosure

end StagedCalculus
