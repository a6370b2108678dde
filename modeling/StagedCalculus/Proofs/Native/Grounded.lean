import StagedCalculus.Proofs.Native.Corresponding
import StagedCalculus.Proofs.Native.Discretion
import StagedCalculus.Proofs.Store.Canonical

/-!
# Natives that make up no handle

A store hands out terms, variables, natives and nominal types. A native is grounded if it mentions
no handle of any kind but those that it captured, was given or was told (`Native.Grounded`). So it
is confined, and it asks the same questions again on a store beside itself
(`Native.Grounded.natives`).
-/

namespace StagedCalculus

namespace Handle

/-- The term that the handle refers to, if it is the handle of one. -/
def term? : Handle → Option TermId
  | .term t => some t
  | _ => none

end Handle

/-- The terms among some handles. -/
def Handle.terms (handles : List Handle) : List TermId := handles.filterMap Handle.term?

namespace Handle

theorem mem_terms {handles : List Handle} {t : TermId} : t ∈ terms handles ↔ .term t ∈ handles := by
  constructor
  · intro h
    obtain ⟨handle, hmem, hterm⟩ := List.mem_filterMap.1 h
    cases handle with
    | term u =>
      cases hterm
      exact hmem
    | _ => nomatch hterm
  · exact fun h => List.mem_filterMap.2 ⟨.term t, h, rfl⟩

end Handle

namespace Query

/-- The handles that a question mentions. -/
@[simp]
def mentions : Query → List Handle
  | .shape t | .infer t | .reduce _ t | .isValue t | .display t => [.term t]
  | .intern layer => layer.handles
  | .signature id => [.native id]
  | _ => []

/-- The handles that an answer tells. -/
@[simp]
def tells : (query : Query) → query.Answer → List Handle
  | .shape _, layer => layer.handles
  | .freshVariable _ _, v => [.var v]
  | .intern _, t => [.term t]
  | .infer _, t => [.term t]
  | .reduce _ _, t => [.term t]
  | .signature _, t => [.term t]
  | .builtin _, leaf => leaf.toList.map .term
  | _, _ => []

theorem mentions_of_mem_handles {query : Query} {t : TermId} (h : t ∈ query.handles) :
    .term t ∈ query.mentions := by
  cases query <;> simp_all [Shape.handles]

theorem mem_revealed_of_tells {query : Query} {answer : query.Answer} {t : TermId}
    (h : .term t ∈ query.tells answer) : t ∈ query.revealed answer := by
  cases query with
  | shape u =>
    rcases List.mem_append.1 h with h | h
    · simpa using h
    · cases answer <;> simp [Shape.constants] at h
  | _ => simp_all

end Query

namespace Script

variable {α : Type}

/-- Every handle that the script mentions is known beforehand or told by an answer, and so is every
term of its result. -/
def Grounded (result : α → List TermId) : List Handle → Script α → Prop
  | known, .done value => ∀ t ∈ result value, .term t ∈ known
  | _, .fail _ => True
  | known, .ask query next =>
    (∀ h ∈ query.mentions, h ∈ known) ∧
      ∀ answer, (next answer).Grounded result (query.tells answer ++ known)

/-- A script that makes up no handle of any kind makes up none of a term. -/
theorem Grounded.confined {result : α → List TermId} {script : Script α} {known : List Handle}
    {terms : List TermId} (h : script.Grounded result known)
    (hterms : ∀ t, .term t ∈ known → t ∈ terms) : script.Confined result terms := by
  induction script generalizing known terms with
  | done value => exact fun t ht => hterms t (h t ht)
  | fail error => trivial
  | ask query next ih =>
    refine ⟨fun t ht => hterms t (h.1 _ (Query.mentions_of_mem_handles ht)), fun answer => ?_⟩
    refine ih answer (h.2 answer) fun t ht => ?_
    rcases List.mem_append.1 ht with ht | ht
    · exact List.mem_append_left _ (Query.mem_revealed_of_tells ht)
    · exact List.mem_append_right _ (hterms t ht)

end Script

namespace Native

/-- The native makes up no handle: besides its arguments it mentions what it captured when it was
registered, and what it is told. -/
structure Grounded (captured : List Handle) (native : Native) : Prop where
  call : ∀ args, (native.call args).Grounded (fun t => [t]) (args.map .term ++ captured)
  resultType : ∀ hook, native.resultType = some hook →
    ∀ args, (hook args).Grounded Option.toList (args.map .term ++ captured)

variable {native : Native} {captured : List Handle}

theorem Grounded.confined (h : native.Grounded captured) :
    native.Confined (Handle.terms captured) := by
  have hterms : ∀ args t, Handle.term t ∈ args.map Handle.term ++ captured →
      t ∈ args ++ Handle.terms captured := by
    intro args t ht
    simpa [Handle.mem_terms] using ht
  exact ⟨fun args => (h.call args).confined (hterms args),
    fun hook hhook args => (h.resultType hook hhook args).confined (hterms args)⟩

end Native

/-! ## A store beside itself -/

namespace Correspondence

/-- A store beside itself: every handle that it has handed out stands for itself. -/
def reflexive : Correspondence where
  like s _ := .diagonal s.Owns
  stores s s' := s' = s
  scope s _ := (Likeness.diagonal s.Owns).Scope
  text := Eq

theorem le_diagonal {owns owns' : Handle → Prop} (h : ∀ handle, owns handle → owns' handle) :
    (Likeness.diagonal owns).Le (Likeness.diagonal owns') :=
  ⟨fun hv => ⟨hv.1, h _ hv.2⟩, fun ht => ⟨ht.1, h _ ht.2⟩, fun hid => h _ hid, fun hn => h _ hn⟩

theorem stable_reflexive : reflexive.Stable where
  text_refl _ := rfl
  text_append h h' := congrArg₂ (· ++ ·) h h'
  mono h := le_diagonal fun _ hown => h.left.owns hown

/-- An answer that stands for itself tells handles of the store only. -/
theorem owns_tells {s : Store} {query : Query} {answer answer' : query.Answer}
    (h : reflexive.Answers s s query query answer answer') :
    answer' = answer ∧ ∀ handle ∈ query.tells answer, s.Owns handle := by
  cases query with
  | shape t => exact Likeness.layer_diagonal.1 h
  | builtin name =>
    cases h with
    | none => exact ⟨rfl, by simp⟩
    | some ht => exact ⟨congrArg some ht.1, by simpa using ht.2⟩
  | freshVariable comptime name => exact ⟨h.1, by simpa using h.2⟩
  | isValue t => exact ⟨h.symm, by simp⟩
  | display t => exact ⟨h.symm, by simp⟩
  | write text => exact ⟨h.symm, by simp⟩
  | _ => exact ⟨h.1, by simpa using h.2⟩

theorem question_reflexive {s : Store} {query : Query}
    (h : ∀ handle ∈ query.mentions, s.Owns handle) : reflexive.Question s s query query := by
  cases query with
  | shape t => exact .shape ⟨rfl, h _ (by simp)⟩
  | intern layer => exact .intern (Likeness.layer_diagonal.2 ⟨rfl, h⟩)
  | freshVariable comptime name =>
    refine .freshVariable comptime ?_
    cases name with
    | none => exact .none
    | some name => exact .some rfl
  | infer t => exact .infer ⟨rfl, h _ (by simp)⟩
  | reduce mode t => exact .reduce mode ⟨rfl, h _ (by simp)⟩
  | isValue t => exact .isValue ⟨rfl, h _ (by simp)⟩
  | builtin name => exact .builtin name
  | signature id => exact .signature (h (.native id) (by simp))
  | display t => exact .display ⟨rfl, h _ (by simp)⟩
  | write text => exact .write text

theorem scripts_reflexive {α : Type} {post : Post α} {result : α → List TermId}
    {script : Script α} {known : List Handle} {s : Store} (h : script.Grounded result known)
    (hknown : ∀ handle ∈ known, s.Owns handle)
    (hpost : ∀ s value, (∀ t ∈ result value, s.Allocated t) → post s s value value) :
    reflexive.Scripts post s s script script := by
  induction script generalizing known s with
  | done value => exact .done (hpost s value fun t ht => hknown _ (h t ht))
  | fail error => exact .fail (.refl (fun _ => rfl) error)
  | ask query next ih =>
    refine .ask (question_reflexive fun handle hhandle => hknown _ (h.1 handle hhandle)) ?_
    intro s₁ s₁' answer answer' hleads hanswer
    obtain rfl : s₁' = s₁ := hleads.after
    obtain ⟨rfl, htold⟩ := owns_tells hanswer
    refine ih answer' (h.2 answer') fun handle hhandle => ?_
    rcases List.mem_append.1 hhandle with htells | hknew
    · exact htold handle htells
    · exact hleads.left.owns (hknown handle hknew)

/-- On handles of the store a grounded native asks about handles of the store only. -/
theorem natives_reflexive {native : Native} {captured : List Handle} {s : Store}
    (h : native.Grounded captured) (hcaptured : ∀ handle ∈ captured, s.Owns handle) :
    reflexive.Natives s s native native := by
  have hknown : ∀ {s₁ : Store} {args : List TermId}, s.Extends s₁ → (∀ t ∈ args, s₁.Allocated t) →
      ∀ handle ∈ args.map Handle.term ++ captured, s₁.Owns handle := by
    intro s₁ args hextends hargs handle hhandle
    rcases List.mem_append.1 hhandle with harg | hcapture
    · obtain ⟨t, ht, rfl⟩ := List.mem_map.1 harg
      exact hargs t ht
    · exact hextends.owns (hcaptured handle hcapture)
  refine ⟨rfl, ?_, fun {s₁ s₁' args args'} hleads hargs => ?_⟩
  · cases hhook : native.resultType with
    | none => exact .none
    | some hook =>
      refine .some fun {s₁ s₁' args args'} hleads hargs => ?_
      obtain rfl : s₁' = s₁ := hleads.after
      obtain ⟨rfl, hargs⟩ := Likeness.terms_diagonal.1 hargs
      refine scripts_reflexive (h.resultType hook hhook _) (hknown hleads.left hargs)
        fun s value hvalue => ?_
      cases value with
      | none => exact .none
      | some t => exact .some ⟨rfl, hvalue t (by simp)⟩
  · obtain rfl : s₁' = s₁ := hleads.after
    obtain ⟨rfl, hargs⟩ := Likeness.terms_diagonal.1 hargs
    exact scripts_reflexive (h.call _) (hknown hleads.left hargs) fun s value hvalue =>
      ⟨rfl, hvalue value (by simp)⟩

end Correspondence

end StagedCalculus
