import Mathlib.Data.List.Forall2
import StagedCalculus.Error
import StagedCalculus.Staging.Context
import StagedCalculus.Store.TypeCache
import StagedCalculus.Term.FreeVariables

/-!
# Handles that stand for each other

Two stores may hold terms of the same form under different handles, or terms that differ in the
choice of their variables. A `Likeness` says which handles of the one stand for which handles of the
other. This module lifts it to everything that is made of handles:

- `Likeness.Layer`: one layer of a term, with its bindings, named components and positions;
- `Likeness.Scope`: contexts, by what they bind;
- `Likeness.Entries`: finite maps from variables, if variables stand in the same order;
- `Error.Alike`: failures, whose texts may differ.
-/

namespace StagedCalculus

/-- Which handles of two stores stand for each other. Natives and nominal types stand for
themselves. -/
structure Likeness where
  var : VarId → VarId → Prop
  term : TermId → TermId → Prop
  native : NativeId → Prop
  nominal : String → Nat → Prop

/-- Lists that are related entry by entry stay so when they are paired. -/
theorem rel_zip {α β γ δ : Type} {R : α → γ → Prop} {S : β → δ → Prop} {l : List α} {k : List β}
    {l' : List γ} {k' : List δ} (h : List.Forall₂ R l l') (h' : List.Forall₂ S k k') :
    List.Forall₂ (fun p p' => R p.1 p'.1 ∧ S p.2 p'.2) (l.zip k) (l'.zip k') := by
  induction h generalizing k k' with
  | nil => exact .nil
  | cons hr _ ih =>
    cases h' with
    | nil => exact .nil
    | cons hs hrest => exact .cons ⟨hr, hs⟩ (ih hrest)

/-- Tests that agree on related entries find related entries. -/
theorem rel_find? {α β : Type} {R : α → β → Prop} {p : α → Bool} {q : β → Bool} {l : List α}
    {l' : List β} (h : List.Forall₂ R l l') (hpq : ∀ {a b}, R a b → p a = q b) :
    Option.Rel R (l.find? p) (l'.find? q) := by
  induction h with
  | nil => exact .none
  | cons hr _ ih =>
    rw [List.find?_cons, List.find?_cons, hpq hr]
    split
    · exact .some hr
    · exact ih

theorem rel_isEmpty {α β : Type} {R : α → β → Prop} {l : List α} {l' : List β}
    (h : List.Forall₂ R l l') : l.isEmpty = l'.isEmpty := by cases h <;> rfl

namespace Likeness

/-! ## One layer of a term -/

structure Binding (L : Likeness) (b b' : VarId × TermId) : Prop where
  var : L.var b.1 b'.1
  term : L.term b.2 b'.2

abbrev Bindings (L : Likeness) : List (VarId × TermId) → List (VarId × TermId) → Prop :=
  List.Forall₂ L.Binding

/-- Components of one name. -/
structure Component (L : Likeness) (c c' : String × TermId) : Prop where
  name : c.1 = c'.1
  term : L.term c.2 c'.2

abbrev Named (L : Likeness) : List (String × TermId) → List (String × TermId) → Prop :=
  List.Forall₂ L.Component

/-- Positions of the same stage that supply variables of one another, if any. -/
structure Position (L : Likeness) (slot slot' : Slot TermId) : Prop where
  ty : L.term slot.ty slot'.ty
  comptime : slot.comptime = slot'.comptime
  binds : Option.Rel L.var slot.binds slot'.binds

/-- Two layers are of one form: they differ in handles alone, and these stand for each other. -/
inductive Layer (L : Likeness) : Shape TermId → Shape TermId → Prop
  | variable {v v' : VarId} : L.var v v' → Layer L (.variable v) (.variable v')
  | abstraction {lets lets' params params' : List (VarId × TermId)} {body body' : TermId} :
      L.Bindings lets lets' → L.Bindings params params' → L.term body body' →
      Layer L (.abstraction lets params body) (.abstraction lets' params' body')
  | forAll {vars vars' : List VarId} {body body' : TermId} : List.Forall₂ L.var vars vars' →
      L.term body body' → Layer L (.forAll vars body) (.forAll vars' body')
  | application {callee callee' : TermId} {args args' : List TermId} : L.term callee callee' →
      List.Forall₂ L.term args args' →
      Layer L (.application callee args) (.application callee' args')
  | projection {domain domain' : TermId} (field : String) : L.term domain domain' →
      Layer L (.projection domain field) (.projection domain' field)
  | cast {subject subject' target target' : TermId} : L.term subject subject' →
      L.term target target' → Layer L (.cast subject target) (.cast subject' target')
  | stringLiteral (value : String) : Layer L (.stringLiteral value) (.stringLiteral value)
  | numericLiteral (value : Rat) : Layer L (.numericLiteral value) (.numericLiteral value)
  | unitValue {ty ty' : TermId} : L.term ty ty' → Layer L (.unitValue ty) (.unitValue ty')
  | productValue {ty ty' : TermId} {fields fields' : List (String × TermId)} : L.term ty ty' →
      L.Named fields fields' → Layer L (.productValue ty fields) (.productValue ty' fields')
  | deferred {ty ty' : TermId} (availability : Availability) : L.term ty ty' →
      Layer L (.deferred ty availability) (.deferred ty' availability)
  | native {id : NativeId} : L.native id → Layer L (.native id) (.native id)
  | typeOfTypes : Layer L .typeOfTypes .typeOfTypes
  | unitType : Layer L .unitType .unitType
  | bottomType : Layer L .bottomType .bottomType
  | topType : Layer L .topType .topType
  | functionType {params params' : List (Slot TermId)} {result result' : TermId} :
      List.Forall₂ L.Position params params' → L.term result result' →
      Layer L (.functionType params result) (.functionType params' result')
  | productType {members members' : List (String × TermId)} : L.Named members members' →
      Layer L (.productType members) (.productType members')
  | stringLiteralType (value : String) :
      Layer L (.stringLiteralType value) (.stringLiteralType value)
  | numericLiteralType (value : Rat) :
      Layer L (.numericLiteralType value) (.numericLiteralType value)
  | namedType {name : String} {id : Nat} : L.nominal name id →
      Layer L (.namedType name id) (.namedType name id)

/-! ## Contexts -/

/-- The contexts bind what stands for each other, frame by frame. -/
structure Scope (L : Likeness) (ctx ctx' : Context) : Prop where
  innermost : L.Bindings ctx.innermost ctx'.innermost
  outer : List.Forall₂ L.Bindings ctx.outer ctx'.outer

/-! ## Finite maps from variables -/

structure Entry {α β : Type} (L : Likeness) (value : α → β → Prop) (e : VarId × α)
    (e' : VarId × β) : Prop where
  var : L.var e.1 e'.1
  value : value e.2 e'.2

/-- The maps list variables that stand for each other, with related values. -/
abbrev Entries {α β : Type} (L : Likeness) (value : α → β → Prop) :
    List (VarId × α) → List (VarId × β) → Prop := List.Forall₂ (L.Entry value)

/-- Free variables that are used in the same way. -/
abbrev Uses (L : Likeness) (fv fv' : FreeVariables) : Prop := L.Entries Eq fv.toList fv'.toList

inductive Observed (L : Likeness) : Observation → Observation → Prop
  | unbound : Observed L .unbound .unbound
  | bound {t t' : TermId} : L.term t t' → Observed L (.bound t) (.bound t')
  | typed {ty ty' : TermId} : L.term ty ty' → Observed L (.typed ty) (.typed ty')

abbrev Restricted (L : Likeness) : Restriction → Restriction → Prop := L.Entries L.Observed

/-- Variables stand in the same order on both sides, so that none stands for two. -/
def Ordered (L : Likeness) : Prop :=
  ∀ ⦃v v' w w'⦄, L.var v v' → L.var w w' → (v.index < w.index ↔ v'.index < w'.index)

/-! ## More handles -/

/-- What stands for each other still does. -/
structure Le (L L' : Likeness) : Prop where
  var : ∀ {v v'}, L.var v v' → L'.var v v'
  term : ∀ {t t'}, L.term t t' → L'.term t t'
  native : ∀ {id}, L.native id → L'.native id
  nominal : ∀ {name id}, L.nominal name id → L'.nominal name id

variable {L L' : Likeness}

theorem Ordered.eq_iff (h : L.Ordered) {v v' w w' : VarId} (hv : L.var v v') (hw : L.var w w') :
    v = w ↔ v' = w' := by
  obtain ⟨i⟩ := v
  obtain ⟨i'⟩ := v'
  obtain ⟨j⟩ := w
  obtain ⟨j'⟩ := w'
  have hlt : i < j ↔ i' < j' := h hv hw
  have hgt : j < i ↔ j' < i' := h hw hv
  simp only [VarId.mk.injEq]
  omega

theorem Ordered.mem_iff (h : L.Ordered) {vars vars' : List VarId}
    (hvars : List.Forall₂ L.var vars vars') {v v' : VarId} (hv : L.var v v') :
    v ∈ vars ↔ v' ∈ vars' := by
  induction hvars with
  | nil => simp
  | cons hw _ ih =>
    rw [List.mem_cons, List.mem_cons]
    exact or_congr (h.eq_iff hv hw) ih

namespace Le

theorem bindings (h : L.Le L') {b b' : List (VarId × TermId)} (hb : L.Bindings b b') :
    L'.Bindings b b' := hb.imp fun _ _ hb => ⟨h.var hb.var, h.term hb.term⟩

theorem named (h : L.Le L') {c c' : List (String × TermId)} (hc : L.Named c c') : L'.Named c c' :=
  hc.imp fun _ _ hc => ⟨hc.name, h.term hc.term⟩

theorem vars (h : L.Le L') {vars vars' : List VarId} (hvars : List.Forall₂ L.var vars vars') :
    List.Forall₂ L'.var vars vars' := hvars.imp fun _ _ hv => h.var hv

theorem terms (h : L.Le L') {terms terms' : List TermId}
    (hterms : List.Forall₂ L.term terms terms') : List.Forall₂ L'.term terms terms' :=
  hterms.imp fun _ _ ht => h.term ht

theorem option {o o' : Option TermId} (h : L.Le L') (ho : Option.Rel L.term o o') :
    Option.Rel L'.term o o' := by
  cases ho with
  | some ht => exact .some (h.term ht)
  | none => exact .none

theorem position (h : L.Le L') {slot slot' : Slot TermId} (hslot : L.Position slot slot') :
    L'.Position slot slot' := by
  refine ⟨h.term hslot.ty, hslot.comptime, ?_⟩
  have hbinds := hslot.binds
  generalize slot.binds = binds, slot'.binds = binds' at hbinds ⊢
  cases hbinds with
  | some hv => exact .some (h.var hv)
  | none => exact .none

theorem positions (h : L.Le L') {slots slots' : List (Slot TermId)}
    (hslots : List.Forall₂ L.Position slots slots') : List.Forall₂ L'.Position slots slots' :=
  hslots.imp fun _ _ hslot => h.position hslot

theorem layer (h : L.Le L') {shape shape' : Shape TermId} (hshape : L.Layer shape shape') :
    L'.Layer shape shape' := by
  cases hshape with
  | «variable» hv => exact .variable (h.var hv)
  | abstraction hlets hparams hbody =>
    exact .abstraction (h.bindings hlets) (h.bindings hparams) (h.term hbody)
  | forAll hvars hbody => exact .forAll (h.vars hvars) (h.term hbody)
  | application hcallee hargs => exact .application (h.term hcallee) (h.terms hargs)
  | projection field hdomain => exact .projection field (h.term hdomain)
  | cast hsubject htarget => exact .cast (h.term hsubject) (h.term htarget)
  | stringLiteral value => exact .stringLiteral value
  | numericLiteral value => exact .numericLiteral value
  | unitValue hty => exact .unitValue (h.term hty)
  | productValue hty hfields => exact .productValue (h.term hty) (h.named hfields)
  | deferred availability hty => exact .deferred availability (h.term hty)
  | native hid => exact .native (h.native hid)
  | typeOfTypes => exact .typeOfTypes
  | unitType => exact .unitType
  | bottomType => exact .bottomType
  | topType => exact .topType
  | functionType hparams hresult => exact .functionType (h.positions hparams) (h.term hresult)
  | productType hmembers => exact .productType (h.named hmembers)
  | stringLiteralType value => exact .stringLiteralType value
  | numericLiteralType value => exact .numericLiteralType value
  | namedType hname => exact .namedType (h.nominal hname)

theorem scope (h : L.Le L') {ctx ctx' : Context} (hctx : L.Scope ctx ctx') : L'.Scope ctx ctx' :=
  ⟨h.bindings hctx.innermost, hctx.outer.imp fun _ _ hframe => h.bindings hframe⟩

theorem observed (h : L.Le L') {o o' : Observation} (ho : L.Observed o o') : L'.Observed o o' := by
  cases ho with
  | unbound => exact .unbound
  | bound ht => exact .bound (h.term ht)
  | typed hty => exact .typed (h.term hty)

theorem restricted (h : L.Le L') {r r' : Restriction} (hr : L.Restricted r r') :
    L'.Restricted r r' := hr.imp fun _ _ he => ⟨h.var he.var, h.observed he.value⟩

end Le

/-! ## Contexts and what they bind -/

section Scopes

variable {ctx ctx' : Context} {v v' : VarId} {t t' : TermId}

theorem scope_root (L : Likeness) : L.Scope .root .root := ⟨.nil, .nil⟩

theorem Scope.child (h : L.Scope ctx ctx') : L.Scope ctx.child ctx'.child :=
  ⟨.nil, .cons h.innermost h.outer⟩

theorem get?_of_bindings {frame frame' : Frame} (h : L.Bindings frame frame') (hL : L.Ordered)
    (hv : L.var v v') : Option.Rel L.term (frame.get? v) (frame'.get? v') := by
  have hfind : Option.Rel L.Binding (frame.find? fun e => e.1 = v)
      (frame'.find? fun e => e.1 = v') :=
    rel_find? h fun hb => decide_eq_decide.2 (hL.eq_iff hb.var hv)
  unfold Frame.get?
  generalize frame.find? (fun e => e.1 = v) = found, frame'.find? (fun e => e.1 = v') = found'
    at hfind ⊢
  cases hfind with
  | some hb => exact .some hb.term
  | none => exact .none

theorem Scope.get? (h : L.Scope ctx ctx') (hL : L.Ordered) (hv : L.var v v') :
    Option.Rel L.term (ctx.get? v) (ctx'.get? v') := by
  have hframes : List.Forall₂ L.Bindings ctx.frames ctx'.frames := .cons h.innermost h.outer
  unfold Context.get?
  generalize ctx.frames = frames, ctx'.frames = frames' at hframes ⊢
  induction hframes with
  | nil => exact .none
  | @cons frame frame' rest rest' hframe _ ih =>
    have hhead := get?_of_bindings hframe hL hv
    rw [List.findSome?_cons, List.findSome?_cons]
    generalize frame.get? v = value, frame'.get? v' = value' at hhead ⊢
    cases hhead with
    | some ht => exact .some ht
    | none => exact ih

/-- A variable can be bound on both sides or on neither. -/
theorem Scope.bind_cases (h : L.Scope ctx ctx') (hL : L.Ordered) (hv : L.var v v')
    (ht : L.term t t') :
    (∃ bound bound', ctx.bind? v t = some bound ∧ ctx'.bind? v' t' = some bound' ∧
      L.Scope bound bound') ∨ ctx.bind? v t = none ∧ ctx'.bind? v' t' = none := by
  have hget := get?_of_bindings h.innermost hL hv
  unfold Context.bind?
  generalize ctx.innermost.get? v = value, ctx'.innermost.get? v' = value' at hget ⊢
  cases hget with
  | some _ => exact Or.inr ⟨rfl, rfl⟩
  | none => exact Or.inl ⟨_, _, rfl, rfl, .cons ⟨hv, ht⟩ h.innermost, h.outer⟩

end Scopes

/-! ## Named components -/

section Names

variable {components components' : List (String × TermId)}

/-- The components of one name stand for each other, if there are any. -/
theorem named_find? (h : L.Named components components') (name : String) :
    Option.Rel L.Component (components.find? fun c => c.1 = name)
      (components'.find? fun c => c.1 = name) := rel_find? h fun hc => by rw [hc.name]

theorem named_names (h : L.Named components components') :
    components.map (·.1) = components'.map (·.1) := by
  induction h with
  | nil => rfl
  | cons hc _ ih => rw [List.map_cons, List.map_cons, hc.name, ih]

end Names

/-! ## Operations on finite maps -/

section Maps

variable {α β : Type} {value : α → β → Prop} {entries : List (VarId × α)}
  {entries' : List (VarId × β)} {v v' : VarId}

theorem entries_vars (h : L.Entries value entries entries') :
    List.Forall₂ L.var (entries.map (·.1)) (entries'.map (·.1)) := by
  induction h with
  | nil => exact .nil
  | cons he _ ih => exact .cons he.var ih

/-- A variable is found on both sides or on neither. -/
theorem entries_any_eq (h : L.Entries value entries entries') (hL : L.Ordered) (hv : L.var v v') :
    (entries.any fun e => decide (e.1 = v)) = entries'.any fun e => decide (e.1 = v') := by
  induction h with
  | nil => rfl
  | cons he _ ih =>
    rw [List.any_cons, List.any_cons, ih, decide_eq_decide.2 (hL.eq_iff he.var hv)]

theorem entries_dropWhile {p : VarId × α → Bool} {p' : VarId × β → Bool}
    (h : L.Entries value entries entries')
    (hp : ∀ {e e'}, L.var e.1 e'.1 → value e.2 e'.2 → p e = p' e') :
    L.Entries value (entries.dropWhile p) (entries'.dropWhile p') := by
  induction h with
  | nil => exact .nil
  | @cons e e' rest rest' he hrest ih =>
    rw [List.dropWhile_cons, List.dropWhile_cons, hp he.var he.value]
    split
    · exact ih
    · exact .cons he hrest

theorem entries_place {combine : α → α → α} {combine' : β → β → β} {a : α} {b : β}
    (h : L.Entries value entries entries') (hL : L.Ordered) (hv : L.var v v') (hab : value a b)
    (hcombine : ∀ {x y}, value x y → value (combine x a) (combine' y b)) :
    L.Entries value (VarMap.place combine v a entries) (VarMap.place combine' v' b entries') := by
  induction h with
  | nil => exact .cons ⟨hv, hab⟩ .nil
  | @cons e e' rest rest' he hrest ih =>
    have hlt : v.index < e.1.index ↔ v'.index < e'.1.index := hL hv he.var
    have hgt : e.1.index < v.index ↔ e'.1.index < v'.index := hL he.var hv
    unfold VarMap.place
    by_cases hfirst : v.index < e.1.index
    · rw [if_pos hfirst, if_pos (hlt.1 hfirst)]
      exact .cons ⟨hv, hab⟩ (.cons he hrest)
    · rw [if_neg hfirst, if_neg fun h' => hfirst (hlt.2 h')]
      by_cases hlater : e.1.index < v.index
      · rw [if_pos hlater, if_pos (hgt.1 hlater)]
        exact .cons he ih
      · rw [if_neg hlater, if_neg fun h' => hlater (hgt.2 h')]
        exact .cons ⟨he.var, hcombine he.value⟩ hrest

theorem entries_erase (h : L.Entries value entries entries') (hL : L.Ordered) (hv : L.var v v') :
    L.Entries value (entries.filter fun e => e.1 ≠ v) (entries'.filter fun e => e.1 ≠ v') := by
  refine List.rel_filter (fun e e' he => ?_) h
  simpa using not_congr (hL.eq_iff he.var hv)

end Maps

end Likeness

/-! ## Failures -/

/-- Failures of one kind, whose texts are related. -/
inductive Error.Alike (text : String → String → Prop) : Error → Error → Prop
  | unboundVariable {name name' : String} : text name name' →
      Alike text (.unboundVariable name) (.unboundVariable name')
  | arityMismatch (expected found : Nat) :
      Alike text (.arityMismatch expected found) (.arityMismatch expected found)
  | unificationFailure {expected expected' found found' : String} : text expected expected' →
      text found found' →
      Alike text (.unificationFailure expected found) (.unificationFailure expected' found')
  | uncastableTypes {source source' target target' : String} : text source source' →
      text target target' →
      Alike text (.uncastableTypes source target) (.uncastableTypes source' target')
  | notYetImplemented (what : String) :
      Alike text (.notYetImplemented what) (.notYetImplemented what)
  | notAFunction {found found' : String} : text found found' →
      Alike text (.notAFunction found) (.notAFunction found')
  | notAProduct {found found' : String} : text found found' →
      Alike text (.notAProduct found) (.notAProduct found')
  | missingField (field : String) (suggestions : List String) :
      Alike text (.missingField field suggestions) (.missingField field suggestions)
  | comptimeArgumentUnavailable (index : Nat) :
      Alike text (.comptimeArgumentUnavailable index) (.comptimeArgumentUnavailable index)
  | valueNotAvailable {name name' : String} : text name name' →
      Alike text (.valueNotAvailable name) (.valueNotAvailable name')
  | alreadyBound {name name' : String} : text name name' →
      Alike text (.alreadyBound name) (.alreadyBound name')
  | depthExceeded (limit : Nat) : Alike text (.depthExceeded limit) (.depthExceeded limit)
  | native {message message' : String} (name : String) : text message message' →
      Alike text (.native name message) (.native name message')

theorem Error.Alike.refl {text : String → String → Prop} (h : ∀ x, text x x) (e : Error) :
    e.Alike text e := by
  cases e with
  | unboundVariable name => exact .unboundVariable (h name)
  | arityMismatch expected found => exact .arityMismatch expected found
  | unificationFailure expected found => exact .unificationFailure (h expected) (h found)
  | uncastableTypes source target => exact .uncastableTypes (h source) (h target)
  | notYetImplemented what => exact .notYetImplemented what
  | notAFunction found => exact .notAFunction (h found)
  | notAProduct found => exact .notAProduct (h found)
  | missingField field suggestions => exact .missingField field suggestions
  | comptimeArgumentUnavailable index => exact .comptimeArgumentUnavailable index
  | valueNotAvailable name => exact .valueNotAvailable (h name)
  | alreadyBound name => exact .alreadyBound (h name)
  | depthExceeded limit => exact .depthExceeded limit
  | native name message => exact .native name (h message)

/-- Failures with the same texts are the same. -/
theorem Error.Alike.eq {e e' : Error} (h : e.Alike Eq e') : e = e' := by
  cases h <;> simp_all

end StagedCalculus
