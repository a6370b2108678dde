import StagedCalculus.Proofs.Staging.Renaming

/-!
# Runs on renamed terms

This module follows two runs on a new store whose terms differ by a renaming that keeps the order of
variables.

- `Renaming.Alongside`: what the stores have in common on the way;
- `Renaming.lawful`: whatever a store offers keeps it so;
- `Renaming.judgments_agree`: evaluation, compilation and inference give results that differ by the
  renaming;
- `Renaming.evaluate_captures`: they need not if the renaming joins two variables.
-/

namespace StagedCalculus

namespace Renaming

open Attempt Build Correspondence

variable {base : Store} {ρ : Renaming base} {s s' s₁ s₁' : Store} {t t' u u' : TermId}

/-! ## Stores side by side -/

/-- Later states of a new store that went through the same steps up to the renaming. -/
structure Alongside (ρ : Renaming base) (s s' : Store) : Prop where
  ordered : ρ.KeepsOrder
  left : s.Intact
  right : s'.Intact
  fromLeft : base.Extends s
  fromRight : base.Extends s'
  natives : s.natives = base.natives ∧ s'.natives = base.natives
  config : s.config = s'.config
  sink : s.output.sink = s'.output.sink
  size : s.vars.size = s'.vars.size
  comptime : ∀ {v v'}, (ρ.like s s').var v v' → s.isComptime v = s'.isComptime v'
  /-- What is remembered on one side is remembered on the other. -/
  forth : ∀ {t r answer}, s.types.get? t r = some answer → ∃ t' r' answer',
    ρ.Renames s s' t t' ∧ (ρ.like s s').Restricted r r' ∧ s'.types.get? t' r' = some answer' ∧
      ρ.Agree (answer, s) (answer', s')
  back : ∀ {t' r' answer'}, s'.types.get? t' r' = some answer' → ∃ t r answer,
    ρ.Renames s s' t t' ∧ (ρ.like s s').Restricted r r' ∧ s.types.get? t r = some answer ∧
      ρ.Agree (answer, s) (answer', s')

/-- Two runs on a new store, side by side, whose terms differ by the renaming. -/
def alongside (ρ : Renaming base) : Correspondence where
  like := ρ.like
  stores := ρ.Alongside
  scope s s' := (ρ.like s s').Scope
  text _ _ := True

theorem agree_iff {answer answer' : TypeAnswer} :
    ρ.Agree (answer, s) (answer', s') ↔
      ρ.alongside.Result (ρ.Renames s s') answer answer' := by
  constructor
  · intro h
    cases h with
    | gives ht => exact .ok ht
    | fails he => exact .error he
  · intro h
    cases h with
    | ok ht => exact .gives ht
    | error he => exact .fails he

/-! ## What a store offers -/

namespace Alongside

/-- Steps that leave the remembered answers alone. -/
theorem step (h : ρ.Alongside s s') (hleft : s₁.Intact) (hright : s₁'.Intact)
    (hle : s.Extends s₁) (hle' : s'.Extends s₁') (hnatives : s₁.natives = s.natives)
    (hnatives' : s₁'.natives = s'.natives) (hconfig : s₁.config = s₁'.config)
    (hsink : s₁.output.sink = s₁'.output.sink) (hsize : s₁.vars.size = s₁'.vars.size)
    (hcomptime : ∀ {v v'}, (ρ.like s₁ s₁').var v v' → s₁.isComptime v = s₁'.isComptime v')
    (htypes : s₁.types = s.types) (htypes' : s₁'.types = s'.types) : ρ.Alongside s₁ s₁' where
  ordered := h.ordered
  left := hleft
  right := hright
  fromLeft := h.fromLeft.trans hle
  fromRight := h.fromRight.trans hle'
  natives := ⟨hnatives.trans h.natives.1, hnatives'.trans h.natives.2⟩
  config := hconfig
  sink := hsink
  size := hsize
  comptime := hcomptime
  forth := by
    intro t r answer hget
    rw [htypes] at hget
    rw [htypes']
    obtain ⟨t', r', answer', ht, hr, hget', ha⟩ := h.forth hget
    exact ⟨t', r', answer', ht.mono hle hle', (like_le hle hle').restricted hr, hget',
      ha.mono hle hle'⟩
  back := by
    intro t' r' answer' hget'
    rw [htypes'] at hget'
    rw [htypes]
    obtain ⟨t, r, answer, ht, hr, hget, ha⟩ := h.back hget'
    exact ⟨t, r, answer, ht.mono hle hle', (like_le hle hle').restricted hr, hget,
      ha.mono hle hle'⟩

/-- Variables keep their stages while none is added. -/
theorem comptime_of_vars (h : ρ.Alongside s s') (hvars : s₁.vars = s.vars)
    (hvars' : s₁'.vars = s'.vars) {v v' : VarId} (hv : (ρ.like s₁ s₁').var v v') :
    s₁.isComptime v = s₁'.isComptime v' := by
  have hold : (ρ.like s s').var v v' := by
    rcases hv with hpair | ⟨hfresh, hlt, rfl⟩
    · exact Or.inl hpair
    · exact Or.inr ⟨hfresh, by rwa [← hvars], rfl⟩
  have hsame : ∀ {s s₁ : Store}, s₁.vars = s.vars → s₁.isComptime = s.isComptime := by
    intro s s₁ hvars
    funext v
    rw [Store.isComptime, Store.variableInfo, hvars, Store.isComptime, Store.variableInfo]
  rw [hsame hvars, hsame hvars', h.comptime hold]

theorem declared (h : ρ.Alongside s s') {v v' : VarId} (hv : (ρ.like s s').var v v') :
    v.index < s.vars.size ∧ v'.index < s'.vars.size := by
  rcases hv with hpair | ⟨-, hlt, rfl⟩
  · obtain ⟨hv, hv'⟩ := ρ.declared hpair
    exact ⟨h.fromLeft.lt_vars hv, h.fromRight.lt_vars hv'⟩
  · exact ⟨hlt, Nat.lt_of_lt_of_eq hlt h.size⟩

/-- The stores have handed out the handles of shapes that are alike. -/
theorem covers (h : ρ.Alongside s s') {shape shape' : Shape TermId}
    (hshape : (ρ.like s s').Layer shape shape') : s.Covers shape ∧ s'.Covers shape' := by
  have hleft : ∀ handle, base.Owns handle → s.Owns handle := fun _ => h.fromLeft.owns
  have hright : ∀ handle, base.Owns handle → s'.Owns handle := fun _ => h.fromRight.owns
  constructor
  · exact hshape.owns (fun hv => (h.declared hv).1) (fun ht => ht.allocated.1) (hleft (.native _))
      (hleft (.nominal _ _))
  · exact hshape.flip.owns (fun hv => (h.declared hv).2) (fun ht => ht.allocated.2)
      (hright (.native _)) (hright (.nominal _ _))

theorem intern (h : ρ.Alongside s s') {shape shape' : Shape TermId}
    (hshape : (ρ.like s s').Layer shape shape') :
    ρ.Alongside (s.intern shape).2 (s'.intern shape').2 ∧
      ρ.Renames (s.intern shape).2 (s'.intern shape').2 (s.intern shape).1
        (s'.intern shape').1 := by
  obtain ⟨hcovers, hcovers'⟩ := h.covers hshape
  have hle := Store.extends_intern s shape
  have hle' := Store.extends_intern s' shape'
  constructor
  · refine h.step (Store.intact_intern h.left hcovers) (Store.intact_intern h.right hcovers') hle
      hle' (Store.natives_intern s shape) (Store.natives_intern s' shape') ?_ ?_ ?_ ?_
      (Store.types_intern s shape) (Store.types_intern s' shape')
    · rw [Store.config_intern, Store.config_intern, h.config]
    · rw [Store.output_intern, Store.output_intern, h.sink]
    · rw [Store.vars_intern, Store.vars_intern, h.size]
    · exact h.comptime_of_vars (Store.vars_intern s shape) (Store.vars_intern s' shape')
  · by_cases hquantifier : ∃ body, shape = .forAll [] body
    · -- A quantifier over nothing is its body, on both sides.
      obtain ⟨body, rfl⟩ := hquantifier
      cases hshape with
      | forAll hvars hbody =>
        cases hvars
        exact hbody
    · have hnew : ∀ body, shape ≠ .forAll [] body := fun body hbody => hquantifier ⟨body, hbody⟩
      have hnew' : ∀ body, shape' ≠ .forAll [] body := by
        rintro body rfl
        cases hshape with
        | forAll hvars hbody =>
          cases hvars
          exact hnew _ rfl
      refine .of_layer (Store.allocated_intern h.left.toLinked hcovers.children)
        (Store.allocated_intern h.right.toLinked hcovers'.children) ?_
      rw [Store.shape_intern hnew, Store.shape_intern hnew']
      exact (like_le hle hle').layer hshape

theorem freshVariable (h : ρ.Alongside s s') (comptime : Bool) (name name' : Option String) :
    ρ.Alongside (s.freshVariable comptime name).2 (s'.freshVariable comptime name').2 ∧
      (ρ.like (s.freshVariable comptime name).2 (s'.freshVariable comptime name').2).var
        (s.freshVariable comptime name).1 (s'.freshVariable comptime name').1 := by
  have hle := Store.extends_freshVariable s comptime name
  have hle' := Store.extends_freshVariable s' comptime name'
  constructor
  · refine h.step (Store.intact_freshVariable h.left comptime name)
      (Store.intact_freshVariable h.right comptime name') hle hle' rfl rfl h.config h.sink ?_ ?_
      rfl rfl
    · simp [Store.freshVariable, h.size]
    · intro v v' hv
      by_cases hold : (ρ.like s s').var v v'
      · obtain ⟨hlt, hlt'⟩ := h.declared hold
        rw [hle.isComptime_eq hlt, hle'.isComptime_eq hlt', h.comptime hold]
      · -- The only new pair is that of the new variables.
        rcases hv with hpair | ⟨hfresh, hlt, rfl⟩
        · exact absurd (Or.inl hpair) hold
        · have hnew : v'.index = s.vars.size := by
            have hge : ¬ v'.index < s.vars.size := fun hlt => hold (Or.inr ⟨hfresh, hlt, rfl⟩)
            simp only [Store.freshVariable, Array.size_push] at hlt
            omega
          rw [Store.isComptime_freshVariable hnew,
            Store.isComptime_freshVariable (hnew.trans h.size)]
  · refine Or.inr ⟨h.fromLeft.size_vars, ?_, ?_⟩
    · simp [Store.freshVariable]
    · simp [Store.freshVariable, h.size]

/-! ## Remembered answers -/

theorem right_unique (h : ρ.Alongside s s') : Relator.RightUnique (ρ.Renames s s') :=
  Renames.right_unique h.ordered h.left h.right

theorem left_unique (h : ρ.Alongside s s') : Relator.LeftUnique (ρ.Renames s s') :=
  Renames.left_unique h.ordered h.left h.right

theorem right_unique_restricted (h : ρ.Alongside s s') :
    Relator.RightUnique (ρ.like s s').Restricted := by
  refine Relator.RightUnique.forall₂ fun e a b ha hb => ?_
  have hterm := h.right_unique
  have hvalue : ∀ {o o' o''}, (ρ.like s s').Observed o o' → (ρ.like s s').Observed o o'' →
      o' = o'' := by
    intro o o' o'' h h'
    cases h with
    | unbound =>
      cases h'
      rfl
    | bound ht =>
      cases h' with
      | bound ht' => rw [hterm ht ht']
    | typed hty =>
      cases h' with
      | typed hty' => rw [hterm hty hty']
  exact Prod.ext ((h.ordered.like.eq_iff ha.var hb.var).1 rfl) (hvalue ha.value hb.value)

theorem left_unique_restricted (h : ρ.Alongside s s') :
    Relator.LeftUnique (ρ.like s s').Restricted := by
  refine Relator.LeftUnique.forall₂ fun a b e ha hb => ?_
  have hterm := h.left_unique
  have hvalue : ∀ {o o' o''}, (ρ.like s s').Observed o o'' → (ρ.like s s').Observed o' o'' →
      o = o' := by
    intro o o' o'' h h'
    cases h with
    | unbound =>
      cases h'
      rfl
    | bound ht =>
      cases h' with
      | bound ht' => rw [hterm ht ht']
    | typed hty =>
      cases h' with
      | typed hty' => rw [hterm hty hty']
  exact Prod.ext ((h.ordered.like.eq_iff ha.var hb.var).2 rfl) (hvalue ha.value hb.value)

/-- Renamed queries find renamed answers, or none. -/
theorem remembered (h : ρ.Alongside s s') {r r' : Restriction} (ht : ρ.Renames s s' t t')
    (hr : (ρ.like s s').Restricted r r') :
    Option.Rel (ρ.alongside.Result (ρ.Renames s s')) (s.types.get? t r) (s'.types.get? t' r') := by
  cases hget : s.types.get? t r with
  | some answer =>
    obtain ⟨u', q', answer', hu, hq, hget', ha⟩ := h.forth hget
    rw [h.right_unique ht hu, h.right_unique_restricted hr hq, hget']
    exact .some (agree_iff.1 ha)
  | none =>
    cases hget' : s'.types.get? t' r' with
    | some answer' =>
      obtain ⟨u, q, answer, hu, hq, hget, ha⟩ := h.back hget'
      rw [h.left_unique hu ht, h.left_unique_restricted hq hr] at hget
      simp_all
    | none => exact .none

theorem remember (h : ρ.Alongside s s') {r r' : Restriction} {answer answer' : TypeAnswer}
    (ht : ρ.Renames s s' t t') (hr : (ρ.like s s').Restricted r r')
    (ha : ρ.Agree (answer, s) (answer', s')) :
    ρ.Alongside { s with types := s.types.insert t r answer }
      { s' with types := s'.types.insert t' r' answer' } := by
  have hle : ∀ (s : Store) types, s.Extends { s with types } := fun s types => .of_eq rfl rfl rfl
  have hlike := like_le (ρ := ρ) (hle s (s.types.insert t r answer))
    (hle s' (s'.types.insert t' r' answer'))
  have hanswer : ∀ ty, answer = .ok ty → s.Allocated ty := by
    rintro ty rfl
    cases ha with
    | gives hty => exact hty.allocated.1
  have hanswer' : ∀ ty, answer' = .ok ty → s'.Allocated ty := by
    rintro ty rfl
    cases ha with
    | gives hty => exact hty.allocated.2
  refine ⟨h.ordered, Store.intact_remember h.left hanswer, Store.intact_remember h.right hanswer',
    h.fromLeft.trans (hle s _), h.fromRight.trans (hle s' _), h.natives, h.config, h.sink, h.size,
    h.comptime, fun {u q b} hget => ?_, fun {u' q' b'} hget => ?_⟩
  · rw [TypeCache.get?_insert] at hget
    split at hget
    · rename_i hkey
      obtain ⟨rfl, rfl⟩ := hkey
      cases hget
      exact ⟨t', r', answer', ht.mono (hle s _) (hle s' _), hlike.restricted hr,
        TypeCache.get?_insert_self _ _ _ _, ha.mono (hle s _) (hle s' _)⟩
    · rename_i hkey
      obtain ⟨u', q', b', hu, hq, hget', hb⟩ := h.forth hget
      refine ⟨u', q', b', hu.mono (hle s _) (hle s' _), hlike.restricted hq, ?_,
        hb.mono (hle s _) (hle s' _)⟩
      rw [TypeCache.get?_insert, if_neg, hget']
      rintro ⟨rfl, rfl⟩
      exact hkey ⟨h.left_unique hu ht, h.left_unique_restricted hq hr⟩
  · rw [TypeCache.get?_insert] at hget
    split at hget
    · rename_i hkey
      obtain ⟨rfl, rfl⟩ := hkey
      cases hget
      exact ⟨t, r, answer, ht.mono (hle s _) (hle s' _), hlike.restricted hr,
        TypeCache.get?_insert_self _ _ _ _, ha.mono (hle s _) (hle s' _)⟩
    · rename_i hkey
      obtain ⟨u, q, b, hu, hq, hget', hb⟩ := h.back hget
      refine ⟨u, q, b, hu.mono (hle s _) (hle s' _), hlike.restricted hq, ?_,
        hb.mono (hle s _) (hle s' _)⟩
      rw [TypeCache.get?_insert, if_neg, hget']
      rintro ⟨rfl, rfl⟩
      exact hkey ⟨h.right_unique hu ht, h.right_unique_restricted hq hr⟩

/-- Where a text goes is all that matters about the output. -/
theorem withOutput (h : ρ.Alongside s s') {output output' : Output}
    (hsink : output.sink = output'.sink) :
    ρ.Alongside { s with output := output } { s' with output := output' } := by
  have hle : ∀ (s : Store) output, s.Extends { s with output } := fun s _ => .of_eq rfl rfl rfl
  exact h.step (Store.intact_output h.left output) (Store.intact_output h.right output') (hle s _)
    (hle s' _) rfl rfl h.config hsink h.size h.comptime rfl rfl

/-- Also if different texts are written. -/
theorem wrote (h : ρ.Alongside s s') (text text' : String) :
    ρ.Alongside (s.write text).2 (s'.write text').2 := by
  have hsink : (s.write text).2.output.sink = (s'.write text').2.output.sink := by
    rw [Store.sink_write, Store.sink_write, h.sink]
  obtain ⟨output, houtput⟩ := s.write_cases text
  obtain ⟨output', houtput'⟩ := s'.write_cases text'
  rw [houtput, houtput'] at hsink ⊢
  exact h.withOutput hsink

theorem write (h : ρ.Alongside s s') (text : String) :
    ρ.alongside.Result Eq (s.write text).1 (s'.write text).1 ∧
      ρ.Alongside (s.write text).2 (s'.write text).2 := by
  refine ⟨?_, h.wrote text text⟩
  unfold Store.write Output.write
  rw [← h.sink]
  cases s.output.sink.failure? text with
  | some reason => exact .error (.refl (fun _ => trivial) _)
  | none => cases s.output.sink <;> exact .ok rfl

end Alongside

/-! ## The renaming as a correspondence -/

theorem stable_alongside (ρ : Renaming base) : ρ.alongside.Stable where
  text_refl _ := trivial
  text_append _ _ := trivial
  mono h := like_le h.left h.right

/-- The terms of the initial store keep their variables. -/
theorem Renames.initial (hbase : base.Standard) (h : ρ.Alongside s s')
    (ht : (Store.initial base.config).Allocated t) : ρ.Renames s s' t t :=
  .same (Store.intact_initial _) hbase.extends_initial ρ.builtin h.fromLeft h.fromRight ht

/-- There are the built-in natives only, and they look at no variable. -/
theorem native (hbase : base.Standard) (h : ρ.Alongside s s') (id : NativeId) :
    Option.Rel (fun registered registered' =>
      ρ.alongside.Natives s s' registered.native registered'.native ∧
        ρ.Renames s s' registered.signature registered'.signature)
      (s.native? id) (s'.native? id) := by
  have hleft : s.native? id = base.native? id := by rw [Store.native?, h.natives.1, Store.native?]
  have hright : s'.native? id = base.native? id := by rw [Store.native?, h.natives.2, Store.native?]
  rw [hleft, hright]
  cases hid : base.native? id with
  | none => exact .none
  | some registered =>
    refine .some ⟨hbase.natives_alike (stable_alongside ρ) hid, .initial hbase h ?_⟩
    rw [Store.native?, hbase.natives] at hid
    exact (Store.intact_initial _).signatures id registered hid

theorem findNative (h : ρ.Alongside s s') (name : String) :
    s.findNative? name = s'.findNative? name ∧
      ∀ id ∈ s.findNative? name, id.index < base.natives.size := by
  have hsame : s.natives = s'.natives := h.natives.1.trans h.natives.2.symm
  have hnames : s.nativeName = s'.nativeName := by
    funext id
    rw [Store.nativeName, Store.nativeName, Store.native?, hsame, Store.native?]
  constructor
  · rw [Store.findNative?, Store.findNative?, hsame, hnames]
  · intro id hid
    exact h.natives.1 ▸ Store.lt_of_findNative? hid

theorem lawful (hbase : base.Standard) : ρ.alongside.Lawful where
  toStable := stable_alongside ρ
  toScoped := scoped_of_frames rfl (stable_alongside ρ).mono fun h => h.ordered.like
  linked h := ⟨h.left.toLinked, h.right.toLinked⟩
  limit h := by rw [h.config]
  size h := h.size
  ordered h := h.ordered.like
  unique h ht hu := ⟨fun heq => h.right_unique (heq ▸ ht) hu,
    fun heq => h.left_unique ht (heq ▸ hu)⟩
  common h i hi := .initial hbase h ((Store.intact_initial _).allocated_common hi)
  shape _ ht := ht.layer
  free h ht := ht.uses h.ordered h.left h.right
  pending h ht := ht.pending_eq h.left h.right
  display _ _ := trivial
  comptime h hv := h.comptime hv
  name _ _ := trivial
  native h _ := native hbase h _
  findNative h name := findNative h name
  intern h hshape := h.intern hshape
  freshVariable h comptime _ := h.freshVariable comptime _ _
  remembered h ht hr := h.remembered ht hr
  remember h ht hr ha := h.remember ht hr (agree_iff.2 ha)
  write h text := h.write text

/-! ## The judgments -/

/-- At the beginning nothing is remembered on either side. -/
theorem alongside_base (hbase : base.Built) (hρ : ρ.KeepsOrder) : ρ.Alongside base base := by
  have hnothing : ∀ t r, base.types.get? t r = none := by simp [hbase.types_eq]
  have hintact := hbase.genuine.intact
  refine ⟨hρ, hintact, hintact, .refl _, .refl _, ⟨rfl, rfl⟩, rfl, rfl, rfl,
    fun hv => ?_, fun hget => ?_, fun hget => ?_⟩
  · rcases hv with hpair | ⟨-, -, rfl⟩
    · exact ρ.comptime hpair
    · rfl
  · simp [hnothing] at hget
  · simp [hnothing] at hget

/-- Computations that end alike on either side. -/
theorem agree_of_corresponds (hbase : base.Built) (hρ : ρ.KeepsOrder) {c c' : Attempt TermId}
    (h : ρ.alongside.Corresponds ρ.alongside.Terms c c' base base) :
    ρ.Agree (c.run base) (c'.run base) := by
  have hends := h (alongside_base hbase hρ)
  generalize c.run base = r, c'.run base = r' at hends ⊢
  cases hends with
  | fails _ he => exact .fails he
  | gives _ ht => exact .gives ht

/-- Evaluation, compilation and inference of renamed terms in renamed contexts give renamed terms,
or fail with one kind of error. -/
theorem judgments_agree (hbase : base.Built) (hρ : ρ.KeepsOrder) {ctx ctx' : Context}
    (hctx : (ρ.like base base).Scope ctx ctx') (ht : ρ.Renames base base t t') :
    ρ.Agree ((Attempt.evaluate ctx t).run base) ((Attempt.evaluate ctx' t').run base) ∧
      ρ.Agree ((Attempt.compile ctx t).run base) ((Attempt.compile ctx' t').run base) ∧
      ρ.Agree ((Attempt.infer ctx t).run base) ((Attempt.infer ctx' t').run base) :=
  ⟨agree_of_corresponds hbase hρ (corresponds_reduce (lawful hbase.standard) hctx ht),
    agree_of_corresponds hbase hρ (corresponds_reduce (lawful hbase.standard) hctx ht),
    agree_of_corresponds hbase hρ (corresponds_infer (lawful hbase.standard) hctx ht)⟩

end Renaming

/-! ## A function whose inner variable is renamed -/

namespace Sample

open Build

/-- `fn(y: Unit) => {let x = y; {let w = 5; x}}`. -/
def nestedLet (x y w : VarId) : Build TermId := do
  let five ← numeric 5
  let xTerm ← variableTerm x
  let inner ← letIn [(w, five)] xTerm
  let yTerm ← variableTerm y
  let outer ← letIn [(x, yTerm)] inner
  abstraction [] [(y, Store.unitType)] outer

/-- Three such functions. The inner variable is `z`, `w` and `y`. -/
def nestedLets : Build (TermId × TermId × TermId) := do
  let x ← freshVariable false (some "x")
  let y ← freshVariable false (some "y")
  let z ← freshVariable false (some "z")
  let w ← freshVariable false (some "w")
  return (← nestedLet x y z, ← nestedLet x y w, ← nestedLet x y y)

/-- The functions in a new store. -/
def nested : (TermId × TermId × TermId) × Store := nestedLets.run (.initial {})

seal Store.intern Store.initial in
theorem built_nested : nested.2.Built := by
  repeat' apply Store.Built.add
  · exact fun _ : True => .freshVariable _ _ (.freshVariable _ _ (.freshVariable _ _
      (.freshVariable _ _ (.initial {}))))
  · decide +kernel

/-- The term is such a function. -/
def IsNestedLet (s : Store) (x y w : VarId) (t : TermId) : Prop :=
  ∃ five xTerm inner yTerm outer, s.shape five = .numericLiteral 5 ∧
    s.shape xTerm = .variable x ∧ s.shape inner = .abstraction [(w, five)] [] xTerm ∧
    s.shape yTerm = .variable y ∧ s.shape outer = .abstraction [(x, yTerm)] [] inner ∧
    s.shape t = .abstraction [] [(y, Store.unitType)] outer

theorem isNestedLet_nested :
    IsNestedLet nested.2 ⟨6⟩ ⟨7⟩ ⟨8⟩ nested.1.1 ∧ IsNestedLet nested.2 ⟨6⟩ ⟨7⟩ ⟨9⟩ nested.1.2.1 ∧
      IsNestedLet nested.2 ⟨6⟩ ⟨7⟩ ⟨7⟩ nested.1.2.2 := by
  refine ⟨⟨⟨23⟩, ⟨24⟩, ⟨25⟩, ⟨26⟩, ⟨27⟩, ?_⟩, ⟨⟨23⟩, ⟨24⟩, ⟨29⟩, ⟨26⟩, ⟨30⟩, ?_⟩,
    ⟨⟨23⟩, ⟨24⟩, ⟨32⟩, ⟨26⟩, ⟨33⟩, ?_⟩⟩
  all_goals decide +kernel

/-- Variables of the functions are runtime variables. -/
theorem runtime_nested : nested.2.vars.size = 10 ∧
    (∀ i < 10, 6 ≤ i → nested.2.isComptime ⟨i⟩ = false) ∧
    nested.2.shape Store.unitType = .unitType := by
  decide +kernel

theorem renames_nestedLet {base s : Store} {ρ : Renaming base} {x y w w' : VarId} {t t' : TermId}
    (hunit : s.shape Store.unitType = .unitType) (h : IsNestedLet s x y w t)
    (h' : IsNestedLet s x y w' t') (hx : ρ.pairs x x) (hy : ρ.pairs y y) (hw : ρ.pairs w w') :
    ρ.Renames s s t t' := by
  obtain ⟨five, xTerm, inner, yTerm, outer, hfive, hxTerm, hinner, hyTerm, houter, ht⟩ := h
  obtain ⟨five', xTerm', inner', yTerm', outer', hfive', hxTerm', hinner', hyTerm', houter', ht'⟩ :=
    h'
  have hunit : ρ.Renames s s Store.unitType Store.unitType :=
    .of_shape hunit hunit (by simp) .unitType
  have hfive : ρ.Renames s s five five' := .of_shape hfive hfive' (by simp) (.numericLiteral 5)
  have hxTerm : ρ.Renames s s xTerm xTerm' :=
    .of_shape hxTerm hxTerm' (by simp) (.variable (Or.inl hx))
  have hyTerm : ρ.Renames s s yTerm yTerm' :=
    .of_shape hyTerm hyTerm' (by simp) (.variable (Or.inl hy))
  have hinner : ρ.Renames s s inner inner' := .of_shape hinner hinner' (by simp)
    (.abstraction (.cons ⟨Or.inl hw, hfive⟩ .nil) .nil hxTerm)
  have houter : ρ.Renames s s outer outer' := .of_shape houter houter' (by simp)
    (.abstraction (.cons ⟨Or.inl hx, hyTerm⟩ .nil) .nil hinner)
  exact .of_shape ht ht' (by simp) (.abstraction .nil (.cons ⟨Or.inl hy, hunit⟩ .nil) houter)

/-- The variable `z` gets another name. -/
def renameInner (target : VarId) (htarget : target.index < nested.2.vars.size)
    (hstage : nested.2.isComptime target = false) : Renaming nested.2 where
  pairs v v' := v.index < 8 ∧ v' = v ∨ v = ⟨8⟩ ∧ v' = target
  builtin v hv := Or.inl ⟨Nat.lt_trans hv (by decide +kernel), rfl⟩
  declared := by
    have hsize : 8 < nested.2.vars.size := by simp [runtime_nested.1]
    rintro v v' (⟨hv, rfl⟩ | ⟨rfl, rfl⟩)
    · omega
    · exact ⟨hsize, htarget⟩
  comptime := by
    have hz : nested.2.isComptime ⟨8⟩ = false := runtime_nested.2.1 8 (by decide) (by decide)
    rintro v v' (⟨hv, rfl⟩ | ⟨rfl, rfl⟩)
    · rfl
    · rw [hz, hstage]

end Sample

namespace Renaming

open Attempt Sample

/-- The inner variable is called `w` in place of `z`. -/
theorem judgments_agree_nestedLet :
    ∃ ρ : Renaming nested.2, ρ.KeepsOrder ∧ nested.1.1 ≠ nested.1.2.1 ∧
      ρ.Renames nested.2 nested.2 nested.1.1 nested.1.2.1 ∧
      ρ.Agree ((evaluate .root nested.1.1).run nested.2)
        ((evaluate .root nested.1.2.1).run nested.2) := by
  have hsize : 9 < nested.2.vars.size := by simp [runtime_nested.1]
  let ρ := renameInner ⟨9⟩ hsize (runtime_nested.2.1 9 (by decide) (by decide))
  have hρ : ρ.KeepsOrder := by
    rintro v v' w w' (⟨hv, rfl⟩ | ⟨rfl, rfl⟩) (⟨hw, rfl⟩ | ⟨rfl, rfl⟩) <;> simp <;> omega
  have hrenames : ρ.Renames nested.2 nested.2 nested.1.1 nested.1.2.1 := by
    refine renames_nestedLet runtime_nested.2.2 isNestedLet_nested.1 isNestedLet_nested.2.1
      ?_ ?_ ?_
    · exact Or.inl ⟨by decide, rfl⟩
    · exact Or.inl ⟨by decide, rfl⟩
    · exact Or.inr ⟨rfl, rfl⟩
  have hagree := judgments_agree built_nested hρ (Likeness.scope_root _) hrenames
  exact ⟨ρ, hρ, by decide +kernel, hrenames, hagree.1⟩

/-- Nothing mentions the inner variable, so calling it `y` captures nothing. But the value of `x` is
the outer `y`, which is looked up again where the inner one is bound. -/
theorem evaluate_captures :
    ∃ s : Store, s.Built ∧ ∃ (ρ : Renaming s) (t t' r r' : TermId), ρ.Renames s s t t' ∧
      (s.freeVariables t).isEmpty = true ∧ (s.freeVariables t').isEmpty = true ∧
      s.display t = "fn(y: Unit) => \x7blet x = y; \x7blet z = 5; x\x7d\x7d" ∧
      s.display t' = "fn(y: Unit) => \x7blet x = y; \x7blet y = 5; x\x7d\x7d" ∧
      ((evaluate .root t).run s).1 = .ok r ∧ ((evaluate .root t').run s).1 = .ok r' ∧
      ∀ σ : Renaming s,
        ¬ σ.Renames ((evaluate .root t).run s).2 ((evaluate .root t').run s).2 r r' := by
  have hsize : 7 < nested.2.vars.size := by simp [runtime_nested.1]
  let ρ := renameInner ⟨7⟩ hsize (runtime_nested.2.1 7 (by decide) (by decide))
  have hrenames : ρ.Renames nested.2 nested.2 nested.1.1 nested.1.2.2 := by
    refine renames_nestedLet runtime_nested.2.2 isNestedLet_nested.1 isNestedLet_nested.2.2
      ?_ ?_ ?_
    · exact Or.inl ⟨by decide, rfl⟩
    · exact Or.inl ⟨by decide, rfl⟩
    · exact Or.inr ⟨rfl, rfl⟩
  refine ⟨nested.2, built_nested, ρ, nested.1.1, nested.1.2.2, ⟨36⟩, ⟨36⟩, hrenames, ?_⟩
  simp only [← and_assoc]
  refine ⟨by decide +kernel, fun σ hσ => ?_⟩
  -- The results are `fn(y: Unit) => y` and `fn(y: Unit) => 5`.
  have hshapes :
      let s₁ := ((evaluate .root nested.1.1).run nested.2).2
      let s₁' := ((evaluate .root nested.1.2.2).run nested.2).2
      s₁.shape ⟨36⟩ = .abstraction [] [(⟨7⟩, Store.unitType)] ⟨26⟩ ∧
        s₁.shape ⟨26⟩ = .variable ⟨7⟩ ∧
        s₁'.shape ⟨36⟩ = .abstraction [] [(⟨7⟩, Store.unitType)] ⟨23⟩ ∧
        s₁'.shape ⟨23⟩ = .numericLiteral 5 := by
    decide +kernel
  obtain ⟨hr, hbody, hr', hbody'⟩ := hshapes
  have hlayer := hσ.layer
  rw [hr, hr'] at hlayer
  cases hlayer with
  | abstraction _ _ hsub =>
    have hleaf := hsub.layer
    rw [hbody, hbody'] at hleaf
    cases hleaf

end Renaming

end StagedCalculus
