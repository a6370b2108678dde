import StagedCalculus.Proofs.Staging.Correspondence
import StagedCalculus.Staging.Restriction

/-!
# Computations that correspond

`Correspondence.Corresponds` says that two computations end alike and leave corresponding stores.
This module gives one rule for each construct that computations are made of, and follows the
computations that inference and reduction share: binding variables in a context, and collecting
what a term observes.
-/

namespace StagedCalculus

namespace Correspondence

open Attempt

variable {C : Correspondence} {α β : Type} {s s' s₁ s₁' : Store}

/-- How two runs may end: with failures of one kind, or with results that satisfy a condition. -/
inductive Ends (C : Correspondence) (post : Post α) (s s' : Store) :
    Except Error α × Store → Except Error α × Store → Prop
  | fails {e e' : Error} {s₁ s₁' : Store} : C.Leads s s' s₁ s₁' → e.Alike C.text e' →
      Ends C post s s' (.error e, s₁) (.error e', s₁')
  | gives {a a' : α} {s₁ s₁' : Store} : C.Leads s s' s₁ s₁' → post s₁ s₁' a a' →
      Ends C post s s' (.ok a, s₁) (.ok a', s₁')

/-- Run from these stores, if they correspond, the two computations end alike. -/
def Corresponds (C : Correspondence) (post : Post α) (c c' : Attempt α) (s s' : Store) : Prop :=
  C.stores s s' → C.Ends post s s' (c.run s) (c'.run s')

/-- The contexts bind what stands for each other. -/
abbrev Scopes (C : Correspondence) : Post Context := C.scope

/-! ## What stands for each other later -/

namespace Leads

variable (h : C.Leads s s' s₁ s₁') (hC : C.Steady)

include h hC

@[grind →]
theorem var {v v' : VarId} (hv : (C.like s s').var v v') : (C.like s₁ s₁').var v v' :=
  (hC.mono h).var hv

@[grind →]
theorem term {t t' : TermId} (ht : (C.like s s').term t t') : (C.like s₁ s₁').term t t' :=
  (hC.mono h).term ht

@[grind →]
theorem terms {ts ts' : List TermId} (hts : List.Forall₂ (C.like s s').term ts ts') :
    List.Forall₂ (C.like s₁ s₁').term ts ts' := (hC.mono h).terms hts

@[grind →]
theorem vars {vs vs' : List VarId} (hvs : List.Forall₂ (C.like s s').var vs vs') :
    List.Forall₂ (C.like s₁ s₁').var vs vs' := (hC.mono h).vars hvs

@[grind →]
theorem bindings {b b' : List (VarId × TermId)} (hb : (C.like s s').Bindings b b') :
    (C.like s₁ s₁').Bindings b b' := (hC.mono h).bindings hb

@[grind →]
theorem named {c c' : List (String × TermId)} (hc : (C.like s s').Named c c') :
    (C.like s₁ s₁').Named c c' := (hC.mono h).named hc

@[grind →]
theorem position {slot slot' : Slot TermId} (hslot : (C.like s s').Position slot slot') :
    (C.like s₁ s₁').Position slot slot' := (hC.mono h).position hslot

@[grind →]
theorem positions {slots slots' : List (Slot TermId)}
    (hslots : List.Forall₂ (C.like s s').Position slots slots') :
    List.Forall₂ (C.like s₁ s₁').Position slots slots' := (hC.mono h).positions hslots

@[grind →]
theorem scope {ctx ctx' : Context} (hctx : C.scope s s' ctx ctx') :
    C.scope s₁ s₁' ctx ctx' := hC.lasts h hctx

end Leads

namespace Corresponds

variable {post : Post α} {post' : Post β} {c c' : Attempt α} {f f' : α → Attempt β}

/-! ## Rules -/

theorem pure {a a' : α} (h : post s s' a a') :
    C.Corresponds post (Pure.pure a) (Pure.pure a') s s' := fun hs => .gives (.refl hs) h

theorem throws {e e' : Error} (h : e.Alike C.text e') :
    C.Corresponds post (throw e) (throw e') s s' := fun hs => .fails (.refl hs) h

/-- Computations that give the same data. -/
theorem same (a : α) : C.Corresponds (fun _ _ => Eq) (Pure.pure a) (Pure.pure a) s s' := pure rfl

/-- Computations that fail and leave the stores alone. -/
theorem fails {e e' : Error} (h : c.run s = (.error e, s)) (h' : c'.run s' = (.error e', s'))
    (herr : e.Alike C.text e') : C.Corresponds post c c' s s' := by
  intro hs
  rw [h, h']
  exact .fails (.refl hs) herr

theorem bind (hc : C.Corresponds post c c' s s')
    (hf : ∀ a a' s₁ s₁', C.Leads s s' s₁ s₁' → post s₁ s₁' a a' →
      C.Corresponds post' (f a) (f' a') s₁ s₁') :
    C.Corresponds post' (c >>= f) (c' >>= f') s s' := by
  intro hs
  have hrun := hc hs
  rw [run_bind, run_bind]
  generalize c.run s = r at hrun ⊢
  generalize c'.run s' = r' at hrun ⊢
  cases hrun with
  | fails hleads he => exact .fails hleads he
  | @gives a a' s₁ s₁' hleads hpost =>
    have hrest := hf a a' s₁ s₁' hleads hpost hleads.after
    change C.Ends post' s s' ((f a).run s₁) ((f' a').run s₁')
    generalize (f a).run s₁ = r at hrest ⊢
    generalize (f' a').run s₁' = r' at hrest ⊢
    cases hrest with
    | fails hleads' he => exact .fails (hleads.trans hleads') he
    | gives hleads' hpost' => exact .gives (hleads.trans hleads') hpost'

/-- Computations that leave the stores alone. -/
theorem reads {a a' : α} (h : c.run s = (.ok a, s)) (h' : c'.run s' = (.ok a', s'))
    (hf : C.Corresponds post' (f a) (f' a') s s') :
    C.Corresponds post' (c >>= f) (c' >>= f') s s' := by
  intro hs
  rw [run_bind, run_bind, h, h']
  exact hf hs

theorem imp {post₁ : Post α} (hc : C.Corresponds post c c' s s')
    (h : ∀ a a' s₁ s₁', C.Leads s s' s₁ s₁' → post s₁ s₁' a a' → post₁ s₁ s₁' a a') :
    C.Corresponds post₁ c c' s s' := by
  intro hs
  have hrun := hc hs
  generalize c.run s = r at hrun ⊢
  generalize c'.run s' = r' at hrun ⊢
  cases hrun with
  | fails hleads he => exact .fails hleads he
  | gives hleads hpost => exact .gives hleads (h _ _ _ _ hleads hpost)

/-- A computation that gives a result keeps what corresponding computations keep. -/
theorem gives_of_ok {a : α} (h : C.Corresponds post c c' s s') (hs : C.stores s s')
    (hrun : c.run s = (.ok a, s₁)) : ∃ a' s₁', C.Leads s s' s₁ s₁' ∧ post s₁ s₁' a a' := by
  have hends := h hs
  rw [hrun] at hends
  generalize c'.run s' = r at hends
  cases hends with
  | gives hleads hpost => exact ⟨_, _, hleads, hpost⟩

/-- The stores may be taken to correspond. -/
theorem withStores (h : C.stores s s' → C.Corresponds post c c' s s') :
    C.Corresponds post c c' s s' := fun hs => h hs hs

/-! ## The store -/

section Stores

variable (hC : C.Steady)

include hC

theorem intern {shape shape' : Shape TermId} (hshape : (C.like s s').Layer shape shape') :
    C.Corresponds C.Terms (Build.intern shape) (Build.intern shape') s s' := by
  intro hs
  obtain ⟨hstores, hterm⟩ := hC.intern hs hshape
  exact .gives ⟨hs, hstores, Store.extends_intern s shape, Store.extends_intern s' shape'⟩ hterm

theorem freshVariable (comptime : Bool) {name name' : Option String}
    (hname : Option.Rel C.text name name') :
    C.Corresponds (fun s s' => (C.like s s').var) (Build.freshVariable comptime name)
      (Build.freshVariable comptime name') s s' := by
  intro hs
  obtain ⟨hstores, hvar⟩ := hC.freshVariable hs comptime hname
  exact .gives ⟨hs, hstores, Store.extends_freshVariable s comptime name,
    Store.extends_freshVariable s' comptime name'⟩ hvar

theorem variableTerm {v v' : VarId} (hv : (C.like s s').var v v') :
    C.Corresponds C.Terms (Build.variableTerm v) (Build.variableTerm v') s s' :=
  intern hC (.variable hv)

theorem variableTerms {vars vars' : List VarId}
    (hvars : List.Forall₂ (C.like s s').var vars vars') :
    C.Corresponds (fun s s' => List.Forall₂ (C.like s s').term) (Build.variableTerms vars)
      (Build.variableTerms vars') s s' := by
  induction vars generalizing vars' s s' with
  | nil =>
    cases hvars
    exact .pure .nil
  | cons v vars ih =>
    cases hvars with
    | @cons _ v' _ vars' hv hvars =>
      let next := fun vars t => (do return t :: (← Build.variableTerms vars) : Attempt _)
      change C.Corresponds _ (Build.variableTerm v >>= next vars)
        (Build.variableTerm v' >>= next vars') s s'
      refine .bind (variableTerm hC hv) fun t t' s₁ s₁' h₁ ht => ?_
      refine .bind (ih (h₁.vars hC hvars)) fun ts ts' s₂ s₂' h₂ hts => ?_
      exact .pure (.cons (h₂.term hC ht) hts)

theorem builtin (name : String) :
    C.Corresponds (fun s s' => Option.Rel (C.like s s').term) (Build.builtin name)
      (Build.builtin name) s s' := by
  refine .withStores fun hs => ?_
  obtain ⟨hsame, hnative⟩ := hC.findNative hs name
  intro _
  have hrun : ∀ s : Store, (Build.builtin name : Attempt _).run s =
      (.ok (s.builtin name).1, (s.builtin name).2) := fun _ => rfl
  rw [hrun, hrun]
  unfold Store.builtin
  rw [← hsame]
  cases hfind : s.findNative? name with
  | none => exact .gives (.refl hs) .none
  | some id =>
    have hlayer : (C.like s s').Layer (.native id) (.native id) := .native (hnative id hfind)
    obtain ⟨hstores, hterm⟩ := hC.intern hs hlayer
    exact .gives ⟨hs, hstores, Store.extends_intern s _, Store.extends_intern s' _⟩ (.some hterm)

theorem write (text : String) :
    C.Corresponds (fun _ _ => Eq) (Attempt.write text) (Attempt.write text) s s' := by
  intro hs
  obtain ⟨hresult, hstores⟩ := hC.write hs text
  have hleads : C.Leads s s' (s.write text).2 (s'.write text).2 :=
    ⟨hs, hstores, Store.extends_write s text, Store.extends_write s' text⟩
  change C.Ends _ s s' (s.write text) (s'.write text)
  generalize s.write text = r, s'.write text = r' at hresult hleads ⊢
  obtain ⟨result, s₁⟩ := r
  obtain ⟨result', s₁'⟩ := r'
  cases hresult with
  | ok hbytes => exact .gives hleads hbytes
  | error he => exact .fails hleads he

theorem genericSlots (params : List (String × Bool)) :
    C.Corresponds (fun s s' r r' => List.Forall₂ (C.like s s').var r.1 r'.1 ∧
        List.Forall₂ (C.like s s').Position r.2 r'.2)
      (Build.genericSlots params) (Build.genericSlots params) s s' := by
  induction params generalizing s s' with
  | nil => exact .pure ⟨.nil, .nil⟩
  | cons p rest ih =>
    let next := fun v => (do
      let ty ← Build.variableTerm v
      let r ← Build.genericSlots rest
      return (v :: r.1, ⟨ty, p.2, none⟩ :: r.2) : Attempt (List VarId × List (Slot TermId)))
    change C.Corresponds _ (Build.freshVariable true (some p.1) >>= next)
      (Build.freshVariable true (some p.1) >>= next) s s'
    refine .bind (freshVariable hC true (.some (hC.text_refl p.1))) fun v v' s₁ s₁' h₁ hv => ?_
    refine .bind (variableTerm hC hv) fun ty ty' s₂ s₂' h₂ hty => ?_
    refine .bind ih fun r r' s₃ s₃' h₃ hr => .pure ⟨.cons ?_ hr.1, .cons ⟨?_, rfl, .none⟩ hr.2⟩
    · exact h₃.var hC (h₂.var hC hv)
    · exact h₃.term hC hty

theorem genericSignature (params : List (String × Bool)) :
    C.Corresponds C.Terms (Build.genericSignature params) (Build.genericSignature params) s s' := by
  let next := fun r : List VarId × List (Slot TermId) => (do
    let function ← Build.functionType r.2 Store.topType
    Build.forAll r.1 function : Attempt TermId)
  change C.Corresponds _ (Build.genericSlots params >>= next)
    (Build.genericSlots params >>= next) s s'
  refine .bind (genericSlots hC params) fun r r' s₁ s₁' h₁ hr => ?_
  refine .bind (intern hC (.functionType hr.2 (hC.common h₁.after 3 (by decide))))
    fun function function' s₂ s₂' h₂ hfunction => ?_
  exact intern hC (.forAll (h₂.vars hC hr.1) hfunction)

/-- An answer is remembered on both sides or on neither. -/
theorem remembered {t t' : TermId} {r r' : Restriction} {compute compute' : Attempt TermId}
    (ht : (C.like s s').term t t') (hr : (C.like s s').Restricted r r')
    (hstored : ∀ {s₁ s₁' answer answer'}, C.Leads s s' s₁ s₁' →
      compute.run s = (answer, s₁) → compute'.run s' = (answer', s₁') →
      C.Result (C.like s₁ s₁').term answer answer' →
      C.stores { s₁ with types := s₁.types.insert t r answer }
        { s₁' with types := s₁'.types.insert t' r' answer' })
    (h : C.Corresponds C.Terms compute compute' s s') :
    C.Corresponds C.Terms (Attempt.remembered t r compute) (Attempt.remembered t' r' compute')
      s s' := by
  intro hs
  have hcached := hC.remembered hs ht hr
  cases hget : s.types.get? t r with
  | some answer =>
    rw [hget] at hcached
    generalize hget' : s'.types.get? t' r' = other at hcached
    cases hcached with
    | some hanswer =>
      rw [run_remembered_hit hget, run_remembered_hit hget']
      cases hanswer with
      | ok hty => exact .gives (.refl hs) hty
      | error he => exact .fails (.refl hs) he
  | none =>
    rw [hget] at hcached
    generalize hget' : s'.types.get? t' r' = other at hcached
    cases hcached
    -- What was computed is remembered on both sides under the keys of the question.
    have hends := h hs
    rcases hrun : compute.run s with ⟨answer, s₁⟩
    rcases hrun' : compute'.run s' with ⟨answer', s₁'⟩
    have hlater : C.Leads s s' s₁ s₁' → C.Result (C.like s₁ s₁').term answer answer' →
        C.Leads s s' { s₁ with types := s₁.types.insert t r answer }
          { s₁' with types := s₁'.types.insert t' r' answer' } := fun h₁ hanswer =>
      ⟨hs, hstored h₁ hrun hrun' hanswer, ⟨h₁.left.entries, h₁.left.vars, h₁.left.natives⟩,
        ⟨h₁.right.entries, h₁.right.vars, h₁.right.natives⟩⟩
    rw [hrun, hrun'] at hends
    cases hends with
    | @fails e e' _ _ hleads he =>
      by_cases hdepth : ∃ limit, e = .depthExceeded limit
      · obtain ⟨limit, rfl⟩ := hdepth
        cases he
        rw [run_remembered_depth hget hrun, run_remembered_depth hget' hrun']
        exact .fails hleads (.depthExceeded limit)
      · have hkept : ∀ limit, (.error e : TypeAnswer) ≠ .error (.depthExceeded limit) :=
          fun limit heq => hdepth ⟨limit, by simpa using heq⟩
        have hkept' : ∀ limit, (.error e' : TypeAnswer) ≠ .error (.depthExceeded limit) := by
          intro limit heq
          cases heq
          cases he
          exact hdepth ⟨limit, rfl⟩
        rw [run_remembered_miss hget hrun hkept, run_remembered_miss hget' hrun' hkept']
        exact .fails (hlater hleads (.error he)) he
    | @gives ty ty' _ _ hleads hty =>
      rw [run_remembered_miss hget hrun nofun, run_remembered_miss hget' hrun' nofun]
      have hleads' := hlater hleads (.ok hty)
      refine .gives hleads' ?_
      have hinsert : C.Leads s₁ s₁' { s₁ with types := s₁.types.insert t r (.ok ty) }
          { s₁' with types := s₁'.types.insert t' r' (.ok ty') } :=
        ⟨hleads.after, hleads'.after, .of_eq rfl rfl rfl,
          .of_eq rfl rfl rfl⟩
      exact hinsert.term hC hty

/-! ## Contexts -/

theorem bindContext {ctx ctx' : Context} {v v' : VarId} {t t' : TermId}
    (hctx : C.scope s s' ctx ctx') (hv : (C.like s s').var v v')
    (ht : (C.like s s').term t t') :
    C.Corresponds C.Scopes (Attempt.bind ctx v t) (Attempt.bind ctx' v' t') s s' := by
  refine .withStores fun hs => ?_
  unfold Attempt.bind
  rcases hC.bind_cases hs hctx hv ht with
    ⟨bound, bound', hbound, hbound', hscope⟩ | ⟨hnone, hnone'⟩
  · rw [hbound, hbound']
    exact .pure hscope
  · rw [hnone, hnone']
    exact .reads rfl rfl (.throws (.alreadyBound (hC.name hs hv)))

theorem bindAll {ctx ctx' : Context} {bindings bindings' : List (VarId × TermId)}
    (hctx : C.scope s s' ctx ctx') (hbindings : (C.like s s').Bindings bindings bindings') :
    C.Corresponds C.Scopes (Attempt.bindAll ctx bindings) (Attempt.bindAll ctx' bindings')
      s s' := by
  induction bindings generalizing bindings' s s' ctx ctx' with
  | nil =>
    cases hbindings
    exact .pure hctx
  | cons b rest ih =>
    cases hbindings with
    | cons hb hrest =>
      refine .bind (bindContext hC hctx hb.var hb.term) fun ctx ctx' s₁ s₁' h₁ hctx₁ => ?_
      exact ih hctx₁ (h₁.bindings hC hrest)

theorem bindQuantified {ctx ctx' : Context} {vars vars' : List VarId}
    (hctx : C.scope s s' ctx ctx') (hvars : List.Forall₂ (C.like s s').var vars vars') :
    C.Corresponds C.Scopes (Attempt.bindQuantified ctx vars) (Attempt.bindQuantified ctx' vars')
      s s' := by
  refine .withStores fun hs => bindAll hC hctx ?_
  exact List.rel_map (fun v v' hv => ⟨hv, hC.common hs 4 (by decide)⟩) hvars

theorem quantify {vars vars' : List VarId} {body body' : TermId}
    (hvars : List.Forall₂ (C.like s s').var vars vars') (hbody : (C.like s s').term body body') :
    C.Corresponds C.Terms (Attempt.quantify vars body) (Attempt.quantify vars' body') s s' := by
  refine .withStores fun hs => .reads rfl rfl (intern hC (.forAll ?_ hbody))
  refine List.rel_filter (fun v v' hv => ?_) hvars
  have hcontains : (s.freeVariables body).contains v = (s'.freeVariables body').contains v' :=
    Likeness.entries_any_eq (hC.free hs hbody) (hC.ordered hs) hv
  exact iff_of_eq (congrArg (· = true) hcontains)

/-! ## Observations -/

theorem observedByType {v v' : VarId} {value value' : TermId} (usage : Usage)
    (hs : C.stores s s') (hv : (C.like s s').var v v') (hvalue : (C.like s s').term value value') :
    ∃ known, (Attempt.observedByType v usage value).run s = (.ok known, s) ∧
      (Attempt.observedByType v' usage value').run s' = (.ok known, s') := by
  refine ⟨_, rfl, ?_⟩
  change (Except.ok _, s') = _
  rw [hC.comptime hs hv, (hC.isValue hs hvalue).2]

theorem observe {typeOf typeOf' : TermId → Attempt TermId} {ctx ctx' : Context} {bound : Nat}
    {found found' : Observations} {pending pending' : List (VarId × Usage)}
    (hctx : C.scope s s' ctx ctx')
    (hfound : (C.like s s').Restricted found.toList found'.toList)
    (hpending : (C.like s s').Entries Eq pending pending')
    (htypeOf : ∀ {s₁ s₁' t t'}, C.Leads s s' s₁ s₁' → (C.like s₁ s₁').term t t' →
      C.Corresponds C.Terms (typeOf t) (typeOf' t') s₁ s₁') :
    C.Corresponds (fun s s' found found' => (C.like s s').Restricted found.toList found'.toList)
      (Attempt.observe typeOf ctx bound found pending)
      (Attempt.observe typeOf' ctx' bound found' pending') s s' := by
  induction bound generalizing s s' found found' pending pending' with
  | zero => exact .pure hfound
  | succ bound ih =>
    refine .withStores fun hs => ?_
    have hordered := hC.ordered hs
    have hleft : (C.like s s').Entries Eq (pending.dropWhile fun e => found.contains e.1)
        (pending'.dropWhile fun e => found'.contains e.1) :=
      Likeness.entries_dropWhile hpending fun he _ => Likeness.entries_any_eq hfound hordered he
    unfold Attempt.observe
    generalize pending.dropWhile (fun e => found.contains e.1) = left,
      pending'.dropWhile (fun e => found'.contains e.1) = left' at hleft ⊢
    cases hleft with
    | nil => exact .pure hfound
    | @cons e e' pending pending' he hpending =>
      obtain ⟨v, usage⟩ := e
      obtain ⟨v', usage'⟩ := e'
      obtain ⟨hv, husage⟩ := he
      dsimp only at hv husage ⊢
      subst husage
      -- Whatever is observed of the variable, the rest goes on with it.
      have hinsert : ∀ {s₁ s₁' o o'}, C.Leads s s' s₁ s₁' → (C.like s₁ s₁').Observed o o' →
          (C.like s₁ s₁').Restricted (found.insert v o).toList (found'.insert v' o').toList :=
        fun h₁ ho => Likeness.entries_place ((hC.mono h₁).restricted hfound) (hC.ordered h₁.after)
          (h₁.var hC hv) ho fun _ => ho
      have hget := hC.get? hs hctx hv
      generalize ctx.get? v = value, ctx'.get? v' = value' at hget ⊢
      cases hget with
      | none => exact ih hctx (hinsert (.refl hs) .unbound) hpending htypeOf
      | @some value value' hvalue =>
        obtain ⟨known, hknown, hknown'⟩ := observedByType hC usage hs hv hvalue
        refine .reads hknown hknown' ?_
        cases known with
        | true =>
          refine .bind (htypeOf (.refl hs) hvalue) fun ty ty' s₁ s₁' h₁ hty => ?_
          exact ih (h₁.scope hC hctx) (hinsert h₁ (.typed hty))
            (hpending.imp fun _ _ he => ⟨h₁.var hC he.var, he.value⟩)
            fun h₂ ht => htypeOf (h₁.trans h₂) ht
        | false =>
          refine .reads rfl rfl (ih hctx (hinsert (.refl hs) (.bound hvalue)) ?_ htypeOf)
          exact List.rel_append (List.rel_reverse (hC.free hs hvalue)) hpending

theorem restrict {typeOf typeOf' : TermId → Attempt TermId} {ctx ctx' : Context} {t t' : TermId}
    (hctx : C.scope s s' ctx ctx') (ht : (C.like s s').term t t')
    (htypeOf : ∀ {s₁ s₁' t t'}, C.Leads s s' s₁ s₁' → (C.like s₁ s₁').term t t' →
      C.Corresponds C.Terms (typeOf t) (typeOf' t') s₁ s₁') :
    C.Corresponds (fun s s' => (C.like s s').Restricted) (Attempt.restrict typeOf ctx t)
      (Attempt.restrict typeOf' ctx' t') s s' := by
  refine .withStores fun hs => .reads rfl rfl ?_
  rw [hC.size hs]
  refine .bind (observe hC hctx .nil (List.rel_reverse (hC.free hs ht)) htypeOf)
    fun found found' s₁ s₁' h₁ hfound => .pure hfound

end Stores

end Corresponds

end Correspondence

end StagedCalculus
