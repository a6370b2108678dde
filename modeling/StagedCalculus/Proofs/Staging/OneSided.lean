import StagedCalculus.Proofs.Staging.Built
import StagedCalculus.Proofs.Staging.MatchingAlike
import StagedCalculus.Proofs.Store.Substitution

/-!
# One-sided matching

Matching determines quantified variables of the expected term so that it becomes the argument.

* `Tree.Accepts`: the terms that a term may stand in for, which differ from it only in that
  positions may be less strict about stages;
* `Store.Pattern`: terms that are built of quantified variables and closed terms;
* `Matching.Advances`: how a step of matching may change its state, what its success means, and for
  which substitutions it succeeds;
* `Store.unify_one_sided`: matching binds quantified variables only, succeeds only if the bindings
  turn the expected term into one that accepts the argument, and finds the substitution that turns
  a pattern into the argument.
-/

namespace StagedCalculus

/-! ## Accepted terms -/

namespace Tree

def isDeferred : Tree → Bool
  | .node shape => shape.isDeferred

/-- The first tree stands in for the second. They agree in shape, names, order and literals, but a
comptime position may stand in for a runtime one, and what positions supply is not compared. -/
inductive Accepts : Tree → Tree → Prop
  | same (tree : Tree) : Accepts tree tree
  | productValue {ty ty' : Tree} {fields fields' : List (String × Tree)} : Accepts ty ty' →
      fields.map (·.1) = fields'.map (·.1) → (∀ p ∈ fields.zip fields', Accepts p.1.2 p.2.2) →
      Accepts (.node (.productValue ty fields)) (.node (.productValue ty' fields'))
  | productType {members members' : List (String × Tree)} :
      members.map (·.1) = members'.map (·.1) →
      (∀ p ∈ members.zip members', Accepts p.1.2 p.2.2) →
      Accepts (.node (.productType members)) (.node (.productType members'))
  | functionType {params params' : List (Slot Tree)} {result result' : Tree} :
      params.length = params'.length →
      (∀ p ∈ params.zip params', p.2.comptime = true → p.1.comptime = true) →
      (∀ p ∈ params.zip params', Accepts p.1.ty p.2.ty) → Accepts result result' →
      Accepts (.node (.functionType params result)) (.node (.functionType params' result'))

end Tree

namespace Store

/-- Terms that are built of some variables and closed terms by products and function types. -/
inductive Pattern (s : Store) (vars : List VarId) : TermId → Prop
  | «variable» {t : TermId} {v : VarId} : s.shape t = .variable v → v ∈ vars → Pattern s vars t
  | closed {t : TermId} : s.Allocated t → (s.freeVariables t).isEmpty = true → Pattern s vars t
  | productValue {t ty : TermId} {fields : List (String × TermId)} :
      s.shape t = .productValue ty fields → Pattern s vars ty →
      (∀ f ∈ fields, Pattern s vars f.2) → Pattern s vars t
  | productType {t : TermId} {members : List (String × TermId)} :
      s.shape t = .productType members → (∀ member ∈ members, Pattern s vars member.2) →
      Pattern s vars t
  | functionType {t result : TermId} {params : List (Slot TermId)} :
      s.shape t = .functionType params result → (∀ slot ∈ params, Pattern s vars slot.ty) →
      Pattern s vars result → Pattern s vars t

/-- The parts of a pattern that is not closed are patterns. -/
theorem Pattern.child {s : Store} {vars : List VarId} {t u : TermId} (h : s.Pattern vars t)
    (hopen : (s.freeVariables t).isEmpty = false) (hu : u ∈ (s.shape t).children) :
    s.Pattern vars u := by
  cases h with
  | «variable» hshape _ =>
    rw [hshape] at hu
    cases hu
  | closed _ hclosed =>
    rw [hopen] at hclosed
    cases hclosed
  | productValue hshape hty hfields =>
    rw [hshape, Shape.children, List.mem_cons, List.mem_map] at hu
    rcases hu with rfl | ⟨f, hf, rfl⟩
    · exact hty
    · exact hfields f hf
  | productType hshape hmembers =>
    rw [hshape, Shape.children, List.mem_map] at hu
    obtain ⟨member, hmember, rfl⟩ := hu
    exact hmembers member hmember
  | functionType hshape hparams hresult =>
    rw [hshape, Shape.children, List.mem_append, List.mem_map, List.mem_singleton] at hu
    rcases hu with ⟨slot, hslot, rfl⟩ | rfl
    · exact hparams slot hslot
    · exact hresult

/-! ## States of matching -/

/-- A variable that has no value yet. -/
def Awaited (s : Store) (ctx : Context) (v : VarId) : Prop :=
  ∀ value, ctx.get? v = some value → (s.shape value).isDeferred = true

/-- A term whose variables have no values yet, but for those that matching determines. -/
structure Expectable (s : Store) (vars : List VarId) (ctx : Context) (t : TermId) : Prop where
  allocated : s.Allocated t
  awaited : ∀ v ∈ (s.freeVariables t).vars, v ∉ vars → s.Awaited ctx v

/-- A term whose variables have no values yet and are not determined by matching. -/
structure Inert (s : Store) (vars : List VarId) (ctx : Context) (t : TermId) : Prop
    extends s.Expectable vars ctx t where
  absent : ∀ v ∈ vars, v ∉ (s.freeVariables t).vars

variable {s : Store} {vars : List VarId} {ctx : Context} {t u : TermId}

theorem Expectable.child (h : s.Expectable vars ctx t) (hs : s.Linked)
    (hscopes : (s.shape t).scopes = false) (hu : u ∈ (s.shape t).children) :
    s.Expectable vars ctx u :=
  ⟨hs.allocated_children h.allocated hu, fun v hv =>
    h.awaited v (hs.mem_free_of_child hscopes hu hv)⟩

theorem Inert.child (h : s.Inert vars ctx t) (hs : s.Linked)
    (hscopes : (s.shape t).scopes = false) (hu : u ∈ (s.shape t).children) : s.Inert vars ctx u :=
  ⟨h.toExpectable.child hs hscopes hu, fun v hv hmem =>
    h.absent v hv (hs.mem_free_of_child hscopes hu hmem)⟩

/-- A variable is free in itself. -/
theorem mem_free_variable (hs : s.Linked) {v : VarId} (h : s.shape t = .variable v) :
    v ∈ (s.freeVariables t).vars := by
  have ht : s.Allocated t := allocated_of_shape (by simp [h])
  rw [hs.mem_free ht, h]
  simp [Shape.map, Shape.freeVariables]

end Store

/-! ## Frames -/

namespace Frame

variable {frame : Frame} {v : VarId} {t : TermId}

/-- A frame whose variables are distinct gives each the term that it is listed with. -/
theorem get?_of_mem (hdistinct : (frame.map (·.1)).Nodup) (h : (v, t) ∈ frame) :
    frame.get? v = some t := by
  induction frame with
  | nil => cases h
  | cons b rest ih =>
    rw [List.map_cons, List.nodup_cons] at hdistinct
    rcases List.mem_cons.1 h with rfl | hrest
    · simp [get?]
    · have hne : b.1 ≠ v := fun heq => hdistinct.1 (heq ▸ List.mem_map_of_mem hrest)
      simpa [get?, hne] using ih hdistinct.2 hrest

end Frame

/-! ## Progress -/

/-- What matching has bound so far, on top of a context. -/
structure Matching.Progress (s : Store) (vars : List VarId) (ctx : Context) (m : Matching)
    (bound : Frame) : Prop where
  undetermined : m.undetermined = vars.filter fun v => v ∉ bound.map (·.1)
  context : m.context = { ctx with innermost := bound ++ ctx.innermost }
  distinct : (bound.map (·.1)).Nodup
  members : ∀ b ∈ bound, b.1 ∈ vars
  inert : ∀ b ∈ bound, s.Inert vars ctx b.2

/-- The substitution replaces no other variables than the given ones, and those that are bound by
what they are bound to. -/
structure Substitution.Respects (σ : Substitution) (s : Store) (vars : List VarId)
    (bound : Frame) : Prop where
  domain : ∀ v, v ∉ vars → σ v = none
  bindings : ∀ b ∈ bound, σ b.1 = some (s.tree b.2)

namespace Matching

variable {s : Store} {vars : List VarId} {ctx : Context} {m : Matching} {bound more : Frame}
  {v : VarId} {t value : TermId} {σ : Substitution}

namespace Progress

theorem start (s : Store) (vars : List VarId) (ctx : Context) :
    Progress s vars ctx ⟨vars, ctx⟩ [] := ⟨by simp, rfl, List.nodup_nil, nofun, nofun⟩

/-- A variable is looked up among the new bindings first. -/
theorem get? (h : Progress s vars ctx m bound) (v : VarId) :
    m.context.get? v = (bound.get? v).or (ctx.get? v) := by
  rw [h.context]
  simp only [Context.get?, Context.frames, List.findSome?_cons, Frame.get?, List.find?_append]
  cases bound.find? fun e => e.1 = v <;> rfl

theorem get?_of_mem (h : Progress s vars ctx m bound) (hmem : (v, value) ∈ bound) :
    m.context.get? v = some value := by
  rw [h.get?, Frame.get?_of_mem h.distinct hmem]
  rfl

/-- A quantified variable is bound if it is not open any more. -/
theorem exists_of_determined (h : Progress s vars ctx m bound) (hv : v ∈ vars)
    (hdetermined : v ∉ m.undetermined) : ∃ value, (v, value) ∈ bound := by
  rw [h.undetermined, List.mem_filter] at hdetermined
  simpa [hv] using hdetermined

theorem get?_of_not_mem (h : Progress s vars ctx m bound) (hv : v ∉ vars) :
    m.context.get? v = ctx.get? v := by
  have hnone : bound.get? v = none := Frame.get?_eq_none.2 fun b hb heq =>
    hv (heq ▸ h.members b hb)
  rw [h.get?, hnone]
  rfl

/-- An open variable can be bound to a term without quantified variables. -/
theorem determine (h : Progress s vars ctx m bound) (hv : v ∈ m.undetermined)
    (hfree : ∀ v ∈ vars, ctx.innermost.get? v = none) (ht : s.Inert vars ctx t) :
    ∃ context, m.context.bind? v t = some context ∧
      Progress s vars ctx { m.determine v with context } ((v, t) :: bound) := by
  rw [h.undetermined, List.mem_filter, decide_eq_true_eq] at hv
  have hnone : m.context.innermost.get? v = none := by
    rw [h.context]
    have hbound : bound.get? v = none := Frame.get?_eq_none.2 fun b hb heq =>
      hv.2 (heq ▸ List.mem_map_of_mem hb)
    simp only [Frame.get?, List.find?_append, Option.map_eq_none_iff] at hbound hfree ⊢
    rw [hbound, Option.none_or]
    exact hfree v hv.1
  refine ⟨_, by rw [Context.bind?, hnone], ?_, ?_, ?_, ?_, ?_⟩
  · simp only [Matching.determine, h.undetermined, List.filter_filter, List.map_cons]
    refine List.filter_congr fun w _ => ?_
    by_cases hw : w = v <;> simp [hw]
  · rw [h.context]
    rfl
  · exact List.nodup_cons.2 ⟨hv.2, h.distinct⟩
  · exact List.forall_mem_cons.2 ⟨hv.1, h.members⟩
  · exact List.forall_mem_cons.2 ⟨ht, h.inert⟩

end Progress

/-! ## Steps of matching -/

/-- However the step ends, it binds quantified variables only. If it succeeds, then every
substitution that respects what is bound reaches the goal. It fails for no substitution that is
exact, replaces no variable by a placeholder and respects what was bound before, unless levels are
lacking; and what it binds respects the substitution. -/
def Advances (s : Store) (vars : List VarId) (ctx : Context) (goal exact : Substitution → Prop)
    (deep : Prop) (c : Match Unit) : Prop :=
  ∀ m bound, Progress s vars ctx m bound → ∃ more,
    Progress s vars ctx (c.run m).2 (more ++ bound) ∧
    ((c.run m).1 = .ok () →
      ∀ σ : Substitution, σ.Respects s vars (more ++ bound) → goal σ) ∧
    ∀ σ : Substitution, σ.Respects s vars bound → (∀ v t, σ v = some t → t.isDeferred = false) →
      exact σ →
      ((c.run m).1 = .ok () ∨ deep ∧ ∃ limit, (c.run m).1 = .error (.depthExceeded limit)) ∧
      σ.Respects s vars (more ++ bound)

namespace Advances

variable {goal goal' exact exact' : Substitution → Prop} {deep deep' : Prop} {c d : Match Unit}

theorem pure (h : ∀ σ, goal σ) :
    Advances s vars ctx goal exact deep (Pure.pure ()) := fun _ _ hm =>
  ⟨[], hm, fun _ σ _ => h σ, fun _ hσ _ _ => ⟨Or.inl rfl, hσ⟩⟩

/-- A step that fails where no substitution is exact. -/
theorem throws {e : Error} (h : ∀ σ, ¬ exact σ) :
    Advances s vars ctx goal exact deep (throw e) := fun _ _ hm =>
  ⟨[], hm, nofun, fun σ _ _ hexact => absurd hexact (h σ)⟩

theorem throwsDepth {limit : Nat} (h : deep) :
    Advances s vars ctx goal exact deep (throw (.depthExceeded limit)) := fun _ _ hm =>
  ⟨[], hm, nofun, fun _ hσ _ _ => ⟨Or.inr ⟨h, limit, rfl⟩, hσ⟩⟩

theorem seq (hc : Advances s vars ctx goal exact deep c)
    (hd : Advances s vars ctx goal' exact' deep d) :
    Advances s vars ctx (fun σ => goal σ ∧ goal' σ) (fun σ => exact σ ∧ exact' σ) deep
      (c >>= fun _ => d) := by
  intro m bound hm
  obtain ⟨more, hm₁, hgoal, hexact⟩ := hc m bound hm
  rw [Match.run_bind]
  generalize c.run m = r at hm₁ hgoal hexact ⊢
  obtain ⟨e | u, m₁⟩ := r
  · refine ⟨more, hm₁, nofun, fun σ hσ hvalues h => ?_⟩
    obtain ⟨hsettled, hσ₁⟩ := hexact σ hσ hvalues h.1
    rcases hsettled with hok | hdeep
    · cases hok
    · exact ⟨Or.inr hdeep, hσ₁⟩
  · obtain ⟨more', hm₂, hgoal', hexact'⟩ := hd m₁ (more ++ bound) hm₁
    rw [← List.append_assoc] at hm₂ hgoal' hexact'
    refine ⟨more' ++ more, hm₂, fun hok σ hσ => ⟨hgoal rfl σ ?_, hgoal' hok σ hσ⟩,
      fun σ hσ hvalues h => ?_⟩
    · exact ⟨hσ.domain, fun b hb => hσ.bindings b (by simp_all)⟩
    · exact hexact' σ (hexact σ hσ hvalues h.1).2 hvalues h.2

theorem imp (hc : Advances s vars ctx goal exact deep c) (hgoal : ∀ σ, goal σ → goal' σ)
    (hexact : ∀ σ, exact' σ → exact σ) (hdeep : deep → deep') :
    Advances s vars ctx goal' exact' deep' c := by
  intro m bound hm
  obtain ⟨more, hm₁, hfinds, hends⟩ := hc m bound hm
  refine ⟨more, hm₁, fun hok σ hσ => hgoal σ (hfinds hok σ hσ), fun σ hσ hvalues h => ?_⟩
  obtain ⟨hsettled, hσ₁⟩ := hends σ hσ hvalues (hexact σ h)
  exact ⟨hsettled.imp_right fun hdepth => ⟨hdeep hdepth.1, hdepth.2⟩, hσ₁⟩

end Advances

end Matching

namespace Store

open Matching

variable {s : Store} {vars : List VarId} {ctx : Context} {deep : Prop}

theorem advances_matchLengths (expected arg : Nat) :
    Advances s vars ctx (fun _ => expected = arg) (fun _ => expected = arg) deep
      (matchLengths expected arg) := by
  unfold matchLengths
  split
  · rename_i heq
    exact .pure fun _ => heq
  · rename_i hne
    exact .throws fun _ => hne

section Components

variable {matchTerms : TermId → TermId → Match Unit}
  {goal exact : TermId → TermId → Substitution → Prop}

theorem advances_matchNamed {expected args : List (String × TermId)}
    (hterms : ∀ e ∈ expected, ∀ a ∈ args,
      Advances s vars ctx (goal e.2 a.2) (exact e.2 a.2) deep (matchTerms e.2 a.2)) :
    Advances s vars ctx (fun σ => ∀ p ∈ expected.zip args, p.1.1 = p.2.1 ∧ goal p.1.2 p.2.2 σ)
      (fun σ => ∀ p ∈ expected.zip args, p.1.1 = p.2.1 ∧ exact p.1.2 p.2.2 σ) deep
      (matchNamed matchTerms expected args) := by
  induction expected generalizing args with
  | nil => exact .pure (by simp)
  | cons e rest ih =>
    cases args with
    | nil => exact .pure (by simp)
    | cons a argRest =>
      have hhead := hterms e (by simp) a (by simp)
      have hrest := @ih argRest fun e' he' a' ha' =>
        hterms e' (by simp [he']) a' (by simp [ha'])
      simp only [matchNamed, List.zip_cons_cons, List.forall_mem_cons]
      split
      · rename_i hname
        have hthrow : Advances s vars ctx (fun _ => False) (fun _ => e.1 = a.1) deep
            (throw (nameMismatch e.1 a.1)) := .throws fun _ => hname
        refine (hthrow.seq (hhead.seq hrest)).imp (fun _ h => h.1.elim) (fun σ h => ?_) id
        exact ⟨h.1.1, h.1.2, h.2⟩
      · rename_i hname
        refine (hhead.seq hrest).imp (fun σ h => ⟨⟨?_, h.1⟩, h.2⟩) (fun σ h => ⟨h.1.2, h.2⟩) id
        simpa using hname

theorem advances_matchSlots {refusal : Error} {expected args : List (Slot TermId)}
    (hterms : ∀ e ∈ expected, ∀ a ∈ args,
      Advances s vars ctx (goal e.ty a.ty) (exact e.ty a.ty) deep (matchTerms e.ty a.ty)) :
    Advances s vars ctx
      (fun σ => ∀ p ∈ expected.zip args,
        (p.2.comptime = true → p.1.comptime = true) ∧ goal p.1.ty p.2.ty σ)
      (fun σ => ∀ p ∈ expected.zip args,
        (p.2.comptime = true → p.1.comptime = true) ∧ exact p.1.ty p.2.ty σ) deep
      (matchSlots matchTerms refusal expected args) := by
  induction expected generalizing args with
  | nil => exact .pure (by simp)
  | cons e rest ih =>
    cases args with
    | nil => exact .pure (by simp)
    | cons a argRest =>
      have hhead := hterms e (by simp) a (by simp)
      have hrest := @ih argRest fun e' he' a' ha' =>
        hterms e' (by simp [he']) a' (by simp [ha'])
      simp only [matchSlots, List.zip_cons_cons, List.forall_mem_cons]
      split
      · rename_i hstage
        have hthrow : Advances s vars ctx (fun _ => False)
            (fun _ => a.comptime = true → e.comptime = true) deep (throw refusal) :=
          .throws fun _ => by simpa using hstage
        refine (hthrow.seq (hhead.seq hrest)).imp (fun _ h => h.1.elim) (fun σ h => ?_) id
        exact ⟨h.1.1, h.1.2, h.2⟩
      · rename_i hstage
        refine (hhead.seq hrest).imp (fun σ h => ⟨⟨?_, h.1⟩, h.2⟩) (fun σ h => ⟨h.1.2, h.2⟩) id
        simpa using hstage

end Components

/-! ## Matching by shape -/

/-- The expected term, after substitution, stands in for the argument. -/
def Reached (s : Store) (expected arg : TermId) (σ : Substitution) : Prop :=
  (s.subst σ expected).Accepts (s.tree arg)

/-- The expected term is a pattern, and the substitution turns it into the argument. -/
def Exact (s : Store) (vars : List VarId) (expected arg : TermId) (σ : Substitution) : Prop :=
  s.Pattern vars expected ∧ s.subst σ expected = s.tree arg

theorem subst_inert (hs : s.Linked) {t : TermId} (ht : s.Inert vars ctx t) {σ : Substitution}
    {bound : Frame} (hσ : σ.Respects s vars bound) : s.subst σ t = s.tree t :=
  subst_of_free hs t σ fun v hv => hσ.domain v fun hmem => ht.absent v hmem hv

theorem subst_variable (hs : s.Linked) {t : TermId} {v : VarId} (h : s.shape t = .variable v)
    (σ : Substitution) : s.subst σ t = (σ v).getD (.node (.variable v)) := by
  rw [hs.subst_eq, h]
  rfl

/-- A term whose tree is a variable is that variable. -/
theorem shape_of_tree_variable (hs : s.Linked) {t : TermId} {v : VarId}
    (h : s.tree t = .node (.variable v)) : s.shape t = .variable v := by
  rw [hs.tree_eq, Tree.node.injEq] at h
  cases hshape : s.shape t <;> rw [hshape] at h <;> cases h
  rfl

theorem isDeferred_tree (hs : s.Linked) (t : TermId) :
    (s.tree t).isDeferred = (s.shape t).isDeferred := by
  rw [hs.tree_eq]
  cases s.shape t <;> rfl

section Shapes

variable {expected arg : TermId} {deepAt : TermId → Prop}
  {matchTerms : TermId → TermId → Match Unit}
  (hs : s.Intact) (hfree : ∀ v ∈ vars, ctx.innermost.get? v = none)
  (hterms : ∀ expected arg, s.Expectable vars ctx expected → s.Inert vars ctx arg →
    Advances s vars ctx (s.Reached expected arg) (s.Exact vars expected arg) (deepAt expected)
      (matchTerms expected arg))
  (hsame : ∀ t m, (matchTerms t t).run m = (.ok (), m) ∨
    deep ∧ ∃ limit, (matchTerms t t).run m = (.error (.depthExceeded limit), m))
  (hdeep : ∀ child ∈ (s.shape expected).children, deepAt child → deep)
  (hexpected : s.Expectable vars ctx expected) (harg : s.Inert vars ctx arg)

include hs hexpected in
/-- A pattern that has to become another term is no closed term. -/
theorem Exact.open {σ : Substitution} (h : s.Exact vars expected arg σ) (hne : expected ≠ arg)
    (harg : s.Allocated arg) : (s.freeVariables expected).isEmpty = false := by
  refine Bool.eq_false_iff.2 fun hclosed => hne ?_
  have hnone : (s.freeVariables expected).vars = [] := by
    rw [VarMap.vars, List.isEmpty_iff.1 hclosed, List.map_nil]
  refine hs.tree_inj hs.toLinked hexpected.allocated harg ?_
  rw [← h.2, subst_of_free hs.toLinked expected σ (by simp [hnone])]

include hs hexpected harg in
theorem Exact.variable_mem {v : VarId} (hshape : s.shape expected = .variable v)
    {σ : Substitution} (h : s.Exact vars expected arg σ) (hne : expected ≠ arg) : v ∈ vars := by
  have hopen := h.open hs hexpected hne harg.allocated
  cases h.1 with
  | «variable» hvar hmem =>
    rw [hshape] at hvar
    cases hvar
    exact hmem
  | closed _ hclosed => rw [hopen] at hclosed; cases hclosed
  | productValue hproduct => rw [hshape] at hproduct; cases hproduct
  | productType hproduct => rw [hshape] at hproduct; cases hproduct
  | functionType hfunction => rw [hshape] at hfunction; cases hfunction

include hs harg in
/-- A variable that has to become the argument is replaced by it. -/
theorem Exact.variable_eq {v : VarId} (hshape : s.shape expected = .variable v) (hv : v ∈ vars)
    {σ : Substitution} (h : s.Exact vars expected arg σ) : σ v = some (s.tree arg) := by
  have hsubst := h.2
  rw [subst_variable hs.toLinked hshape] at hsubst
  cases hvalue : σ v with
  | some tree =>
    rw [hvalue] at hsubst
    exact congrArg some hsubst
  | none =>
    rw [hvalue] at hsubst
    have harg' := shape_of_tree_variable hs.toLinked hsubst.symm
    exact absurd (mem_free_variable hs.toLinked harg') (harg.absent v hv)

include hs hfree hterms hsame hexpected harg in
/-- An open variable is bound to the argument, a determined one gives way to its binding, and any
other one agrees with itself only. -/
theorem advances_matchVariable {v : VarId} (hshape : s.shape expected = .variable v)
    (hne : expected ≠ arg) :
    Advances s vars ctx (s.Reached expected arg) (s.Exact vars expected arg) deep
      (s.matchShapes matchTerms expected arg) := by
  intro m bound hm
  unfold matchShapes
  rw [hshape]
  dsimp only
  rw [Match.run_get]
  have hthrow : (∀ σ, ¬ s.Exact vars expected arg σ) → Advances s vars ctx (s.Reached expected arg)
      (s.Exact vars expected arg) deep (throw (s.mismatch expected arg)) := fun h => .throws h
  by_cases hopen : v ∈ m.undetermined
  · rw [if_pos hopen]
    obtain ⟨context, hbind, hm'⟩ := hm.determine hopen hfree harg
    have hv : v ∈ vars := hm'.members (v, arg) (by simp)
    have hdetermine : (s.determine v arg).run m = (.ok (), { m.determine v with context }) := by
      rw [Store.determine, Match.run_get, hbind]
      rfl
    rw [hdetermine]
    refine ⟨[(v, arg)], hm', fun _ σ hσ => ?_, fun σ hσ _ hexact => ⟨Or.inl rfl, hσ.domain, ?_⟩⟩
    · rw [Reached, subst_variable hs.toLinked hshape, hσ.bindings (v, arg) (by simp)]
      exact .same _
    · exact List.forall_mem_cons.2 ⟨hexact.variable_eq hs harg hshape hv, hσ.bindings⟩
  · rw [if_neg hopen]
    by_cases hv : v ∈ vars
    · obtain ⟨value, hmem⟩ := hm.exists_of_determined hv hopen
      have hvalue := hm.inert (v, value) hmem
      rw [hm.get?_of_mem hmem]
      dsimp only
      have hne' : value ≠ expected := by
        rintro rfl
        exact hvalue.absent v hv (mem_free_variable hs.toLinked hshape)
      by_cases hdeferred : (s.shape value).isDeferred = true
      · rw [if_neg (by simp [hdeferred])]
        refine ⟨[], hm, nofun, fun σ hσ hvalues _ => ?_⟩
        have hplain := hvalues v (s.tree value) (hσ.bindings (v, value) hmem)
        rw [isDeferred_tree hs.toLinked, hdeferred] at hplain
        cases hplain
      · rw [if_pos (by simp [hne', hdeferred])]
        by_cases heq : value = arg
        · subst heq
          have hgoal : ∀ σ : Substitution,
              σ.Respects s vars bound → s.Reached expected value σ := by
            intro σ hσ
            rw [Reached, subst_variable hs.toLinked hshape, hσ.bindings (v, value) hmem]
            exact .same _
          rcases hsame value m with hok | ⟨hlevels, limit, herror⟩
          · rw [hok]
            exact ⟨[], hm, fun _ => hgoal, fun _ hσ _ _ => ⟨Or.inl rfl, hσ⟩⟩
          · rw [herror]
            exact ⟨[], hm, nofun, fun _ hσ _ _ => ⟨Or.inr ⟨hlevels, limit, rfl⟩, hσ⟩⟩
        · obtain ⟨more, hm', hgoal, -⟩ := hterms value arg hvalue.toExpectable harg m bound hm
          refine ⟨more, hm', fun hok σ hσ => ?_, fun σ hσ _ hexact => absurd ?_ heq⟩
          · have hreached := hgoal hok σ hσ
            rw [Reached, subst_inert hs.toLinked hvalue hσ] at hreached
            rw [Reached, subst_variable hs.toLinked hshape,
              hσ.bindings (v, value) (List.mem_append_right _ hmem)]
            exact hreached
          · have htree := hexact.variable_eq hs harg hshape hv
            rw [hσ.bindings (v, value) hmem, Option.some.injEq] at htree
            exact hs.tree_inj hs.toLinked hvalue.allocated harg.allocated htree
    · have hrefused : ∀ σ, ¬ s.Exact vars expected arg σ := fun σ hexact =>
        hv (hexact.variable_mem hs hexpected harg hshape hne)
      rw [hm.get?_of_not_mem hv]
      cases hget : ctx.get? v with
      | none => exact hthrow hrefused m bound hm
      | some value =>
        have hdeferred := hexpected.awaited v (mem_free_variable hs.toLinked hshape) hv value hget
        dsimp only
        rw [if_neg (by simp [hdeferred])]
        exact hthrow hrefused m bound hm

end Shapes

/-! ## Matching part by part -/

/-- Two lists have the same image exactly if they have the same length and their entries do. -/
theorem map_eq_map_iff_zip {α β γ : Type} {f : α → γ} {g : β → γ} {l : List α} {l' : List β} :
    l.map f = l'.map g ↔ l.length = l'.length ∧ ∀ p ∈ l.zip l', f p.1 = g p.2 := by
  rw [← List.forall₂_eq_eq_eq, List.forall₂_map_left_iff, List.forall₂_map_right_iff,
    List.forall₂_iff_zip]
  simp

theorem zip_map {α β γ δ : Type} {f : α → γ} {g : β → δ} {l : List α} {l' : List β}
    {q : γ → δ → Prop} (h : ∀ p ∈ l.zip l', q (f p.1) (g p.2)) :
    ∀ p ∈ (l.map f).zip (l'.map g), q p.1 p.2 := by
  rw [List.zip_map, List.forall_mem_map]
  exact h

section Parts

variable {σ : Substitution} {expected args : List (String × TermId)}
  {params argParams : List (Slot TermId)}

/-- Components that stand in for each other one by one. -/
theorem accepts_named (hlength : expected.length = args.length)
    (h : ∀ p ∈ expected.zip args, p.1.1 = p.2.1 ∧ s.Reached p.1.2 p.2.2 σ) :
    (expected.map fun e => (e.1, s.subst σ e.2)).map (·.1) =
        (args.map fun a => (a.1, s.tree a.2)).map (·.1) ∧
      ∀ p ∈ (expected.map fun e => (e.1, s.subst σ e.2)).zip (args.map fun a => (a.1, s.tree a.2)),
        p.1.2.Accepts p.2.2 := by
  refine ⟨?_, zip_map (q := fun e a : String × Tree => e.2.Accepts a.2) fun p hp => (h p hp).2⟩
  rw [List.map_map, List.map_map]
  exact map_eq_map_iff_zip.2 ⟨hlength, fun p hp => (h p hp).1⟩

theorem named_of_eq
    (h : (expected.map fun e => (e.1, s.subst σ e.2)) = args.map fun a => (a.1, s.tree a.2)) :
    expected.length = args.length ∧
      ∀ p ∈ expected.zip args, p.1.1 = p.2.1 ∧ s.subst σ p.1.2 = s.tree p.2.2 := by
  obtain ⟨hlength, hparts⟩ := map_eq_map_iff_zip.1 h
  exact ⟨hlength, fun p hp => Prod.mk.inj (hparts p hp)⟩

theorem slots_of_eq (h : params.map (Slot.map (s.subst σ)) = argParams.map (Slot.map s.tree)) :
    params.length = argParams.length ∧
      ∀ p ∈ params.zip argParams, (p.2.comptime = true → p.1.comptime = true) ∧
        s.subst σ p.1.ty = s.tree p.2.ty := by
  obtain ⟨hlength, hparts⟩ := map_eq_map_iff_zip.1 h
  refine ⟨hlength, fun p hp => ?_⟩
  obtain ⟨hty, hcomptime, -⟩ := Slot.mk.inj (hparts p hp)
  exact ⟨fun hstage => hcomptime.trans hstage, hty⟩

end Parts

section Formers

variable {expected arg : TermId} {deepAt : TermId → Prop}
  {matchTerms : TermId → TermId → Match Unit}
  (hs : s.Intact)
  (hterms : ∀ expected arg, s.Expectable vars ctx expected → s.Inert vars ctx arg →
    Advances s vars ctx (s.Reached expected arg) (s.Exact vars expected arg) (deepAt expected)
      (matchTerms expected arg))
  (hdeep : ∀ child ∈ (s.shape expected).children, deepAt child → deep)
  (hexpected : s.Expectable vars ctx expected) (harg : s.Inert vars ctx arg)

include hs hterms hdeep hexpected harg in
/-- Terms in the same place of the two sides. -/
theorem advances_part {shape argShape : Shape TermId} (hshape : s.shape expected = shape)
    (hargShape : s.shape arg = argShape) (hscopes : shape.scopes = false)
    (hargScopes : argShape.scopes = false) :
    ∀ t ∈ shape.children, ∀ u ∈ argShape.children,
      Advances s vars ctx (s.Reached t u) (s.Exact vars t u) deep (matchTerms t u) := by
  subst hshape hargShape
  intro t ht u hu
  exact (hterms t u (hexpected.child hs.toLinked hscopes ht)
    (harg.child hs.toLinked hargScopes hu)).imp (fun _ h => h) (fun _ h => h) (hdeep t ht)

include hs hexpected harg in
/-- What the parts of a pattern have to become. -/
theorem Exact.part {σ : Substitution} (h : s.Exact vars expected arg σ) (hne : expected ≠ arg)
    {t u : TermId} (ht : t ∈ (s.shape expected).children) (htree : s.subst σ t = s.tree u) :
    s.Exact vars t u σ :=
  ⟨h.1.child (h.open hs hexpected hne harg.allocated) ht, htree⟩

include hs hterms hdeep hexpected harg in
theorem advances_productType {members argMembers : List (String × TermId)}
    (hshape : s.shape expected = .productType members)
    (hargShape : s.shape arg = .productType argMembers) (hne : expected ≠ arg) :
    Advances s vars ctx (s.Reached expected arg) (s.Exact vars expected arg) deep (do
      matchLengths members.length argMembers.length
      matchNamed matchTerms members argMembers) := by
  have hpart := advances_part hs hterms hdeep hexpected harg hshape hargShape rfl rfl
  have hsubst : ∀ σ, s.subst σ expected =
      .node (.productType (members.map fun e => (e.1, s.subst σ e.2))) := fun σ =>
    hs.subst_node hshape rfl rfl
  have htree : s.tree arg = .node (.productType (argMembers.map fun a => (a.1, s.tree a.2))) := by
    rw [hs.tree_eq, hargShape]
    rfl
  refine ((advances_matchLengths _ _).seq
    (advances_matchNamed fun e he a ha => hpart _ ?_ _ ?_)).imp (fun σ h => ?_) (fun σ h => ?_) id
  · exact List.mem_map_of_mem he
  · exact List.mem_map_of_mem ha
  · obtain ⟨hnames, hparts⟩ := accepts_named h.1 h.2
    rw [Reached, hsubst, htree]
    exact .productType hnames hparts
  · have heq := h.2
    rw [hsubst, htree, Tree.node.injEq, Shape.productType.injEq] at heq
    obtain ⟨hlength, hparts⟩ := named_of_eq heq
    refine ⟨hlength, fun p hp => ⟨(hparts p hp).1, ?_⟩⟩
    refine h.part hs hexpected harg hne ?_ (hparts p hp).2
    rw [hshape]
    exact List.mem_map_of_mem (List.of_mem_zip hp).1

include hs hterms hdeep hexpected harg in
theorem advances_productValue {ty argTy : TermId} {fields argFields : List (String × TermId)}
    (hshape : s.shape expected = .productValue ty fields)
    (hargShape : s.shape arg = .productValue argTy argFields) (hne : expected ≠ arg) :
    Advances s vars ctx (s.Reached expected arg) (s.Exact vars expected arg) deep (do
      matchTerms ty argTy
      matchLengths fields.length argFields.length
      matchNamed matchTerms fields argFields) := by
  have hpart := advances_part hs hterms hdeep hexpected harg hshape hargShape rfl rfl
  have hsubst : ∀ σ, s.subst σ expected =
      .node (.productValue (s.subst σ ty) (fields.map fun e => (e.1, s.subst σ e.2))) := fun σ =>
    hs.subst_node hshape rfl rfl
  have htree : s.tree arg =
      .node (.productValue (s.tree argTy) (argFields.map fun a => (a.1, s.tree a.2))) := by
    rw [hs.tree_eq, hargShape]
    rfl
  refine ((hpart _ List.mem_cons_self _ List.mem_cons_self).seq ((advances_matchLengths _ _).seq
    (advances_matchNamed fun e he a ha => hpart _ ?_ _ ?_))).imp (fun σ h => ?_) (fun σ h => ?_) id
  · exact List.mem_cons_of_mem _ (List.mem_map_of_mem he)
  · exact List.mem_cons_of_mem _ (List.mem_map_of_mem ha)
  · obtain ⟨hnames, hparts⟩ := accepts_named h.2.1 h.2.2
    rw [Reached, hsubst, htree]
    exact .productValue h.1 hnames hparts
  · have heq := h.2
    rw [hsubst, htree, Tree.node.injEq, Shape.productValue.injEq] at heq
    obtain ⟨hlength, hparts⟩ := named_of_eq heq.2
    have hexact : ∀ {t u}, t ∈ ty :: fields.map (·.2) → s.subst σ t = s.tree u →
        s.Exact vars t u σ := fun ht => h.part hs hexpected harg hne (by rw [hshape]; exact ht)
    refine ⟨hexact List.mem_cons_self heq.1, hlength, fun p hp => ⟨(hparts p hp).1, ?_⟩⟩
    exact hexact (List.mem_cons_of_mem _ (List.mem_map_of_mem (List.of_mem_zip hp).1))
      (hparts p hp).2

include hs hterms hdeep hexpected harg in
theorem advances_functionType {refusal : Error} {params argParams : List (Slot TermId)}
    {result argResult : TermId} (hshape : s.shape expected = .functionType params result)
    (hargShape : s.shape arg = .functionType argParams argResult) (hne : expected ≠ arg) :
    Advances s vars ctx (s.Reached expected arg) (s.Exact vars expected arg) deep (do
      matchLengths params.length argParams.length
      matchSlots matchTerms refusal params argParams
      matchTerms result argResult) := by
  have hpart := advances_part hs hterms hdeep hexpected harg hshape hargShape rfl rfl
  have hsubst : ∀ σ, s.subst σ expected =
      .node (.functionType (params.map (Slot.map (s.subst σ))) (s.subst σ result)) := fun σ =>
    hs.subst_node hshape rfl rfl
  have htree : s.tree arg =
      .node (.functionType (argParams.map (Slot.map s.tree)) (s.tree argResult)) := by
    rw [hs.tree_eq, hargShape]
    rfl
  have hresult := hpart result (List.mem_append_right _ (List.mem_singleton_self result)) argResult
    (List.mem_append_right _ (List.mem_singleton_self argResult))
  refine ((advances_matchLengths _ _).seq ((advances_matchSlots fun e he a ha =>
    hpart _ ?_ _ ?_).seq hresult)).imp (fun σ h => ?_) (fun σ h => ?_) id
  · exact List.mem_append_left _ (List.mem_map_of_mem he)
  · exact List.mem_append_left _ (List.mem_map_of_mem ha)
  · rw [Reached, hsubst, htree]
    refine .functionType (by simpa using h.1) ?_ ?_ h.2.2
    · exact zip_map (q := fun e a : Slot Tree => a.comptime = true → e.comptime = true) fun p hp =>
        (h.2.1 p hp).1
    · exact zip_map (q := fun e a : Slot Tree => e.ty.Accepts a.ty) fun p hp => (h.2.1 p hp).2
  · have heq := h.2
    rw [hsubst, htree, Tree.node.injEq, Shape.functionType.injEq] at heq
    obtain ⟨hlength, hparts⟩ := slots_of_eq heq.1
    have hexact : ∀ {t u}, t ∈ params.map (·.ty) ++ [result] → s.subst σ t = s.tree u →
        s.Exact vars t u σ := fun ht => h.part hs hexpected harg hne (by rw [hshape]; exact ht)
    refine ⟨hlength, fun p hp => ⟨(hparts p hp).1, ?_⟩,
      hexact (List.mem_append_right _ (List.mem_singleton_self result)) heq.2⟩
    exact hexact (List.mem_append_left _ (List.mem_map_of_mem (List.of_mem_zip hp).1))
      (hparts p hp).2

end Formers

/-! ## Matching terms -/

section Terms

variable {expected arg : TermId} {deepAt : TermId → Prop}
  {matchTerms : TermId → TermId → Match Unit}

theorem advances_matchShapes (hs : s.Intact) (hfree : ∀ v ∈ vars, ctx.innermost.get? v = none)
    (hterms : ∀ expected arg, s.Expectable vars ctx expected → s.Inert vars ctx arg →
      Advances s vars ctx (s.Reached expected arg) (s.Exact vars expected arg) (deepAt expected)
        (matchTerms expected arg))
    (hsame : ∀ t m, (matchTerms t t).run m = (.ok (), m) ∨
      deep ∧ ∃ limit, (matchTerms t t).run m = (.error (.depthExceeded limit), m))
    (hdeep : ∀ child ∈ (s.shape expected).children, deepAt child → deep)
    (hexpected : s.Expectable vars ctx expected) (harg : s.Inert vars ctx arg)
    (hne : expected ≠ arg) :
    Advances s vars ctx (s.Reached expected arg) (s.Exact vars expected arg) deep
      (s.matchShapes matchTerms expected arg) := by
  by_cases hvar : ∃ v, s.shape expected = .variable v
  · obtain ⟨v, hshape⟩ := hvar
    exact advances_matchVariable hs hfree hterms hsame hexpected harg hshape hne
  unfold matchShapes
  split
  · rename_i v hshape
    exact absurd ⟨v, hshape⟩ hvar
  · rename_i hshape hargShape
    exact advances_productValue hs hterms hdeep hexpected harg hshape hargShape hne
  · rename_i hshape hargShape
    exact advances_productType hs hterms hdeep hexpected harg hshape hargShape hne
  · rename_i hshape hargShape
    exact advances_functionType hs hterms hdeep hexpected harg hshape hargShape hne
  · rename_i hvalue htype hfunction
    -- A pattern of another shape than the argument does not become the argument.
    refine .throws fun σ h => ?_
    have hopen := h.open hs hexpected hne harg.allocated
    have htrees : ∀ {shape}, s.shape expected = shape → shape.leaf = [] → shape.scopes = false →
        shape.anonymous.map (s.subst σ) = (s.shape arg).anonymous.map s.tree := by
      intro shape hshape hleaf hscopes
      have heq := h.2
      rwa [hs.subst_node hshape hleaf hscopes, hs.tree_eq, Tree.node.injEq] at heq
    cases h.1 with
    | «variable» hshape _ => exact hvar ⟨_, hshape⟩
    | closed _ hclosed =>
      rw [hopen] at hclosed
      cases hclosed
    | productValue hshape _ _ =>
      have heq := htrees hshape rfl rfl
      cases hargShape : s.shape arg with
      | productValue _ _ => exact hvalue _ _ _ _ hshape hargShape
      | _ => rw [hargShape] at heq; cases heq
    | productType hshape _ =>
      have heq := htrees hshape rfl rfl
      cases hargShape : s.shape arg with
      | productType _ => exact htype _ _ hshape hargShape
      | _ => rw [hargShape] at heq; cases heq
    | functionType hshape _ _ =>
      have heq := htrees hshape rfl rfl
      cases hargShape : s.shape arg with
      | functionType _ _ => exact hfunction _ _ _ _ hshape hargShape
      | _ => rw [hargShape] at heq; cases heq

/-- A call of matching with enough levels for the expected term does not run out of them. -/
theorem advances_unify (hs : s.Intact) (hfree : ∀ v ∈ vars, ctx.innermost.get? v = none)
    (levels : Nat) (hexpected : s.Expectable vars ctx expected) (harg : s.Inert vars ctx arg) :
    Advances s vars ctx (s.Reached expected arg) (s.Exact vars expected arg)
      (levels ≤ expected.index + 1) (s.unify levels expected arg) := by
  induction levels generalizing expected arg with
  | zero => exact .throwsDepth (Nat.zero_le _)
  | succ levels ih =>
    unfold unify
    split
    · rename_i heq
      subst heq
      refine fun m bound hm => ⟨[], hm, fun _ σ hσ => ?_, fun _ hσ _ _ => ⟨Or.inl rfl, hσ⟩⟩
      rw [Reached, subst_inert hs.toLinked harg hσ]
      exact .same _
    · rename_i hne
      refine advances_matchShapes hs hfree (fun e a he ha => ih he ha) (fun t m => ?_)
        (fun child hchild hlevels => ?_) hexpected harg hne
      · cases levels with
        | zero => exact Or.inr ⟨by omega, s.config.maxDepth, rfl⟩
        | succ levels =>
          left
          rw [unify, if_pos rfl]
          rfl
      · have hlt := hs.lt_of_mem_children hchild
        omega

/-- Matching binds quantified variables only, in the innermost frame and each once; those that it
binds are not open any more, and the others are, in their order. If it succeeds, then the expected
term stands in for the argument once its bound variables are replaced. If some replacement of
variables by terms that are no placeholders turns a pattern into the argument, then matching does
not fail but for lack of levels, and finds that replacement. -/
theorem unify_one_sided (hs : s.Genuine) (hexpected : s.Allocated expected)
    (harg : s.Allocated arg) (hfree : ∀ v ∈ vars, ctx.innermost.get? v = none)
    (habsent : ∀ v ∈ vars, v ∉ (s.freeVariables arg).vars)
    (hawaited : ∀ v, v ∈ (s.freeVariables arg).vars ∨
        v ∈ (s.freeVariables expected).vars ∧ v ∉ vars →
      ∀ value, ctx.get? v = some value → (s.shape value).isDeferred = true)
    {levels : Nat} {result : Except Error Unit} {m : Matching}
    (hrun : (s.unify levels expected arg).run ⟨vars, ctx⟩ = (result, m)) :
    ∃ bound : Frame,
      (m.context = { ctx with innermost := bound ++ ctx.innermost } ∧
        (bound.map (·.1)).Nodup ∧ (∀ b ∈ bound, b.1 ∈ vars) ∧
        m.undetermined = vars.filter fun v => v ∉ bound.map (·.1)) ∧
      (result = .ok () →
        (s.subst (fun v => (bound.get? v).map s.tree) expected).Accepts (s.tree arg)) ∧
      (s.Pattern vars expected → ∀ σ : Substitution,
        (∀ v t, σ v = some t → v ∈ vars ∧ t.isDeferred = false) →
        s.subst σ expected = s.tree arg →
        (result = .ok () ∨
          levels ≤ expected.index + 1 ∧ ∃ limit, result = .error (.depthExceeded limit)) ∧
        ∀ b ∈ bound, σ b.1 = some (s.tree b.2)) := by
  have hexpectable : s.Expectable vars ctx expected :=
    ⟨hexpected, fun v hv hmem => hawaited v (Or.inr ⟨hv, hmem⟩)⟩
  have hinert : s.Inert vars ctx arg := ⟨⟨harg, fun v hv _ => hawaited v (Or.inl hv)⟩, habsent⟩
  obtain ⟨bound, hprogress, hreached, hexact⟩ :=
    advances_unify hs.intact hfree levels hexpectable hinert _ _ (.start s vars ctx)
  rw [List.append_nil] at hprogress hreached hexact
  rw [hrun] at hprogress hreached hexact
  refine ⟨bound, ⟨hprogress.context, hprogress.distinct, hprogress.members,
    hprogress.undetermined⟩, fun hok => hreached hok _ ⟨fun v hv => ?_, fun b hb => ?_⟩,
    fun hpattern σ hσ htree => ?_⟩
  · have hnone : bound.get? v = none := Frame.get?_eq_none.2 fun b hb heq =>
      hv (heq ▸ hprogress.members b hb)
    rw [hnone]
    rfl
  · rw [Frame.get?_of_mem hprogress.distinct hb]
    rfl
  · have hdomain : ∀ v, v ∉ vars → σ v = none := fun v hv =>
      Option.eq_none_iff_forall_not_mem.2 fun t ht => hv (hσ v t ht).1
    obtain ⟨hsettled, hrespects⟩ := hexact σ ⟨hdomain, nofun⟩ (fun v t ht => (hσ v t ht).2)
      ⟨hpattern, htree⟩
    exact ⟨hsettled, hrespects.bindings⟩

end Terms

end Store

namespace Sample

open Build

/-- The types `{a: T, f: fn(comptime T) -> U}` and `{a: Unit, f: fn(Unit) -> Top}`, and the
variables `T` and `U`. -/
def genericMembers : Build (TermId × TermId × List VarId) := do
  let t ← freshVariable true (some "T")
  let u ← freshVariable true (some "U")
  let tTerm ← variableTerm t
  let uTerm ← variableTerm u
  let strict ← functionType [⟨tTerm, true, none⟩] uTerm
  let expected ← productType [("a", tTerm), ("f", strict)]
  let plain ← functionType [⟨Store.unitType, false, none⟩] Store.topType
  return (expected, ← productType [("a", Store.unitType), ("f", plain)], [t, u])

seal Store.intern Store.initial in
/-- The types in a new store. -/
def generic : Store.Setup (TermId × TermId × List VarId) := genericMembers.setup <| by
  repeat' apply Store.Built.add
  · exact fun _ : True => .freshVariable _ _ (.freshVariable _ _ (.initial {}))
  · decide +kernel

end Sample

namespace Store

open Sample

/-- Both variables are determined, the first of them before it is met again. -/
theorem unify_one_sided_members :
    ∃ s : Store, s.Genuine ∧ ∃ expected arg vars m,
      s.display expected = "\x7ba: T, f: fn(comptime T) -> U\x7d" ∧
      s.display arg = "\x7ba: Unit, f: fn(Unit) -> Top\x7d" ∧ vars.length = 2 ∧
      (s.unify 512 expected arg).run ⟨vars, .root⟩ = (.ok (), m) ∧ m.undetermined = [] ∧
      ∃ bound : Frame, m.context = ⟨bound, []⟩ ∧
        (s.subst (fun v => (bound.get? v).map s.tree) expected).Accepts (s.tree arg) := by
  have hbuilt := generic.built
  have hchecks : ∃ expected arg vars,
      generic.store.display expected = "\x7ba: T, f: fn(comptime T) -> U\x7d" ∧
      generic.store.display arg = "\x7ba: Unit, f: fn(Unit) -> Top\x7d" ∧ vars.length = 2 ∧
      generic.store.Allocated expected ∧ generic.store.Allocated arg ∧
      (∀ v ∈ vars, v ∉ (generic.store.freeVariables arg).vars) ∧
      ((generic.store.unify 512 expected arg).run ⟨vars, .root⟩).1.isOk = true ∧
      ((generic.store.unify 512 expected arg).run ⟨vars, .root⟩).2.undetermined = [] :=
    ⟨generic.value.1, generic.value.2.1, generic.value.2.2, by decide +kernel⟩
  generalize generic.store = s at hbuilt hchecks
  obtain ⟨expected, arg, vars, htext, hargText, hvars, hexpected, harg, habsent, hok, hclosed⟩ :=
    hchecks
  rcases hrun : (s.unify 512 expected arg).run ⟨vars, .root⟩ with ⟨e | u, m⟩
  · rw [hrun] at hok
    cases hok
  · rw [hrun] at hclosed
    obtain ⟨bound, ⟨hcontext, -⟩, haccepts, -⟩ := unify_one_sided hbuilt.genuine hexpected harg
      (fun v _ => rfl) habsent (fun v _ value hget => by cases hget) hrun
    rw [Context.root, List.append_nil] at hcontext
    exact ⟨s, hbuilt.genuine, expected, arg, vars, m, htext, hargText, hvars, hrun, hclosed, bound,
      hcontext, haccepts rfl⟩

end Store

end StagedCalculus
