import StagedCalculus.Proofs.Native.EvidentTypes
import StagedCalculus.Proofs.Staging.RepeatsReduce

/-!
# Computations with few ways to fail

This module is a small logic for computations over standard stores that remember the types which can
be read off terms. A rule says what holds of the result of a computation, and which failures there
may be: none but a lack of depth, or any.

* `Store.Certain`: such stores;
* `Attempt.Ensures`: the computation gives a result of which a condition holds, or fails in a way
  that is tolerated;
* `Attempt.ensures_infer_evident`, `Attempt.ensures_reduce_reduced`: what the two judgments are
  certain of, at every number of levels.
-/

namespace StagedCalculus

/-- The failure of a nested call when no level is left. -/
def Error.IsDepth (e : Error) : Prop := ∃ limit, e = .depthExceeded limit

namespace Store

variable {s s' : Store} {t ty : TermId} {layer : Shape TermId}

theorem Standard.later (hs : s.Standard) (hle : s.Precedes s') : s'.Standard := by
  refine ⟨?_, ?_⟩
  · rw [hle.sameNatives, hle.sameConfig, hs.natives]
  · rw [hle.sameConfig]
    exact hs.extends_initial.trans hle.toExtends

/-- A store with the built-in natives alone, whose memory follows the law of evident types. -/
structure Certain (s : Store) : Prop extends Intact s where
  standard : s.Standard
  memory : s.Remembers evidentLaw

namespace Certain

theorem placeholder (hs : s.Certain) : (s.shape comptimeType).isDeferred = true := by
  rw [hs.standard.common.comptimeType]
  rfl

theorem later (hs : s.Certain) (hle : s.Precedes s') (hmemory : s'.Remembers evidentLaw) :
    s'.Certain where
  toIntact := hle.intact
  standard := hs.standard.later hle
  memory := hmemory

theorem stores (hs : s.Certain) : evidentLaw.typing.stores s s := ⟨rfl, hs.toIntact, hs.memory⟩

end Certain

/-- The term has this outermost layer. -/
structure Represents (s : Store) (layer : Shape TermId) (t : TermId) : Prop where
  allocated : s.Allocated t
  shape_eq : s.shape t = layer

theorem Represents.mono (h : s.Represents layer t) (hle : s.Extends s') : s'.Represents layer t :=
  ⟨hle.allocated h.allocated, (hle.shape_eq h.allocated).trans h.shape_eq⟩

end Store

namespace Attempt

open Store Engine Correspondence

variable {α β : Type} {tolerated tolerated' : Error → Prop} {post : α → Store → Prop}
  {post' : β → Store → Prop} {c : Attempt α} {f : α → Attempt β} {s s' : Store}

/-- How a computation ends: with a failure that is tolerated, or with a result of which a condition
holds. -/
inductive Ended (tolerated : Error → Prop) (post : α → Store → Prop) (s : Store) :
    Except Error α × Store → Prop
  | fails {e : Error} {s' : Store} : tolerated e → Ended tolerated post s (.error e, s')
  | gives {a : α} {s' : Store} : s.Precedes s' → s'.Certain → post a s' →
      Ended tolerated post s (.ok a, s')

/-- From this store on, the computation gives a result of which the condition holds, or fails in a
way that is tolerated. -/
def Ensures (tolerated : Error → Prop) (post : α → Store → Prop) (c : Attempt α) (s : Store) :
    Prop := s.Certain → Ended tolerated post s (c.run s)

namespace Ensures

/-! ## Rules -/

/-- The store may be taken to be certain. -/
theorem withCertain (h : s.Certain → Ensures tolerated post c s) : Ensures tolerated post c s :=
  fun hs => h hs hs

/-- A result that is there already. -/
theorem stays {a : α} (hrun : c.run s = (.ok a, s)) (h : post a s) :
    Ensures tolerated post c s := by
  intro hs
  rw [hrun]
  exact .gives (.refl hs.toIntact) hs h

theorem pure {a : α} (h : post a s) : Ensures tolerated post (Pure.pure a) s := .stays rfl h

theorem fails {e : Error} {s' : Store} (hrun : c.run s = (.error e, s')) (h : tolerated e) :
    Ensures tolerated post c s := by
  intro _
  rw [hrun]
  exact .fails h

theorem bind (hc : Ensures tolerated post c s)
    (hf : ∀ a s₁, s.Precedes s₁ → post a s₁ → Ensures tolerated post' (f a) s₁) :
    Ensures tolerated post' (c >>= f) s := by
  intro hs
  have hends := hc hs
  rw [run_bind]
  generalize c.run s = r at hends ⊢
  cases hends with
  | fails he => exact .fails he
  | @gives a s₁ hle hs₁ hpost =>
    have hrest := hf a s₁ hle hpost hs₁
    change Ended tolerated post' s ((f a).run s₁)
    generalize (f a).run s₁ = r at hrest ⊢
    cases hrest with
    | fails he => exact .fails he
    | gives hle' hs₂ hpost' => exact .gives (hle.trans hle') hs₂ hpost'

/-- A question to the store. -/
theorem reads {a : α} (hrun : c.run s = (.ok a, s)) (hf : Ensures tolerated post' (f a) s) :
    Ensures tolerated post' (c >>= f) s := by
  intro hs
  rw [run_bind, hrun]
  exact hf hs

theorem imp {post₁ : α → Store → Prop} (hc : Ensures tolerated post c s)
    (h : ∀ a s₁, s.Precedes s₁ → post a s₁ → post₁ a s₁) : Ensures tolerated post₁ c s := by
  intro hs
  have hends := hc hs
  generalize c.run s = r at hends ⊢
  cases hends with
  | fails he => exact .fails he
  | gives hle hs₁ hpost => exact .gives hle hs₁ (h _ _ hle hpost)

/-- More failures may be tolerated. -/
theorem tolerate (hc : Ensures tolerated post c s) (h : ∀ e, tolerated e → tolerated' e) :
    Ensures tolerated' post c s := by
  intro hs
  have hends := hc hs
  generalize c.run s = r at hends ⊢
  cases hends with
  | fails he => exact .fails (h _ he)
  | gives hle hs₁ hpost => exact .gives hle hs₁ hpost

/-- If the computation is known to give a result, then nothing has to be tolerated. -/
theorem of_ok (hc : Ensures tolerated post c s) {a : α} (hrun : c.run s = (.ok a, s')) :
    Ensures tolerated' post c s := by
  intro hs
  have hends := hc hs
  rw [hrun] at hends ⊢
  cases hends with
  | gives hle hs₁ hpost => exact .gives hle hs₁ hpost

theorem gives_of_ok (hc : Ensures tolerated post c s) (hs : s.Certain) {a : α}
    (hrun : c.run s = (.ok a, s')) : s.Precedes s' ∧ s'.Certain ∧ post a s' := by
  have hends := hc hs
  rw [hrun] at hends
  cases hends with
  | gives hle hs₁ hpost => exact ⟨hle, hs₁, hpost⟩

theorem intern {shape : Shape TermId} (hshape : s.Covers shape)
    (hne : ∀ body, shape ≠ .forAll [] body) :
    Ensures tolerated (fun t s' => s'.Represents shape t) (Build.intern shape) s := by
  intro hs
  have hrun : (Build.intern shape : Attempt TermId).run s =
      (.ok (s.intern shape).1, (s.intern shape).2) := rfl
  have hle := Store.Precedes.intern hs.toIntact hshape
  rw [hrun]
  refine .gives hle (hs.later hle ?_) ⟨?_, shape_intern hne⟩
  · exact hs.memory.mono hs.toIntact (extends_intern s shape) (types_intern s shape)
  · exact allocated_intern hs.toLinked (Covers.children hshape)

/-- The leaf of a native that a name refers to. -/
theorem builtin {name : String} {id : NativeId} (hname : s.findNative? name = some id) :
    Ensures tolerated (fun leaf? s' => ∃ leaf, leaf? = some leaf ∧ s'.shape leaf = .native id)
      (Build.builtin name) s := by
  have hrun : (Build.builtin name : Attempt (Option TermId)).run s =
      ((do return some (← Build.intern (.native id))) : Attempt (Option TermId)).run s := by
    change (Except.ok (s.builtin name).1, (s.builtin name).2) = _
    rw [Store.builtin, hname]
    rfl
  have hproper (body : TermId) : Shape.native id ≠ .forAll [] body := by simp
  intro hs
  rw [hrun]
  refine Ensures.bind (.intern (covers_native (lt_of_findNative? hname)) hproper)
    (fun leaf s₁ _ hleaf => ?_) hs
  exact .pure ⟨leaf, rfl, hleaf.shape_eq⟩

/-! ## Scripts -/

variable {e : Engine} {ctx : Context}

theorem script {script : Script α} {next : α → Script β}
    (hc : Ensures tolerated post (e.run ctx script) s)
    (hf : ∀ a s₁, s.Precedes s₁ → post a s₁ → Ensures tolerated post' (e.run ctx (next a)) s₁) :
    Ensures tolerated post' (e.run ctx (script >>= next)) s := by
  intro hs
  rw [Engine.run_bindScript]
  exact Ensures.bind hc hf hs

/-- A single question. -/
theorem query (query : Query) {post : query.Answer → Store → Prop}
    (h : Ensures tolerated post (e.answer ctx query) s) :
    Ensures tolerated post (e.run ctx (.ask query .done)) s :=
  .bind h fun _ _ _ ha => .pure ha

/-- A question to the store. -/
theorem asks (query : Query) {answer : query.Answer} {next : query.Answer → Script β}
    (hrun : (e.answer ctx query).run s = (.ok answer, s))
    (hf : Ensures tolerated post' (e.run ctx (next answer)) s) :
    Ensures tolerated post' (e.run ctx (Script.ask query .done >>= next)) s := .reads hrun hf

end Ensures

/-! ## The judgments -/

variable {n : Nat} {mode : Mode} {t ty : TermId}

/-- What is known of a computation that is compared with itself: whatever it gives belongs to the
store. -/
theorem ensures_own {own : Correspondence.Post α}
    (hown : evidentLaw.typing.Corresponds own c c s s) (hrepeats : Repeats c s) :
    Ensures (fun _ => True) (fun a s' => own s' s' a a) c s := by
  intro hs
  have hends := hown hs.stores
  rcases hrun : c.run s with ⟨e | a, s'⟩
  · exact .fails trivial
  · rw [hrun] at hends
    cases hends with
    | gives hleads hpost =>
      have hle := (hrepeats hs.toIntact a s' hrun).1
      exact .gives hle (hs.later hle hleads.after.2.2) hpost

theorem ensures_write (text : String) :
    Ensures (fun _ => True) (fun bytes _ => bytes = text.utf8ByteSize) (Attempt.write text) s := by
  intro hs
  have hany := ensures_own (.write evidentLaw.steady_typing text) (.write text) hs
  have hrun : (Attempt.write text).run s = s.write text := rfl
  rcases hwrite : s.write text with ⟨e | bytes, s'⟩
  · rw [hrun, hwrite]
    exact .fails trivial
  · rw [hrun, hwrite] at hany ⊢
    cases hany with
    | gives hle hs' _ =>
      refine .gives hle hs' ?_
      unfold Store.write at hwrite
      split at hwrite <;> cases hwrite
      rfl

/-- Nothing is bound outside of all calls. -/
theorem scope_root : evidentLaw.typing.scope s s .root .root := Likeness.scope_diagonal (by nofun)

theorem scope_root_itself : itself.scope s s .root .root := Likeness.scope_diagonal (by nofun)

theorem engines_evidentLaw (n : Nat) :
    evidentLaw.typing.Engines (.ofLevels n) (.ofLevels n) :=
  (TypeLaw.obeys_ofLevels ruled_evidentLaw n).1

theorem ensures_infer (ht : s.Allocated t) :
    Ensures (fun _ => True) (fun ty s' => s'.Allocated ty) ((ofLevels n).infer .root t) s :=
  (ensures_own ((engines_evidentLaw n).infer scope_root ⟨rfl, ht⟩)
    ((repeating_ofLevels n).infer scope_root_itself ⟨rfl, ht⟩)).imp fun _ _ _ hty => hty.2

theorem ensures_reduce (ht : s.Allocated t) :
    Ensures (fun _ => True) (fun t' s' => s'.Allocated t') ((ofLevels n).reduce mode .root t) s :=
  (ensures_own ((engines_evidentLaw n).reduce scope_root ⟨rfl, ht⟩)
    ((repeating_ofLevels n).reduce scope_root_itself ⟨rfl, ht⟩)).imp fun _ _ _ ht' => ht'.2

/-- Reducing a reduced term gives it back. -/
theorem ensures_reduce_reduced (ht : s.Reduced [] t) :
    Ensures Error.IsDepth (fun t' _ => t' = t) ((ofLevels n).reduce mode .root t) s := by
  intro hs
  have hidles : Idles (fun t' _ => t' = t) ((ofLevels n).reduce mode .root t) s :=
    restores_ofLevels n ht nofun hs.placeholder (.inr rfl)
  have hends := hidles hs.toIntact
  have hany : Ended _ _ s (((ofLevels n).reduce mode .root t).run s) :=
    ensures_reduce ht.allocated hs
  generalize ((ofLevels n).reduce mode .root t).run s = r at hends hany ⊢
  cases hends with
  | deep => exact .fails ⟨_, rfl⟩
  | gives _ _ _ hpost =>
    cases hany with
    | gives hle hs' _ => exact .gives hle hs' hpost

/-- Inference gives the type that can be read off a term, at once or in a later store. -/
theorem ensures_infer_later (ht : s.Allocated t) (later : Store → Store) (ty : Store → TermId)
    (hlater : ∀ s', s'.Intact → s.Extends s' →
      s'.Extends (later s') ∧ (later s').Intact ∧ (later s').Evident t (ty s')) :
    Ensures Error.IsDepth (fun ty' s' => s'.Allocated ty' ∧ ty' = ty s')
      ((ofLevels n).infer .root t) s := by
  intro hs
  have hany := ensures_infer (n := n) ht hs
  rcases hrun : ((ofLevels n).infer .root t).run s with ⟨answer, s'⟩
  obtain ⟨hgrows, hs', -⟩ :=
    TypeLaw.leads_of_run ((engines_evidentLaw n).infer scope_root ⟨rfl, ht⟩) hs.stores hrun
  obtain ⟨hle, hintact, hevident⟩ := hlater s' hs' hgrows
  have hanswer : Answers (ty s') answer :=
    (TypeLaw.obeys_ofLevels ruled_evidentLaw n).2 hs.stores scope_root ht hrun (later s') hle
      hintact ((hgrows.trans hle).isDeferred hs.placeholder) (ty s') hevident
  rw [hrun] at hany
  generalize hty : ty s' = read at hanswer
  cases hanswer with
  | deep => exact .fails ⟨_, rfl⟩
  | gives =>
    cases hany with
    | gives hle' hs' hallocated => exact .gives hle' hs' ⟨hallocated, hty.symm⟩

/-- Inference gives the types that can be read off terms. -/
theorem ensures_infer_evident (hevident : s.Evident t ty) :
    Ensures Error.IsDepth (fun ty' _ => ty' = ty) ((ofLevels n).infer .root t) s :=
  (ensures_infer_later hevident.allocated (fun s' => s') (fun _ => ty)
    fun s' hs' hgrows => ⟨.refl s', hs', hevident.mono hgrows⟩).imp fun _ _ _ h => h.2

/-- The type of a numeral need not be there yet. -/
theorem ensures_infer_numeral {value : Rat} (ht : s.shape t = .numericLiteral value) :
    Ensures Error.IsDepth (fun ty s' => s'.Represents (.numericLiteralType value) ty)
      ((ofLevels n).infer .root t) s := by
  have hnew : ∀ s' : Store, (s'.intern (.numericLiteralType value)).2.shape
      (s'.intern (.numericLiteralType value)).1 = .numericLiteralType value :=
    fun s' => shape_intern nofun
  refine (ensures_infer_later (allocated_of_shape_eq ht nofun)
    (fun s' => (s'.intern (.numericLiteralType value)).2)
    (fun s' => (s'.intern (.numericLiteralType value)).1)
    fun s' hs' hgrows => ?_).imp fun ty s' hle h => ?_
  · have hle := extends_intern s' (.numericLiteralType value)
    have hcovers : s'.Covers (.numericLiteralType value) :=
      covers_of_children rfl rfl (List.forall_mem_nil _)
    exact ⟨hle, intact_intern hs' hcovers,
      .numeral ((hgrows.trans hle).shape_kept ht nofun) (hnew s')⟩
  · obtain ⟨hallocated, rfl⟩ := h
    exact ⟨hallocated, ((extends_intern s' _).shape_eq hallocated).symm.trans (hnew s')⟩

/-- The type of a closed term is remembered once it is inferred. -/
theorem ensures_infer_stores (hclosed : (s.freeVariables t).isEmpty = true) (ht : s.Allocated t) :
    Ensures (fun _ => True) (fun ty s' => s'.Allocated ty ∧ s'.types.get? t [] = some (.ok ty))
      ((ofLevels n).infer .root t) s := by
  intro hs
  have hany := ensures_infer (n := n) ht hs
  rcases hrun : ((ofLevels n).infer .root t).run s with ⟨e | ty, s'⟩
  · exact .fails trivial
  · rw [hrun] at hany
    cases hany with
    | gives hle hs' hty =>
      refine .gives hle hs' ⟨hty, ?_⟩
      cases n with
      | zero => cases hrun
      | succ n =>
        rw [infer_ofLevels, inferStep, run_bind, run_restrict_closed hclosed] at hrun
        exact remembered_stores hrun (by simp)

/-- What is remembered of a closed term is given again. -/
theorem ensures_infer_remembered (hclosed : (s.freeVariables t).isEmpty = true)
    (hget : s.types.get? t [] = some (.ok ty)) :
    Ensures Error.IsDepth (fun ty' _ => ty' = ty) ((ofLevels n).infer .root t) s := by
  cases n with
  | zero => exact .fails rfl ⟨_, rfl⟩
  | succ n => exact .reads (run_restrict_closed hclosed) (.stays (run_remembered_hit hget) rfl)

/-- A type that is asked for the first time is the one of its rule. -/
theorem ensures_infer_new {post : TermId → Store → Prop}
    (hclosed : (s.freeVariables t).isEmpty = true) (ht : s.Allocated t)
    (hnew : s.types.get? t [] = none)
    (h : Ensures tolerated post ((ofLevels n).inferShape .root t) s)
    (hpost : ∀ ty s₁ s₂, post ty s₁ → s₁.Extends s₂ → post ty s₂) :
    Ensures tolerated post ((ofLevels (n + 1)).infer .root t) s := by
  intro hs
  have hown := ensures_infer (n := n + 1) ht
  have hany : Ended _ _ s (((ofLevels (n + 1)).infer .root t).run s) := hown hs
  have hends := h hs
  have hstep : ((ofLevels (n + 1)).infer .root t).run s =
      (remembered t [] ((ofLevels n).inferShape .root t)).run s := by
    rw [infer_ofLevels, inferStep, run_bind, run_restrict_closed hclosed]
  rw [hstep] at hany ⊢
  rcases hshape : ((ofLevels n).inferShape .root t).run s with ⟨e | ty, s₁⟩ <;> rw [hshape] at hends
  · cases hends with
    | fails he =>
      by_cases hdeep : ∃ limit, e = .depthExceeded limit
      · obtain ⟨limit, rfl⟩ := hdeep
        rw [run_remembered_depth hnew hshape]
        exact .fails he
      · rw [run_remembered_miss hnew hshape fun limit heq => hdeep ⟨limit, Except.error.inj heq⟩]
        exact .fails he
  · rw [run_remembered_miss hnew hshape (by simp)] at hany ⊢
    cases hends with
    | gives _ _ hty =>
      cases hany with
      | gives hle hs' _ => exact .gives hle hs' (hpost _ _ _ hty (.of_eq rfl rfl rfl))

/-- Asking for a type keeps a standard store orderly. -/
theorem orderly_infer (hs : s.Orderly) (hstandard : s.Standard)
    (hbinders : ∀ i < s.entries.size, (s.shape ⟨i⟩).binders.Nodup) (ht : s.Allocated t)
    (hrun : ((infer .root t).run s).1 = .ok ty) :
    ((infer .root t).run s).2.Orderly ∧ ((infer .root t).run s).2.Standard := by
  have hwhole : (infer .root t).run s = (.ok ty, ((infer .root t).run s).2) := Prod.ext hrun rfl
  refine ⟨.infer hs (Context.Tidy.root _) (hs.neat.toLinked.wellBound hbinders ht), ?_⟩
  exact hstandard.later (infer_remembers hs.neat.toIntact scope_root_itself ht hwhole).1

end Attempt

end StagedCalculus
