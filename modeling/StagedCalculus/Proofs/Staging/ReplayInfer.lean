import StagedCalculus.Proofs.Staging.MatchingAlike
import StagedCalculus.Proofs.Staging.Replay
import StagedCalculus.Staging.Infer

/-!
# Replaying inference

This module follows the rules of matching and inference over two engines, of which the second one
replays the calls of the first one and may have more levels left.

- `Replay.settles_unify`: with more levels left, matching ends the same way, unless it ended for lack
  of depth;
- `Replay.Engines`: one engine replays the calls of another one;
- `Replay.follows_resolve`, `Replay.follows_inferStep`: so does one level built upon it.
-/

namespace StagedCalculus

/-! ## Matching -/

namespace Match

variable {α β : Type} {limit : Nat} {c c' : Match α} {f f' : α → Match β}

/-- Two steps end alike, without a lack of depth, unless the first one lacks depth. -/
def Settles (limit : Nat) (c c' : Match α) : Prop :=
  ∀ m, (c.run m).1 = .error (.depthExceeded limit) ∨
    c'.run m = c.run m ∧ ∀ limit, (c.run m).1 ≠ .error (.depthExceeded limit)

namespace Settles

theorem pure (a : α) : Settles limit (Pure.pure a) (Pure.pure a) :=
  fun _ => .inr ⟨rfl, nofun⟩

theorem throws {e : Error} (he : ∀ limit, e ≠ .depthExceeded limit) :
    Settles limit (throw e : Match α) (throw e) := by
  intro m
  refine .inr ⟨rfl, fun limit h => he limit ?_⟩
  exact Except.error.inj h

theorem bind (hc : Settles limit c c') (hf : ∀ a, Settles limit (f a) (f' a)) :
    Settles limit (c >>= f) (c' >>= f') := by
  intro m
  have hfirst := hc m
  rw [run_bind, run_bind]
  rcases hrun : c.run m with ⟨e | a, m₁⟩ <;> rw [hrun] at hfirst
  · rcases hfirst with hlacks | ⟨hsame, hnone⟩
    · obtain rfl : e = .depthExceeded limit := Except.error.inj hlacks
      exact .inl rfl
    · rw [hsame]
      exact .inr ⟨rfl, fun limit h => hnone limit (congrArg _ (Except.error.inj h))⟩
  · rcases hfirst with hlacks | ⟨hsame, -⟩
    · exact nomatch hlacks
    · rw [hsame]
      exact hf a m₁

/-- A step that looks at the state first. -/
theorem reads {f f' : Matching → Match α} (hf : ∀ m, Settles limit (f m) (f' m)) :
    Settles limit (get >>= f) (get >>= f') := fun m => hf m m

end Settles

end Match

namespace Store

open Match

variable {s : Store} {limit : Nat} {terms terms' : TermId → TermId → Match Unit}

theorem settles_determine (v : VarId) (arg : TermId) :
    Settles limit (s.determine v arg) (s.determine v arg) := by
  refine .reads fun m => ?_
  cases m.context.bind? v arg with
  | some context => exact fun _ => .inr ⟨rfl, nofun⟩
  | none => exact .throws nofun

theorem settles_matchLengths (expected arg : Nat) :
    Settles limit (matchLengths expected arg) (matchLengths expected arg) := by
  unfold matchLengths
  split
  · exact .pure ()
  · exact .throws nofun

section Components

variable (hterms : ∀ expected arg, Settles limit (terms expected arg) (terms' expected arg))

include hterms

theorem settles_matchNamed (expected arg : List (String × TermId)) :
    Settles limit (matchNamed terms expected arg) (matchNamed terms' expected arg) := by
  induction expected generalizing arg with
  | nil => exact .pure ()
  | cons p rest ih =>
    cases arg with
    | nil => exact .pure ()
    | cons q argRest =>
      have hboth : Settles limit (do terms p.2 q.2; matchNamed terms rest argRest)
          (do terms' p.2 q.2; matchNamed terms' rest argRest) :=
        .bind (hterms p.2 q.2) fun _ => ih argRest
      simp only [matchNamed]
      split
      · exact .bind (.throws fun _ h => by cases h) fun _ => hboth
      · exact hboth

theorem settles_matchSlots {refusal : Error} (hrefusal : ∀ limit, refusal ≠ .depthExceeded limit)
    (expected arg : List (Slot TermId)) :
    Settles limit (matchSlots terms refusal expected arg)
      (matchSlots terms' refusal expected arg) := by
  induction expected generalizing arg with
  | nil => exact .pure ()
  | cons slot rest ih =>
    cases arg with
    | nil => exact .pure ()
    | cons argSlot argRest =>
      have hboth : Settles limit (do terms slot.ty argSlot.ty; matchSlots terms refusal rest argRest)
          (do terms' slot.ty argSlot.ty; matchSlots terms' refusal rest argRest) :=
        .bind (hterms slot.ty argSlot.ty) fun _ => ih argRest
      simp only [matchSlots]
      split
      · exact .bind (.throws hrefusal) fun _ => hboth
      · exact hboth

theorem settles_matchShapes (expected arg : TermId) :
    Settles limit (s.matchShapes terms expected arg) (s.matchShapes terms' expected arg) := by
  have hrefusal : ∀ limit, s.mismatch expected arg ≠ .depthExceeded limit := fun _ h => nomatch h
  have hmismatch : Settles limit (throw (s.mismatch expected arg) : Match Unit)
      (throw (s.mismatch expected arg)) := .throws hrefusal
  unfold matchShapes
  split
  · refine .reads fun m => ?_
    split
    · exact settles_determine _ arg
    · split
      · split
        · exact hterms _ arg
        · exact hmismatch
      · exact hmismatch
  · exact .bind (hterms _ _) fun _ => .bind (settles_matchLengths _ _) fun _ =>
      settles_matchNamed hterms _ _
  · exact .bind (settles_matchLengths _ _) fun _ => settles_matchNamed hterms _ _
  · exact .bind (settles_matchLengths _ _) fun _ =>
      .bind (settles_matchSlots hterms hrefusal _ _) fun _ => hterms _ _
  · exact hmismatch

end Components

end Store

namespace Replay

open Attempt Engine Follows

variable {F : Replay} {e e' : Engine} {s : Store} {ctx : Context}

/-- The second engine replays the calls of the first one and has no fewer levels left. -/
structure Engines (F : Replay) (e e' : Engine) : Prop where
  levels : e.levels ≤ e'.levels
  infer : ∀ ctx t s, F.Follows Any (e.infer ctx t) (e'.infer ctx t) s
  reduce : ∀ mode ctx t s, F.Follows Any (e.reduce mode ctx t) (e'.reduce mode ctx t) s

theorem Engines.compile (he : F.Engines e e') (ctx : Context) (t : TermId) (s : Store) :
    F.Follows Any (e.compile ctx t) (e'.compile ctx t) s := he.reduce .compile ctx t s

theorem matchShapes_image (F : Replay) (s : Store) (terms : TermId → TermId → Match Unit)
    (expected arg : TermId) :
    (F.image s).matchShapes terms expected arg = s.matchShapes terms expected arg := by
  have hmismatch : (F.image s).mismatch expected arg = s.mismatch expected arg := by
    unfold Store.mismatch
    rw [display_image]
  unfold Store.matchShapes
  rw [hmismatch]
  rfl

/-- With more levels left, matching ends the same way unless it ended for lack of depth. -/
theorem settles_unify (F : Replay) (s : Store) {n n' : Nat} (h : n ≤ n') (expected arg : TermId) :
    Match.Settles s.config.maxDepth (s.unify n expected arg)
      ((F.image s).unify n' expected arg) := by
  induction n generalizing n' expected arg with
  | zero => exact fun _ => .inl rfl
  | succ n ih =>
    obtain ⟨n', rfl⟩ : ∃ k, n' = k + 1 := ⟨n' - 1, by omega⟩
    unfold Store.unify
    rw [matchShapes_image]
    split
    · exact .pure ()
    · exact Store.settles_matchShapes (fun expected arg => ih (by omega) expected arg) expected arg

section Rules

variable (hF : F.Lawful) (he : F.Engines e e')

include hF

/-! ## Matching and scripts -/

include he

theorem follows_unify (m : Matching) (expected arg : TermId) :
    F.Follows Any (e.unify m expected arg) (e'.unify m expected arg) s := by
  refine .withInv fun hs => .withStore ?_
  have hsettles := settles_unify F s he.levels expected arg m
  generalize (s.unify e.levels expected arg).run m = r,
    ((F.image s).unify e'.levels expected arg).run m = r' at hsettles ⊢
  obtain ⟨result, m'⟩ := r
  rcases hsettles with hlacks | ⟨rfl, hnone⟩
  · obtain rfl : result = .error (.depthExceeded s.config.maxDepth) := hlacks
    exact fun hs => .excused (.refl hs) (hF.limit hs) (hF.depth _)
  · cases result with
    | ok _ => exact .done m'
    | error err => exact .throws hF fun limit h => hnone limit (congrArg _ h)

theorem follows_answer (ctx : Context) (query : Query) :
    F.Follows Any (e.answer ctx query) (e'.answer ctx query) s := by
  cases query with
  | shape t => exact .withStore (.done _)
  | intern shape => exact .intern hF shape
  | freshVariable comptime name => exact .freshVariable hF comptime name
  | infer t => exact he.infer ctx t s
  | reduce mode t => exact he.reduce mode ctx t s
  | isValue t => exact .withStore (.done _)
  | builtin name => exact .builtin hF name
  | signature id => exact .withStore (.done _)
  | display t => exact display t (done _)
  | write text => exact .write hF text

theorem follows_run {α : Type} {script : Script α} (hscript : script.FailsWith F.allowed)
    (ctx : Context) : F.Follows Any (e.run ctx script) (e'.run ctx script) s := by
  induction script generalizing s with
  | done value => exact .done value
  | fail err => exact fun hs => .fails (.refl hs) hscript
  | ask query next ih =>
    exact .next (follows_answer hF he ctx query) fun answer s => ih answer (hscript answer)

/-! ## Parameters -/

theorem follows_bindParams (ctx : Context) (params : List (VarId × TermId)) :
    F.Follows Any (e.bindParams ctx params) (e'.bindParams ctx params) s := by
  induction params generalizing s ctx with
  | nil => exact .done _
  | cons p rest ih =>
    refine .next (he.compile ctx p.2 s) fun ty s => .reads rfl rfl ?_
    refine .next (.intern hF _) fun placeholder s => ?_
    refine .next (.bindContext hF ctx p.1 placeholder) fun ctx s => ?_
    exact .next (ih ctx) fun _ _ => .done _

/-! ## Resolution -/

omit hF he in
theorem follows_knownAtCompileTime (ctx : Context) (value : TermId) :
    F.Follows Any (knownAtCompileTime ctx value) (knownAtCompileTime ctx value) s := by
  refine .reads rfl rfl ?_
  split
  · exact .done true
  · refine .reads rfl rfl ?_
    split
    · split
      · refine .reads rfl rfl ?_
        split <;> exact .done _
      · exact .done false
    · exact .done false

theorem follows_supplyComptime (ctx : Context) (m : Matching) (index : Nat) (arg : TermId)
    (slot : Slot TermId) :
    F.Follows Any (e.supplyComptime ctx m index arg slot) (e'.supplyComptime ctx m index arg slot)
      s := by
  refine .next (he.compile ctx arg s) fun value s => ?_
  refine .next (follows_knownAtCompileTime ctx value) fun known s => ?_
  cases known with
  | false => exact .fails hF rfl rfl nofun
  | true =>
    simp only [Bool.not_true, Bool.false_eq_true, if_false]
    split
    · split
      · exact .next (.bindContext hF m.context _ value) fun _ _ => .done _
      · exact .done m
    · exact .done m

theorem follows_supply (ctx : Context) (m : Matching) (index : Nat) (arg : TermId)
    (slot : Slot TermId) :
    F.Follows Any (e.supply ctx m index arg slot) (e'.supply ctx m index arg slot) s := by
  -- Whether or not the position is comptime, the rest goes on from a state of matching.
  have hrest : ∀ (m : Matching) s,
      F.Follows Any
        (do
          let argType ← e.infer ctx arg
          let expected ← e.compile m.context slot.ty
          let m ← e.unify m expected argType
          return (m, ← e.compile m.context slot.ty))
        (do
          let argType ← e'.infer ctx arg
          let expected ← e'.compile m.context slot.ty
          let m ← e'.unify m expected argType
          return (m, ← e'.compile m.context slot.ty)) s := by
    intro m s
    refine .next (he.infer ctx arg s) fun argType s => ?_
    refine .next (he.compile m.context slot.ty s) fun expected s => ?_
    refine .next (follows_unify hF he m expected argType) fun m s => ?_
    exact .next (he.compile m.context slot.ty s) fun _ _ => .done _
  unfold supply
  dsimp only
  split
  · exact .next (follows_supplyComptime hF he ctx m index arg slot) hrest
  · exact .next (.done m) hrest

theorem follows_supplyAll (ctx : Context) (m : Matching) (index : Nat)
    (args : List (TermId × Slot TermId)) :
    F.Follows Any (e.supplyAll ctx m index args) (e'.supplyAll ctx m index args) s := by
  induction args generalizing s m index with
  | nil => exact .done _
  | cons p rest ih =>
    refine .next (follows_supply hF he ctx m index p.1 p.2) fun r s => ?_
    exact .next (ih r.1 (index + 1)) fun _ _ => .done _

omit hF in
theorem follows_compileSlots (ctx : Context) (slots : List (Slot TermId)) :
    F.Follows Any (e.compileSlots ctx slots) (e'.compileSlots ctx slots) s := by
  induction slots generalizing s with
  | nil => exact .done _
  | cons slot rest ih =>
    refine .next (he.compile ctx slot.ty s) fun ty s => ?_
    exact .next ih fun _ _ => .done _

omit he in
theorem follows_functionParts (ty : TermId) :
    F.Follows Any (functionParts ty) (functionParts ty) s := by
  refine .reads rfl rfl ?_
  -- Below the quantifier, if there is one, stands a function type or the failure.
  split
  · refine .reads rfl rfl (.reads rfl rfl ?_)
    split
    · exact .done _
    · exact .display _ (.throws hF nofun)
  · refine .reads rfl rfl (.reads rfl rfl ?_)
    split
    · exact .done _
    · exact .display ty (.throws hF nofun)

theorem follows_resolve (ctx : Context) (callee : TermId) (args : List TermId) :
    F.Follows Any (e.resolve ctx callee args) (e'.resolve ctx callee args) s := by
  refine .next (he.infer ctx callee s) fun ty s => ?_
  refine .next (follows_functionParts hF ty) fun parts s => ?_
  obtain ⟨vars, params, result⟩ := parts
  dsimp only
  split
  · exact .fails hF rfl rfl nofun
  refine .next (.bindQuantified hF ctx.child vars) fun quantified s => ?_
  refine .next (follows_supplyAll hF he ctx ⟨vars, quantified.child⟩ 0 _) fun r s => ?_
  refine .next (follows_compileSlots he r.1.context _) fun remaining s => ?_
  exact .next (he.compile r.1.context result s) fun _ _ => .done _

/-! ## The rules of inference -/

omit he in
theorem follows_memberType (ty : TermId) (field : String) :
    F.Follows Any (memberType ty field) (memberType ty field) s := by
  refine .reads rfl rfl ?_
  split
  · split
    · exact .done _
    · exact .throws hF nofun
  · exact .display ty (.throws hF nofun)

theorem follows_bindCompiled (ctx : Context) (lets : List (VarId × TermId)) :
    F.Follows Any (e.bindCompiled ctx lets) (e'.bindCompiled ctx lets) s := by
  induction lets generalizing s ctx with
  | nil => exact .done _
  | cons b rest ih =>
    refine .next (he.compile ctx b.2 s) fun value s => ?_
    exact .next (.bindContext hF ctx b.1 value) fun ctx s => ih ctx

omit hF he in
theorem follows_plainSlots (params : List (VarId × TermId)) :
    F.Follows Any (plainSlots params) (plainSlots params) s := by
  induction params generalizing s with
  | nil => exact .done _
  | cons p rest ih => exact .reads rfl rfl (.next ih fun _ _ => .done _)

omit he in
theorem follows_functionTypeOf (params : List (VarId × TermId)) (result : TermId) :
    F.Follows Any (functionTypeOf params result) (functionTypeOf params result) s := by
  refine .next (follows_plainSlots params) fun slots s => ?_
  refine .next (.intern hF _) fun plain s => .reads rfl rfl ?_
  exact .next (.intern hF _) fun function s => .intern hF _

omit hF in
theorem follows_nativeCallee (ctx : Context) (callee : TermId) :
    F.Follows Any (e.nativeCallee ctx callee) (e'.nativeCallee ctx callee) s := by
  refine .reads rfl rfl ?_
  split
  · exact .done _
  · exact .done _
  · exact .done _
  · refine .next (he.compile ctx callee s) fun reduct s => .reads rfl rfl ?_
    split <;> exact .done _

theorem follows_refinedType (ctx : Context) (callee : TermId) (args : List TermId) :
    F.Follows Any (e.refinedType ctx callee args) (e'.refinedType ctx callee args) s := by
  refine .next (follows_nativeCallee he ctx callee) fun id s => ?_
  cases id with
  | none => exact .done none
  | some id =>
    refine .withInv fun hs => .reads rfl rfl ?_
    cases hnative : s.native? id with
    | none => exact .done none
    | some registered =>
      simp only [Option.bind_some]
      cases hhook : registered.native.resultType with
      | none => exact .done none
      | some hook =>
        exact follows_run hF he ((hF.natives hs hnative).resultType hook hhook args) ctx

theorem follows_inferApplication (ctx : Context) (callee : TermId) (args : List TermId) :
    F.Follows Any (e.inferApplication ctx callee args) (e'.inferApplication ctx callee args) s := by
  refine .next (follows_resolve hF he ctx callee args) fun r s => ?_
  split
  · exact .next (follows_refinedType hF he ctx callee args) fun _ _ => .done _
  · exact .next (.intern hF _) fun ty s => .quantify hF r.undetermined ty

theorem follows_inferShape (ctx : Context) (t : TermId) :
    F.Follows Any (e.inferShape ctx t) (e'.inferShape ctx t) s := by
  refine .reads rfl rfl ?_
  cases hshape : s.shape t with
  | «variable» v =>
    dsimp only
    cases ctx.get? v with
    | none => exact .reads rfl rfl (.throws hF nofun)
    | some value => exact he.infer ctx value s
  | abstraction lets params body =>
    refine .next (follows_bindCompiled hF he ctx.child lets) fun inner s => ?_
    refine .next (follows_bindParams hF he inner params) fun r s => ?_
    refine .next (he.infer r.1 body s) fun bodyType s => ?_
    split
    · exact .done bodyType
    · exact follows_functionTypeOf hF r.2 bodyType
  | forAll vars body =>
    refine .next (.bindQuantified hF ctx.child vars) fun inner s => ?_
    exact .next (he.infer inner body s) fun ty s => .quantify hF vars ty
  | application callee args => exact follows_inferApplication hF he ctx callee args
  | projection domain field =>
    exact .next (he.infer ctx domain s) fun ty s => follows_memberType hF ty field
  | cast subject target => exact he.compile ctx target s
  | stringLiteral value => exact .intern hF _
  | numericLiteral value => exact .intern hF _
  | unitValue ty => exact he.compile ctx ty s
  | productValue ty fields => exact he.compile ctx ty s
  | deferred ty availability => exact he.compile ctx ty s
  | native id => exact .withStore (.done _)
  | _ => exact .done _

theorem follows_inferStep (ctx : Context) (t : TermId) :
    F.Follows Any (e.inferStep ctx t) (e'.inferStep ctx t) s := by
  refine .next (.restrict fun t s => he.infer ctx t s) fun restriction s => ?_
  exact .remembered hF (follows_inferShape hF he ctx t)

end Rules

end Replay

end StagedCalculus
