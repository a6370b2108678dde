import StagedCalculus.Proofs.Staging.Built
import StagedCalculus.Proofs.Staging.Remembered

/-!
# Variables that are not mentioned

A program that is compiled in a new store cannot tell apart contexts that differ in variables that
neither the program nor any term that it can look up mentions.

* `Store.Veils`: later states of a new store that keep nothing of hidden variables;
* `Attempt.judgments_unmentioned`: in such contexts a term that does not mention the hidden variables
  has the same type, the same value and the same residual term, and the same store is left behind;
* `Attempt.compile_closed_depends_on_context`: it is not enough that no hidden variable is free in
  the term.
-/

namespace StagedCalculus

namespace Store

variable {base s s' : Store} {hidden : List VarId} {t : TermId}

/-! ## Clear handles -/

/-- Clear terms stay so while the store grows. -/
theorem Clear.later (h : s.Clear hidden t) (hs : s.Linked) (hs' : s'.Linked)
    (hle : s.Extends s') : s'.Clear hidden t := by
  induction t using hs.induct with
  | h t ih =>
    refine .of_parts hs' (hle.allocated h.allocated) ?_ ?_
    · rw [hle.shape_eq h.allocated]
      exact fun v hv => h.not_mem hs hv
    · rw [hle.shape_eq h.allocated]
      exact fun child hchild => ih child hchild (h.child hs hchild)

/-- A term of an earlier store mentions no variable that was allocated since. -/
theorem Intact.clear (hs : s.Intact) (hhidden : ∀ v ∈ hidden, s.vars.size ≤ v.index)
    (ht : s.Allocated t) : s.Clear hidden t := by
  induction t using hs.toLinked.induct with
  | h t ih =>
    obtain ⟨-, hvars, -⟩ := Shape.forall_mem_handles.1 (hs.owned t ht)
    refine .of_parts hs.toLinked ht (fun v hv hmem => ?_) fun child hchild => ?_
    · exact Nat.lt_irrefl _ (Nat.lt_of_lt_of_le (hvars v hv) (hhidden v hmem))
    · exact ih child hchild (hs.toLinked.allocated_children ht hchild)

/-- The handles that a store has handed out and that mention no hidden variable. -/
def Shows (s : Store) (hidden : List VarId) : Handle → Prop
  | .term t => s.Clear hidden t
  | .var v => v.index < s.vars.size ∧ v ∉ hidden
  | handle => s.Owns handle

/-- A later state of a new store that keeps nothing of variables hidden in it. -/
structure Veils (base : Store) (hidden : List VarId) (s : Store) : Prop where
  intact : s.Intact
  later : base.Extends s
  natives : s.natives = base.natives
  types : ∀ t restriction ty, s.types.get? t restriction = some (.ok ty) → s.Clear hidden ty

/-- Variables of the new store, but none of a built-in signature. -/
def Hides (base : Store) (hidden : List VarId) : Prop :=
  ∀ v ∈ hidden, (initial base.config).vars.size ≤ v.index ∧ v.index < base.vars.size

instance (base : Store) (hidden : List VarId) : Decidable (base.Hides hidden) :=
  inferInstanceAs (Decidable (∀ v ∈ hidden, _ ∧ _))

theorem Shows.mono {handle : Handle} (h : s.Shows hidden handle) (hs : s.Linked) (hs' : s'.Linked)
    (hle : s.Extends s') : s'.Shows hidden handle := by
  cases handle with
  | term t => exact Clear.later h hs hs' hle
  | var v => exact ⟨hle.lt_vars h.1, h.2⟩
  | native id => exact Extends.owns hle (show s.Owns (.native id) from h)
  | nominal name id => exact Extends.owns hle (show s.Owns (.nominal name id) from h)

theorem Shows.owns {handle : Handle} (h : s.Shows hidden handle) : s.Owns handle := by
  cases handle with
  | term t => exact Clear.allocated h
  | var v => exact h.1
  | native id => exact h
  | nominal name id => exact h

namespace Veils

theorem refl (hbase : base.Built) : base.Veils hidden base := by
  refine ⟨hbase.genuine.intact, .refl base, rfl, fun t restriction ty hget => ?_⟩
  rw [hbase.types_eq, TypeCache.get?_empty] at hget
  cases hget

/-- Steps that add nothing to what is remembered. -/
theorem step (h : base.Veils hidden s) (hs' : s'.Intact) (hle : s.Extends s')
    (hnatives : s'.natives = s.natives) (htypes : s'.types = s.types) : base.Veils hidden s' := by
  refine ⟨hs', h.later.trans hle, hnatives.trans h.natives, fun t restriction ty hget => ?_⟩
  rw [htypes] at hget
  exact (h.types t restriction ty hget).later h.intact.toLinked hs'.toLinked hle

/-- Terms of the initial store are clear. -/
theorem initial (h : base.Veils hidden s) (hbase : base.Built) (hhidden : base.Hides hidden)
    (ht : (Store.initial base.config).Allocated t) : s.Clear hidden t := by
  have hinitial := intact_initial base.config
  have hclear : (Store.initial base.config).Clear hidden t :=
    hinitial.clear (fun v hv => (hhidden v hv).1) ht
  exact hclear.later hinitial.toLinked h.intact.toLinked (hbase.extends_initial.trans h.later)

theorem remember (h : base.Veils hidden s) {restriction : Restriction} {answer : TypeAnswer}
    (hanswer : ∀ ty, answer = .ok ty → s.Clear hidden ty) :
    base.Veils hidden { s with types := s.types.insert t restriction answer } := by
  refine ⟨intact_remember h.intact fun ty hty => (hanswer ty hty).allocated,
    h.later.trans (.of_eq rfl rfl rfl), h.natives, ?_⟩
  intro t' restriction' ty hget
  rcases TypeCache.get?_insert_cases hget with hnew | hold
  · exact (hanswer ty hnew.symm).withTypes _
  · exact (h.types t' restriction' ty hold).withTypes _

end Veils

end Store

/-! ## Runs that keep to clear handles -/

namespace Enclosure

open Correspondence

variable {base : Store} {hidden : List VarId}

/-- The handles of a new store that mention no hidden variable. -/
def veiled (base : Store) (hidden : List VarId) : Enclosure where
  owns s := s.Shows hidden
  intact := base.Veils hidden
  scope s ctx ctx' := ctx.AgreeBut hidden s ctx'

theorem scoped_veiled : (veiled base hidden).correspondence.Scoped where
  lasts hleads hctx := by
    refine hctx.mono fun t ht => ?_
    exact ht.later hleads.before.2.intact.toLinked hleads.after.2.intact.toLinked hleads.left
  child hctx := hctx.child
  get? := by
    rintro s _ ctx ctx' v _ ⟨rfl, -⟩ hctx ⟨rfl, -, hv⟩
    rw [hctx.same _ hv]
    cases hget : ctx.get? _ with
    | none => exact .none
    | some t => exact .some ⟨rfl, hctx.clear _ t hv hget⟩
  bind_cases := by
    rintro s _ ctx ctx' v _ t _ ⟨rfl, -⟩ hctx ⟨rfl, -, hv⟩ ⟨rfl, ht⟩
    exact hctx.bind_cases hv ht

theorem stable_veiled : (veiled base hidden).correspondence.Stable :=
  stable_of_lasts fun hs hs₁ hle h => h.mono hs.intact.toLinked hs₁.intact.toLinked hle

/-- No operation on the store leads to a hidden variable. -/
theorem lawful_veiled (hbase : base.Built) (hhidden : base.Hides hidden) :
    (veiled base hidden).Lawful where
  contexts := scoped_veiled
  linked hs := hs.intact.toLinked
  lasts hs hs₁ hle h := h.mono hs.intact.toLinked hs₁.intact.toLinked hle
  common hs i hi := hs.initial hbase hhidden ((Store.intact_initial _).allocated_common hi)
  shape {s t} hs ht := by
    obtain ⟨-, hvars, hconstants⟩ := Shape.forall_mem_handles.1 (hs.intact.owned t ht.allocated)
    refine Shape.forall_mem_handles.2 ⟨fun child hchild => ?_, fun v hv => ?_, ?_⟩
    · exact ht.child hs.intact.toLinked hchild
    · exact ⟨hvars v hv, ht.not_mem hs.intact.toLinked hv⟩
    · intro handle hhandle
      have howns := hconstants handle hhandle
      cases hshape : s.shape t <;> simp_all [Shape.constants, veiled, Store.Shows]
  free hs ht v hv := ⟨hs.intact.declares hs.intact.toLinked ht.allocated v hv,
    ht.not_free hs.intact.toLinked hv⟩
  native {s id registered} hs hid := by
    rw [Store.native?, hs.natives] at hid
    refine ⟨hbase.standard.natives_alike stable_veiled hid, ?_⟩
    rw [hbase.natives_eq] at hid
    exact hs.initial hbase hhidden ((Store.intact_initial _).signatures id registered hid)
  findNative _ hid := Store.lt_of_findNative? hid
  intern {s shape} hs hhandles := by
    obtain ⟨hchildren, hvars, -⟩ := Shape.forall_mem_handles.1 hhandles
    have hintact := Store.intact_intern hs.intact fun handle hhandle =>
      Store.Shows.owns (hhandles handle hhandle)
    exact ⟨hs.step hintact (Store.extends_intern s shape) (Store.natives_intern s shape)
      (Store.types_intern s shape),
      Store.clear_intern hs.intact.toLinked (fun v hv => (hvars v hv).2) hchildren⟩
  freshVariable {s} hs comptime name := by
    refine ⟨hs.step (Store.intact_freshVariable hs.intact comptime name)
      (Store.extends_freshVariable s comptime name) rfl rfl, ?_, fun hmem => ?_⟩
    · simp [Store.freshVariable]
    · have hold := Nat.lt_of_lt_of_le (hhidden _ hmem).2 hs.later.size_vars
      exact Nat.lt_irrefl _ hold
  remembered hs hget := hs.types _ _ _ hget
  remember hs hanswer := hs.remember hanswer
  write {s} hs text := by
    obtain ⟨output, houtput⟩ := Store.write_cases s text
    have hintact := Store.intact_write hs.intact text
    rw [houtput] at hintact ⊢
    exact hs.step hintact (.of_eq rfl rfl rfl) rfl rfl

end Enclosure

namespace Attempt

open Correspondence Enclosure

variable {base s : Store} {hidden : List VarId} {ctx ctx' : Context} {t : TermId}

/-- A judgment has the same outcome in contexts that differ in hidden variables only, and it leaves
a store that keeps nothing of them. -/
structure Unaffected (base : Store) (hidden : List VarId) (s : Store) (c c' : Attempt TermId) :
    Prop where
  same : c'.run s = c.run s
  veils : base.Veils hidden (c.run s).2
  clear : ∀ r, (c.run s).1 = .ok r → (c.run s).2.Clear hidden r

theorem unaffected_of_corresponds (hs : base.Veils hidden s) {c c' : Attempt TermId}
    (h : (veiled base hidden).correspondence.Corresponds (veiled base hidden).correspondence.Terms
      c c' s s) : Unaffected base hidden s c c' := by
  have hsame := run_eq (E := veiled base hidden) hs h
  have hends := h ⟨rfl, hs⟩
  rw [hsame] at hends
  generalize hrun : c.run s = run at hends hsame
  rw [← hrun] at hsame
  cases hends with
  | fails hleads _ => exact ⟨hsame, hrun ▸ hleads.after.2, by simp [hrun]⟩
  | gives hleads hr =>
    refine ⟨hsame, hrun ▸ hleads.after.2, fun r heq => ?_⟩
    rw [hrun] at heq ⊢
    cases heq
    exact hr.2

/-- Terms that mention no hidden variable have the same type, value and residual term in contexts
that differ in hidden variables only. -/
theorem judgments_unmentioned (hbase : base.Built) (hhidden : base.Hides hidden)
    (hs : base.Veils hidden s) (hctx : ctx.AgreeBut hidden s ctx') (ht : s.Clear hidden t) :
    Unaffected base hidden s (infer ctx t) (infer ctx' t) ∧
      ∀ mode, Unaffected base hidden s (reduce mode ctx t) (reduce mode ctx' t) := by
  have hlawful := correspondence_lawful (lawful_veiled hbase hhidden)
  refine ⟨unaffected_of_corresponds hs ?_, fun mode => unaffected_of_corresponds hs ?_⟩
  · exact corresponds_infer hlawful hctx ⟨rfl, ht⟩
  · exact corresponds_reduce hlawful hctx ⟨rfl, ht⟩

end Attempt

namespace Sample

open Build

/-- A variable `y`, and the functions `fn(x: Unit) => x` and `fn(x: y, comptime y: Type) => x`. -/
def forwarding : Build (VarId × TermId × TermId) := do
  let x ← freshVariable false (some "x")
  let y ← freshVariable true (some "y")
  let body ← variableTerm x
  let plain ← abstraction [] [(x, Store.unitType)] body
  let ty ← variableTerm y
  return (y, plain, ← abstraction [] [(x, ty), (y, Store.typeOfTypes)] body)

seal Store.intern Store.initial in
/-- The variable and the functions in a new store. -/
def forward : Store.Setup (VarId × TermId × TermId) := forwarding.setup <| by
  repeat' apply Store.Built.add
  · exact fun _ : True => .freshVariable _ _ (.freshVariable _ _ (.initial {}))
  · decide +kernel

end Sample

namespace Attempt

open Sample

/-- It makes no difference to `fn(x: Unit) => x` whether `y` is bound. -/
theorem judgments_unmentioned_identity :
    ∃ s : Store, s.Built ∧ ∃ y t, s.variableName y = "y" ∧ s.display t = "fn(x: Unit) => x" ∧
      Unaffected s [y] s (infer .root t) (infer (binding y Store.unitType) t) ∧
      ∀ mode, Unaffected s [y] s (reduce mode .root t)
        (reduce mode (binding y Store.unitType) t) := by
  have hbuilt := forward.built
  have hchecks : ∃ y t, forward.store.variableName y = "y" ∧
      forward.store.display t = "fn(x: Unit) => x" ∧ forward.store.Hides [y] ∧
      forward.store.Clear [y] t :=
    ⟨forward.value.1, forward.value.2.1, by decide +kernel⟩
  generalize forward.store = s at hbuilt hchecks
  obtain ⟨y, t, hname, htext, hhidden, hclear⟩ := hchecks
  have hctx : Context.root.AgreeBut [y] s (binding y Store.unitType) :=
    (Context.root_agreeBut [y] s).bind_hidden (List.mem_singleton_self y) rfl
  exact ⟨s, hbuilt, y, t, hname, htext,
    judgments_unmentioned hbuilt hhidden (.refl hbuilt) hctx hclear⟩

/-! ## A parameter in the type of an earlier one -/

/-- The type of a parameter may mention a later parameter. Such a variable is not free, since the
function binds it, and yet it is looked up in the context, since the later parameter is not bound
when the type is reduced. -/
theorem compile_closed_depends_on_context :
    ∃ s : Store, s.Built ∧ ∃ t y r, s.Allocated t ∧ (s.freeVariables t).isEmpty = true ∧
      s.display t = "fn(x: y, comptime y: Type) => x" ∧
      (∀ mode, ((reduce mode .root t).run s).1 = .error (.unboundVariable "y") ∧
        ((reduce mode (binding y Store.unitType) t).run s).1 = .ok r ∧
        ((reduce mode (binding y Store.unitType) t).run s).2.display r =
          "fn(x: Unit, comptime y: Type) => x") ∧
      ((infer .root t).run s).1 = .error (.unboundVariable "y") ∧
      (((infer (binding y Store.unitType) t).run s).1.isOk) = true := by
  refine ⟨forward.store, forward.built, forward.value.2.2, forward.value.1, ⟨28⟩, ?_, ?_, ?_,
    fun mode => ?_, ?_⟩
  case refine_4 => cases mode <;> decide +kernel
  all_goals decide +kernel

end Attempt

end StagedCalculus
