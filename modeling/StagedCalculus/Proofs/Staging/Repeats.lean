import StagedCalculus.Proofs.Staging.Idempotence
import StagedCalculus.Proofs.Staging.Remembered

/-!
# Computations that repeat themselves

A store keeps what it was given and what it was asked, so a computation that has given a result
should give it again at any later time. This module says what that means for an arbitrary
computation, with one rule for each construct that computations are made of.

* `Store.Precedes`: later states of a store, which remember whatever it does;
* `Attempt.Repeats`: from any later state on the computation gives the same result, and adds nothing
  to the store but what it writes;
* `Attempt.Repeats.unify`, `Attempt.Repeats.run`: so do matching and the scripts of natives.

A computation that makes a variable makes another one the next time. `Attempt.Repeats` says nothing
of its results.
-/

namespace StagedCalculus

namespace Store

variable {s s₁ s' later : Store}

/-! ## Later states -/

/-- A later state with the same natives, settings and sink, which remembers whatever the store
does. -/
structure Precedes (s later : Store) : Prop extends s.GrowsTo later where
  intact : later.Intact
  sameNatives : later.natives = s.natives
  sameConfig : later.config = s.config
  sameSink : later.output.sink = s.output.sink

namespace Precedes

theorem refl (hs : s.Intact) : s.Precedes s := ⟨.refl hs.toLinked, hs, rfl, rfl, rfl⟩

theorem trans (h : s.Precedes s₁) (h' : s₁.Precedes s') : s.Precedes s' :=
  ⟨h.toGrowsTo.trans h'.toGrowsTo, h'.intact, h'.sameNatives.trans h.sameNatives,
    h'.sameConfig.trans h.sameConfig, h'.sameSink.trans h.sameSink⟩

/-- A step that remembers nothing. -/
theorem of_types (hs : s.Intact) (hs' : s'.Intact) (hle : s.Extends s')
    (htypes : s'.types = s.types) (hnatives : s'.natives = s.natives)
    (hconfig : s'.config = s.config) (hsink : s'.output.sink = s.output.sink) : s.Precedes s' :=
  ⟨⟨hle, hs.toLinked, hs'.toLinked, fun t restriction answer hget => by rwa [htypes]⟩, hs',
    hnatives, hconfig, hsink⟩

theorem intern (hs : s.Intact) {shape : Shape TermId} (hshape : s.Covers shape) :
    s.Precedes (s.intern shape).2 :=
  .of_types hs (intact_intern hs hshape) (extends_intern s shape) (types_intern s shape)
    (natives_intern s shape) (config_intern s shape)
    (congrArg Output.sink (output_intern s shape))

theorem output (hs : s.Intact) {output : Output} (hsink : output.sink = s.output.sink) :
    s.Precedes { s with output } :=
  .of_types hs (intact_output hs output) (.of_eq rfl rfl rfl) rfl rfl rfl hsink

theorem isConcrete_eq (h : s.Precedes later) {t : TermId} (ht : s.Allocated t) :
    later.isConcrete t = s.isConcrete t := by
  rw [isConcrete, isConcrete, h.shape_eq ht, h.freeVariables_eq ht]

theorem native?_eq (h : s.Precedes later) (id : NativeId) : later.native? id = s.native? id := by
  rw [native?, native?, h.sameNatives]

theorem nativeName_eq (h : s.Precedes later) (id : NativeId) :
    later.nativeName id = s.nativeName id := by
  rw [nativeName, nativeName, h.native?_eq]

theorem nativeSignature_eq (h : s.Precedes later) (id : NativeId) :
    later.nativeSignature id = s.nativeSignature id := by
  rw [nativeSignature, nativeSignature, h.native?_eq]

theorem findNative?_eq (h : s.Precedes later) (name : String) :
    later.findNative? name = s.findNative? name := by
  simp only [findNative?, h.nativeName_eq, h.sameNatives]

theorem variableName_eq (h : s.Precedes later) {v : VarId} (hv : v.index < s.vars.size) :
    later.variableName v = s.variableName v := by
  have hget : s.vars[v.index]? = some s.vars[v.index] := Array.getElem?_eq_getElem hv
  have hget' := h.vars _ _ hget
  simp [variableName, variableInfo, Array.getD_eq_getD_getElem?, hget, hget']

/-- A term that was found or added is found from then on. -/
theorem intern_eq {shape : Shape TermId} (hshape : ∀ child ∈ shape.children, s.Allocated child)
    (hs : s.Linked) (h : (s.intern shape).2.Precedes later) :
    later.intern shape = ((s.intern shape).1, later) := by
  by_cases hquantifier : ∃ body, shape = .forAll [] body
  · obtain ⟨body, rfl⟩ := hquantifier
    rfl
  · have ht := allocated_intern hs hshape
    have hfound := shape_intern (s := s) fun body hbody => hquantifier ⟨body, hbody⟩
    have hlater := h.intact.intern_shape (h.allocated ht)
    rwa [h.shape_eq ht, hfound] at hlater

end Precedes

/-! ## Texts -/

/-- The store has the same names for these variables. -/
def SameNames (s later : Store) (vars : List VarId) : Prop :=
  ∀ v ∈ vars, later.variableName v = s.variableName v ∧ later.isComptime v = s.isComptime v

theorem lineOfLet_congr {lets : List (VarId × String)} (h : s.SameNames later (lets.map (·.1))) :
    lets.map (Shape.lineOfLet later) = lets.map (Shape.lineOfLet s) := by
  refine List.map_congr_left fun b hb => ?_
  rw [Shape.lineOfLet, Shape.lineOfLet, (h _ (List.mem_map_of_mem hb)).1]

theorem lineOfParams_congr {params : List (VarId × String)}
    (h : s.SameNames later (params.map (·.1))) :
    Shape.lineOfParams later params = Shape.lineOfParams s params := by
  refine congrArg Shape.commaSeparated (List.map_congr_left fun p hp => ?_)
  obtain ⟨hname, hstage⟩ := h _ (List.mem_map_of_mem hp)
  rw [hname, hstage]

theorem lineOfSlot_congr {slots : List (Slot String)}
    (h : s.SameNames later (slots.filterMap (·.binds))) :
    slots.map (Shape.lineOfSlot later) = slots.map (Shape.lineOfSlot s) := by
  refine List.map_congr_left fun slot hslot => ?_
  unfold Shape.lineOfSlot
  cases hbinds : slot.binds with
  | none => rfl
  | some v =>
    dsimp only
    rw [(h v (List.mem_filterMap.2 ⟨slot, hslot, hbinds⟩)).1]

/-- The text of a node depends on the names of its variables and of natives alone. -/
theorem line_congr {shape : Shape String} (hvars : s.SameNames later shape.ownVars)
    (hnatives : ∀ id, later.nativeName id = s.nativeName id) :
    shape.line later = shape.line s := by
  cases shape with
  | «variable» v => exact (hvars v (by simp [Shape.ownVars, Shape.leaf])).1
  | abstraction lets params body =>
    have hlets : lets.map (Shape.lineOfLet later) = lets.map (Shape.lineOfLet s) :=
      lineOfLet_congr fun v hv => hvars v (List.mem_append_right _ (List.mem_append_left _ hv))
    have hparams : Shape.lineOfParams later params = Shape.lineOfParams s params :=
      lineOfParams_congr fun v hv =>
        hvars v (List.mem_append_right _ (List.mem_append_right _ hv))
    cases params with
    | nil =>
      exact congrArg (fun texts => Shape.braced (String.intercalate "; " (texts ++ [body]))) hlets
    | cons p rest =>
      cases lets with
      | nil => exact congrArg (fun text => "fn(" ++ text ++ ") => " ++ body) hparams
      | cons b others =>
        exact congrArg₂ (fun texts text =>
          "fn[" ++ String.intercalate "; " texts ++ "](" ++ text ++ ") => " ++ body) hlets hparams
  | forAll vars body =>
    have hnames : vars.map later.variableName = vars.map s.variableName :=
      List.map_congr_left fun v hv => (hvars v hv).1
    exact congrArg (fun texts => "forall " ++ Shape.commaSeparated texts ++ ". " ++ body) hnames
  | native id => exact congrArg ("native " ++ ·) (hnatives id)
  | functionType params result =>
    have hslots : params.map (Shape.lineOfSlot later) = params.map (Shape.lineOfSlot s) :=
      lineOfSlot_congr fun v hv => hvars v hv
    exact congrArg (fun texts => "fn(" ++ Shape.commaSeparated texts ++ ") -> " ++ result) hslots
  | _ => rfl

/-- The text of a term stays the same. -/
theorem Precedes.display_eq (h : s.Precedes later) (hs : s.Canonical) {t : TermId}
    (ht : s.Allocated t) : later.display t = s.display t := by
  induction t using h.linked.induct with
  | h t ih =>
    unfold display at ih ⊢
    rw [fold_eq h.linked', fold_eq h.linked, h.shape_eq ht]
    rw [Shape.map_map, Shape.map_map]
    have hchildren := Shape.map_congr fun child hchild =>
      ih child hchild (h.linked.allocated_children ht hchild)
    rw [hchildren]
    refine line_congr (fun v hv => ?_) h.nativeName_eq
    rw [Shape.ownVars_map] at hv
    have hv := (Shape.forall_mem_handles.1 (hs.owned t ht)).2.1 v hv
    exact ⟨h.variableName_eq hv, h.isComptime_eq hv⟩

/-! ## Text that is kept -/

/-- The store after a text was handed to its output. -/
def wrote (s : Store) (text : String) : Store := (s.write text).2

/-- Memory takes every text. -/
theorem write_memory (h : s.output.sink = .memory) (text : String) : s.write text =
    (.ok text.utf8ByteSize, { s with output := ⟨.memory, s.output.text ++ text⟩ }) := by
  unfold write Output.write
  rw [h]
  rfl

/-- A device keeps nothing. -/
theorem wrote_device {onWrite onFlush : Option String}
    (h : s.output.sink = .device onWrite onFlush) (text : String) : s.wrote text = s := by
  unfold wrote write Output.write
  rw [h]
  cases (Sink.device onWrite onFlush).failure? text <;> rfl

theorem wrote_empty (s : Store) : s.wrote "" = s := by
  cases hsink : s.output.sink with
  | memory =>
    rw [wrote, write_memory hsink, String.append_empty, ← hsink]
  | device onWrite onFlush => exact wrote_device hsink ""

theorem wrote_wrote (s : Store) (first second : String) :
    (s.wrote first).wrote second = s.wrote (first ++ second) := by
  cases hsink : s.output.sink with
  | memory =>
    have hsink' : (s.wrote first).output.sink = .memory := (sink_write s first).trans hsink
    rw [wrote, write_memory hsink', wrote, write_memory hsink, wrote, write_memory hsink]
    simp only [String.append_assoc]
  | device onWrite onFlush => simp only [wrote_device hsink]

theorem Precedes.wrote (h : s.Precedes later) (text : String) : s.Precedes (later.wrote text) := by
  obtain ⟨output, houtput⟩ := write_cases later text
  have hsink := sink_write later text
  rw [Store.wrote, houtput] at *
  exact h.trans (.output h.intact hsink)

/-- A text that was written once can be written again. -/
theorem Precedes.write_eq (h : s.Precedes later) {text : String} {bytes : Nat}
    (hwrite : (s.write text).1 = .ok bytes) : later.write text = (.ok bytes, later.wrote text) := by
  refine Prod.ext ?_ rfl
  rw [← hwrite]
  unfold write Output.write
  rw [h.sameSink]
  cases s.output.sink.failure? text with
  | some reason => rfl
  | none => cases s.output.sink <;> rfl

end Store

namespace Attempt

open Correspondence Engine

variable {α β : Type} {post : Post α} {c : Attempt α} {f : α → Attempt β} {s s₁ s' : Store}

/-- A computation that gives a result keeps what it leaves when it is compared with itself. -/
theorem owned_of_ok (h : itself.Corresponds post c c s s) (hs : s.Intact) {a : α}
    (hrun : c.run s = (.ok a, s₁)) : itself.Leads s s s₁ s₁ ∧ post s₁ s₁ a a := by
  have hends := h ⟨rfl, hs⟩
  rw [hrun] at hends
  cases hends with
  | gives hleads hpost => exact ⟨hleads, hpost⟩

/-- If the computation gives a result from this store on, then it leads to a later state. If it also
makes no variable on the way, then it gives this result from any state after that, which it leaves
as it is but for what it writes. -/
def Repeats (c : Attempt α) (s : Store) : Prop :=
  s.Intact → ∀ a s', c.run s = (.ok a, s') → s.Precedes s' ∧
    (s'.vars.size = s.vars.size → ∃ text, ∀ later, s'.Precedes later →
      c.run later = (.ok a, later.wrote text))

namespace Repeats

/-! ## Rules -/

/-- A result that is there already. -/
theorem stays {a : α} (h : c.run s = (.ok a, s))
    (hlater : ∀ later, s.Precedes later → c.run later = (.ok a, later)) : Repeats c s := by
  intro hs b s' hrun
  rw [h] at hrun
  cases hrun
  refine ⟨.refl hs, fun _ => ⟨"", fun later hle => ?_⟩⟩
  rw [hlater later hle, Store.wrote_empty]

theorem pure (a : α) : Repeats (Pure.pure a) s := stays rfl fun _ _ => rfl

/-- Of a failure nothing is said. -/
theorem fails {e : Error} (h : (c.run s).1 = .error e) : Repeats c s := by
  intro _ a s' hrun
  rw [hrun] at h
  cases h

theorem bind (hown : itself.Corresponds post c c s s) (hc : Repeats c s)
    (hf : ∀ a s₁, itself.Leads s s s₁ s₁ → post s₁ s₁ a a → Repeats (f a) s₁) :
    Repeats (c >>= f) s := by
  intro hs b s' hrun
  obtain ⟨a, s₁, hfirst, hsecond⟩ := run_bind_ok hrun
  obtain ⟨hleads, hpost⟩ := owned_of_ok hown hs hfirst
  obtain ⟨hbefore, hagain⟩ := hc hs a s₁ hfirst
  obtain ⟨hafter, hagain'⟩ := hf a s₁ hleads hpost hleads.after.2 b s' hsecond
  refine ⟨hbefore.trans hafter, fun hsize => ?_⟩
  -- Neither part made a variable, for their number never goes down.
  have hsize₁ : s₁.vars.size = s.vars.size :=
    Nat.le_antisymm (hsize ▸ hafter.size_vars) hbefore.size_vars
  obtain ⟨text, htext⟩ := hagain hsize₁
  obtain ⟨text', htext'⟩ := hagain' (hsize.trans hsize₁.symm)
  refine ⟨text ++ text', fun later hle => ?_⟩
  rw [run_bind, htext later (hafter.trans hle), ← Store.wrote_wrote]
  exact htext' _ (hle.wrote text)

/-- A question to the store whose answer stays the same. -/
theorem reads {a : α} (h : c.run s = (.ok a, s))
    (hlater : ∀ later, s.Precedes later → c.run later = (.ok a, later)) (hf : Repeats (f a) s) :
    Repeats (c >>= f) s := by
  intro hs b s' hrun
  rw [run_bind, h] at hrun
  obtain ⟨hle, hagain⟩ := hf hs b s' hrun
  refine ⟨hle, fun hsize => (hagain hsize).imp fun text htext later hle' => ?_⟩
  rw [run_bind, hlater later (hle.trans hle')]
  exact htext later hle'

/-- A computation that looks at the store, and goes on with what stays the same. -/
theorem withStore {f : Store → Attempt β} (hlater : ∀ later, s.Precedes later → f later = f s)
    (hf : Repeats (f s) s) : Repeats (get >>= f) s := by
  intro hs b s' hrun
  obtain ⟨hle, hagain⟩ := hf hs b s' hrun
  refine ⟨hle, fun hsize => (hagain hsize).imp fun text htext later hle' => ?_⟩
  change (f later).run later = _
  rw [hlater later (hle.trans hle')]
  exact htext later hle'

/-- What is made of a result by itself. -/
theorem map (hc : Repeats c s) (g : α → β) : Repeats (c >>= fun a => Pure.pure (g a)) s := by
  intro hs b s' hrun
  obtain ⟨a, s₁, hfirst, hsecond⟩ := run_bind_ok hrun
  cases hsecond
  obtain ⟨hle, hagain⟩ := hc hs a s' hfirst
  refine ⟨hle, fun hsize => (hagain hsize).imp fun text htext later hle' => ?_⟩
  rw [run_bind, htext later hle']
  rfl

/-- The store may be taken to be intact. -/
theorem withIntact (h : s.Intact → Repeats c s) : Repeats c s := fun hs => h hs hs

/-! ## Questions -/

section Questions

variable {t : TermId}

theorem shape {f : Shape TermId → Attempt β} (ht : s.Allocated t) (hf : Repeats (f (s.shape t)) s) :
    Repeats (Attempt.shape t >>= f) s := by
  refine reads rfl (fun later h => ?_) hf
  rw [← h.shape_eq ht]
  rfl

theorem isValue {f : Bool → Attempt β} (ht : s.Allocated t) (hf : Repeats (f (s.isValue t)) s) :
    Repeats (Attempt.isValue t >>= f) s := by
  refine reads rfl (fun later h => ?_) hf
  rw [← h.isValue_eq ht]
  rfl

theorem isComptime {f : Bool → Attempt β} {v : VarId} (hv : v.index < s.vars.size)
    (hf : Repeats (f (s.isComptime v)) s) : Repeats (Attempt.isComptime v >>= f) s := by
  refine reads rfl (fun later h => ?_) hf
  rw [← h.isComptime_eq hv]
  rfl

end Questions

/-! ## The store -/

theorem intern {shape : Shape TermId} (hshape : (itself.like s s).Layer shape shape) :
    Repeats (Build.intern shape) s := by
  intro hs t s' h
  have hcovers : s.Covers shape := (Likeness.layer_diagonal.1 hshape).2
  have hrun : ∀ s : Store, (Build.intern shape : Attempt _).run s =
      (.ok (s.intern shape).1, (s.intern shape).2) := fun _ => rfl
  rw [hrun, Prod.mk.injEq, Except.ok.injEq] at h
  obtain ⟨rfl, rfl⟩ := h
  refine ⟨.intern hs hcovers, fun _ => ⟨"", fun later hle => ?_⟩⟩
  rw [hrun, hle.intern_eq hcovers.children hs.toLinked, Store.wrote_empty]

theorem freshVariable (comptime : Bool) (name : Option String) :
    Repeats (Build.freshVariable comptime name) s := by
  intro hs v s' hrun
  cases hrun
  refine ⟨.of_types hs (Store.intact_freshVariable hs comptime name)
    (Store.extends_freshVariable s comptime name) rfl rfl rfl rfl, fun hsize => ?_⟩
  simp at hsize

theorem variableTerm {v : VarId} (hv : (itself.like s s).var v v) :
    Repeats (Build.variableTerm v) s := intern (.variable hv)

theorem variableTerms {vars : List VarId} (hvars : List.Forall₂ (itself.like s s).var vars vars) :
    Repeats (Build.variableTerms vars) s := by
  induction vars generalizing s with
  | nil => exact .pure []
  | cons v vars ih =>
    cases hvars with
    | cons hv hvars =>
      let next := fun t => (do return t :: (← Build.variableTerms vars) : Attempt _)
      change Repeats (Build.variableTerm v >>= next) s
      refine .bind (.variableTerm lawful_itself.toSteady hv) (variableTerm hv)
        fun t s₁ h₁ ht => ?_
      have hvars₁ := h₁.vars lawful_itself.toSteady hvars
      exact .bind (.variableTerms lawful_itself.toSteady hvars₁) (ih hvars₁) fun ts s₂ h₂ hts =>
        .pure (t :: ts)

theorem builtin (name : String) : Repeats (Build.builtin name) s := by
  intro hs leaf s' h
  have hrun : ∀ s : Store, (Build.builtin name : Attempt _).run s =
      (.ok (s.builtin name).1, (s.builtin name).2) := fun _ => rfl
  rw [hrun, Prod.mk.injEq, Except.ok.injEq] at h
  obtain ⟨rfl, rfl⟩ := h
  simp only [hrun, Store.builtin]
  cases hfind : s.findNative? name with
  | none =>
    refine ⟨.refl hs, fun _ => ⟨"", fun later hle => ?_⟩⟩
    rw [hle.findNative?_eq, hfind, Store.wrote_empty]
  | some id =>
    have hcovers : s.Covers (.native id) := Store.covers_native (Store.lt_of_findNative? hfind)
    refine ⟨.intern hs hcovers, fun _ => ⟨"", fun later hle => ?_⟩⟩
    rw [((Store.Precedes.intern hs hcovers).trans hle).findNative?_eq, hfind]
    dsimp only
    rw [hle.intern_eq hcovers.children hs.toLinked, Store.wrote_empty]

theorem write (text : String) : Repeats (Attempt.write text) s := by
  intro hs bytes s' h
  have hrun : ∀ s : Store, (Attempt.write text).run s = s.write text := fun _ => rfl
  rw [hrun] at h
  obtain ⟨output, houtput⟩ := Store.write_cases s text
  have hsink := Store.sink_write s text
  rw [houtput] at hsink
  have hbefore : s.Precedes s' := by
    obtain rfl := houtput.symm.trans (congrArg Prod.snd h)
    exact .output hs hsink
  refine ⟨hbefore, fun _ => ⟨text, fun later hle => ?_⟩⟩
  exact (hbefore.trans hle).write_eq (congrArg Prod.fst h)

/-! ## Contexts -/

section Contexts

variable {ctx : Context}

theorem bindContext (ctx : Context) (v : VarId) (t : TermId) :
    Repeats (Attempt.bind ctx v t) s := by
  unfold Attempt.bind
  cases ctx.bind? v t with
  | some bound => exact .pure bound
  | none => exact .fails rfl

theorem bindAll {bindings : List (VarId × TermId)} (hctx : itself.scope s s ctx ctx)
    (hbindings : (itself.like s s).Bindings bindings bindings) :
    Repeats (Attempt.bindAll ctx bindings) s := by
  induction bindings generalizing s ctx with
  | nil => exact .pure ctx
  | cons b rest ih =>
    cases hbindings with
    | cons hb hrest =>
      refine .bind (.bindContext lawful_itself.toSteady hctx hb.var hb.term)
        (bindContext ctx b.1 b.2) fun ctx s₁ h₁ hctx₁ => ?_
      exact ih hctx₁ (h₁.bindings lawful_itself.toSteady hrest)

theorem bindQuantified {vars : List VarId} (hctx : itself.scope s s ctx ctx)
    (hvars : List.Forall₂ (itself.like s s).var vars vars) :
    Repeats (Attempt.bindQuantified ctx vars) s := by
  refine withIntact fun hs => bindAll hctx (List.rel_map (fun v v' hv => ⟨hv, ?_⟩) hvars)
  exact lawful_itself.common ⟨rfl, hs⟩ 4 (by decide)

theorem quantify {vars : List VarId} {body : TermId}
    (hvars : List.Forall₂ (itself.like s s).var vars vars)
    (hbody : (itself.like s s).term body body) : Repeats (Attempt.quantify vars body) s := by
  refine reads rfl (fun later h => ?_) (intern (.forAll ?_ hbody))
  · rw [← h.freeVariables_eq hbody.2]
    rfl
  · exact Likeness.vars_diagonal.2 ⟨rfl, fun v hv =>
      (Likeness.vars_diagonal.1 hvars).2 v (List.mem_filter.1 hv).1⟩

end Contexts

end Repeats

end Attempt

/-! ## Matching -/

namespace Store

open Match

variable {s later : Store} {c c' d d' : Match Unit}

/-- Where the first step succeeds, the second one does the same. What is bound are terms of the
store. -/
def MatchesAgain (s : Store) (c c' : Match Unit) : Prop :=
  ∀ m m', m.context.Within s → c.run m = (.ok (), m') →
    c'.run m = (.ok (), m') ∧ m'.context.Within s

namespace MatchesAgain

theorem pure : s.MatchesAgain (Pure.pure ()) (Pure.pure ()) := by
  intro m m' hm hrun
  cases hrun
  exact ⟨rfl, hm⟩

theorem throws (e : Error) : s.MatchesAgain (throw e) c' := fun _ _ _ hrun => nomatch hrun

theorem bind (hc : s.MatchesAgain c c') (hd : s.MatchesAgain d d') :
    s.MatchesAgain (c >>= fun _ => d) (c' >>= fun _ => d') := by
  intro m m' hm hrun
  rw [run_bind] at hrun ⊢
  rcases hfirst : c.run m with ⟨e | _, m₁⟩
  · rw [hfirst] at hrun
    cases hrun
  · rw [hfirst] at hrun
    obtain ⟨hfirst', hm₁⟩ := hc m m₁ hm hfirst
    rw [hfirst']
    exact hd m₁ m' hm₁ hrun

/-- A step that looks at the state first. -/
theorem reads {f f' : Matching → Match Unit}
    (hf : ∀ m : Matching, m.context.Within s → s.MatchesAgain (f m) (f' m)) :
    s.MatchesAgain (get >>= f) (get >>= f') := fun m m' hm hrun => hf m hm m m' hm hrun

theorem determine {v : VarId} {arg : TermId} (harg : s.Allocated arg) :
    s.MatchesAgain (s.determine v arg) (later.determine v arg) := by
  intro m m' hm hrun
  unfold Store.determine at hrun ⊢
  rw [run_get] at hrun ⊢
  cases hbind : m.context.bind? v arg with
  | none =>
    rw [hbind] at hrun
    cases hrun
  | some bound =>
    rw [hbind] at hrun
    cases hrun
    exact ⟨rfl, hm.bind harg hbind⟩

theorem lengths (expected arg : Nat) :
    s.MatchesAgain (matchLengths expected arg) (matchLengths expected arg) := by
  unfold matchLengths
  split
  · exact .pure
  · exact .throws _

section Components

variable {matchTerms matchTerms' : TermId → TermId → Match Unit}
  (hterms : ∀ {expected arg}, s.Allocated expected → s.Allocated arg →
    s.MatchesAgain (matchTerms expected arg) (matchTerms' expected arg))

include hterms

theorem named {expected args : List (String × TermId)} (hexpected : ∀ e ∈ expected, s.Allocated e.2)
    (hargs : ∀ a ∈ args, s.Allocated a.2) :
    s.MatchesAgain (matchNamed matchTerms expected args)
      (matchNamed matchTerms' expected args) := by
  induction expected generalizing args with
  | nil => exact .pure
  | cons e rest ih =>
    cases args with
    | nil => exact .pure
    | cons a argRest =>
      have hrest := bind (hterms (hexpected e (by simp)) (hargs a (by simp)))
        (ih (fun e he => hexpected e (List.mem_cons_of_mem _ he))
          fun a ha => hargs a (List.mem_cons_of_mem _ ha))
      simp only [matchNamed]
      split
      · exact .bind (.throws _) hrest
      · exact hrest

theorem slots {refusal refusal' : Error} {expected args : List (Slot TermId)}
    (hexpected : ∀ e ∈ expected, s.Allocated e.ty) (hargs : ∀ a ∈ args, s.Allocated a.ty) :
    s.MatchesAgain (matchSlots matchTerms refusal expected args)
      (matchSlots matchTerms' refusal' expected args) := by
  induction expected generalizing args with
  | nil => exact .pure
  | cons e rest ih =>
    cases args with
    | nil => exact .pure
    | cons a argRest =>
      have hrest := bind (hterms (hexpected e (by simp)) (hargs a (by simp)))
        (ih (fun e he => hexpected e (List.mem_cons_of_mem _ he))
          fun a ha => hargs a (List.mem_cons_of_mem _ ha))
      simp only [matchSlots]
      split
      · exact .bind (.throws _) hrest
      · exact hrest

theorem shapes (hs : s.Linked) (hle : s.Extends later) {expected arg : TermId}
    (hexpected : s.Allocated expected) (harg : s.Allocated arg) :
    s.MatchesAgain (s.matchShapes matchTerms expected arg)
      (later.matchShapes matchTerms' expected arg) := by
  have hparts : ∀ child ∈ (s.shape expected).children, s.Allocated child :=
    fun _ => hs.allocated_children hexpected
  have hargParts : ∀ child ∈ (s.shape arg).children, s.Allocated child :=
    fun _ => hs.allocated_children harg
  unfold matchShapes
  rw [hle.shape_eq hexpected, hle.shape_eq harg]
  generalize s.shape expected = shape at hparts ⊢
  generalize s.shape arg = argShape at hargParts ⊢
  cases shape with
  | «variable» v =>
    refine .reads fun m hm => ?_
    split
    · exact .determine harg
    · cases hget : m.context.get? v with
      | none => exact .throws _
      | some value =>
        have hvalue := hm v value hget
        dsimp only
        rw [hle.shape_eq hvalue]
        split
        · exact hterms hvalue harg
        · exact .throws _
  | productValue ty fields =>
    cases argShape with
    | productValue argTy argFields =>
      refine .bind (hterms ?_ ?_) (.bind (.lengths _ _) (.named hterms ?_ ?_))
      all_goals simp [Shape.children] at hparts hargParts
      all_goals grind
    | _ => exact .throws _
  | productType members =>
    cases argShape with
    | productType argMembers =>
      refine .bind (.lengths _ _) (.named hterms ?_ ?_)
      all_goals simp [Shape.children] at hparts hargParts
      all_goals grind
    | _ => exact .throws _
  | functionType params result =>
    cases argShape with
    | functionType argParams argResult =>
      refine .bind (.lengths _ _) (.bind (.slots hterms ?_ ?_) (hterms ?_ ?_))
      all_goals simp [Shape.children] at hparts hargParts
      all_goals grind
    | _ => exact .throws _
  | _ => exact .throws _

end Components

theorem unify (hs : s.Linked) (hle : s.Extends later) (n : Nat) {expected arg : TermId}
    (hexpected : s.Allocated expected) (harg : s.Allocated arg) :
    s.MatchesAgain (s.unify n expected arg) (later.unify n expected arg) := by
  induction n generalizing expected arg with
  | zero => exact .throws _
  | succ n ih =>
    unfold Store.unify
    split
    · exact .pure
    · exact .shapes (fun hexpected harg => ih hexpected harg) hs hle hexpected harg

end MatchesAgain

end Store

namespace Engine

open Attempt Correspondence

variable {e : Engine} {s : Store} {ctx : Context}

/-- The calls of the engine repeat themselves. -/
structure Repeating (e : Engine) : Prop where
  infer : ∀ {s ctx t}, itself.scope s s ctx ctx → (itself.like s s).term t t →
    Repeats (e.infer ctx t) s
  reduce : ∀ {s mode ctx t}, itself.scope s s ctx ctx → (itself.like s s).term t t →
    Repeats (e.reduce mode ctx t) s

theorem Repeating.compile (he : Repeating e) {t : TermId} (hctx : itself.scope s s ctx ctx)
    (ht : (itself.like s s).term t t) : Repeats (e.compile ctx t) s := he.reduce hctx ht

/-- The terms that a context binds belong to the store. -/
theorem within_of_scope (hctx : itself.scope s s ctx ctx) : ctx.Within s := by
  have hframes : ∀ frame ∈ ctx.frames, ∀ b ∈ frame, s.Allocated b.2 := by
    intro frame hframe
    rcases List.mem_cons.1 hframe with rfl | houter
    · exact fun b hb => ((Likeness.bindings_diagonal.1 hctx.innermost).2 b hb).2
    · have hbindings := List.forall₂_same.1 hctx.outer frame houter
      exact fun b hb => ((Likeness.bindings_diagonal.1 hbindings).2 b hb).2
  intro v t hget
  obtain ⟨frame, hframe, hfound⟩ := List.exists_of_findSome?_eq_some hget
  obtain ⟨b, hb, rfl⟩ := Option.map_eq_some_iff.1 hfound
  exact hframes frame hframe b (List.mem_of_find?_eq_some hb)

theorem repeats_unify {m : Matching} {expected arg : TermId} (hm : itself.Matchings s s m m)
    (hexpected : (itself.like s s).term expected expected) (harg : (itself.like s s).term arg arg) :
    Repeats (e.unify m expected arg) s := by
  refine .withIntact fun hs => ?_
  have hrun : ∀ (f : Store → Attempt Matching) (s : Store), (get >>= f).run s = (f s).run s :=
    fun _ _ => rfl
  unfold unify
  rcases hmatch : (s.unify e.levels expected arg).run m with ⟨err | _, m'⟩
  · refine .fails (e := err) ?_
    rw [hrun, hmatch]
    rfl
  · refine .stays (a := m') ?_ fun later hle => ?_
    · rw [hrun, hmatch]
      rfl
    · have hagain := Store.MatchesAgain.unify hs.toLinked hle.toExtends e.levels hexpected.2 harg.2
      rw [hrun, (hagain m m' (within_of_scope hm.context) hmatch).1]
      rfl

/-- Scripts repeat themselves if they ask about handles that they were given. -/
theorem repeats_run {α : Type} {post : Post α} (hown : itself.Engines e e) (he : Repeating e)
    {script : Script α} (hscript : itself.Scripts post s s script script)
    (hctx : itself.scope s s ctx ctx) : Repeats (e.run ctx script) s := by
  have hC := lawful_itself.toSteady
  induction script generalizing s with
  | done value => exact .pure value
  | fail err => exact .fails rfl
  | ask query next ih =>
    refine .withIntact fun hs => ?_
    cases hscript with
    | ask hquestion hnext =>
      have hstores : itself.stores s s := ⟨rfl, hs⟩
      cases hquestion with
      | shape ht => exact .shape ht.2 (ih _ (hnext (.refl hstores) (hC.shape hstores ht)) hctx)
      | intern hshape =>
        exact .bind (.intern hC hshape) (.intern hshape) fun t s₁ h₁ ht =>
          ih _ (hnext h₁ ht) (h₁.scope hC hctx)
      | freshVariable comptime hname =>
        exact .bind (.freshVariable hC comptime hname) (.freshVariable comptime _)
          fun v s₁ h₁ hv => ih _ (hnext h₁ hv) (h₁.scope hC hctx)
      | infer ht =>
        exact .bind (hown.infer hctx ht) (he.infer hctx ht) fun ty s₁ h₁ hty =>
          ih _ (hnext h₁ hty) (h₁.scope hC hctx)
      | reduce mode ht =>
        exact .bind (hown.reduce hctx ht) (he.reduce hctx ht) fun t s₁ h₁ ht =>
          ih _ (hnext h₁ ht) (h₁.scope hC hctx)
      | isValue ht => exact .isValue ht.2 (ih _ (hnext (.refl hstores) rfl) hctx)
      | builtin name =>
        exact .bind (.builtin hC name) (.builtin name) fun leaf s₁ h₁ hleaf =>
          ih _ (hnext h₁ hleaf) (h₁.scope hC hctx)
      | signature hid =>
        refine .reads rfl (fun later hle => ?_)
          (ih _ (hnext (.refl hstores) (hC.signature hstores hid)) hctx)
        rw [← hle.nativeSignature_eq]
        rfl
      | display ht =>
        refine .reads rfl (fun later hle => ?_)
          (ih _ (hnext (.refl hstores) (hC.display hstores ht)) hctx)
        rw [← hle.display_eq hs.toCanonical ht.2]
        rfl
      | write text =>
        exact .bind (.write hC text) (.write text) fun bytes s₁ h₁ hbytes =>
          ih _ (hnext h₁ hbytes) (h₁.scope hC hctx)

end Engine

end StagedCalculus
