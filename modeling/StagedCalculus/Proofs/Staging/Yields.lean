import StagedCalculus.Proofs.Staging.Repeats
import StagedCalculus.Proofs.Staging.Session

/-!
# Computations that succeed

This module is a small logic for computations that are bound to succeed. It is about stores with the
built-in natives alone, in which no types were inferred yet but those of calls of `printf` and of
their parts.

* `Store.Prints`: calls of `printf`, which may be imported or not;
* `Store.Typed`: the types of such calls and of their parts;
* `Store.Serves`: a store that has the right type of whatever it remembers an answer for;
* `Attempt.Yields`: on such a store the computation gives a result of which a condition holds, and
  hands a known text to the output.

The rules follow the constructs that computations are made of.
-/

namespace StagedCalculus

namespace Shape

variable {α : Type} {p : α → Prop} {callee argument : α}

/-- The parts of a call with one argument. -/
theorem forall_mem_call : (∀ child ∈ (Shape.application callee [argument]).children, p child) ↔
    p callee ∧ p argument :=
  List.forall_mem_cons.trans (and_congr_right fun _ => List.forall_mem_singleton)

end Shape

namespace Store

variable {s s' s'' : Store} {t ty : TermId} {message text written written' : String}

/-- A handle with a shape that no missing term has. -/
theorem allocated_of_shape_eq {shape : Shape TermId} (ht : s.shape t = shape)
    (hne : shape ≠ .typeOfTypes) : s.Allocated t := allocated_of_shape (ht ▸ hne)

theorem covers_call {callee argument : TermId} (hcallee : s.Allocated callee)
    (hargument : s.Allocated argument) : s.Covers (.application callee [argument]) :=
  covers_of_children rfl rfl (Shape.forall_mem_call.2 ⟨hcallee, hargument⟩)

/-! ## Calls of `printf` -/

/-- The third built-in native. -/
def cimportId : NativeId := ⟨2⟩

/-- The fourth built-in native. -/
def printfId : NativeId := ⟨3⟩

/-- `cimport("#include <stdio>")`. -/
inductive Imports (s : Store) (t : TermId) : Prop
  | call {callee header : TermId} : s.shape t = .application callee [header] →
      s.shape callee = .native cimportId → s.shape header = .stringLiteral "#include <stdio>" →
      Imports s t

/-- The leaf of `printf`, or its projection from the imported module. -/
inductive Printer (s : Store) (t : TermId) : Prop
  | leaf : s.shape t = .native printfId → Printer s t
  | member {module : TermId} : s.shape t = .projection module "printf" → s.Imports module →
      Printer s t

/-- A call of `printf` on a text. -/
inductive Prints (s : Store) (message : String) (t : TermId) : Prop
  | call {callee argument : TermId} : s.shape t = .application callee [argument] →
      s.Printer callee → s.shape argument = .stringLiteral message → Prints s message t

theorem Imports.mono (h : s.Imports t) (hle : s.Extends s') : s'.Imports t := by
  obtain ⟨hcall, hcallee, hheader⟩ := h
  exact .call (hle.shape_kept hcall nofun) (hle.shape_kept hcallee nofun)
    (hle.shape_kept hheader nofun)

theorem Printer.mono (h : s.Printer t) (hle : s.Extends s') : s'.Printer t := by
  cases h with
  | leaf hleaf => exact .leaf (hle.shape_kept hleaf nofun)
  | member hmember hmodule => exact .member (hle.shape_kept hmember nofun) (hmodule.mono hle)

theorem Prints.mono (h : s.Prints message t) (hle : s.Extends s') : s'.Prints message t := by
  obtain ⟨hcall, hcallee, hargument⟩ := h
  exact .call (hle.shape_kept hcall nofun) (hcallee.mono hle) (hle.shape_kept hargument nofun)

/-! ## Their types -/

/-- The signature that a native has in the initial store, and so in every standard one. -/
@[irreducible]
def signatureOf (id : NativeId) : TermId := (initial {}).nativeSignature id

/-- The type of the imported module. -/
def stdioType : Shape TermId := .productType [("printf", signatureOf printfId)]

/-- The type of a call of `printf` or of a part of one, by its shape. -/
def Typed (s : Store) (t ty : TermId) : Prop :=
  match s.shape t with
  | .stringLiteral text => s.shape ty = .stringLiteralType text
  | .native id => ty = signatureOf id
  | .productValue declared _ => ty = declared
  | .projection _ _ => ty = signatureOf printfId
  | .application callee [argument] =>
    match s.shape argument with
    | .stringLiteral text =>
      if s.shape callee = .native cimportId then s.shape ty = stdioType
      else s.shape ty = .numericLiteralType text.utf8ByteSize
    | _ => False
  | _ => False

namespace Typed

theorem mono (hs : s.Linked) (h : s.Typed t ty) (hle : s.Extends s') : s'.Typed t ty := by
  have ht : s.Allocated t := allocated_of_shape fun hshape => by simp [Typed, hshape] at h
  have hchildren : ∀ child ∈ (s.shape t).children, s'.shape child = s.shape child :=
    fun child hchild => hle.shape_eq (hs.allocated_children ht hchild)
  unfold Typed at h ⊢
  rw [hle.shape_eq ht]
  split at h
  · exact hle.shape_kept h nofun
  · exact h
  · exact h
  · exact h
  · rename_i callee argument hshape
    rw [hshape] at hchildren
    obtain ⟨hcallee, hargument⟩ := Shape.forall_mem_call.1 hchildren
    rw [hcallee, hargument]
    split at h
    · split_ifs at h ⊢ <;> exact hle.shape_kept h nofun
    · exact h
  · exact h.elim

end Typed

/-! For every kind of term the type is the one of its rule. -/

theorem typed_text (ht : s.shape t = .stringLiteral text) :
    s.Typed t ty ↔ s.shape ty = .stringLiteralType text := by
  simp [Typed, ht]

theorem typed_leaf {id : NativeId} (ht : s.shape t = .native id) :
    s.Typed t ty ↔ ty = signatureOf id := by
  simp [Typed, ht]

theorem typed_product {declared : TermId} {fields : List (String × TermId)}
    (ht : s.shape t = .productValue declared fields) : s.Typed t ty ↔ ty = declared := by
  simp [Typed, ht]

theorem typed_imports (ht : s.Imports t) : s.Typed t ty ↔ s.shape ty = stdioType := by
  obtain ⟨hcall, hcallee, hheader⟩ := ht
  simp [Typed, hcall, hcallee, hheader]

theorem typed_printer (ht : s.Printer t) : s.Typed t ty ↔ ty = signatureOf printfId := by
  cases ht with
  | leaf hleaf => exact typed_leaf hleaf
  | member hmember _ => simp [Typed, hmember]

theorem typed_prints (ht : s.Prints message t) :
    s.Typed t ty ↔ s.shape ty = .numericLiteralType message.utf8ByteSize := by
  obtain ⟨hcall, hcallee, hargument⟩ := ht
  cases hcallee with
  | leaf hleaf => simp [Typed, hcall, hargument, hleaf, cimportId, printfId]
  | member hmember _ => simp [Typed, hcall, hargument, hmember]

/-! ## Stores that serve such calls -/

/-- The store remembers the right types of such calls and their parts, and of nothing else. -/
structure Serves (s : Store) : Prop where
  intact : s.Intact
  standard : s.Standard
  settings : s.config = {}
  memory : s.output.sink = .memory
  recalls : ∀ t answer, s.types.get? t [] = some answer → ∃ ty, answer = .ok ty ∧ s.Typed t ty

/-- A later state of a store, which was handed this text in between. -/
structure Continues (s : Store) (written : String) (s' : Store) : Prop extends s.Extends s' where
  text : s'.output.text = s.output.text ++ written

namespace Continues

theorem refl (s : Store) : s.Continues "" s := ⟨.refl s, String.append_empty.symm⟩

theorem trans (h : s.Continues written s') (h' : s'.Continues written' s'') :
    s.Continues (written ++ written') s'' :=
  ⟨h.toExtends.trans h'.toExtends, by rw [h'.text, h.text, String.append_assoc]⟩

theorem intern (s : Store) (shape : Shape TermId) : s.Continues "" (s.intern shape).2 :=
  ⟨extends_intern s shape, by rw [output_intern, String.append_empty]⟩

end Continues

namespace Serves

/-- Natives and settings are never touched, so that a step has to keep what is remembered right. -/
theorem step (hs : s.Serves) (hs' : s'.Intact) (hle : s.Extends s')
    (hnatives : s'.natives = s.natives) (hconfig : s'.config = s.config)
    (hsink : s'.output.sink = s.output.sink)
    (hrecalls : ∀ t answer, s'.types.get? t [] = some answer →
      ∃ ty, answer = .ok ty ∧ s'.Typed t ty) : s'.Serves where
  intact := hs'
  standard := by
    refine ⟨?_, ?_⟩
    · rw [hnatives, hconfig, hs.standard.natives]
    · rw [hconfig]
      exact hs.standard.extends_initial.trans hle
  settings := hconfig.trans hs.settings
  memory := hsink.trans hs.memory
  recalls := hrecalls

theorem recalls_mono (hs : s.Serves) (hle : s.Extends s') (htypes : s'.types = s.types) :
    ∀ t answer, s'.types.get? t [] = some answer → ∃ ty, answer = .ok ty ∧ s'.Typed t ty := by
  intro t answer hget
  obtain ⟨ty, hanswer, hty⟩ := hs.recalls t answer (htypes ▸ hget)
  exact ⟨ty, hanswer, hty.mono hs.intact.toLinked hle⟩

theorem intern (hs : s.Serves) {shape : Shape TermId} (hshape : s.Covers shape) :
    (s.intern shape).2.Serves :=
  hs.step (intact_intern hs.intact hshape) (extends_intern s shape) (natives_intern s shape)
    (config_intern s shape) (congrArg Output.sink (output_intern s shape))
    (hs.recalls_mono (extends_intern s shape) (types_intern s shape))

theorem output (hs : s.Serves) (text : String) :
    ({ s with output := ⟨.memory, text⟩ } : Store).Serves :=
  hs.step (intact_output hs.intact _) (.of_eq rfl rfl rfl) rfl rfl hs.memory.symm
    (hs.recalls_mono (.of_eq rfl rfl rfl) rfl)

theorem remember (hs : s.Serves) (ht : s.Typed t ty) (hty : s.Allocated ty) :
    ({ s with types := s.types.insert t [] (.ok ty) } : Store).Serves := by
  have hle : s.Extends { s with types := s.types.insert t [] (.ok ty) } := .of_eq rfl rfl rfl
  refine hs.step (intact_remember hs.intact ?_) hle rfl rfl rfl fun u answer hget => ?_
  · rintro _ ⟨⟩
    exact hty
  · rw [TypeCache.get?_insert] at hget
    split at hget
    · rename_i hkey
      obtain ⟨rfl, -⟩ := hkey
      exact ⟨ty, (Option.some.inj hget).symm, ht.mono hs.intact.toLinked hle⟩
    · obtain ⟨ty', hanswer, hty'⟩ := hs.recalls u answer hget
      exact ⟨ty', hanswer, hty'.mono hs.intact.toLinked hle⟩

end Serves

/-- A new store remembers nothing. -/
theorem Built.serves (hs : s.Built) (hsettings : s.config = {})
    (hmemory : s.output.sink = .memory) : s.Serves where
  intact := hs.genuine.intact
  standard := hs.standard
  settings := hsettings
  memory := hmemory
  recalls := fun t answer hget => by
    rw [hs.types_eq] at hget
    cases hget

theorem serves_initial : (initial {}).Serves :=
  (Built.initial {}).serves (config_initial {}) (by decide +kernel)

end Store

namespace Attempt

open Store

variable {α β : Type} {post : α → Store → Prop} {post' : β → Store → Prop} {c : Attempt α}
  {f : α → Attempt β} {s : Store} {written first second : String}

/-- The computation gives a result of which the condition holds, and hands the text to the
output. -/
def Yields (written : String) (post : α → Store → Prop) (c : Attempt α) (s : Store) : Prop :=
  ∃ a s', c.run s = (.ok a, s') ∧ s.Continues written s' ∧ s'.Serves ∧ post a s'

namespace Yields

/-! ## Rules -/

/-- A result that is there already. -/
theorem stays {a : α} (hs : s.Serves) (hrun : c.run s = (.ok a, s)) (h : post a s) :
    Yields "" post c s := ⟨a, s, hrun, .refl s, hs, h⟩

theorem pure {a : α} (hs : s.Serves) (h : post a s) : Yields "" post (Pure.pure a) s :=
  .stays hs rfl h

theorem append (hc : Yields first post c s) (hf : ∀ a s₁, s.Extends s₁ → s₁.Serves → post a s₁ →
    Yields second post' (f a) s₁) : Yields (first ++ second) post' (c >>= f) s := by
  obtain ⟨a, s₁, hrun, hstep, hs₁, ha⟩ := hc
  obtain ⟨b, s₂, hrun', hstep', hs₂, hb⟩ := hf a s₁ hstep.toExtends hs₁ ha
  refine ⟨b, s₂, ?_, hstep.trans hstep', hs₂, hb⟩
  rw [run_bind, hrun]
  exact hrun'

/-- The first part writes nothing. -/
theorem bind (hc : Yields "" post c s) (hf : ∀ a s₁, s.Extends s₁ → s₁.Serves → post a s₁ →
    Yields written post' (f a) s₁) : Yields written post' (c >>= f) s := by
  simpa using hc.append hf

/-- A question to the store. -/
theorem reads {a : α} (hrun : c.run s = (.ok a, s)) (hf : Yields written post' (f a) s) :
    Yields written post' (c >>= f) s := by
  obtain ⟨b, s', hrun', hrest⟩ := hf
  refine ⟨b, s', ?_, hrest⟩
  rw [run_bind, hrun]
  exact hrun'

theorem imp {post₁ : α → Store → Prop} (hc : Yields written post c s)
    (h : ∀ a s', s.Extends s' → post a s' → post₁ a s') : Yields written post₁ c s := by
  obtain ⟨a, s', hrun, hstep, hs', ha⟩ := hc
  exact ⟨a, s', hrun, hstep, hs', h a s' hstep.toExtends ha⟩

/-! ## Building terms and writing -/

theorem intern (hs : s.Serves) {shape : Shape TermId} (hshape : s.Covers shape)
    (hne : ∀ body, shape ≠ .forAll [] body) :
    Yields "" (fun t s' => s'.shape t = shape) (Build.intern shape) s :=
  ⟨_, _, rfl, .intern s shape, hs.intern hshape, shape_intern hne⟩

/-- The leaf of a native that a name refers to. -/
theorem builtin (hs : s.Serves) {name : String} {id : NativeId}
    (hname : s.findNative? name = some id) :
    Yields "" (fun leaf? s' => ∃ leaf, leaf? = some leaf ∧ s'.shape leaf = .native id)
      (Build.builtin name) s := by
  have hrun : (Build.builtin name : Attempt (Option TermId)).run s =
      (.ok (some (s.intern (.native id)).1), (s.intern (.native id)).2) := by
    change (Except.ok (s.builtin name).1, (s.builtin name).2) = _
    rw [Store.builtin, hname]
  have hcovers : s.Covers (.native id) := covers_native (lt_of_findNative? hname)
  exact ⟨_, _, hrun, .intern s _, hs.intern hcovers, _, rfl, shape_intern (by simp)⟩

/-- A term that is there already. -/
theorem again (hs : s.Serves) {t : TermId} {shape : Shape TermId} (ht : s.Allocated t)
    (hshape : s.shape t = shape) : Yields "" (fun t' _ => t' = t) (Build.intern shape) s := by
  refine .stays hs ?_ rfl
  have hrun : (Build.intern shape : Attempt TermId).run s =
      (.ok (s.intern shape).1, (s.intern shape).2) := rfl
  rw [hrun, ← hshape, hs.intact.intern_shape ht]

theorem write (hs : s.Serves) (text : String) :
    Yields text (fun bytes _ => bytes = text.utf8ByteSize) (Attempt.write text) s := by
  have hrun : (Attempt.write text).run s = s.write text := rfl
  rw [Store.write_memory hs.memory] at hrun
  exact ⟨_, _, hrun, ⟨.of_eq rfl rfl rfl, rfl⟩, hs.output _, rfl⟩

/-! ## Inference -/

/-- A closed term has the type that its shape gives it, whether or not that is remembered. -/
theorem inferStep {e : Engine} {ctx : Context} {t : TermId} (hs : s.Serves)
    (hclosed : (s.freeVariables t).isEmpty = true)
    (hshape : Yields "" (fun ty s' => s'.Allocated ty ∧ s'.Typed t ty) (e.inferShape ctx t) s) :
    Yields "" (fun ty s' => s'.Typed t ty) (e.inferStep ctx t) s := by
  refine .reads (Engine.run_restrict_closed hclosed) ?_
  cases hget : s.types.get? t [] with
  | some answer =>
    obtain ⟨ty, rfl, hty⟩ := hs.recalls t answer hget
    exact .stays hs (run_remembered_hit hget) hty
  | none =>
    obtain ⟨ty, s', hrun, hstep, hs', hty, htyped⟩ := hshape
    have hremembered := run_remembered_miss hget hrun nofun
    have hle : s'.Extends { s' with types := s'.types.insert t [] (.ok ty) } := .of_eq rfl rfl rfl
    exact ⟨ty, _, hremembered, ⟨hstep.toExtends.trans hle, hstep.text⟩, hs'.remember htyped hty,
      htyped.mono hs'.intact.toLinked hle⟩

end Yields

end Attempt

/-! ## Scripts -/

namespace Engine

variable {α β : Type} {e : Engine} {ctx : Context}

theorem run_bindScript (script : Script α) (next : α → Script β) (s : Store) :
    (e.run ctx (script >>= next)).run s =
      (e.run ctx script >>= fun a => e.run ctx (next a)).run s := by
  induction script generalizing s with
  | done a => rfl
  | fail error => rfl
  | ask query rest ih =>
    change ((e.answer ctx query) >>= fun answer => e.run ctx (rest answer >>= next)).run s =
      ((e.answer ctx query >>= fun answer => e.run ctx (rest answer)) >>=
        fun a => e.run ctx (next a)).run s
    simp only [Attempt.run_bind]
    rcases (e.answer ctx query).run s with ⟨e | answer, s'⟩
    · rfl
    · exact (ih answer s').trans (Attempt.run_bind _ _ _)

end Engine

namespace Attempt.Yields

variable {α β : Type} {post : α → Store → Prop} {post' : β → Store → Prop} {e : Engine}
  {ctx : Context} {s : Store} {written first second : String}

theorem scriptAppend {script : Script α} {next : α → Script β}
    (hc : Yields first post (e.run ctx script) s)
    (hf : ∀ a s₁, s.Extends s₁ → s₁.Serves → post a s₁ →
      Yields second post' (e.run ctx (next a)) s₁) :
    Yields (first ++ second) post' (e.run ctx (script >>= next)) s := by
  obtain ⟨b, s', hrun, hrest⟩ := hc.append hf
  exact ⟨b, s', (Engine.run_bindScript script next s).trans hrun, hrest⟩

/-- The first part writes nothing. -/
theorem script {script : Script α} {next : α → Script β}
    (hc : Yields "" post (e.run ctx script) s)
    (hf : ∀ a s₁, s.Extends s₁ → s₁.Serves → post a s₁ →
      Yields written post' (e.run ctx (next a)) s₁) :
    Yields written post' (e.run ctx (script >>= next)) s := by
  simpa using hc.scriptAppend hf

/-- The second part writes nothing. -/
theorem scriptWriting {script : Script α} {next : α → Script β}
    (hc : Yields written post (e.run ctx script) s)
    (hf : ∀ a s₁, s.Extends s₁ → s₁.Serves → post a s₁ → Yields "" post' (e.run ctx (next a)) s₁) :
    Yields written post' (e.run ctx (script >>= next)) s := by
  simpa using hc.scriptAppend hf

/-- A single question. -/
theorem query (query : Query) {post : query.Answer → Store → Prop}
    (h : Yields written post (e.answer ctx query) s) :
    Yields written post (e.run ctx (.ask query .done)) s := by
  have hdone : Yields (written ++ "") post (e.run ctx (.ask query .done)) s :=
    h.append fun a s₁ _ hs₁ ha => .pure hs₁ ha
  rwa [String.append_empty] at hdone

/-- A question to the store. -/
theorem asks (query : Query) {answer : query.Answer} {next : query.Answer → Script β}
    (hrun : (e.answer ctx query).run s = (.ok answer, s))
    (hf : Yields written post' (e.run ctx (next answer)) s) :
    Yields written post' (e.run ctx (Script.ask query .done >>= next)) s := .reads hrun hf

end Attempt.Yields

end StagedCalculus
