import StagedCalculus.CommandLine
import StagedCalculus.Proofs.Native.Stdio
import StagedCalculus.Proofs.Staging.ShownNumeral

/-!
# What the program prints

This module follows one run of the program, for any arguments and with the default settings.

* `CommandLine.Stages`: the stages of a run, each of which starts from the store that the one before
  it left behind;
* `CommandLine.Stages.run_perform`: they make up the run;
* `CommandLine.Stages.Faithful`: the call that was asked for is built; its type says how many bytes
  it prints; it is compiled to a call of `printf`, and prints once that call is evaluated;
* `CommandLine.run_message`: every run has such stages, succeeds, and prints the message and the
  number of its bytes.
-/

namespace StagedCalculus

namespace Numeral

theorem write_natCast (n : Nat) : write n = toString n := by
  rw [write, if_pos (Rat.den_natCast n), Rat.num_natCast]
  rfl

end Numeral

namespace Store

variable {s : Store} {t : TermId} {builtin : Native} {message : String} {n : Nat}

/-! ## Calls on one line and as a tree -/

theorem display_eq (hs : s.Linked) (t : TermId) :
    s.display t = ((s.shape t).map s.display).line s := by
  rw [display, fold_eq hs, Shape.map_map]
  rfl

theorem dump_eq (hs : s.Linked) (t : TermId) :
    s.dump t = ((s.shape t).map fun child => (child, s.dump child)).dump s := by
  rw [dump, fold_eq hs]
  rfl

theorem display_text (hs : s.Linked) (ht : s.shape t = .stringLiteral message) :
    s.display t = quoted message := by
  rw [display_eq hs, ht]
  rfl

theorem dump_text (hs : s.Linked) (ht : s.shape t = .stringLiteral message) :
    s.dump t = [.text (quoted message)] := by
  rw [dump_eq hs, ht]
  rfl

theorem display_countType (hs : s.Linked) (ht : s.shape t = .numericLiteralType n) :
    s.display t = "literal " ++ toString n := by
  rw [display_eq hs, ht, ← Numeral.write_natCast]
  rfl

/-- The leaf of a native. -/
def IsLeaf (s : Store) (builtin : Native) (t : TermId) : Prop :=
  ∃ id signature, s.shape t = .native id ∧ s.native? id = some ⟨builtin, signature⟩

namespace IsLeaf

theorem display_eq (h : s.IsLeaf builtin t) (hs : s.Linked) :
    s.display t = "native " ++ builtin.name := by
  obtain ⟨id, signature, hleaf, hid⟩ := h
  rw [Store.display_eq hs, hleaf]
  simp only [Shape.map, Shape.line, nativeName, hid]

theorem dump_eq (h : s.IsLeaf builtin t) (hs : s.Linked) :
    s.dump t = [.text ("native " ++ builtin.name)] := by
  obtain ⟨id, signature, hleaf, hid⟩ := h
  rw [Store.dump_eq hs, hleaf]
  simp only [Shape.map, Shape.dump, Shape.line, nativeName, hid]

end IsLeaf

/-- `cimport("#include <stdio>").printf(message)`. -/
inductive ImportedCall (s : Store) (message : String) (t : TermId) : Prop
  | call {printf text module cimport header : TermId} : s.shape t = .application printf [text] →
      s.shape text = .stringLiteral message → s.shape printf = .projection module "printf" →
      s.shape module = .application cimport [header] → s.IsLeaf Native.cimport cimport →
      s.shape header = .stringLiteral "#include <stdio>" → ImportedCall s message t

/-- `printf(message)`. -/
inductive ResidualCall (s : Store) (message : String) (t : TermId) : Prop
  | call {printf text : TermId} : s.shape t = .application printf [text] →
      s.IsLeaf Native.printf printf → s.shape text = .stringLiteral message →
      ResidualCall s message t

theorem ResidualCall.display_eq (h : s.ResidualCall message t) (hs : s.Linked) :
    s.display t = "native printf(" ++ quoted message ++ ")" := by
  obtain ⟨hcall, hprintf, htext⟩ := h
  rw [Store.display_eq hs, hcall]
  simp only [Shape.map, Shape.line, List.map_cons, List.map_nil, hprintf.display_eq hs,
    display_text hs htext]
  rfl

open Dump in
theorem ImportedCall.dump_eq (h : s.ImportedCall message t) (hs : s.Linked) :
    s.dump t = headed "Application"
      (headed "Projection .printf"
          (headed "Application" [.text "native cimport", .text (quoted "#include <stdio>")]) ++
        [.text (quoted message)]) := by
  obtain ⟨hcall, htext, hprintf, hmodule, hcimport, hheader⟩ := h
  rename_i printf text module cimport header
  have hmodule' : s.dump module =
      headed "Application" [.text "native cimport", .text (quoted "#include <stdio>")] := by
    rw [Store.dump_eq hs, hmodule]
    simp only [Shape.map, Shape.dump, List.map_cons, List.map_nil, List.flatMap_cons,
      List.flatMap_nil, List.append_nil, hcimport.dump_eq hs, dump_text hs hheader]
    rfl
  have hprintf' : s.dump printf = headed "Projection .printf" (s.dump module) := by
    rw [Store.dump_eq hs, hprintf]
    rfl
  rw [Store.dump_eq hs, hcall]
  simp only [Shape.map, Shape.dump, List.map_cons, List.map_nil, List.flatMap_cons,
    List.flatMap_nil, List.append_nil, hprintf', hmodule', dump_text hs htext]

/-! ## Printed text -/

/-- The store after the program printed a text. -/
def printed (s : Store) (text : String) : Store :=
  { s with output := { s.output with text := s.output.text ++ text } }

theorem text_printed (s : Store) (text : String) :
    (s.printed text).output.text = s.output.text ++ text := rfl

theorem printed_empty (s : Store) : s.printed "" = s := by
  rw [printed, String.append_empty]

theorem printed_printed (s : Store) (first second : String) :
    (s.printed first).printed second = s.printed (first ++ second) := by
  simp only [printed, String.append_assoc]

theorem display_printed (s : Store) (text : String) (t : TermId) :
    (s.printed text).display t = s.display t := by
  have hentries : (s.printed text).entries = s.entries := rfl
  have hline : ∀ shape : Shape String, shape.line (s.printed text) = shape.line s := fun shape =>
    line_congr (fun v _ => ⟨rfl, rfl⟩) fun id => rfl
  rw [display, display, fold_congr hentries]
  simp only [hline]

theorem continues_printed (s : Store) (text : String) : s.Continues text (s.printed text) :=
  ⟨.of_eq rfl rfl rfl, rfl⟩

theorem Serves.printed (hs : s.Serves) (text : String) : (s.printed text).Serves := by
  have houtput : s.printed text = { s with output := ⟨.memory, s.output.text ++ text⟩ } := by
    rw [Store.printed, ← hs.memory]
  rw [houtput]
  exact hs.output _

end Store

namespace CommandLine

open Store Attempt

variable {s : Store} {request : Request}

/-! ## Requests -/

theorem isOption_eq (argument : String) : isOption argument = argument.startsWith "--" := by
  rw [isOption, Bool.eq_iff_iff, decide_eq_true_iff, String.startsWith_string_iff,
    List.prefix_iff_eq_take, eq_comm]
  rfl

/-- What the arguments ask for: the message is the first one that starts with no two dashes. -/
def requested (arguments : List String) : Request where
  message := (arguments.find? fun argument => !argument.startsWith "--").getD "hello from schist\n"
  dump := "--dump" ∈ arguments

theorem ofArguments_eq (arguments : List String) :
    Request.ofArguments arguments = requested arguments := by
  simp only [Request.ofArguments, requested, isOption_eq, defaultMessage, List.contains_eq_mem]

namespace Request

/-- A text that is printed if a dump was asked for. -/
def shown (request : Request) (text : String) : String := if request.dump then text else ""

theorem shown_append (request : Request) (first second : String) :
    request.shown (first ++ second) = request.shown first ++ request.shown second := by
  unfold shown
  split
  · rfl
  · rw [String.append_empty]

/-- The store after the dump of a call, if it was asked for. -/
def dumped (request : Request) (s : Store) (call : TermId) : Store :=
  s.printed (request.shown (s.dump call).render)

/-- The store after the lines for the type of a call and for its compiled form, if they were asked
for. -/
def reported (request : Request) (s : Store) (ty residual : TermId) : Store :=
  s.printed (request.shown
    ("type: " ++ s.display ty ++ "\n" ++ ("compiled: " ++ s.display residual ++ "\n")))

/-- The dump of `cimport("#include <stdio>").printf(message)`. -/
def dumpText (request : Request) : String :=
  "Application\n  Projection .printf\n    Application\n      native cimport\n" ++
    "      \"#include <stdio>\"\n  " ++ quoted request.message ++ "\n"

/-- The lines for its type and for its compiled form. -/
def reportText (request : Request) : String :=
  "type: " ++ ("literal " ++ toString request.message.utf8ByteSize) ++ "\n" ++
    ("compiled: " ++ ("native printf(" ++ quoted request.message ++ ")") ++ "\n")

/-- Everything that a run prints. -/
def output (request : Request) : String :=
  request.shown (request.dumpText ++ request.reportText) ++ request.message ++ "\n" ++
    ("printf returned " ++ toString request.message.utf8ByteSize ++ "\n")

theorem dumped_eq {call : TermId} (hs : s.Linked) (hcall : s.ImportedCall request.message call) :
    request.dumped s call = s.printed (request.shown request.dumpText) := by
  rw [dumped, hcall.dump_eq hs]
  rfl

theorem reported_eq {ty residual : TermId} (hs : s.Linked)
    (hty : s.shape ty = .numericLiteralType request.message.utf8ByteSize)
    (hresidual : s.ResidualCall request.message residual) :
    request.reported s ty residual = s.printed (request.shown request.reportText) := by
  rw [reported, display_countType hs hty, hresidual.display_eq hs]
  rfl

end Request

/-! ## Stages -/

/-- A part of a run that prints, if a dump was asked for, and what follows it. -/
theorem run_shown (request : Request) {shown rest : Attempt Unit} (text : String)
    (hshown : shown.run s = rest.run (s.printed text)) :
    (if request.dump then shown else rest).run s = rest.run (s.printed (request.shown text)) := by
  unfold Request.shown
  cases request.dump with
  | false => rw [if_neg Bool.false_ne_true, if_neg Bool.false_ne_true, printed_empty]
  | true =>
    rw [if_pos rfl, if_pos rfl]
    exact hshown

/-- The terms and the stores of one run, stage by stage. -/
structure Stages (request : Request) where
  call : TermId
  ty : TermId
  residual : TermId
  value : TermId
  built : Store
  inferred : Store
  compiled : Store
  evaluated : Store
  build : (buildCall request.message).run (Store.initial {}) = (.ok call, built)
  infer : (Attempt.infer .root call).run (request.dumped built call) = (.ok ty, inferred)
  compile : (Attempt.compile .root call).run inferred = (.ok residual, compiled)
  evaluate : (Attempt.evaluate .root residual).run (request.reported compiled ty residual) =
    (.ok value, evaluated)

namespace Stages

/-- The stages make up the run. -/
theorem run_perform (stages : Stages request) :
    (perform request).run (Store.initial {}) =
      (.ok (), (stages.evaluated.printed "\n").printed
        ("printf returned " ++ stages.evaluated.display stages.value ++ "\n")) := by
  obtain ⟨call, ty, residual, value, built, inferred, compiled, evaluated, hbuild, hinfer,
    hcompile, hevaluate⟩ := stages
  unfold Request.dumped at hinfer
  unfold Request.reported at hevaluate
  unfold perform
  rw [run_bind, hbuild]
  dsimp only
  rw [run_shown request (built.dump call).render rfl, run_bind, hinfer]
  dsimp only
  rw [run_bind, hcompile]
  dsimp only
  rw [run_shown request ("type: " ++ compiled.display ty ++ "\n" ++
    ("compiled: " ++ compiled.display residual ++ "\n")), run_bind, hevaluate]
  · rw [← display_printed evaluated "\n" value]
    rfl
  · -- The second line is made in the store that the first one is printed to.
    rw [← printed_printed,
      ← display_printed compiled ("type: " ++ compiled.display ty ++ "\n") residual]
    rfl

/-- Every stage does what it is for. -/
structure Faithful (stages : Stages request) : Prop where
  /-- The call of `printf` on the message is built. -/
  call : stages.built.ImportedCall request.message stages.call
  /-- Its type says how many bytes it prints. -/
  type : stages.inferred.shape stages.ty = .numericLiteralType request.message.utf8ByteSize
  /-- It is compiled to a call of the native. -/
  residual : stages.compiled.ResidualCall request.message stages.residual
  /-- So far nothing is printed but the dump. -/
  silent : stages.compiled.output.text = request.shown request.dumpText
  /-- The residual call prints the message once, after the lines that were asked for. -/
  prints : stages.evaluated.output.text =
    stages.compiled.output.text ++ request.shown request.reportText ++ request.message
  /-- Its value is the number of bytes that it printed. -/
  value : stages.evaluated.shape stages.value = .numericLiteral request.message.utf8ByteSize

end Stages

theorem yields_buildCall (hs : s.Serves) (message : String) :
    Yields "" (fun call s' => ∃ printf text module, s'.shape call = .application printf [text] ∧
        s'.shape text = .stringLiteral message ∧ s'.shape printf = .projection module "printf" ∧
        s'.Imports module)
      (buildCall message) s := by
  refine .bind (.builtin hs hs.standard.findNative?_cimport) fun leaf? s₁ _ hs₁ hleaf => ?_
  obtain ⟨cimport, rfl, hcimport⟩ := hleaf
  refine .bind (.intern hs₁ (covers_of_children rfl rfl (List.forall_mem_nil _)) nofun)
    fun header s₂ h₂ hs₂ hheader => ?_
  have hcimport₂ := h₂.shape_kept hcimport nofun
  have himported : s₂.Covers (.application cimport [header]) :=
    covers_call (allocated_of_shape_eq hcimport₂ nofun) (allocated_of_shape_eq hheader nofun)
  refine .bind (.intern hs₂ himported nofun) fun module s₃ h₃ hs₃ hmodule => ?_
  have himports : s₃.Imports module :=
    .call hmodule (h₃.shape_kept hcimport₂ nofun) (h₃.shape_kept hheader nofun)
  have hprojected : s₃.Covers (.projection module "printf") :=
    covers_of_children rfl rfl (List.forall_mem_singleton.2 (allocated_of_shape_eq hmodule nofun))
  refine .bind (.intern hs₃ hprojected nofun) fun printf s₄ h₄ hs₄ hprintf => ?_
  refine .bind (.intern hs₄ (covers_of_children rfl rfl (List.forall_mem_nil _)) nofun)
    fun text s₅ h₅ hs₅ htext => ?_
  have hprintf₅ := h₅.shape_kept hprintf nofun
  have happlied : s₅.Covers (.application printf [text]) :=
    covers_call (allocated_of_shape_eq hprintf₅ nofun) (allocated_of_shape_eq htext nofun)
  refine (Yields.intern hs₅ happlied nofun).imp fun call s₆ h₆ hcall => ?_
  exact ⟨printf, text, module, hcall, h₆.shape_kept htext nofun, h₆.shape_kept hprintf₅ nofun,
    himports.mono ((h₄.trans h₅).trans h₆)⟩

/-- Every run has its stages. -/
theorem exists_faithful (request : Request) : ∃ stages : Stages request, stages.Faithful := by
  obtain ⟨call, built, hbuild, hbuilt, hs₁, printf, text, module, hshape, htext, hprintf,
    himports⟩ := yields_buildCall serves_initial request.message
  have hcall : built.ImportedCall request.message call := by
    obtain ⟨hmodule, hcimport, hheader⟩ := himports
    exact .call hshape htext hprintf hmodule ⟨_, _, hcimport, native?_cimport hs₁⟩ hheader
  have hprints : built.Prints request.message call := .call hshape (.member hprintf himports) htext
  -- The dump is printed before the type is inferred.
  have hdumped := continues_printed built (request.shown request.dumpText)
  rw [← Request.dumped_eq hs₁.intact.toLinked hcall] at hdumped
  have hs₂ : (request.dumped built call).Serves := hs₁.printed _
  have hprints₂ := hprints.mono hdumped.toExtends
  obtain ⟨ty, inferred, hinfer, hinferred, hs₃, hty⟩ :=
    Yields.infer hs₂ (yields_infer_prints (n := 504) hs₂ hprints₂)
  have hprints₃ := hprints₂.mono hinferred.toExtends
  obtain ⟨residual, compiled, hcompile, hcompiled, hs₄, leaf, argument, hshape₄, hleaf,
    hargument⟩ := Yields.reduce hs₃ (yields_compile_prints (n := 504) hs₃ hprints₃)
  have hresidual : compiled.ResidualCall request.message residual :=
    .call hshape₄ ⟨_, _, hleaf, native?_printf hs₄⟩ hargument
  have hprints₄ : compiled.Prints request.message residual := .call hshape₄ (.leaf hleaf) hargument
  -- The type and the compiled form are printed before that is evaluated.
  have hty₄ := hcompiled.toExtends.shape_kept hty nofun
  have hreported := continues_printed compiled (request.shown request.reportText)
  rw [← Request.reported_eq hs₄.intact.toLinked hty₄ hresidual] at hreported
  have hs₅ : (request.reported compiled ty residual).Serves := hs₄.printed _
  obtain ⟨value, evaluated, hevaluate, hevaluated, -, hvalue⟩ :=
    Yields.reduce hs₅ (yields_evaluate_prints (n := 504) hs₅ (hprints₄.mono hreported.toExtends))
  have hsilent : compiled.output.text = request.shown request.dumpText := by
    have hempty : (Store.initial {}).output.text = "" := by decide +kernel
    rw [hcompiled.text, hinferred.text, hdumped.text, hbuilt.text, hempty]
    simp only [String.append_empty, String.empty_append]
  have hprinted : evaluated.output.text =
      compiled.output.text ++ request.shown request.reportText ++ request.message := by
    rw [hevaluated.text, hreported.text]
  exact ⟨⟨call, ty, residual, value, built, inferred, compiled, evaluated, hbuild, hinfer,
    hcompile, hevaluate⟩, hcall, hty, hresidual, hsilent, hprinted, hvalue⟩

/-! ## Runs -/

theorem run_of_perform {arguments : List String}
    (hperform : (perform (requested arguments)).run (Store.initial {}) = (.ok (), s)) :
    run arguments (fun _ => none) = ⟨0, s.output.text, ""⟩ := by
  have hsettings : Config.ofEnvironment (fun _ => none) = {} := rfl
  unfold run
  rw [ofArguments_eq, hsettings]
  dsimp only
  generalize (perform (requested arguments)).run (Store.initial {}) = outcome at hperform ⊢
  subst hperform
  rfl

/-- With no variable set in the environment, a run goes through all stages of the call that the
arguments ask for, prints what they ask for, and succeeds. -/
theorem run_message (arguments : List String) :
    (∃ stages : Stages (requested arguments), stages.Faithful) ∧
      run arguments (fun _ => none) = ⟨0, (requested arguments).output, ""⟩ := by
  obtain ⟨stages, hstages⟩ := exists_faithful (requested arguments)
  refine ⟨⟨stages, hstages⟩, ?_⟩
  have hvalue : stages.evaluated.display stages.value =
      toString (requested arguments).message.utf8ByteSize :=
    (display_numericLiteral hstages.value).trans (Numeral.write_natCast _)
  rw [run_of_perform stages.run_perform, text_printed, text_printed, hstages.prints,
    hstages.silent, hvalue, ← Request.shown_append, Request.output]

end CommandLine

end StagedCalculus
