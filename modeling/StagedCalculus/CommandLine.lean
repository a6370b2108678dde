import StagedCalculus.Native.Builtin
import StagedCalculus.Staging.Judgment
import StagedCalculus.Store.Dump

/-!
# The command line

This module stages and runs one call of an imported native: the call prints a message, which is the
first argument that starts with no two dashes. With `--dump` the term, its type and its compiled
form are shown before it is evaluated. Settings come from the environment.
-/

namespace StagedCalculus.CommandLine

/-- What one run of the program leaves behind. -/
structure Outcome where
  code : Nat
  stdout : String
  stderr : String
  deriving DecidableEq

/-- What the arguments ask for. -/
structure Request where
  message : String
  dump : Bool
  deriving DecidableEq

def defaultMessage : String := "hello from schist\n"

/-- Whether an argument is an option and not a message. -/
def isOption (argument : String) : Bool := argument.toList.take 2 = ['-', '-']

def Request.ofArguments (arguments : List String) : Request where
  message := (arguments.find? fun a => !isOption a).getD defaultMessage
  dump := arguments.contains "--dump"

/-- Adds a text to the standard output, in sequence with what natives write. -/
def print (text : String) : Attempt Unit :=
  modify fun s => { s with output := { s.output with text := s.output.text ++ text } }

/-- `cimport("#include <stdio>").printf(message)`. -/
def buildCall (message : String) : Attempt TermId := do
  match ← Build.builtin "cimport" with
  | none => throw (.notYetImplemented "cimport")
  | some cimport =>
    let module ← Build.apply cimport [← Build.string "#include <stdio>"]
    Build.apply (← Build.project module "printf") [← Build.string message]

/-- Infers, compiles and evaluates the call, printing what was asked for. -/
def perform (request : Request) : Attempt Unit := do
  let call ← buildCall request.message
  if request.dump then print ((← get).dump call).render
  let ty ← Attempt.infer .root call
  let staged ← Attempt.compile .root call
  if request.dump then
    print s!"type: {← Attempt.display ty}\n"
    print s!"compiled: {← Attempt.display staged}\n"
  let result ← Attempt.evaluate .root staged
  print "\n"
  print s!"printf returned {← Attempt.display result}\n"

/-- One run of the program. -/
def run (arguments : List String) (lookup : String → Option String) : Outcome :=
  let start := Store.initial (.ofEnvironment lookup)
  match (perform (.ofArguments arguments)).run start with
  | (.ok (), s) => ⟨0, s.output.text, ""⟩
  | (.error e, s) => ⟨1, s.output.text, s!"error: {e.message}\n"⟩

end StagedCalculus.CommandLine
