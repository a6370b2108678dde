import StagedCalculus.CommandLine

/-!
# The program

This module connects the command line to the process: its arguments, its environment and its two
output streams.
-/

open StagedCalculus

def main (arguments : List String) : IO UInt32 := do
  let depth ← IO.getEnv "SCHIST_MAX_DEPTH"
  let echo ← IO.getEnv "SCHIST_ECHO_NATIVE"
  let lookup : String → Option String
    | "SCHIST_MAX_DEPTH" => depth
    | "SCHIST_ECHO_NATIVE" => echo
    | _ => none
  let outcome := CommandLine.run arguments lookup
  (← IO.getStdout).putStr outcome.stdout
  (← IO.getStderr).putStr outcome.stderr
  return outcome.code.toUInt32
