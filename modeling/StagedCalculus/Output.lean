import StagedCalculus.Error

/-!
# Output of native functions

This module describes where text written by natives goes. A memory sink keeps everything; a device
sink keeps nothing and can refuse to write or to flush.
-/

namespace StagedCalculus

/-- Destination of written text. -/
inductive Sink where
  | memory
  /-- A device that keeps no text. `onWrite` is its failure when text is written, `onFlush` its
  failure when it is flushed. -/
  | device (onWrite onFlush : Option String)
  deriving DecidableEq

namespace Sink

/-- The failure of writing one text. Every write is followed by a flush; an empty text is not
handed to the device at all. -/
def failure? : Sink → String → Option String
  | .memory, _ => none
  | .device onWrite onFlush, text => if text.isEmpty then onFlush else onWrite <|> onFlush

end Sink

/-- The current sink, and all text kept in memory so far. -/
structure Output where
  sink : Sink := .memory
  text : String := ""
  deriving DecidableEq

namespace Output

def redirect (output : Output) (sink : Sink) : Output :=
  { output with sink }

/-- Hands text to the sink. -/
def write (output : Output) (text : String) : Except Error Unit × Output :=
  match output.sink.failure? text with
  | some reason => (.error (.native "output" reason), output)
  | none =>
    match output.sink with
    | .memory => (.ok (), { output with text := output.text ++ text })
    | .device _ _ => (.ok (), output)

end Output

end StagedCalculus
