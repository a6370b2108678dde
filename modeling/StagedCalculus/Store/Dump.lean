import StagedCalculus.Store.Display

/-!
# Dumps

A dump shows a term as an indented tree. It is a list of text lines with markers that open and
close a level; every marker that opens a level is closed by a later one.
-/

namespace StagedCalculus

/-- One item of a dump. -/
inductive DumpLine where
  | text (line : String)
  | indent
  | dedent
  deriving DecidableEq

/-- The items of a dump in order. -/
abbrev Dump := List DumpLine

namespace Dump

/-- A dump one level deeper. -/
def nested (inner : Dump) : Dump := .indent :: inner ++ [.dedent]

/-- A line of text with a dump one level below it. -/
def headed (line : String) (inner : Dump) : Dump := .text line :: nested inner

/-- Renders the items from a level on. -/
def renderAt : Nat → Dump → List String
  | _, [] => []
  | level, .indent :: rest => renderAt (level + 1) rest
  | level, .dedent :: rest => renderAt (level - 1) rest
  | level, .text line :: rest =>
    (String.join (List.replicate level "  ") ++ line ++ "\n") :: renderAt level rest

/-- Two spaces for each open level before a line. -/
def render (dump : Dump) : String := String.join (renderAt 0 dump)

end Dump

namespace Shape

open Dump

/-- The dump of a node, given the handle and the dump of each subterm. -/
def dump (s : Store) (shape : Shape (TermId × Dump)) : Dump :=
  match shape with
  | .abstraction lets params body =>
    let bindings := lets.flatMap fun e => headed ("let " ++ s.variableName e.1 ++ " =") e.2.2
    let header : Dump :=
      if params.isEmpty then []
      else
        let types := params.map fun e => (e.1, s.display e.2.1)
        [.text ("params (" ++ lineOfParams s types ++ ")")]
    headed (if params.isEmpty then "Let" else "Abstraction")
      (bindings ++ header ++ headed "body" body.2)
  | .forAll vars body => headed ("ForAll " ++ lineOfVars s vars) body.2
  | .application callee args => headed "Application" (callee.2 ++ args.flatMap (·.2))
  | .projection domain field => headed ("Projection ." ++ field) domain.2
  | .cast subject target => headed ("Cast to " ++ s.display target.1) subject.2
  | .productValue ty fields =>
    headed ("Product : " ++ s.display ty.1) (fields.flatMap fun e => headed (e.1 ++ " =") e.2.2)
  | leaf => [.text ((leaf.map fun child => s.display child.1).line s)]

end Shape

namespace Store

/-- The dump of a term. -/
def dump (s : Store) (t : TermId) : Dump :=
  s.fold [] (fun shape => shape.dump s) t

end Store

end StagedCalculus
