import StagedCalculus.Text.Blank

/-!
# Include lines

This module reads the name of a header from an include line, `#include <name>` or
`#include "name"`. White space is allowed around each part, and a final `.h` is dropped.
-/

namespace StagedCalculus.Header

/-- Removes a given beginning. -/
def dropLeading? : List Char → List Char → Option (List Char)
  | [], cs => some cs
  | _ :: _, [] => none
  | a :: rest, c :: cs => if a = c then dropLeading? rest cs else none

/-- Removes a given end. -/
def dropTrailing? (trailing cs : List Char) : Option (List Char) :=
  (dropLeading? trailing.reverse cs.reverse).map List.reverse

/-- The text between an opening and a closing character. -/
def enclosed? (opening closing : Char) (cs : List Char) : Option (List Char) :=
  (dropLeading? [opening] cs).bind fun rest => dropTrailing? [closing] rest

/-- The name of the header in an include line. -/
def name? (text : String) : Option String := do
  let rest ← dropLeading? "#include".toList (Blank.trim text.toList)
  let rest := Blank.trim rest
  let inner ← enclosed? '<' '>' rest <|> enclosed? '"' '"' rest
  let inner := Blank.trim inner
  return String.ofList ((dropTrailing? ".h".toList inner).getD inner)

end StagedCalculus.Header
