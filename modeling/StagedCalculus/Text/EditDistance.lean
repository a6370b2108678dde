/-!
# Edit distance

This module measures how far two texts are apart, in insertions, deletions and substitutions of
single characters. The distances from one text to every beginning of the other form a row, and
each further character of the first text turns one row into the next.
-/

namespace StagedCalculus.EditDistance

/-- The rest of the next row. `diagonal :: above` is the rest of the current row and `left` is
the entry before the one to be computed. -/
def advance (c : Char) : List Char → Nat → List Nat → Nat → List Nat
  | d :: ds, diagonal, up :: above, left =>
    let entry := min (diagonal + if c = d then 0 else 1) (min (up + 1) (left + 1))
    entry :: advance c ds up above entry
  | _, _, _, _ => []

/-- The row for one more character of the first text. -/
def nextRow (b : List Char) (c : Char) : List Nat → List Nat
  | [] => []
  | first :: above => (first + 1) :: advance c b first above (first + 1)

/-- The row of the whole first text, from the row of the empty text. -/
def lastRow (a b : List Char) : List Nat :=
  a.foldl (fun row c => nextRow b c row) (List.range (b.length + 1))

/-- The distance between two character sequences: the last entry of the last row. -/
def ofChars (a b : List Char) : Nat :=
  (lastRow a b).getLastD 0

end StagedCalculus.EditDistance

namespace StagedCalculus

/-- The least number of single-character edits that turn one text into the other. -/
def editDistance (a b : String) : Nat :=
  EditDistance.ofChars a.toList b.toList

end StagedCalculus
