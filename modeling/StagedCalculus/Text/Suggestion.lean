import StagedCalculus.Text.EditDistance

/-!
# Suggestions

This module chooses, among candidate names, those worth offering in place of a name that was not
found: the closest ones first, equally close ones in the order of their text, no name twice.
-/

namespace StagedCalculus.Suggestion

/-- Whether one scored candidate comes strictly before another. -/
def before (a b : Nat × String) : Bool :=
  a.1 < b.1 || (a.1 = b.1 && a.2 < b.2)

/-- Places a candidate in a strictly ordered list, which holds each candidate once. -/
def place (a : Nat × String) : List (Nat × String) → List (Nat × String)
  | [] => [a]
  | b :: rest =>
    if before a b then a :: b :: rest
    else if before b a then b :: place a rest
    else b :: rest

/-- The candidates at a distance from 1 to `bound`, each with its distance. -/
def scored (name : String) (candidates : List String) (bound : Nat) : List (Nat × String) :=
  (candidates.map fun c => (editDistance name c, c)).filter fun e => 0 < e.1 && e.1 ≤ bound

/-- The scored candidates in order, each once. -/
def ranked (name : String) (candidates : List String) (bound : Nat) : List (Nat × String) :=
  (scored name candidates bound).foldr place []

end StagedCalculus.Suggestion

namespace StagedCalculus

/-- At most three candidates within `bound` edits of `name`, closest first. The name itself is
never suggested. -/
def similarNames (name : String) (candidates : List String) (bound : Nat) : List String :=
  ((Suggestion.ranked name candidates bound).take 3).map (·.2)

/-- The names offered when a field is missing: those at most two edits away. -/
def fieldSuggestions (field : String) (names : List String) : List String :=
  similarNames field names 2

end StagedCalculus
