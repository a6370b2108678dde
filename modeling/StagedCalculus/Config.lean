import StagedCalculus.Text.Blank
import StagedCalculus.Text.Digits

/-!
# Configuration

This module holds the two settings of a store and reads them from the environment. A depth limit
that is not a 64-bit number is ignored.
-/

namespace StagedCalculus

/-- Settings of one store. -/
structure Config where
  /-- Limit on nested inference, reduction and unification. -/
  maxDepth : Nat := 512
  /-- Whether text written by natives is also logged. -/
  echo : Bool := false
  deriving DecidableEq

namespace Config

/-- The greatest limit that the environment can set. -/
def greatestDepth : Nat := Nat.pow 2 64 - 1

/-- Reads a limit: white space around it and one plus sign are allowed. -/
def readDepth (text : String) : Option Nat :=
  let cs := Blank.trim text.toList
  let digits := if cs.head? = some '+' then cs.tail else cs
  (Digits.read? digits).filter (· ≤ greatestDepth)

/-- The words that switch a setting on. -/
def isAffirmative (text : String) : Bool :=
  ["1", "true", "yes"].contains (String.ofList (Blank.trim text.toList))

/-- The default settings, overridden by the variables that are set. -/
def ofEnvironment (lookup : String → Option String) : Config where
  maxDepth := ((lookup "SCHIST_MAX_DEPTH").bind readDepth).getD ({} : Config).maxDepth
  echo := ((lookup "SCHIST_ECHO_NATIVE").map isAffirmative).getD ({} : Config).echo

end Config

end StagedCalculus
