/-!
# Decimal digits

This module reads sequences of the ten ASCII digits.
-/

namespace StagedCalculus.Digits

def isDigit (c : Char) : Bool := '0' ≤ c && c ≤ '9'

def digitValue (c : Char) : Nat := c.toNat - '0'.toNat

/-- The number that digits write in base ten. -/
def value (cs : List Char) : Nat :=
  cs.foldl (fun acc c => acc * 10 + digitValue c) 0

/-- Reads a sequence that holds digits only, and at least one. -/
def read? (cs : List Char) : Option Nat :=
  if !cs.isEmpty && cs.all isDigit then some (value cs) else none

end StagedCalculus.Digits
