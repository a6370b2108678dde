import StagedCalculus.Error
import StagedCalculus.Text.Blank
import StagedCalculus.Text.Digits

/-!
# Numerals

This module reads and writes exact rational numbers. Three forms are read, after white space at
both ends is removed:

- an integer: at most one sign, then a digit, then digits and underscores;
- a fraction `n/d` of two integers, each with white space around it, the second not zero;
- a decimal `w.f`, in which `f` is a non-empty sequence of digits and `w`, after all of its leading
  signs are removed, completes `f` to a sequence of digits and underscores that starts with a digit.

A number is written as an integer or as a fraction in lowest terms.
-/

namespace StagedCalculus.Numeral

/-! ## Reading -/

def isSign (c : Char) : Bool := c = '+' || c = '-'

/-- Reads a natural number: a digit, then digits and underscores. Underscores have no value. -/
def readNatural : List Char → Option Nat
  | [] => none
  | c :: cs => if c = '_' then none else Digits.read? (c :: cs.filter (· ≠ '_'))

/-- Reads an integer, with at most one sign. -/
def readInteger : List Char → Option Int
  | '-' :: cs => (readNatural cs).map fun n => -(n : Int)
  | '+' :: cs => (readNatural cs).map fun n => (n : Int)
  | cs => (readNatural cs).map fun n => (n : Int)

/-- The parts before and after the first occurrence of a separator. -/
def splitAt? (sep : Char) : List Char → Option (List Char × List Char)
  | [] => none
  | c :: cs =>
    if c = sep then some ([], cs)
    else (splitAt? sep cs).map fun parts => (c :: parts.1, parts.2)

/-- The value of a fraction, from the text on either side of the slash. -/
def readFraction (numerator denominator : List Char) : Option Rat :=
  match readInteger (Blank.trim numerator), readInteger (Blank.trim denominator) with
  | some n, some d => if d = 0 then none else some (Rat.divInt n d)
  | _, _ => none

/-- The value of a decimal, from the text on either side of the point. The number is negative
exactly if the whole part starts with a minus sign. -/
def readDecimal (whole decimals : List Char) : Option Rat :=
  if decimals.isEmpty || !decimals.all Digits.isDigit then none
  else
    (readNatural (whole.dropWhile isSign ++ decimals)).map fun n =>
      let numerator : Int := if whole.head? = some '-' then -(n : Int) else n
      Rat.divInt numerator (Nat.pow 10 decimals.length)

/-- Reads a number from a text without white space at its ends. -/
def readTrimmed (cs : List Char) : Option Rat :=
  match splitAt? '/' cs with
  | some (numerator, denominator) => readFraction numerator denominator
  | none =>
    match splitAt? '.' cs with
    | some (whole, decimals) => readDecimal whole decimals
    | none => (readInteger cs).map fun n => (n : Rat)

/-- Reads a number. -/
def read? (text : String) : Option Rat :=
  readTrimmed (Blank.trim text.toList)

/-- Reads a number; the error quotes the whole text. -/
def read (text : String) : Except Error Rat :=
  match read? text with
  | some q => .ok q
  | none => .error (.native "numeric literal" s!"`{text}` is not a number")

/-! ## Writing -/

/-- The text of a number: an integer, or a fraction in lowest terms. -/
def write (q : Rat) : String :=
  if q.den = 1 then toString q.num else s!"{q.num}/{q.den}"

end StagedCalculus.Numeral
