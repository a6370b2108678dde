import StagedCalculus.Text.GraphemeExtend
import StagedCalculus.Text.Ignorable
import StagedCalculus.Text.Unprintable

/-!
# Quoted text

This module writes a text between double quotes, so that every character of it can be seen:

- backslash, double quote, tab, line feed, carriage return and the null character have two-character
  escapes;
- other characters that have no printed form, that are ignorable, or that combine with the one
  before them are written by their code point in hexadecimal.
-/

namespace StagedCalculus.Quoted

/-- The hexadecimal digits of a number, with no leading zero. -/
def hex (n : Nat) : List Char := Nat.toDigits 16 n

/-- The halfwidth katakana sound marks, which extend a grapheme but take a place of their own. -/
def isSoundMark (c : Char) : Bool := c == '\uff9e' || c == '\uff9f'

/-- Whether a character combines with the one before it. -/
def isCombining (c : Char) : Bool := GraphemeExtend.contains c && !isSoundMark c

/-- Whether a character is written by its code point. ASCII characters need no table. -/
def isHidden (c : Char) : Bool :=
  if c.toNat < 0x7f then c.toNat < 0x20
  else isCombining c || Ignorable.contains c || Unprintable.contains c

/-- One character as it stands between the quotes. -/
def escape (c : Char) : List Char :=
  match c with
  | '\x00' => ['\\', '0']
  | '\t' => ['\\', 't']
  | '\r' => ['\\', 'r']
  | '\n' => ['\\', 'n']
  | '\\' => ['\\', '\\']
  | '"' => ['\\', '"']
  | c => if isHidden c then ['\\', 'u', '\x7b'] ++ hex c.toNat ++ ['\x7d'] else [c]

end StagedCalculus.Quoted

namespace StagedCalculus

/-- A text between double quotes. -/
def quoted (text : String) : String :=
  String.ofList ('"' :: text.toList.flatMap Quoted.escape ++ ['"'])

end StagedCalculus
