import Placement.Text.Hidden

/-!
# Quoted text

A text between double quotes, in which every character can be recognised: the quote and the backslash
stand behind a backslash, tab, line feed, carriage return and the null character have a letter each,
and any other hidden character is written by its code point.
-/

namespace Placement.Text.Quoted

/-- The digits of `n` in base sixteen, in lower case and without leading zeros. -/
def hex (n : Nat) : List Char := Nat.toDigits 16 n

/-- What stands for `c` between the quotes. -/
def escape (c : Char) : List Char :=
  if c = '\x00' then ['\\', '0']
  else if c = '\t' then ['\\', 't']
  else if c = '\r' then ['\\', 'r']
  else if c = '\n' then ['\\', 'n']
  else if c = '"' then ['\\', '"']
  else if c = '\\' then ['\\', '\\']
  else if isHidden c then ['\\', 'u', '\x7b'] ++ hex c.toNat ++ ['\x7d']
  else [c]

def quote (s : String) : String :=
  String.ofList (['"'] ++ s.toList.flatMap escape ++ ['"'])

end Placement.Text.Quoted
