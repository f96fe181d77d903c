import BinaryGrammar.Number.Digits
import BinaryGrammar.Text.Hidden

/-!
# Quoted texts

A text in double quotes. Quotes and backslashes are escaped, a few controls have short escapes, and
every other character that would not be visible is written as its code point in hexadecimal.
-/

set_option autoImplicit false

namespace BinaryGrammar.Text

/-- A character as its code point. -/
def codePointEscape (c : Char) : List Char :=
  ['\\', 'u', '{'] ++ Digits.write 16 c.toNat ++ ['}']

/-- A character between quotes. -/
def quotedChar (c : Char) : List Char :=
  match c with
  | '\x00' => ['\\', '0']
  | '\t' => ['\\', 't']
  | '\r' => ['\\', 'r']
  | '\n' => ['\\', 'n']
  | '"' => ['\\', '"']
  | '\\' => ['\\', '\\']
  | c => if isHidden c then codePointEscape c else [c]

/-- The text in quotes. -/
def quoted (s : String) : String :=
  (s.toList.foldl (fun out c => (quotedChar c).foldl String.push out) "\"").push '"'

end BinaryGrammar.Text
