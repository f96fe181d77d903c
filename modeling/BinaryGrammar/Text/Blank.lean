/-!
# Blank characters

Authored attributes may be surrounded by blanks. A character is blank when it has the Unicode
property White_Space; the table below is that property in full. Trimming removes blanks at both
ends of a text and `squeeze` removes them everywhere.
-/

set_option autoImplicit false

namespace BinaryGrammar.Text

/-- The ranges of code points with the property White_Space, in increasing order. -/
def blankRanges : List (Nat × Nat) :=
  [(0x09, 0x0D), (0x20, 0x20), (0x85, 0x85), (0xA0, 0xA0), (0x1680, 0x1680), (0x2000, 0x200A),
    (0x2028, 0x2029), (0x202F, 0x202F), (0x205F, 0x205F), (0x3000, 0x3000)]

/-- Whether a character has the property White_Space. -/
def isBlank (c : Char) : Bool :=
  blankRanges.any fun (low, high) => low ≤ c.toNat && c.toNat ≤ high

/-- Drop the blanks at both ends of a list of characters. -/
def trimChars (cs : List Char) : List Char :=
  ((cs.dropWhile isBlank).reverse.dropWhile isBlank).reverse

/-- Drop the blanks at both ends of a text. -/
def trim (s : String) : String :=
  String.ofList (trimChars s.toList)

/-- The text without any of its blanks. -/
def squeeze (s : String) : String :=
  String.ofList (s.toList.filter fun c => !isBlank c)

/-- The trimmed text, or nothing when only blanks were written. -/
def nonBlank (s : String) : Option String :=
  let t := trim s
  if t.isEmpty then none else some t

/-- Equality of two texts up to the case of the letters A to Z. -/
def sameIgnoringCase (s t : String) : Bool :=
  s.map Char.toLower == t.map Char.toLower

end BinaryGrammar.Text
