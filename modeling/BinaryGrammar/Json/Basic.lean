import BinaryGrammar.Number.Digits

/-!
# JSON trees

A tree keeps every scalar as it is written: a number is its text and a string is what stands
between the quotes, escapes included. Fields keep their order and may repeat. What a string or a
number denotes is decided where it is used, by `unescape?` and the readers of numbers, so a tree
can hold a string with an unpaired surrogate or a number that no float holds.
-/

set_option autoImplicit false

namespace BinaryGrammar

/-- A JSON value. Strings and keys are kept escaped, and numbers as text. -/
inductive Json where
  | null
  | bool (value : Bool)
  | number (text : String)
  | string (body : String)
  | array (items : List Json)
  | object (fields : List (String × Json))
  deriving Inhabited

namespace Json

/-! ## Escapes -/

/-- The escape of a character in a string, where it needs one. -/
def escapeChar (c : Char) : List Char :=
  match c with
  | '"' => ['\\', '"']
  | '\\' => ['\\', '\\']
  | '\x08' => ['\\', 'b']
  | '\x0c' => ['\\', 'f']
  | '\n' => ['\\', 'n']
  | '\r' => ['\\', 'r']
  | '\t' => ['\\', 't']
  | c => if c.toNat < 0x20 then '\\' :: 'u' :: Digits.padded 4 (Digits.write 16 c.toNat) else [c]

/-- The text between the quotes of a string that denotes `s`. -/
def escape (s : String) : String :=
  s.toList.foldl (fun acc c => (escapeChar c).foldl String.push acc) ""

/-- The code unit that four hexadecimal digits write. -/
def unit? (a b c d : Char) : Option Nat :=
  match Digits.valueIn? 16 a, Digits.valueIn? 16 b, Digits.valueIn? 16 c, Digits.valueIn? 16 d with
  | some a, some b, some c, some d => some (((a * 16 + b) * 16 + c) * 16 + d)
  | _, _, _, _ => none

/-- The first half of a pair of surrogates. -/
def isHighSurrogate (u : Nat) : Bool := 0xD800 ≤ u && u ≤ 0xDBFF

/-- The second half of a pair of surrogates. -/
def isLowSurrogate (u : Nat) : Bool := 0xDC00 ≤ u && u ≤ 0xDFFF

/-- The character of a pair of surrogates. -/
def joinSurrogates (high low : Nat) : Char :=
  Char.ofNat (0x10000 + (high - 0xD800) * 0x400 + (low - 0xDC00))

/-- The characters of a string's text, after those in `acc` (newest first); none if a surrogate is
left without its pair. -/
def unescapeFrom? (acc : List Char) : List Char → Option (List Char)
  | [] => some acc.reverse
  | '\\' :: 'u' :: a :: b :: c :: d :: rest =>
    match unit? a b c d with
    | none => none
    | some u =>
      if isHighSurrogate u then
        match rest with
        | '\\' :: 'u' :: e :: f :: g :: h :: rest' =>
          match unit? e f g h with
          | none => none
          | some v =>
            if isLowSurrogate v then unescapeFrom? (joinSurrogates u v :: acc) rest' else none
        | _ => none
      else if isLowSurrogate u then none
      else unescapeFrom? (Char.ofNat u :: acc) rest
  | '\\' :: c :: rest =>
    match c with
    | '"' => unescapeFrom? ('"' :: acc) rest
    | '\\' => unescapeFrom? ('\\' :: acc) rest
    | '/' => unescapeFrom? ('/' :: acc) rest
    | 'b' => unescapeFrom? ('\x08' :: acc) rest
    | 'f' => unescapeFrom? ('\x0c' :: acc) rest
    | 'n' => unescapeFrom? ('\n' :: acc) rest
    | 'r' => unescapeFrom? ('\r' :: acc) rest
    | 't' => unescapeFrom? ('\t' :: acc) rest
    | _ => none
  | c :: rest => if c == '\\' then none else unescapeFrom? (c :: acc) rest

/-- The text a string denotes. -/
def unescape? (body : String) : Option String :=
  (unescapeFrom? [] body.toList).map String.ofList

/-! ## Values -/

/-- The string that denotes a text. -/
def ofText (s : String) : Json := .string (escape s)

/-- The number that denotes a natural number. -/
def ofNat (n : Nat) : Json := .number (Digits.decimal n)

/-- The number that denotes an integer. -/
def ofInt (n : Int) : Json := .number (Digits.decimalInt n)

/-- An object with the given keys. -/
def ofFields (fields : List (String × Json)) : Json :=
  .object (fields.map fun (key, value) => (escape key, value))

/-- The text of a string. -/
def text? : Json → Option String
  | .string body => unescape? body
  | _ => none

/-- The fields of an object under the texts of their keys; none if a key denotes no text. -/
def fields? : Json → Option (List (String × Json))
  | .object fields => fields.mapM fun (key, value) => (unescape? key).map fun k => (k, value)
  | _ => none

/-- The value of the last field with a key. -/
def get? (json : Json) (key : String) : Option Json :=
  match json with
  | .object fields => (fields.reverse.find? fun (k, _) => unescape? k == some key).map (·.2)
  | _ => none

end Json

end BinaryGrammar
