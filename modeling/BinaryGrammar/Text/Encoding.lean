import BinaryGrammar.Text.Blank
import BinaryGrammar.Text.Hex

/-!
# Text encodings

Five ways to write a text as bytes. Reading reports the first byte sequence that is not part of any
text: for UTF-8 with its place and length, as far as it could have begun a character.
-/

set_option autoImplicit false

namespace BinaryGrammar.Text

/-- Why some bytes are no text. -/
inductive Fault where
  /-- So many bytes from an index on begin no character. -/
  | invalidUtf8 (count index : Nat)
  /-- The bytes end within a character that begins at an index. -/
  | incompleteUtf8 (index : Nat)
  | nonAscii
  | oddLength
  | loneSurrogate
  deriving DecidableEq, Repr

/-- The wording of each cause. -/
def Fault.message : Fault → String
  | .invalidUtf8 count index =>
    "invalid utf-8 sequence of " ++ Digits.decimal count ++ " bytes from index " ++
      Digits.decimal index
  | .incompleteUtf8 index => "incomplete utf-8 byte sequence from index " ++ Digits.decimal index
  | .nonAscii => "non-ASCII byte"
  | .oddLength => "odd number of bytes in UTF-16"
  | .loneSurrogate => "invalid utf-16: lone surrogate found"

/-! ## UTF-8 -/

/-- What the first byte of a longer UTF-8 sequence says: how many bytes follow, the range of the
second byte, and the bits it contributes itself. -/
structure Lead where
  follow : Nat
  low : Nat
  high : Nat
  bits : Nat

/-- The meaning of a first byte above the ASCII range. -/
def lead? (a : Nat) : Option Lead :=
  if a < 0xC2 then none
  else if a < 0xE0 then some ⟨1, 0x80, 0xBF, a - 0xC0⟩
  else if a = 0xE0 then some ⟨2, 0xA0, 0xBF, 0⟩
  else if a = 0xED then some ⟨2, 0x80, 0x9F, 0xD⟩
  else if a < 0xF0 then some ⟨2, 0x80, 0xBF, a - 0xE0⟩
  else if a = 0xF0 then some ⟨3, 0x90, 0xBF, 0⟩
  else if a < 0xF4 then some ⟨3, 0x80, 0xBF, a - 0xF0⟩
  else if a = 0xF4 then some ⟨3, 0x80, 0x8F, 4⟩
  else none

/-- Whether a byte lies in a range. -/
def inRange (low high : Nat) (b : UInt8) : Bool := low ≤ b.toNat && b.toNat ≤ high

/-- Whether a byte continues a sequence. -/
def isContinuation (b : UInt8) : Bool := inRange 0x80 0xBF b

/-- The bits so far with those of a continuation byte. -/
def continued (bits : Nat) (b : UInt8) : Nat := bits * 64 + (b.toNat - 0x80)

/-- The characters of some bytes from an index on, after those in `acc` (newest first). -/
def decodeUtf8From (index : Nat) (acc : List Char) : List UInt8 → Except Fault (List Char)
  | [] => .ok acc.reverse
  | a :: afterA =>
    if a.toNat < 0x80 then decodeUtf8From (index + 1) (Char.ofNat a.toNat :: acc) afterA
    else match lead? a.toNat with
      | none => .error (.invalidUtf8 1 index)
      | some lead =>
        match afterA with
        | [] => .error (.incompleteUtf8 index)
        | b :: afterB =>
          if !inRange lead.low lead.high b then .error (.invalidUtf8 1 index)
          else if lead.follow = 1 then
            decodeUtf8From (index + 2) (Char.ofNat (continued lead.bits b) :: acc) afterB
          else match afterB with
            | [] => .error (.incompleteUtf8 index)
            | c :: afterC =>
              if !isContinuation c then .error (.invalidUtf8 2 index)
              else if lead.follow = 2 then
                decodeUtf8From (index + 3)
                  (Char.ofNat (continued (continued lead.bits b) c) :: acc) afterC
              else match afterC with
                | [] => .error (.incompleteUtf8 index)
                | d :: afterD =>
                  if !isContinuation d then .error (.invalidUtf8 3 index)
                  else decodeUtf8From (index + 4)
                    (Char.ofNat (continued (continued (continued lead.bits b) c) d) :: acc) afterD

/-! ## UTF-16 -/

/-- The code units of some bytes, two at a time. -/
def unitsOf (big : Bool) : List UInt8 → List Nat
  | a :: b :: rest =>
    (if big then a.toNat * 256 + b.toNat else b.toNat * 256 + a.toNat) :: unitsOf big rest
  | _ => []

/-- The characters of some code units, after those in `acc` (newest first). -/
def decodeUtf16From (acc : List Char) : List Nat → Except Fault (List Char)
  | [] => .ok acc.reverse
  | u :: rest =>
    if u < 0xD800 ∨ 0xDFFF < u then decodeUtf16From (Char.ofNat u :: acc) rest
    else if 0xDC00 ≤ u then .error .loneSurrogate
    else match rest with
      | [] => .error .loneSurrogate
      | v :: rest' =>
        if 0xDC00 ≤ v ∧ v ≤ 0xDFFF then
          decodeUtf16From
            (Char.ofNat (0x10000 + (u - 0xD800) * 0x400 + (v - 0xDC00)) :: acc) rest'
        else .error .loneSurrogate

/-! ## Encodings -/

/-- The encodings that texts can have. -/
inductive Encoding where
  | utf8
  | ascii
  | latin1
  | utf16 (big : Bool)
  deriving DecidableEq, Repr

namespace Encoding

/-- The name of an encoding without regard to blanks, case, and the choice of hyphen. -/
def canonicalName (name : String) : String :=
  (trim name).map fun c => if c == '_' then '-' else c.toUpper

/-- The encoding with a name. Without a mark of its byte order UTF-16 is big-endian. -/
def ofName? (name : String) : Option Encoding :=
  match canonicalName name with
  | "UTF-8" => some utf8
  | "UTF8" => some utf8
  | "US-ASCII" => some ascii
  | "ASCII" => some ascii
  | "ANSI-X3.4-1968" => some ascii
  | "ISO-8859-1" => some latin1
  | "LATIN1" => some latin1
  | "LATIN-1" => some latin1
  | "UTF-16" => some (utf16 true)
  | "UTF-16BE" => some (utf16 true)
  | "UTF-16LE" => some (utf16 false)
  | _ => none

/-- The code unit that stands for a byte; in an unknown encoding it is the byte itself. -/
def unit (encoding : Option Encoding) (b : UInt8) : Bytes :=
  match encoding with
  | some (utf16 true) => #[0, b]
  | some (utf16 false) => #[b, 0]
  | _ => #[b]

/-- The number of bytes in a code unit. -/
def unitWidth (encoding : Option Encoding) : Nat :=
  match encoding with
  | some (utf16 _) => 2
  | _ => 1

/-- The text that some bytes write. -/
def decode (encoding : Encoding) (bytes : Bytes) : Except Fault String :=
  match encoding with
  | utf8 => (decodeUtf8From 0 [] bytes.toList).map String.ofList
  | ascii =>
    if bytes.all fun b => b.toNat < 0x80 then
      .ok (String.ofList (bytes.toList.map fun b => Char.ofNat b.toNat))
    else .error .nonAscii
  | latin1 => .ok (String.ofList (bytes.toList.map fun b => Char.ofNat b.toNat))
  | utf16 big =>
    if bytes.size % 2 ≠ 0 then .error .oddLength
    else (decodeUtf16From [] (unitsOf big bytes.toList)).map String.ofList

end Encoding

end BinaryGrammar.Text
