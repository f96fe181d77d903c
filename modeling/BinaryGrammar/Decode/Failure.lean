import BinaryGrammar.Formula.Basic
import BinaryGrammar.Script.Engine
import BinaryGrammar.Text.Encoding
import BinaryGrammar.Value

/-!
# Failures of decoding

A failure has a cause, the names of the elements that were being read when it arose, and what had
been decoded by then. Running out of data and missing a fixed value end an optional repetition;
every other cause ends the decoding. Places and lengths are words: where the decoder adds, subtracts
or multiplies them without a check of its own and the result is no word, the whole program ends,
and so an overflow is a cause that nothing recovers from.
-/

set_option autoImplicit false

namespace BinaryGrammar

/-- What is wrong with a length, a place or some bytes. -/
inductive Flaw where
  | lengthMissing
  | lengthTooLarge
  | lengthNegative (length : Int)
  | lengthNotWhole (bits : Nat)
  | integerWidth (bits : Nat)
  | floatWidth (bits : Nat)
  /-- The length before a pascal string has at least one byte and at most eight. -/
  | countWidth (bytes : Nat)
  | text (fault : Text.Fault)
  | offsetRange (offset : Nat)
  | scriptLength (length : Nat)
  deriving DecidableEq, Repr

namespace Flaw

/-- What a flaw is a flaw of. -/
def subject : Flaw → String
  | lengthMissing => "length"
  | lengthTooLarge => "length"
  | lengthNegative _ => "length"
  | lengthNotWhole _ => "length"
  | integerWidth _ => "integer"
  | floatWidth _ => "float"
  | countWidth _ => "pascal prefix"
  | text _ => "string"
  | offsetRange _ => "offset"
  | scriptLength _ => "custom length"

/-- What is wrong with it. -/
def detail : Flaw → String
  | lengthMissing => "missing"
  | lengthTooLarge => "too large"
  | lengthNegative n => "negative length " ++ Digits.decimalInt n
  | lengthNotWhole bits => Digits.decimal bits ++ " bits is not whole bytes"
  | integerWidth bits => Digits.decimal bits ++ " bits"
  | floatWidth bits => Digits.decimal bits ++ " bits"
  | countWidth bytes => Digits.decimal bytes ++ " bytes"
  | text fault => fault.message
  | offsetRange offset => Digits.decimal offset ++ " is out of range"
  | scriptLength length => Digits.decimal length

end Flaw

/-- What a grammar may say but decoding does not do. -/
inductive Unsupported where
  | freeOrder
  | dynamicEndian
  | padding
  | encoding (name : String)
  deriving DecidableEq, Repr

/-- The name of what is not supported. -/
def Unsupported.text : Unsupported → String
  | freeOrder => "variable order structures"
  | dynamicEndian => "dynamic endianness"
  | padding => "padding is never read directly"
  | encoding name => "encoding " ++ name

/-- Why decoding fails. -/
inductive Cause where
  /-- The data end before the bytes that are needed at an offset. -/
  | endOfInput (offset needed available : Nat)
  /-- The enclosing structure ends before the bytes that are needed at an offset. -/
  | overrun (offset needed available : Nat)
  /-- A field has none of the values that it must have. -/
  | mustMatch (shown : String)
  | malformed (flaw : Flaw)
  | danglingReference (attr : String)
  | expression (expression : Expression) (cause : EvalError)
  | unsupported (what : Unsupported)
  | tooDeep (depth : Nat)
  /-- The bit position does not begin a byte. -/
  | misaligned (position : Nat)
  | script (cause : ScriptError)
  /-- The source fails for a reason of its own. -/
  | source (reason : String)
  /-- A sum, a difference or a product of places is no word. This is no error of the data: the
  program ends. -/
  | overflow
  deriving DecidableEq, Repr

namespace Cause

/-- The wording of each cause. -/
def message : Cause → String
  | endOfInput offset needed available =>
    "end of input at offset " ++ Digits.decimal offset ++ ": " ++ Digits.decimal needed ++
      " byte(s) needed, " ++ Digits.decimal available ++ " available"
  | overrun offset needed available =>
    "at offset " ++ Digits.decimal offset ++ ": " ++ Digits.decimal needed ++
      " byte(s) needed, enclosing structure has " ++ Digits.decimal available ++ " left"
  | mustMatch shown => shown ++ " does not match any fixed value"
  | malformed flaw => "malformed " ++ flaw.subject ++ ": " ++ flaw.detail
  | danglingReference attr => "unresolved " ++ attr ++ " reference"
  | expression e cause => "expression `" ++ e.text ++ "`: " ++ cause.message
  | unsupported what => "unsupported: " ++ what.text
  | tooDeep depth => "elements nested deeper than " ++ Digits.decimal depth
  | misaligned position => "not byte aligned (bit position " ++ Digits.decimal position ++ ")"
  | script cause => "script: " ++ cause.message
  | source reason => "I/O error: " ++ reason
  | overflow => "arithmetic overflow"

/-- What lies behind a cause, in words, if anything does. -/
def origin? : Cause → Option String
  | expression _ cause => some cause.message
  | script cause => some cause.message
  | source reason => some reason
  | _ => none

/-- Whether the data ran out, as opposed to being wrong. -/
def isEndOfInput : Cause → Bool
  | endOfInput .. => true
  | _ => false

/-- Whether the cause ends an optional repetition and not the decoding. -/
def endsRepetition : Cause → Bool
  | endOfInput .. => true
  | overrun .. => true
  | mustMatch _ => true
  | _ => false

/-- The cause itself, provided that a number that is worked out along with it is a word. -/
def through (n : Nat) (cause : Cause) : Cause := if n < Word.modulus then cause else overflow

/-- Whether a formula names a field that has not been decoded. -/
def isUnknownName : Cause → Bool
  | expression _ (.unknownName _) => true
  | _ => false

end Cause

/-- A failure of decoding. -/
structure Failure where
  cause : Cause
  /-- The names of the elements that were being read, outermost first. -/
  path : List String := []
  /-- What was decoded before the failure. -/
  salvage : Option Value := none

namespace Failure

/-- The same failure seen from an element around it. -/
def within (name : String) (f : Failure) : Failure := { f with path := name :: f.path }

/-- The failure itself, provided that a number that is worked out along with it is a word. -/
def through (n : Nat) (f : Failure) : Failure :=
  if n < Word.modulus then f else { cause := .overflow }

/-- The wording of a failure: where it arose and why. -/
def message (f : Failure) : String :=
  match f.path with
  | [] => f.cause.message
  | names => ".".intercalate names ++ ": " ++ f.cause.message

end Failure

end BinaryGrammar
