import BinaryGrammar.CommandLine.Decode
import BinaryGrammar.Number.Word

/-!
# Arguments of the command line

`check [--human] GRAMMAR...` checks grammar files, and `decode [--json] [--offset N] GRAMMAR FILE`
decodes a file.
-/

set_option autoImplicit false

namespace BinaryGrammar.CommandLine

/-- What the command line asks for. -/
inductive Request where
  | check (human : Bool) (files : List String)
  | decode (options : DecodeOptions)

namespace Request

/-- The usage of the command line. -/
def usage : String :=
  "usage: check [--human] GRAMMAR...\n       decode [--json] [--offset N] GRAMMAR FILE\n"

/-- The offset that an argument writes. -/
def offset? (text : String) : Option Nat := Digits.readBounded? 10 Word.mask text.toList

/-- Read the arguments of a check. -/
def ofCheckArgs? (human : Bool) : List String → Option Request
  | [] => none
  | "--human" :: rest => ofCheckArgs? true rest
  | "-H" :: rest => ofCheckArgs? true rest
  | files => some (.check human files)

/-- Read the arguments of a decoding. -/
def ofDecodeArgs? (json : Bool) (offset : Nat) : List String → Option Request
  | "--json" :: rest => ofDecodeArgs? true offset rest
  | "--offset" :: n :: rest =>
    match offset? n with
    | some offset => ofDecodeArgs? json offset rest
    | none => none
  | [grammarName, fileName] => some (.decode { json, offset, grammarName, fileName })
  | _ => none

/-- Read the arguments of the command line. -/
def ofArgs? : List String → Option Request
  | "check" :: args => ofCheckArgs? false args
  | "decode" :: args => ofDecodeArgs? false 0 args
  | _ => none

end Request

end BinaryGrammar.CommandLine
