import BinaryGrammar.CommandLine.Report
import BinaryGrammar.Decode.Element
import BinaryGrammar.Json.Printer
import BinaryGrammar.Render.Json

/-!
# Decoding a file

The start structure of a grammar is decoded from a file and shown as a tree or as JSON. When that
fails, what was decoded is shown first and the failure is reported. An overflow ends the program
before it can show or report anything of its own.
-/

set_option autoImplicit false

namespace BinaryGrammar.CommandLine

/-- How to decode a file. -/
structure DecodeOptions where
  json : Bool := false
  offset : Nat := 0
  grammarName : String
  fileName : String

/-- Decode the start structure at a byte offset of some data. -/
def decodeAt (doc : Document) (data : Bytes) (offset : Nat) : Except Failure Value :=
  let session : Reader Bytes Value := do
    Decoder.seek offset
    Decoder.decode { document := doc, source := .plain }
  match session { source := data } with
  | .ok v _ => .ok v
  | .error failure _ => .error failure

/-- The text of a value. -/
def valueText (json : Bool) (doc : Document) (data : Bytes) (v : Value) : String :=
  (if json then (Render.describe doc v).indented else Render.tree doc data v) ++ "\n"

/-- The causes of a failure, from the nearest to the farthest. -/
def failureCauses (failure : Failure) : List String :=
  [failure.message, failure.cause.message] ++ failure.cause.origin?.toList

/-- What a program leaves behind that an overflow has ended. -/
def overflowed : Report := { status := 101, err := Cause.overflow.message ++ "\n" }

/-- The report of decoding a file with a grammar; for either of them there may be only the reason
why it could not be read. -/
def decode (options : DecodeOptions) (grammar : Except GrammarTrouble Document)
    (file : Except String Bytes) : Report :=
  match grammar with
  | .error trouble =>
    { status := 1, err := errorText ("loading " ++ options.grammarName) trouble.causes }
  | .ok doc =>
    match file with
    | .error reason =>
      { status := 1, err := errorText ("opening " ++ options.fileName) [reason] }
    | .ok data =>
      let text := valueText options.json doc data
      match decodeAt doc data options.offset with
      | .ok v => { out := text v }
      | .error failure =>
        if failure.cause = .overflow then overflowed
        else
          { status := 1
            out := (failure.salvage.map text).getD ""
            err := errorText ("decoding " ++ options.fileName) (failureCauses failure) }

end BinaryGrammar.CommandLine
