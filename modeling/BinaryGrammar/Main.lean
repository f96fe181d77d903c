import BinaryGrammar.CommandLine.Arguments
import BinaryGrammar.CommandLine.Check

/-!
# The command line

Reads files, runs the command that the arguments ask for, and prints its report.
-/

set_option autoImplicit false

namespace BinaryGrammar.CommandLine

/-- The reason why a file could not be read. -/
def fileReason : IO.Error → String
  | .noFileOrDirectory .. => "No such file or directory (os error 2)"
  | e => toString e

/-- The bytes of a file, or why they could not be read. -/
def readBytes (name : String) : IO (Except String Bytes) := do
  try
    let bytes ← IO.FS.readBinFile name
    return .ok bytes.data
  catch e => return .error (fileReason e)

/-- The text of a file, or why it could not be read. -/
def readText (name : String) : IO (Except String String) := do
  match ← readBytes name with
  | .error reason => return .error reason
  | .ok bytes =>
    match Text.Encoding.utf8.decode bytes with
    | .ok text => return .ok text
    | .error _ => return .error "stream did not contain valid UTF-8"

/-- A grammar file to be checked. -/
def readGrammarFile (name : String) : IO GrammarFile := do
  match ← readText name with
  | .error reason => return { name, content := .error reason }
  | .ok text =>
    match Record.Document.parse text with
    | .ok record => return { name, content := .ok record }
    | .error fault => return { name, content := .error fault.message }

/-- The document of a grammar file. -/
def readGrammar (name : String) : IO (Except GrammarTrouble Document) := do
  match ← readText name with
  | .error reason => return .error (.file reason)
  | .ok text =>
    match Document.ofText text with
    | .ok doc => return .ok doc
    | .error e => return .error (.ofLoadError e)

/-- The report of what the arguments ask for. -/
def runRequest (request : Option Request) : IO Report := do
  match request with
  | none => return { status := 2, err := Request.usage }
  | some (.check human files) => return check human (← files.mapM readGrammarFile)
  | some (.decode options) =>
    let grammar ← readGrammar options.grammarName
    let file ← readBytes options.fileName
    return decode options grammar file

end BinaryGrammar.CommandLine

/-- Run the command line. -/
def main (args : List String) : IO UInt32 := do
  let report ← BinaryGrammar.CommandLine.runRequest (BinaryGrammar.CommandLine.Request.ofArgs? args)
  IO.print report.out
  IO.eprint report.err
  return report.status.toUInt32
