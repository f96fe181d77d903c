import BinaryGrammar.Document.Load

/-!
# Reports of the command lines

What a command leaves behind: an exit status and two texts. An error is reported with its causes,
each caused by the next, and numbered if there are several.
-/

set_option autoImplicit false

namespace BinaryGrammar.CommandLine

/-- What a command leaves behind. -/
structure Report where
  status : Nat := 0
  out : String := ""
  err : String := ""
  deriving DecidableEq, Repr

/-- A text after a mark, with its further lines indented like the first. -/
def indentedCause (mark text : String) : String :=
  let blank := String.ofList (List.replicate mark.length ' ')
  mark ++ ("\n" ++ blank).intercalate (text.splitOn "\n")

/-- The mark of a numbered cause. -/
def causeMark (number : Nat) : String :=
  let digits := Digits.write 10 number
  String.ofList (List.replicate (5 - digits.length) ' ' ++ digits) ++ ": "

/-- The lines of the causes of an error. -/
def causeLines : List String → List String
  | [] => []
  | [cause] => [indentedCause "    " cause]
  | causes => causes.mapIdx fun i cause => indentedCause (causeMark i) cause

/-- The report of an error with its causes. -/
def errorText (context : String) (causes : List String) : String :=
  let tail := match causeLines causes with
    | [] => ""
    | lines => "\n\nCaused by:\n" ++ "\n".intercalate lines
  "Error: " ++ context ++ tail ++ "\n"

/-- Why a grammar file gives no document. -/
inductive GrammarTrouble where
  /-- The file cannot be read. -/
  | file (reason : String)
  /-- The text is not that of a grammar. -/
  | text (reason : String)
  | invalid (diagnostics : List Diagnostic)

/-- The causes of the trouble, from the nearest to the farthest. -/
def GrammarTrouble.causes : GrammarTrouble → List String
  | file reason => ["I/O error: " ++ reason, reason]
  | text reason => ["invalid grammar JSON: " ++ reason, reason]
  | invalid diagnostics => [Diagnostic.report diagnostics]

/-- The trouble with a text that gives no document. -/
def GrammarTrouble.ofLoadError : LoadError → GrammarTrouble
  | .unreadable fault => text fault.message
  | .invalid diagnostics => invalid diagnostics

end BinaryGrammar.CommandLine
