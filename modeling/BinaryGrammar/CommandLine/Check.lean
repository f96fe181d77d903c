import BinaryGrammar.CommandLine.Report

/-!
# Checking grammar files

Every file is loaded and every problem of every file is reported, one line each with the name of its
rule, or in a layout for people with a count at the end. The status is 1 if there is any problem.
-/

set_option autoImplicit false

namespace BinaryGrammar.CommandLine

/-- A file that was read, or why it could not be. -/
structure GrammarFile where
  name : String
  content : Except String Record.Document

/-- The lines of one problem. -/
def problemText (human : Bool) (name : String) (d : Diagnostic) : String :=
  if human then "  " ++ name ++ ": " ++ d.message ++ "\n    rule: " ++ d.rule ++ "\n"
  else name ++ ": error: " ++ d.message ++ " [" ++ d.rule ++ "]\n"

/-- The lines of a file that was read. -/
def fileText (human : Bool) (name : String) (loaded : Noted Document) : String :=
  let problems := "".intercalate (loaded.notes.map (problemText human name))
  if !human then problems
  else if loaded.notes.isEmpty then
    name ++ ": ok (" ++ Digits.decimal loaded.value.elements.size ++ " elements)\n"
  else name ++ " (" ++ Digits.decimal loaded.notes.length ++ " problem(s)):\n" ++ problems

/-- The report of one file and the number of its problems. -/
def checkFile (human : Bool) (file : GrammarFile) : Report × Nat :=
  match file.content with
  | .error reason => ({ status := 1, err := file.name ++ ": " ++ reason ++ "\n" }, 0)
  | .ok record =>
    let loaded := Document.load record
    ({ status := if loaded.notes.isEmpty then 0 else 1, out := fileText human file.name loaded },
      loaded.notes.length)

/-- The report of some files. -/
def check (human : Bool) (files : List GrammarFile) : Report :=
  let reports := files.map (checkFile human)
  let problems := reports.foldl (fun n r => n + r.2) 0
  let summary :=
    if human then
      Digits.decimal problems ++ " problem(s) in " ++ Digits.decimal files.length ++ " file(s)\n"
    else ""
  { status := if reports.all fun r => r.1.status = 0 then 0 else 1
    out := "".intercalate (reports.map (·.1.out)) ++ summary
    err := "".intercalate (reports.map (·.1.err)) }

end BinaryGrammar.CommandLine
