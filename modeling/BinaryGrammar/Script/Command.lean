import BinaryGrammar.Number.Digits
import BinaryGrammar.Script.Engine

/-!
# Scripts of one command

A small engine for scripts whose text is a single command: `take N` covers `N` bytes, `hint` as many
as the length of the element says, `prefix` one byte and as many more as that byte counts, and
`fail REASON` fails. Any other text is a script of an unknown language.
-/

set_option autoImplicit false

namespace BinaryGrammar

/-- A script of one command. -/
inductive Command where
  | take (count : Nat)
  | hint
  | counted
  | fail (reason : String)
  deriving DecidableEq, Repr

namespace Command

/-- The rest of a text after a word and a blank. -/
def argument? (word : String) (text : String) : Option String :=
  if (word ++ " ").isPrefixOf text then
    some (String.ofList (text.toList.drop (word.length + 1)))
  else none

/-- The command that a text writes. -/
def parse? (text : String) : Option Command :=
  if text = "hint" then some hint
  else if text = "prefix" then some counted
  else match (argument? "take" text).bind fun t => Digits.readBounded? 10 Word.mask t.toList with
    | some n => some (take n)
    | none => (argument? "fail" text).map fail

/-- The display of a field of so many bytes. -/
def display (request : ScriptRequest) (length : Nat) : String :=
  let hint := match request.hint with
    | some n => Digits.decimal n
    | none => "-"
  request.element ++ "@" ++ Digits.decimal request.offset ++ " hint=" ++ hint ++ " len=" ++
    Digits.decimal length

/-- The number of bytes that a command covers, or the reason why it fails. -/
def length {σ : Type} (command : Command) (src : ByteSource σ) (request : ScriptRequest) (s : σ) :
    Except String Nat × σ :=
  match command with
  | take n => (.ok n, s)
  | hint =>
    match request.hint with
    | some n => (.ok n, s)
    | none => (.error "no hint", s)
  | counted =>
    match src.readFull request.offset 1 s with
    | (.ok bytes, s) =>
      match bytes[0]? with
      | some b => (.ok (1 + b.toNat), s)
      | none => (.error "no prefix", s)
    | (.error cause, s) => (.error cause.message, s)
  | fail reason => (.error reason, s)

end Command

/-- The engine for scripts of one command. -/
def ScriptEngine.commands {σ : Type} : ScriptEngine σ where
  run src request s :=
    let name := request.script.name
    match Command.parse? request.script.text with
    | none => (.error (.unavailable name (request.script.language.getD "")), s)
    | some command =>
      match command.length src request s with
      | (.ok n, s) => (.ok ⟨n, Command.display request n⟩, s)
      | (.error reason, s) => (.error (.failed name reason), s)

end BinaryGrammar
