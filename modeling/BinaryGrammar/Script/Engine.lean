import BinaryGrammar.Element.Basic
import BinaryGrammar.Source
import BinaryGrammar.Text.Quoted

/-!
# Script engines

Scripts are opaque to a document. When decoding meets a custom element, it hands the script, the
place in the data and the source to an engine, which says how many bytes the field covers and how
it is shown. The engine that knows no script is the default.
-/

set_option autoImplicit false

namespace BinaryGrammar

/-- What an engine is asked: to decode one custom field with a script. -/
structure ScriptRequest where
  script : Script
  /-- The name of the custom element. -/
  element : String
  /-- The byte offset of the field. -/
  offset : Nat
  /-- The length of the element in bytes, if it has one. -/
  hint : Option Nat

/-- What a script makes of a field. -/
structure ScriptValue where
  /-- The bytes covered from the offset on. -/
  length : Nat
  /-- The text that shows the field. -/
  display : String
  deriving DecidableEq, Repr

/-- Why a script gives no value. -/
inductive ScriptError where
  | unavailable (name language : String)
  | failed (name reason : String)
  deriving DecidableEq, Repr

/-- The wording of each cause. -/
def ScriptError.message : ScriptError → String
  | .unavailable name language => "no engine for " ++ language ++ " script " ++ Text.quoted name
  | .failed name reason => "script " ++ Text.quoted name ++ " failed: " ++ reason

/-- A way to run scripts over sources with states of type `σ`. -/
structure ScriptEngine (σ : Type) where
  run : ByteSource σ → ScriptRequest → σ → Except ScriptError ScriptValue × σ

namespace ScriptEngine

variable {σ : Type}

/-- The language of a script that does not tell it. -/
def unknownLanguage : String := "unknown"

/-- The engine that knows no script. -/
def empty : ScriptEngine σ where
  run _ request s :=
    (.error (.unavailable request.script.name (request.script.language.getD unknownLanguage)), s)

end ScriptEngine

end BinaryGrammar
