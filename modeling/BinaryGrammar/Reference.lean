import BinaryGrammar.Number.Digits
import BinaryGrammar.Text.Blank

/-!
# References

An element is named by its id, written `id:` and a number, or by its name. A link is a reference
together with its target, which is unknown until the document has been searched for it.
-/

set_option autoImplicit false

namespace BinaryGrammar

/-- The way an author names another element or a script. -/
inductive Reference where
  | id (number : Nat)
  | name (text : String)
  deriving DecidableEq, Repr, Inhabited

namespace Reference

/-- The largest id. -/
def greatestId : Nat := 0xFFFFFFFF

/-- The id written after `id:`, if the text starts that way and a number follows. -/
def idOf? (t : String) : Option Nat :=
  match t.toList with
  | 'i' :: 'd' :: ':' :: rest => Digits.readBounded? 10 greatestId (Text.trimChars rest)
  | _ => none

/-- The reference an attribute writes, if it is not blank. -/
def parse? (s : String) : Option Reference :=
  let t := Text.trim s
  if t.isEmpty then none
  else match idOf? t with
    | some n => some (.id n)
    | none => some (.name t)

/-- The text of a reference, which reads back as the same reference. -/
def text : Reference → String
  | .id n => "id:" ++ Digits.decimal n
  | .name t => t

end Reference

/-- A reference and, once it has been found, what it refers to. -/
structure Link (α : Type) where
  reference : Reference
  target : Option α := none
  deriving DecidableEq, Repr

namespace Link

variable {α : Type}

/-- The same reference with nothing found yet. -/
def unresolved (link : Link α) : Link α := { reference := link.reference }

/-- The link an attribute writes, if it is not blank. -/
def parse? (s : String) : Option (Link α) :=
  (Reference.parse? s).map fun r => { reference := r }

end Link

end BinaryGrammar
