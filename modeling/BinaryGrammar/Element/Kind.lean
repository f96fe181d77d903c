import BinaryGrammar.Number.Digits

/-!
# Kinds and labels

Diagnostics name an element by its kind, its id and its name, as in `Number<03 size>`.
-/

set_option autoImplicit false

namespace BinaryGrammar

/-- What an element is. The grammar itself is labelled like an element. -/
inductive Kind where
  | grammar
  | struct
  | number
  | string
  | binary
  | offset
  | structRef
  | grammarRef
  | custom
  | script
  | padding
  deriving DecidableEq, Repr, Inhabited

/-- The name of a kind in labels and output. -/
def Kind.name : Kind → String
  | grammar => "Grammar"
  | struct => "Structure"
  | number => "Number"
  | string => "String"
  | binary => "Binary"
  | offset => "Offset"
  | structRef => "StructRef"
  | grammarRef => "GrammarRef"
  | custom => "Custom"
  | script => "Script"
  | padding => "Padding"

/-- Whether elements of a kind may be repeated; the others have exactly one instance. -/
def Kind.repeatable : Kind → Bool
  | custom => false
  | padding => false
  | _ => true

/-- Kind, id and name of an element. -/
structure Label where
  kind : Kind
  id : Nat
  name : String
  deriving DecidableEq, Repr

/-- The text of a label; an id has at least two digits. -/
def Label.text (l : Label) : String :=
  let id := String.ofList (Digits.padded 2 (Digits.write 10 l.id))
  l.kind.name ++ "<" ++ id ++ " " ++ l.name ++ ">"

end BinaryGrammar
