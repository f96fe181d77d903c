import BinaryGrammar.Element.Kind
import BinaryGrammar.Text.Quoted

/-!
# Diagnostics

Everything that can be wrong with a grammar. Checking a grammar collects diagnostics in the order
in which they are found and never stops at the first.
-/

set_option autoImplicit false

namespace BinaryGrammar

/-- An element that cannot be filled from another because they are of different kinds. -/
structure Mismatch where
  target : Label
  source : Label
  deriving DecidableEq, Repr

/-- The wording of a mismatch. -/
def Mismatch.message (m : Mismatch) : String :=
  "cannot extend " ++ m.target.text ++ " from " ++ m.source.text ++ ": " ++ m.target.kind.name ++
    " and " ++ m.source.kind.name ++ " are different types"

/-- A problem of a grammar. -/
inductive Diagnostic where
  | missingAttribute (element : Label) (attr : String)
  | danglingReference (element : Label) (attr reference : String)
  | wrongTarget (element : Label) (attr : String) (target : Label) (expected : Kind)
  | duplicateId (id : Nat) (first second : Label)
  | duplicateScript (name : String)
  | invalidValue (element : Label) (attr value : String)
  | derivesCycle (element : Label)
  | invalidRepeats (element : Label) (min max : Int)
  | invalidLength (element : Label) (length : Int) (reason : String)
  | emptyRecursion (element : Label)
  | mismatch (cause : Mismatch)
  deriving DecidableEq, Repr

namespace Diagnostic

/-- The wording of a diagnostic. -/
def message : Diagnostic → String
  | missingAttribute e a => e.text ++ ": missing " ++ a ++ " attribute"
  | danglingReference e a r => e.text ++ ": " ++ a ++ " refers to unknown " ++ r
  | wrongTarget e a t k =>
    e.text ++ ": " ++ a ++ " refers to " ++ t.text ++ ", expected a " ++ k.name
  | duplicateId n f s => "duplicate id " ++ Digits.decimal n ++ ": " ++ f.text ++ " and " ++ s.text
  | duplicateScript n => "duplicate script name " ++ Text.quoted n
  | invalidValue e a v => e.text ++ ": invalid " ++ a ++ " value " ++ Text.quoted v
  | derivesCycle e => e.text ++ ": derives chain is cyclic"
  | invalidRepeats e lo hi =>
    e.text ++ ": invalid repeat bounds " ++ Digits.decimalInt lo ++ ".." ++ Digits.decimalInt hi
  | invalidLength e n reason =>
    e.text ++ ": invalid length " ++ Digits.decimalInt n ++ ": " ++ reason
  | emptyRecursion e => e.text ++ ": refers back to itself before consuming any input"
  | mismatch m => m.message

/-- The name of the rule that a diagnostic reports a breach of. -/
def rule : Diagnostic → String
  | missingAttribute .. => "missing-attribute"
  | danglingReference .. => "dangling-reference"
  | wrongTarget .. => "wrong-target"
  | duplicateId .. => "duplicate-id"
  | duplicateScript .. => "duplicate-script"
  | invalidValue .. => "invalid-value"
  | derivesCycle .. => "derives-cycle"
  | invalidRepeats .. => "invalid-repeats"
  | invalidLength .. => "invalid-length"
  | emptyRecursion .. => "empty-recursion"
  | mismatch .. => "derives-mismatch"

/-- Diagnostics, one per line. -/
def lines (ds : List Diagnostic) : String := "\n".intercalate (ds.map message)

/-- The report of a grammar that cannot be used. -/
def report (ds : List Diagnostic) : String :=
  Digits.decimal ds.length ++ " grammar error(s):\n" ++ lines ds

end Diagnostic

/-- A result together with the problems met on the way to it, in order. -/
structure Noted (α : Type) where
  value : α
  notes : List Diagnostic := []

namespace Noted

variable {α β : Type}

/-- Go on with a result and keep the problems. -/
def andThen (x : Noted α) (f : α → Noted β) : Noted β :=
  let y := f x.value
  { value := y.value, notes := x.notes ++ y.notes }

instance : Monad Noted where
  pure a := { value := a }
  bind := andThen

@[simp] theorem value_pure (a : α) : (pure a : Noted α).value = a := rfl

@[simp] theorem notes_pure (a : α) : (pure a : Noted α).notes = [] := rfl

@[simp] theorem value_bind (x : Noted α) (f : α → Noted β) :
    (x >>= f).value = (f x.value).value := rfl

@[simp] theorem notes_bind (x : Noted α) (f : α → Noted β) :
    (x >>= f).notes = x.notes ++ (f x.value).notes := rfl

end Noted

end BinaryGrammar
