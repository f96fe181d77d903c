import BinaryGrammar.Document.Build
import BinaryGrammar.Document.Derive
import BinaryGrammar.Document.Recursion
import BinaryGrammar.Document.Register
import BinaryGrammar.Document.Resolve
import BinaryGrammar.Document.Validate
import BinaryGrammar.Record.Reader

/-!
# Loading documents

A document is made from a record, linked and checked. Checking goes on to the end whatever it finds,
so that an author sees all problems at once; a document can be used when there are none.
-/

set_option autoImplicit false

namespace BinaryGrammar

namespace Document

/-- Link and check a document. -/
def update (doc : Document) : Noted Document := do
  let doc ← doc.register
  let order := doc.preorder.map (·.1)
  let doc ← doc.derive order
  let doc ← resolveAll doc order
  let doc ← { value := doc, notes := order.flatMap doc.validate }
  let doc ← doc.resolveStart
  { value := doc, notes := doc.checkRecursion order }

/-- Make, link and check the document of a record. -/
def load (r : Record.Document) : Noted Document := do
  let doc ← Document.ofRecord r
  doc.update

end Document

/-- Why a grammar file gives no document. -/
inductive LoadError where
  | unreadable (cause : Record.Fault)
  | invalid (diagnostics : List Diagnostic)

/-- The wording of each cause. -/
def LoadError.message : LoadError → String
  | .unreadable cause => "invalid grammar JSON: " ++ cause.message
  | .invalid ds => Diagnostic.report ds

/-- The document of a grammar file, when nothing is wrong with it. -/
def Document.ofText (text : String) : Except LoadError Document :=
  match Record.Document.parse text with
  | .error cause => .error (.unreadable cause)
  | .ok r =>
    let loaded := Document.load r
    if loaded.notes.isEmpty then .ok loaded.value else .error (.invalid loaded.notes)

end BinaryGrammar
