import BinaryGrammar.Diagnostic
import BinaryGrammar.Document.Basic

/-!
# Registering elements and scripts

Elements are visited in pre-order: an element before the elements inside it. Each learns its parent,
and the first element with an id or a name, and the first script with a name, can be found by it
from then on. A second element with the same id and a second script with the same name are reported.
-/

set_option autoImplicit false

namespace BinaryGrammar.Document

/-! ## Pre-order -/

/-- An element with its parent and everything inside it, in pre-order, down to `depth` levels. -/
def preorderFrom (doc : Document) : Nat → Option Nat → Nat → List (Nat × Option Nat)
  | 0, _, _ => []
  | depth + 1, parent, i =>
    (i, parent) :: (doc.element i).children.flatMap fun c => preorderFrom doc depth (some i) c

/-- All elements with their parents, in pre-order. -/
def preorder (doc : Document) : List (Nat × Option Nat) :=
  doc.grammar.elements.flatMap fun i => doc.preorderFrom (doc.elements.size + 1) none i

/-! ## Registration -/

/-- Make a script known by its name. -/
def registerScript (doc : Document) (i : Nat) : Noted Document :=
  let name := (doc.script i).name
  if name.isEmpty then { value := doc }
  else match doc.scriptNames[name]? with
    | some first =>
      { value := doc, notes := if first = i then [] else [.duplicateScript name] }
    | none => { value := { doc with scriptNames := doc.scriptNames.insert name i } }

/-- Make an element known by its id. -/
def registerId (doc : Document) (i : Nat) : Noted Document :=
  let id := (doc.element i).ident.id
  if id = 0 then { value := doc }
  else match doc.ids[id]? with
    | some first => { value := doc, notes := [.duplicateId id (doc.label first) (doc.label i)] }
    | none => { value := { doc with ids := doc.ids.insert id i } }

/-- Make an element known by its name. -/
def registerName (doc : Document) (i : Nat) : Document :=
  let name := (doc.element i).name
  if name.isEmpty then doc else { doc with names := doc.names.insertIfNew name i }

/-- Make the script of a script element known. -/
def registerInlineScript (doc : Document) (i : Nat) : Noted Document :=
  match (doc.element i).body with
  | .script (some s) => doc.registerScript s
  | _ => { value := doc }

/-- Register one element below its parent. Padding never has a parent. -/
def registerElement (doc : Document) (entry : Nat × Option Nat) : Noted Document := do
  let (i, parent) := entry
  let doc := doc.modify i fun e => { e with parent }
  let doc ← doc.registerId i
  (doc.registerName i).registerInlineScript i

/-- Apply registrations one after another. -/
def registerAll {α : Type} (f : Document → α → Noted Document) : Document → List α → Noted Document
  | doc, [] => { value := doc }
  | doc, a :: as => do
    let doc ← f doc a
    registerAll f doc as

/-- Register all scripts of the grammar and then all elements. -/
def register (doc : Document) : Noted Document := do
  let doc := { doc with ids := {}, names := {}, scriptNames := {} }
  let doc ← registerAll registerScript doc doc.grammar.scripts
  registerAll registerElement doc doc.preorder

end BinaryGrammar.Document
