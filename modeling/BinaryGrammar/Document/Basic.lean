import Std.Data.HashMap
import BinaryGrammar.Element.Basic

/-!
# Documents

A document is one grammar with all its elements and scripts, and maps for finding them. Elements
are numbered by their place in `elements`; the last one stands for padding.

Attributes that an element does not set are looked up along a walk. Attributes of presentation
(sign, byte order, display, encoding, unit of length, order) are taken from the element, the element
it derives from, or else its parent, and so on. Attributes of shape (length, repeat bounds, types,
and whether fixed values are required) are only taken from the element and what it derives from. An
element that derives from another never asks its own parent.
-/

set_option autoImplicit false

namespace BinaryGrammar

/-- The grammar of a document. -/
structure Grammar where
  ident : Ident := {}
  author : String := ""
  ext : String := ""
  email : String := ""
  complete : Option Bool := none
  uti : String := ""
  start : Option (Link Nat) := none
  elements : List Nat := []
  scripts : List Nat := []
  deriving DecidableEq, Repr, Inhabited

/-- The label of a grammar. -/
def Grammar.label (g : Grammar) : Label := ⟨.grammar, g.ident.id, g.ident.name⟩

/-- A grammar, its elements and scripts, and maps for finding them. -/
structure Document where
  version : String := ""
  grammar : Grammar := {}
  elements : Array Element := #[]
  scripts : Array Script := #[]
  /-- The first element with each id. -/
  ids : Std.HashMap Nat Nat := {}
  /-- The first element with each name. -/
  names : Std.HashMap String Nat := {}
  /-- The first script with each name. -/
  scriptNames : Std.HashMap String Nat := {}
  padding : Nat := 0
  deriving Inhabited

namespace Document

/-- A document whose elements are not linked yet; its padding element is added. -/
def ofParts (version : String) (grammar : Grammar) (elements : Array Element)
    (scripts : Array Script) : Document :=
  { version, grammar, scripts
    elements := elements.push { body := .padding }
    padding := elements.size }

/-- The element with a number. -/
def element (doc : Document) (i : Nat) : Element := doc.elements.getD i default

/-- The script with a number. -/
def script (doc : Document) (i : Nat) : Script := doc.scripts.getD i default

/-- The label of the element with a number. -/
def label (doc : Document) (i : Nat) : Label := (doc.element i).label

/-- Change the element with a number. -/
def modify (doc : Document) (i : Nat) (f : Element → Element) : Document :=
  { doc with elements := doc.elements.modify i f }

/-! ## Finding -/

/-- The element with an id. -/
def byId (doc : Document) (id : Nat) : Option Nat := doc.ids[id]?

/-- The element with a name; the elements of the grammar itself go first. -/
def byName (doc : Document) (name : String) : Option Nat :=
  match doc.grammar.elements.find? fun i => (doc.element i).name == name with
  | some i => some i
  | none => doc.names[name]?

/-- The script with a name. -/
def scriptByName (doc : Document) (name : String) : Option Nat := doc.scriptNames[name]?

/-- The element that a reference names. -/
def resolve (doc : Document) : Reference → Option Nat
  | .id n => doc.byId n
  | .name s => doc.byName s

/-- The structure where decoding starts. -/
def start (doc : Document) : Option Nat := doc.grammar.start.bind (·.target)

/-- The longest walk from element to element. Walks over bases and parents together can go in
circles. -/
def walkLimit : Nat := 256

/-- Find a child by name, first among a structure's own elements and then along its bases, at most
so many of them. -/
def childFrom (doc : Document) (name : String) : Nat → Option Nat → Option Nat
  | 0, _ => none
  | _, none => none
  | limit + 1, some i =>
    let e := doc.element i
    match e.children.find? fun c => (doc.element c).name == name with
    | some c => some c
    | none => childFrom doc name limit e.base

/-- The child of a structure with a name. -/
def child (doc : Document) (owner : Nat) (name : String) : Option Nat :=
  doc.childFrom name walkLimit (some owner)

/-! ## Attributes along a walk -/

/-- Where a walk goes from an element: to its base if it has one, else to its parent if parents are
asked. -/
def next (doc : Document) (viaParent : Bool) (i : Nat) : Option Nat :=
  let e := doc.element i
  match e.base with
  | some b => some b
  | none => if viaParent then e.parent else none

/-- The first own value on a walk of at most `limit` elements. -/
def walk {α : Type} (doc : Document) (viaParent : Bool) (own : Element → Option α) :
    Nat → Nat → Option α
  | 0, _ => none
  | limit + 1, i =>
    match own (doc.element i) with
    | some v => some v
    | none =>
      match doc.next viaParent i with
      | some j => walk doc viaParent own limit j
      | none => none

/-- An attribute of presentation. -/
def inherited {α : Type} (doc : Document) (own : Element → Option α) (i : Nat) : Option α :=
  doc.walk true own walkLimit i

/-- An attribute of shape. -/
def derived {α : Type} (doc : Document) (own : Element → Option α) (i : Nat) : Option α :=
  doc.walk false own walkLimit i

/-- Whether integers are signed; by default they are. -/
def signed (doc : Document) (i : Nat) : Bool := (doc.inherited Element.signed i).getD true

/-- The byte order; by default little. -/
def endian (doc : Document) (i : Nat) : Endian := (doc.inherited Element.endian i).getD .little

/-- The base for showing integers; by default ten. -/
def display (doc : Document) (i : Nat) : Display := (doc.inherited Element.display i).getD .dec

/-- The encoding of texts when none is given. -/
def defaultEncoding : String := "UTF-8"

/-- The encoding of texts. -/
def encoding (doc : Document) (i : Nat) : String :=
  (doc.inherited Element.encoding i).getD defaultEncoding

/-- The unit of lengths; by default bytes. -/
def lengthUnit (doc : Document) (i : Nat) : LengthUnit :=
  (doc.inherited Element.lengthUnit i).getD .byte

/-- The order of elements; by default fixed. -/
def order (doc : Document) (i : Nat) : Order := (doc.inherited Element.order i).getD .fixed

/-- Whether fixed values are required; by default they are. -/
def mustMatch (doc : Document) (i : Nat) : Bool := (doc.derived Element.mustMatch i).getD true

/-- The type of a number; by default integer. -/
def numberType (doc : Document) (i : Nat) : NumberType :=
  (doc.derived Element.numberType i).getD .integer

/-- The type of a string; by default zero-terminated. -/
def stringType (doc : Document) (i : Nat) : StringType :=
  (doc.derived Element.stringType i).getD .zeroTerminated

/-- The length, if there is one. A reference has the length of its target. -/
def length (doc : Document) (i : Nat) : Option Expression :=
  match (doc.element i).body with
  | .structRef r => (r.target.bind (·.target)).bind fun t => doc.derived Element.length t
  | .grammarRef _ => doc.start.bind fun s => doc.derived Element.length s
  | _ => doc.derived Element.length i

/-- What is added to the length of a structure. -/
def lengthOffset (doc : Document) (i : Nat) : Option Expression :=
  doc.derived Element.lengthOffset i

/-- The least number of instances; by default one. -/
def repeatMin (doc : Document) (i : Nat) : Expression :=
  (doc.derived (fun e => e.repeats.min) i).getD (.constant 1)

/-- The greatest number of instances; by default one. -/
def repeatMax (doc : Document) (i : Nat) : Expression :=
  (doc.derived (fun e => e.repeats.max) i).getD (.constant 1)

end Document

end BinaryGrammar
