import BinaryGrammar.Element.Kind
import BinaryGrammar.Element.Literal
import BinaryGrammar.Expression
import BinaryGrammar.Reference

/-!
# Elements

A grammar is a forest of elements of ten kinds. Elements refer to each other by their index in the
document. All kinds share an identity, repeat bounds, colours, a link to the element they derive
from and a parent; what is special to a kind is its `Body`. An attribute that is not set is `none`.
-/

set_option autoImplicit false

namespace BinaryGrammar

/-- Byte order. A dynamic order is decided by a script. -/
inductive Endian where
  | big
  | little
  | dynamic
  deriving DecidableEq, Repr

/-- The base in which integers are shown. -/
inductive Display where
  | binary
  | dec
  | hex
  deriving DecidableEq, Repr

/-- The unit of lengths. -/
inductive LengthUnit where
  | bit
  | byte
  deriving DecidableEq, Repr

/-- Bits in a unit. -/
def LengthUnit.bits : LengthUnit → Nat
  | bit => 1
  | byte => 8

/-- The order of a structure's elements in the data. -/
inductive Order where
  | fixed
  | free
  deriving DecidableEq, Repr

/-- The type of a number. -/
inductive NumberType where
  | integer
  | float
  deriving DecidableEq, Repr

/-- How the end of a string is found. In a pascal string the length attribute is the width of the
length that stands before the text. -/
inductive StringType where
  | zeroTerminated
  | fixedLength
  | pascal
  | delimiterTerminated
  deriving DecidableEq, Repr

/-- A colour, as a number of six hexadecimal digits. -/
structure Colour where
  rgb : Nat
  deriving DecidableEq, Repr

/-- The six upper case digits of a colour. -/
def Colour.text (c : Colour) : String :=
  String.ofList ((Digits.padded 6 (Digits.write 16 c.rgb)).map Char.toUpper)

/-- Id, name and description. The id is zero when the author gave none. -/
structure Ident where
  id : Nat := 0
  name : String := ""
  description : String := ""
  deriving DecidableEq, Repr, Inhabited

/-- Repeat bounds. -/
structure Repeats where
  min : Option Expression := none
  max : Option Expression := none
  deriving DecidableEq, Repr, Inhabited

/-- The colours of an element. -/
structure Colours where
  fill : Option Colour := none
  stroke : Option Colour := none
  deriving DecidableEq, Repr, Inhabited

/-- A script of the grammar. -/
structure Script where
  name : String := ""
  type : Option String := none
  language : Option String := none
  text : String := ""
  deriving DecidableEq, Repr, Inhabited

/-- What is special to a structure. The order of its elements is the order of decoding. -/
structure StructBody where
  length : Option Expression := none
  lengthUnit : Option LengthUnit := none
  /-- Added to the length. -/
  lengthOffset : Option Expression := none
  endian : Option Endian := none
  signed : Option Bool := none
  encoding : Option String := none
  order : Option Order := none
  display : Option Display := none
  elements : List Nat := []
  deriving DecidableEq, Repr, Inhabited

/-- What is special to a number. -/
structure NumberBody where
  type : Option NumberType := none
  length : Option Expression := none
  lengthUnit : Option LengthUnit := none
  endian : Option Endian := none
  signed : Option Bool := none
  display : Option Display := none
  mustMatch : Option Bool := none
  values : List (FixedValue NumberLiteral) := []
  masks : List Mask := []
  deriving DecidableEq, Repr, Inhabited

/-- What is special to a string. -/
structure StringBody where
  type : Option StringType := none
  length : Option Expression := none
  lengthUnit : Option LengthUnit := none
  encoding : Option String := none
  delimiter : Option UInt8 := none
  mustMatch : Option Bool := none
  values : List (FixedValue String) := []
  deriving DecidableEq, Repr, Inhabited

/-- What is special to a run of bytes. -/
structure BinaryBody where
  length : Option Expression := none
  lengthUnit : Option LengthUnit := none
  mustMatch : Option Bool := none
  values : List (FixedValue Bytes) := []
  deriving DecidableEq, Repr, Inhabited

/-- What is special to an offset. -/
structure OffsetBody where
  length : Option Expression := none
  lengthUnit : Option LengthUnit := none
  endian : Option Endian := none
  display : Option Display := none
  relativeTo : Option (Link Nat) := none
  references : Option (Link Nat) := none
  referencedSize : Option (Link Nat) := none
  followNullReference : Option Bool := none
  additional : Option Expression := none
  deriving DecidableEq, Repr, Inhabited

/-- What is special to a reference to a structure. -/
structure StructRefBody where
  disabled : Option Bool := none
  target : Option (Link Nat) := none
  deriving DecidableEq, Repr, Inhabited

/-- What is special to a reference to a grammar. Only the document's own grammar can be the target,
so that the link has no index. -/
structure GrammarRefBody where
  uti : Option String := none
  filename : Option String := none
  disabled : Option Bool := none
  grammar : Option (Link Unit) := none
  deriving DecidableEq, Repr, Inhabited

/-- What is special to a field that a script decodes. The length is a hint for the script. -/
structure CustomBody where
  length : Option Expression := none
  lengthUnit : Option LengthUnit := none
  script : Option (Link Nat) := none
  deriving DecidableEq, Repr, Inhabited

/-- What is special to each kind of element. A script among the elements of a structure covers no
data, and padding stands for data that no element describes. -/
inductive Body where
  | struct (body : StructBody)
  | number (body : NumberBody)
  | string (body : StringBody)
  | binary (body : BinaryBody)
  | offset (body : OffsetBody)
  | structRef (body : StructRefBody)
  | grammarRef (body : GrammarRefBody)
  | custom (body : CustomBody)
  | script (script : Option Nat)
  | padding
  deriving DecidableEq, Repr, Inhabited

/-- The kind of a body. -/
def Body.kind : Body → Kind
  | struct _ => .struct
  | number _ => .number
  | string _ => .string
  | binary _ => .binary
  | offset _ => .offset
  | structRef _ => .structRef
  | grammarRef _ => .grammarRef
  | custom _ => .custom
  | script _ => .script
  | padding => .padding

/-- An element of a grammar. -/
structure Element where
  ident : Ident := {}
  repeats : Repeats := {}
  colours : Colours := {}
  derives : Option (Link Nat) := none
  parent : Option Nat := none
  body : Body
  deriving DecidableEq, Repr

instance : Inhabited Element := ⟨{ body := .padding }⟩

namespace Element

/-- The kind of an element. -/
def kind (e : Element) : Kind := e.body.kind

/-- The name of an element. -/
def name (e : Element) : String := e.ident.name

/-- The label of an element. -/
def label (e : Element) : Label := ⟨e.kind, e.ident.id, e.ident.name⟩

/-- The element that this one derives from, once found. -/
def base (e : Element) : Option Nat := e.derives.bind (·.target)

/-- The elements of a structure, in the order of decoding. -/
def children (e : Element) : List Nat :=
  match e.body with
  | .struct s => s.elements
  | _ => []

/-! ## Own attributes

The value that an element itself has, without looking at any other. -/

/-- The element's own length; a script has none to speak of. -/
def length (e : Element) : Option Expression :=
  match e.body with
  | .struct b => b.length
  | .number b => b.length
  | .string b => b.length
  | .binary b => b.length
  | .offset b => b.length
  | .custom b => b.length
  | .script _ => some (.constant 0)
  | _ => none

/-- The element's own unit of length. -/
def lengthUnit (e : Element) : Option LengthUnit :=
  match e.body with
  | .struct b => b.lengthUnit
  | .number b => b.lengthUnit
  | .string b => b.lengthUnit
  | .binary b => b.lengthUnit
  | .offset b => b.lengthUnit
  | .custom b => b.lengthUnit
  | _ => none

/-- What a structure itself adds to its length. -/
def lengthOffset (e : Element) : Option Expression :=
  match e.body with
  | .struct b => b.lengthOffset
  | _ => none

/-- Whether the element itself requires its fixed values. -/
def mustMatch (e : Element) : Option Bool :=
  match e.body with
  | .number b => b.mustMatch
  | .string b => b.mustMatch
  | .binary b => b.mustMatch
  | _ => none

/-- Whether the element itself is signed. -/
def signed (e : Element) : Option Bool :=
  match e.body with
  | .struct b => b.signed
  | .number b => b.signed
  | _ => none

/-- The element's own byte order. -/
def endian (e : Element) : Option Endian :=
  match e.body with
  | .struct b => b.endian
  | .number b => b.endian
  | .offset b => b.endian
  | _ => none

/-- The element's own base for showing integers. -/
def display (e : Element) : Option Display :=
  match e.body with
  | .struct b => b.display
  | .number b => b.display
  | .offset b => b.display
  | _ => none

/-- The element's own encoding. -/
def encoding (e : Element) : Option String :=
  match e.body with
  | .struct b => b.encoding
  | .string b => b.encoding
  | _ => none

/-- The structure's own order. -/
def order (e : Element) : Option Order :=
  match e.body with
  | .struct b => b.order
  | _ => none

/-- The number's own type. -/
def numberType (e : Element) : Option NumberType :=
  match e.body with
  | .number b => b.type
  | _ => none

/-- The string's own type. -/
def stringType (e : Element) : Option StringType :=
  match e.body with
  | .string b => b.type
  | _ => none

end Element

end BinaryGrammar
