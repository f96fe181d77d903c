import BinaryGrammar.Document.Basic
import BinaryGrammar.Element.Attribute

/-!
# Documents from records

Each record becomes one element. Elements are numbered so that the elements of a structure come
before the structure itself, in order. References are kept as written; finding what they refer to
is left to the checks that follow.
-/

set_option autoImplicit false

namespace BinaryGrammar.Build

/-- The identity that a record gives an element. -/
def ident (c : Record.Common) : Ident := ⟨c.id, c.name, c.description⟩

/-- The repeat bounds that a record gives an element. -/
def repeats (c : Record.Common) : Repeats :=
  ⟨Expression.parse? c.repeatmin, Expression.parse? c.repeatmax⟩

/-- The label that a record has as an element of a kind. -/
def label (kind : Kind) (c : Record.Common) : Label := ⟨kind, c.id, c.name⟩

/-! ## Elements -/

/-- A structure over elements that are already numbered. -/
def struct (c : Record.Common) (s : Record.Struct) (elements : List Nat) : Noted Element := do
  let l := label .struct c
  let colours ← Attribute.colours l c
  let lengthUnit ← Attribute.pick Attribute.lengthUnitWords l "lengthunit" s.lengthunit
  let endian ← Attribute.pick Attribute.endianWords l "endian" s.endian
  let signed ← Attribute.yesNo l "signed" s.signed
  let order ← Attribute.pick Attribute.orderWords l "order" s.order
  let display ← Attribute.pick Attribute.displayWords l "display" s.display
  return {
    ident := ident c, repeats := repeats c, colours, derives := Link.parse? c.derives
    body := .struct {
      length := Expression.parse? s.length
      lengthOffset := Expression.parse? s.lengthoffset
      encoding := Text.nonBlank s.encoding
      lengthUnit, endian, signed, order, display, elements } }

/-- A number. Its masks are interpreted first. -/
def number (c : Record.Common) (n : Record.Number) : Noted Element := do
  let l := label .number c
  let masks ← Attribute.collect (Attribute.mask l) n.masks
  let colours ← Attribute.colours l c
  let type ← Attribute.pick Attribute.numberTypeWords l "type" n.type
  let lengthUnit ← Attribute.pick Attribute.lengthUnitWords l "lengthunit" n.lengthunit
  let endian ← Attribute.pick Attribute.endianWords l "endian" n.endian
  let signed ← Attribute.yesNo l "signed" n.signed
  let display ← Attribute.pick Attribute.displayWords l "display" n.display
  let mustMatch ← Attribute.yesNo l "mustmatch" n.mustmatch
  let values ← Attribute.collect (Attribute.fixedNumber l) n.values
  return {
    ident := ident c, repeats := repeats c, colours, derives := Link.parse? c.derives
    body := .number {
      length := Expression.parse? n.length
      type, lengthUnit, endian, signed, display, mustMatch, values, masks } }

/-- A string. -/
def string (c : Record.Common) (s : Record.Str) : Noted Element := do
  let l := label .string c
  let colours ← Attribute.colours l c
  let type ← Attribute.pick Attribute.stringTypeWords l "type" s.type
  let lengthUnit ← Attribute.pick Attribute.lengthUnitWords l "lengthunit" s.lengthunit
  let delimiter ← Attribute.delimiter l s.delimiter
  let mustMatch ← Attribute.yesNo l "mustmatch" s.mustmatch
  return {
    ident := ident c, repeats := repeats c, colours, derives := Link.parse? c.derives
    body := .string {
      length := Expression.parse? s.length
      encoding := Text.nonBlank s.encoding
      values := s.values.map Attribute.fixedString
      type, lengthUnit, delimiter, mustMatch } }

/-- A run of bytes. -/
def binary (c : Record.Common) (b : Record.Binary) : Noted Element := do
  let l := label .binary c
  let colours ← Attribute.colours l c
  let lengthUnit ← Attribute.pick Attribute.lengthUnitWords l "lengthunit" b.lengthunit
  let mustMatch ← Attribute.yesNo l "mustmatch" b.mustmatch
  let values ← Attribute.collect (Attribute.fixedBytes l) b.values
  return {
    ident := ident c, repeats := repeats c, colours, derives := Link.parse? c.derives
    body := .binary { length := Expression.parse? b.length, lengthUnit, mustMatch, values } }

/-- An offset. -/
def offset (c : Record.Common) (o : Record.Offset) : Noted Element := do
  let l := label .offset c
  let colours ← Attribute.colours l c
  let lengthUnit ← Attribute.pick Attribute.lengthUnitWords l "lengthunit" o.lengthunit
  let endian ← Attribute.pick Attribute.endianWords l "endian" o.endian
  let display ← Attribute.pick Attribute.displayWords l "display" o.display
  let followNullReference ← Attribute.yesNo l "follow_null_reference" o.followNullReference
  return {
    ident := ident c, repeats := repeats c, colours, derives := Link.parse? c.derives
    body := .offset {
      length := Expression.parse? o.length
      relativeTo := Link.parse? o.relativeTo
      references := Link.parse? o.references
      referencedSize := Link.parse? o.referencedSize
      additional := Expression.parse? o.additional
      lengthUnit, endian, display, followNullReference } }

/-- A reference to a structure. -/
def structRef (c : Record.Common) (r : Record.StructRef) : Noted Element := do
  let l := label .structRef c
  let colours ← Attribute.colours l c
  let disabled ← Attribute.yesNo l "disabled" r.disabled
  return {
    ident := ident c, repeats := repeats c, colours, derives := Link.parse? c.derives
    body := .structRef { disabled, target := Link.parse? r.target } }

/-- A reference to a grammar. It has no colours. -/
def grammarRef (c : Record.Common) (g : Record.GrammarRef) : Noted Element := do
  let l := label .grammarRef c
  let disabled ← Attribute.yesNo l "disabled" g.disabled
  return {
    ident := ident c, repeats := repeats c, derives := Link.parse? c.derives
    body := .grammarRef {
      uti := Text.nonBlank g.uti
      filename := Text.nonBlank g.filename
      grammar := Link.parse? g.grammar
      disabled } }

/-- A field that a script decodes. It has no repeat bounds, and its script is always named. -/
def custom (c : Record.Common) (u : Record.Custom) : Noted Element := do
  let l := label .custom c
  let colours ← Attribute.colours l c
  let lengthUnit ← Attribute.pick Attribute.lengthUnitWords l "lengthunit" u.lengthunit
  return {
    ident := ident c, colours, derives := Link.parse? c.derives
    body := .custom {
      length := Expression.parse? u.length
      script := (Text.nonBlank u.script).map fun n => { reference := .name n }
      lengthUnit } }

/-- A script among the elements of a structure. -/
def scriptElement (c : Record.Common) (script : Nat) : Element :=
  { ident := ident c, repeats := repeats c, derives := Link.parse? c.derives
    body := .script (some script) }

/-- A script. A blank name is replaced by `fallback`. -/
def script (s : Record.Script) (fallback : String) : Script :=
  let own : Option String × String := (Text.nonBlank s.language, s.text)
  let (language, text) := match s.source with
    | none => own
    | some source =>
      if source.text.isEmpty && source.language.isEmpty then own
      else ((Text.nonBlank source.language).or (Text.nonBlank s.language),
        if source.text.isEmpty then s.text else source.text)
  { name := if (Text.trim s.name).isEmpty then fallback else s.name
    type := Text.nonBlank s.type
    language, text }

/-! ## The whole document -/

/-- Elements and scripts numbered so far, and the problems met. -/
structure Assembly where
  elements : Array Element := #[]
  scripts : Array Script := #[]
  notes : Array Diagnostic := #[]

namespace Assembly

/-- Number an element. -/
def push (a : Assembly) (e : Noted Element) : Assembly × Nat :=
  ({ a with elements := a.elements.push e.value, notes := a.notes ++ e.notes }, a.elements.size)

/-- Number a script. -/
def pushScript (a : Assembly) (s : Script) : Assembly × Nat :=
  ({ a with scripts := a.scripts.push s }, a.scripts.size)

/-- Number scripts in order. -/
def addScripts (a : Assembly) : List Record.Script → Assembly × List Nat
  | [] => (a, [])
  | s :: rest =>
    let (a, i) := a.pushScript (script s "")
    let (a, is) := addScripts a rest
    (a, i :: is)

end Assembly

mutual

/-- Number an element after the elements inside it. -/
def addElement (a : Assembly) : Record.Element → Assembly × Nat
  | .struct c s elements =>
    let (a, children) := addElements a elements
    a.push (struct c s children)
  | .number c n => a.push (number c n)
  | .string c s => a.push (string c s)
  | .binary c b => a.push (binary c b)
  | .offset c o => a.push (offset c o)
  | .structRef c r => a.push (structRef c r)
  | .grammarRef c g => a.push (grammarRef c g)
  | .custom c u => a.push (custom c u)
  | .script c s =>
    let (a, i) := a.pushScript (script s c.name)
    a.push { value := scriptElement c i }

/-- Number elements in order. -/
def addElements (a : Assembly) : List Record.Element → Assembly × List Nat
  | [] => (a, [])
  | e :: es =>
    let (a, i) := addElement a e
    let (a, is) := addElements a es
    (a, i :: is)

end

end BinaryGrammar.Build

namespace BinaryGrammar

/-- The document of a record, with nothing linked yet, and the attributes without a meaning. -/
def Document.ofRecord (r : Record.Document) : Noted Document :=
  let g := r.grammar
  let complete := Attribute.yesNo ⟨.grammar, g.id, g.name⟩ "complete" g.complete
  let (a, scripts) := Build.Assembly.addScripts { notes := complete.notes.toArray } g.scripts
  let (a, elements) := Build.addElements a g.elements
  let grammar : Grammar := {
    ident := ⟨g.id, g.name, g.description⟩
    author := g.author, ext := g.ext, email := g.email, complete := complete.value, uti := g.uti
    start := Link.parse? g.start
    elements, scripts }
  { value := Document.ofParts r.version grammar a.elements a.scripts, notes := a.notes.toList }

end BinaryGrammar
