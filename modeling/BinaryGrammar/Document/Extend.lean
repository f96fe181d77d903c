import BinaryGrammar.Diagnostic
import BinaryGrammar.Document.Basic

/-!
# Filling an element from another

An element that derives from another takes over the attributes that it leaves unset. What is set is
never overwritten; id, name, parent, the link to the base and the list of children stay as they are.
The children of a structure are filled from the children of the same name. All pairs are checked
before any is filled, so that a mismatch anywhere leaves every element as it was.
-/

set_option autoImplicit false

namespace BinaryGrammar

/-! ## One element -/

namespace Fill

variable {α : Type}

/-- A list that is empty is taken over. -/
def list (own base : List α) : List α := if own.isEmpty then base else own

/-- A link is taken over as a reference that is still to be resolved. -/
def link (own base : Option (Link α)) : Option (Link α) :=
  own.or (base.map Link.unresolved)

/-- The identity, with the description of the base where there is none. -/
def ident (own base : Ident) : Ident :=
  { own with description := if own.description.isEmpty then base.description else own.description }

/-- Repeat bounds, each from the base where it is not set. -/
def repeats (own base : Repeats) : Repeats := ⟨own.min.or base.min, own.max.or base.max⟩

/-- Colours, each from the base where it is not set. -/
def colours (own base : Colours) : Colours := ⟨own.fill.or base.fill, own.stroke.or base.stroke⟩

/-- The attributes of a structure, but not its elements. -/
def struct (own base : StructBody) : StructBody :=
  { own with
    length := own.length.or base.length
    lengthUnit := own.lengthUnit.or base.lengthUnit
    lengthOffset := own.lengthOffset.or base.lengthOffset
    endian := own.endian.or base.endian
    signed := own.signed.or base.signed
    encoding := own.encoding.or base.encoding
    order := own.order.or base.order
    display := own.display.or base.display }

/-- The attributes of a number. -/
def number (own base : NumberBody) : NumberBody :=
  { type := own.type.or base.type
    length := own.length.or base.length
    lengthUnit := own.lengthUnit.or base.lengthUnit
    endian := own.endian.or base.endian
    signed := own.signed.or base.signed
    display := own.display.or base.display
    mustMatch := own.mustMatch.or base.mustMatch
    values := list own.values base.values
    masks := list own.masks base.masks }

/-- The attributes of a string. -/
def string (own base : StringBody) : StringBody :=
  { type := own.type.or base.type
    length := own.length.or base.length
    lengthUnit := own.lengthUnit.or base.lengthUnit
    encoding := own.encoding.or base.encoding
    delimiter := own.delimiter.or base.delimiter
    mustMatch := own.mustMatch.or base.mustMatch
    values := list own.values base.values }

/-- The attributes of a run of bytes. -/
def binary (own base : BinaryBody) : BinaryBody :=
  { length := own.length.or base.length
    lengthUnit := own.lengthUnit.or base.lengthUnit
    mustMatch := own.mustMatch.or base.mustMatch
    values := list own.values base.values }

/-- The attributes of an offset. -/
def offset (own base : OffsetBody) : OffsetBody :=
  { length := own.length.or base.length
    lengthUnit := own.lengthUnit.or base.lengthUnit
    endian := own.endian.or base.endian
    display := own.display.or base.display
    relativeTo := link own.relativeTo base.relativeTo
    references := link own.references base.references
    referencedSize := link own.referencedSize base.referencedSize
    followNullReference := own.followNullReference.or base.followNullReference
    additional := own.additional.or base.additional }

/-- The attributes of a reference to a structure. -/
def structRef (own base : StructRefBody) : StructRefBody :=
  { disabled := own.disabled.or base.disabled
    target := link own.target base.target }

/-- The attributes of a reference to a grammar. -/
def grammarRef (own base : GrammarRefBody) : GrammarRefBody :=
  { uti := own.uti.or base.uti
    filename := own.filename.or base.filename
    disabled := own.disabled.or base.disabled
    grammar := link own.grammar base.grammar }

/-- The attributes of a field that a script decodes. -/
def custom (own base : CustomBody) : CustomBody :=
  { length := own.length.or base.length
    lengthUnit := own.lengthUnit.or base.lengthUnit
    script := link own.script base.script }

/-- Fill a body from one of the same kind. -/
def body? : Body → Body → Option Body
  | .struct d, .struct s => some (.struct (struct d s))
  | .number d, .number s => some (.number (number d s))
  | .string d, .string s => some (.string (string d s))
  | .binary d, .binary s => some (.binary (binary d s))
  | .offset d, .offset s => some (.offset (offset d s))
  | .structRef d, .structRef s => some (.structRef (structRef d s))
  | .grammarRef d, .grammarRef s => some (.grammarRef (grammarRef d s))
  | .custom d, .custom s => some (.custom (custom d s))
  | .script d, .script s => some (.script (d.or s))
  | .padding, .padding => some .padding
  | _, _ => none

end Fill

/-- Fill an element from one of the same kind; an element of another kind changes nothing. -/
def Element.fillFrom (own base : Element) : Element :=
  match Fill.body? own.body base.body with
  | some body =>
    { own with
      ident := Fill.ident own.ident base.ident
      repeats := Fill.repeats own.repeats base.repeats
      colours := Fill.colours own.colours base.colours
      body }
  | none => own

/-! ## Elements with their children -/

namespace Document

/-- Each named child of an element with the first child of the same name of another. -/
def matchedChildren (doc : Document) (target source : Nat) : List (Nat × Nat) :=
  (doc.element target).children.filterMap fun d =>
    let name := (doc.element d).name
    if name.isEmpty then none
    else
      ((doc.element source).children.find? fun s => (doc.element s).name == name).map
        fun s => (d, s)

/-- The first of some results that is a mismatch. -/
def firstMismatch {α : Type} (f : α → Option Mismatch) : List α → Option Mismatch
  | [] => none
  | a :: as =>
    match f a with
    | some m => some m
    | none => firstMismatch f as

/-- The first pair of different kinds among an element, another, and their matched children, at most
`depth` levels down. -/
def mismatch? (doc : Document) : Nat → Nat → Nat → Option Mismatch
  | 0, _, _ => none
  | depth + 1, target, source =>
    let d := doc.element target
    let s := doc.element source
    if d.kind ≠ s.kind then some ⟨d.label, s.label⟩
    else firstMismatch (fun (p : Nat × Nat) => mismatch? doc depth p.1 p.2)
      (doc.matchedChildren target source)

/-- Fill an element and its matched children, at most `depth` levels down. The pairs of children are
found before the element is filled. -/
def fill (doc : Document) : Nat → Nat → Nat → Document
  | 0, _, _ => doc
  | depth + 1, target, source =>
    if target = source then doc
    else
      let base := doc.element source
      (doc.matchedChildren target source).foldl
        (fun doc p => fill doc depth p.1 p.2)
        (doc.modify target fun e => e.fillFrom base)

/-- A bound on how deep elements can be nested. -/
def depthBound (doc : Document) : Nat := doc.elements.size + 1

/-- Fill an element and its children from another, unless kinds differ anywhere. -/
def extend (doc : Document) (target source : Nat) : Except Mismatch Document :=
  if target = source then .ok doc
  else match doc.mismatch? doc.depthBound target source with
    | some m => .error m
    | none => .ok (doc.fill doc.depthBound target source)

end Document

end BinaryGrammar
