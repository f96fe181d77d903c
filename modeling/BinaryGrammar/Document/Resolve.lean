import BinaryGrammar.Diagnostic
import BinaryGrammar.Document.Basic

/-!
# Resolving references

References to structures, grammars and scripts, and the links of offsets, are looked up. A reference
to nothing, one to an element of the wrong kind, and one that is missing are reported.
-/

set_option autoImplicit false

namespace BinaryGrammar.Document

/-- Look up a reference and check the kind of its target, if one is expected. -/
def resolveKind (doc : Document) (owner : Label) (attr : String) (reference : Reference)
    (expected : Option Kind) : Noted (Option Nat) :=
  match doc.resolve reference with
  | none => { value := none, notes := [.danglingReference owner attr reference.text] }
  | some target =>
    match expected with
    | none => { value := some target }
    | some kind =>
      if (doc.element target).kind = kind then { value := some target }
      else { value := none, notes := [.wrongTarget owner attr (doc.label target) kind] }

/-- Look up a link, if there is one. -/
def resolveLink (doc : Document) (owner : Label) (attr : String) (link : Option (Link Nat))
    (expected : Option Kind) : Noted (Option (Link Nat)) :=
  match link with
  | none => { value := none }
  | some link => do
    let target ← doc.resolveKind owner attr link.reference expected
    return some { link with target }

/-- A reference to a structure. -/
def resolveStructRef (doc : Document) (owner : Label) (r : StructRefBody) : Noted StructRefBody :=
  match r.target with
  | none => { value := r, notes := [.missingAttribute owner "structure"] }
  | some _ => do
    let target ← doc.resolveLink owner "structure" r.target (some .struct)
    return { r with target }

/-- Whether a reference to a grammar means this one: by id, by name, or without a reference by its
type identifier; none when there is neither. -/
def meansOwnGrammar (doc : Document) (g : GrammarRefBody) : Option Bool :=
  let own := doc.grammar.ident
  match g.grammar with
  | some link =>
    match link.reference with
    | .id n => some (n ≠ 0 ∧ n = own.id)
    | .name s => some (s = own.name)
  | none => g.uti.map fun uti => uti ≠ "" ∧ uti = doc.grammar.uti

/-- A reference to a grammar. One that was found by its type identifier gets a link. -/
def resolveGrammarRef (doc : Document) (owner : Label) (g : GrammarRefBody) :
    Noted GrammarRefBody :=
  match doc.meansOwnGrammar g with
  | none => { value := g, notes := [.missingAttribute owner "grammar"] }
  | some true =>
    let link := g.grammar.getD { reference := .name doc.grammar.ident.name }
    { value := { g with grammar := some { link with target := some () } } }
  | some false =>
    let reference := match g.grammar with
      | some link => link.reference.text
      | none => "uti " ++ g.uti.getD ""
    { value := { g with grammar := g.grammar.map Link.unresolved }
      notes := [.danglingReference owner "grammar" reference] }

/-- A field that a script decodes. -/
def resolveCustom (doc : Document) (owner : Label) (c : CustomBody) : Noted CustomBody :=
  match c.script with
  | none => { value := c, notes := [.missingAttribute owner "script"] }
  | some link =>
    let target := match link.reference with
      | .name s => doc.scriptByName s
      | .id _ => none
    { value := { c with script := some { link with target } }
      notes :=
        if target.isNone then [.danglingReference owner "script" link.reference.text] else [] }

/-- An offset. -/
def resolveOffset (doc : Document) (owner : Label) (o : OffsetBody) : Noted OffsetBody := do
  let relativeTo ← doc.resolveLink owner "relative_to" o.relativeTo none
  let references ← doc.resolveLink owner "references" o.references (some .struct)
  let referencedSize ← doc.resolveLink owner "referenced_size" o.referencedSize none
  return { o with relativeTo, references, referencedSize }

/-- The links of one element. -/
def resolveBody (doc : Document) (owner : Label) : Body → Noted Body
  | .structRef r => return .structRef (← doc.resolveStructRef owner r)
  | .grammarRef g => return .grammarRef (← doc.resolveGrammarRef owner g)
  | .custom c => return .custom (← doc.resolveCustom owner c)
  | .offset o => return .offset (← doc.resolveOffset owner o)
  | body => return body

/-- Resolve the links of some elements. -/
def resolveAll : Document → List Nat → Noted Document
  | doc, [] => { value := doc }
  | doc, i :: is => do
    let e := doc.element i
    let body ← doc.resolveBody e.label e.body
    resolveAll (doc.modify i fun e => { e with body }) is

/-- Resolve the reference to the structure where decoding starts. -/
def resolveStart (doc : Document) : Noted Document :=
  match doc.grammar.start with
  | none => { value := doc, notes := [.missingAttribute doc.grammar.label "start"] }
  | some link => do
    let target ← doc.resolveKind doc.grammar.label "start" link.reference (some .struct)
    return { doc with grammar := { doc.grammar with start := some { link with target } } }

end BinaryGrammar.Document
