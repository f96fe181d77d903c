import BinaryGrammar.Document.Extend

/-!
# Deriving elements from their bases

The base of each element that derives from another is looked up, an order is found in which every
base is complete before it is used, and the elements are filled in that order. Where bases go in a
circle, the link that closes it is reported and cut.
-/

set_option autoImplicit false

namespace BinaryGrammar.Document

/-- Set the target of an element's link to its base. -/
def setBase (doc : Document) (i : Nat) (target : Option Nat) : Document :=
  doc.modify i fun e => { e with derives := e.derives.map fun l => { l with target } }

/-! ## Finding bases -/

/-- Look up the base of an element. -/
def linkBase (doc : Document) (i : Nat) : Noted Document :=
  match (doc.element i).derives with
  | none => { value := doc }
  | some link =>
    match doc.resolve link.reference with
    | some target => { value := doc.setBase i (some target) }
    | none =>
      { value := doc.setBase i none
        notes := [.danglingReference (doc.label i) "derives" link.reference.text] }

/-- Look up the bases of some elements. -/
def linkBases : Document → List Nat → Noted Document
  | doc, [] => { value := doc }
  | doc, i :: is => do
    let doc ← doc.linkBase i
    linkBases doc is

/-! ## BaseOrder -/

/-- How far the search has come with an element. -/
inductive Mark where
  | active
  | done
  deriving DecidableEq, Repr

/-- The state of the search for an order. -/
structure BaseOrder where
  doc : Document
  marks : Std.HashMap Nat Mark := {}
  /-- The elements to fill, in order. -/
  merges : Array Nat := #[]
  notes : Array Diagnostic := #[]

namespace BaseOrder

/-- Note how far the search has come with an element. -/
def mark (o : BaseOrder) (i : Nat) (m : Mark) : BaseOrder := { o with marks := o.marks.insert i m }

/-- Put an element after its base, its children first: what a child derives from its own base goes
before what it gets from its parent's base by name. The search goes at most `depth` levels deep. -/
def visit : Nat → BaseOrder → Nat → BaseOrder
  | 0, o, _ => o
  | depth + 1, o, i =>
    if o.marks.contains i then o
    else
      let o := (o.doc.element i).children.foldl (visit depth) o
      if o.marks.contains i then o
      else
        let o := o.mark i .active
        let o := match (o.doc.element i).base with
          | none => o
          | some base =>
            if base = i ∨ o.marks[base]? = some Mark.active then
              { o with
                notes := o.notes.push (.derivesCycle (o.doc.label i))
                doc := o.doc.setBase i none }
            else
              let o := visit depth o base
              { o with merges := o.merges.push i }
        o.mark i .done

end BaseOrder

/-- A depth that no search can exceed: between two elements that are marked it only goes down the
tree. -/
def orderingDepth (doc : Document) : Nat := (doc.elements.size + 2) * (doc.elements.size + 2)

/-- Find an order for some elements. -/
def orderBases (doc : Document) (order : List Nat) : BaseOrder :=
  order.foldl (BaseOrder.visit doc.orderingDepth) { doc }

/-! ## Filling -/

/-- Fill an element from its base; a mismatch is reported and the link cut. -/
def fillFromBase (doc : Document) (i : Nat) : Noted Document :=
  match (doc.element i).base with
  | none => { value := doc }
  | some base =>
    match doc.extend i base with
    | .ok doc => { value := doc }
    | .error m => { value := doc.setBase i none, notes := [.mismatch m] }

/-- Fill elements in order. -/
def fillAll : Document → List Nat → Noted Document
  | doc, [] => { value := doc }
  | doc, i :: is => do
    let doc ← doc.fillFromBase i
    fillAll doc is

/-- Find all bases and fill all elements that derive from another. -/
def derive (doc : Document) (order : List Nat) : Noted Document := do
  let doc ← linkBases doc order
  let o := doc.orderBases order
  let doc ← { value := o.doc, notes := o.notes.toList }
  fillAll doc o.merges.toList

end BinaryGrammar.Document
