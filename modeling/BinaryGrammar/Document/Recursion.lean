import BinaryGrammar.Diagnostic
import BinaryGrammar.Document.Basic

/-!
# Recursion without input

A structure that can be entered again through references before any field consumes input would be
decoded forever. The structures that can be entered that way are the edges of a graph, and a
depth-first search reports the targets of edges that close a circle.
-/

set_option autoImplicit false

namespace BinaryGrammar.Document

/-- How many nested or referenced structures are looked into. -/
def nestingLimit : Nat := 64

/-- Whether a length is a constant above zero. -/
def isPositive (length : Option Expression) : Bool :=
  match length.bind Expression.constant? with
  | some n => 0 < n
  | none => false

/-- Whether every decoding of an element moves the cursor, as far as `budget` levels show. -/
def consumes (doc : Document) : Nat → Nat → Bool
  | 0, _ => false
  | budget + 1, i =>
    let repeated := match (doc.repeatMin i).constant? with
      | some n => 1 ≤ n
      | none => false
    if !repeated then false
    else
      let length := doc.length i
      match (doc.element i).body with
      | .number _ => isPositive length
      | .offset _ => isPositive length
      | .binary _ => isPositive length
      | .string _ =>
        match doc.stringType i with
        | .fixedLength => isPositive length
        | .pascal => true
        | _ => length.bind Expression.constant? ≠ some 0
      | .struct s => isPositive length || s.elements.any (consumes doc budget)
      | .structRef r =>
        if r.disabled = some true then false
        else match r.target.bind (·.target) with
          | none => false
          | some t => isPositive length || (doc.element t).children.any (consumes doc budget)
      | _ => false

/-- The structures that one child can enter before it consumes input, given those that a structure
inside it can enter. -/
def leadingOf (doc : Document) (inside : Nat → List Nat) (c : Nat) : List Nat :=
  match (doc.element c).body with
  | .structRef r => if r.disabled = some true then [] else (r.target.bind (·.target)).toList
  | .grammarRef g =>
    if g.disabled = some true then []
    else match g.grammar.bind (·.target) with
      | some () => doc.start.toList
      | none => []
  | .struct _ => inside c
  | _ => []

/-- The structures that children can enter, up to the first child that consumes input; children that
never occur are passed over. -/
def leadingOfAll (doc : Document) (budget : Nat) (inside : Nat → List Nat) : List Nat → List Nat
  | [] => []
  | c :: cs =>
    if (doc.repeatMax c).constant? = some 0 then leadingOfAll doc budget inside cs
    else
      doc.leadingOf inside c ++
        (if doc.consumes budget c then [] else leadingOfAll doc budget inside cs)

/-- The structures that decoding a structure can enter before it consumes input. -/
def leadingRefs (doc : Document) : Nat → Nat → List Nat
  | 0, _ => []
  | budget + 1, i =>
    doc.leadingOfAll budget (leadingRefs doc budget) (doc.element i).children

/-! ## The search -/

/-- How far the search has come with a structure. -/
inductive Stage where
  | active
  | done
  deriving DecidableEq, Repr

/-- The state of the search. -/
structure Search where
  stages : Std.HashMap Nat Stage := {}
  notes : Array Diagnostic := #[]

namespace Search

/-- Visit a structure and, through edges, all that have not been visited; at most `depth` deep. -/
def visit (doc : Document) (edges : Nat → List Nat) : Nat → Search → Nat → Search
  | 0, s, _ => s
  | depth + 1, s, i =>
    if s.stages.contains i then s
    else
      let s := { s with stages := s.stages.insert i .active }
      let s := (edges i).foldl
        (fun s t =>
          match s.stages[t]? with
          | some .active => { s with notes := s.notes.push (.emptyRecursion (doc.label t)) }
          | some .done => s
          | none => visit doc edges depth s t)
        s
      { s with stages := s.stages.insert i .done }

end Search

/-- The edges from each of some structures. -/
def leadingEdges (doc : Document) (order : List Nat) : Std.HashMap Nat (List Nat) :=
  order.foldl
    (fun edges i =>
      if (doc.element i).kind = .struct then edges.insert i (doc.leadingRefs nestingLimit i)
      else edges)
    {}

/-- Report structures that can be entered again without input. -/
def checkRecursion (doc : Document) (order : List Nat) : List Diagnostic :=
  let edges := doc.leadingEdges order
  let structures := order.filter fun i => (doc.element i).kind = .struct
  let s := structures.foldl
    (Search.visit doc (fun i => edges.getD i []) (doc.elements.size + 1)) {}
  s.notes.toList

end BinaryGrammar.Document
