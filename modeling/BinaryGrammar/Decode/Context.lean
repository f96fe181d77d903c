import Std.Data.HashMap
import BinaryGrammar.Formula.Eval
import BinaryGrammar.Value

/-!
# What surrounds a field

While the fields of a structure are read, those decoded so far stand in a frame. Formulas see the
frames of all enclosing structures: a name means the latest field of that name in the innermost
frame that has one, and the further names of a path go from field to field. Fields may also be
bounded by the end of the innermost enclosing structure of fixed length.
-/

set_option autoImplicit false

namespace BinaryGrammar

/-- The fields of a structure decoded so far. -/
structure Frame where
  values : Array Value := #[]
  /-- The place of the latest field with each name. -/
  latest : Std.HashMap String Nat := {}
  deriving Inhabited

namespace Frame

/-- Add a field; it can be found if it has a name. -/
def push (frame : Frame) (name : String) (v : Value) : Frame :=
  if name.isEmpty then { frame with values := frame.values.push v }
  else
    let latest := frame.latest.insert name frame.values.size
    { values := frame.values.push v, latest }

/-- The latest field with a name. -/
def get? (frame : Frame) (name : String) : Option Value :=
  frame.latest[name]?.bind fun i => frame.values[i]?

end Frame

/-- The surroundings of a field. -/
structure Context where
  /-- The frames of the enclosing structures, innermost first. -/
  frames : List Frame := []
  /-- Where the innermost enclosing structure of fixed length ends, as a bit position. -/
  limit : Option Nat := none
  deriving Inhabited

namespace Context

/-- The latest field with a name in the innermost frame that has one. -/
def find? (ctx : Context) (name : String) : Option Value := ctx.frames.findSome? (·.get? name)

/-- The field that a path leads to. -/
def follow? (ctx : Context) (doc : Document) : List String → Option Value
  | [] => none
  | name :: names =>
    names.foldl (fun v? name => v?.bind fun v => v.child? doc name) (ctx.find? name)

/-- The integers that formulas see. -/
def scope (ctx : Context) (doc : Document) : Scope := fun path =>
  (ctx.follow? doc path).bind Value.int?

/-- Whether nothing is left before the limit. -/
def exhausted (ctx : Context) (pos : Nat) : Bool :=
  match ctx.limit with
  | some limit => limit ≤ pos
  | none => false

/-- The whole bytes left before the limit. -/
def room (ctx : Context) (pos : Nat) : Option Nat := ctx.limit.map fun limit => (limit - pos) / 8

end Context

end BinaryGrammar
