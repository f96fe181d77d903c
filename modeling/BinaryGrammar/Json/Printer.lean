import BinaryGrammar.Json.Basic

/-!
# Writing JSON

The compact form has no blanks. The indented form puts every item and field on a line of its own,
two spaces deeper than its container, and a space after each colon; empty containers stay on one
line in both.
-/

set_option autoImplicit false

namespace BinaryGrammar.Json

/-- Append a quoted string to a text. -/
def quoteTo (out body : String) : String := ((out.push '"') ++ body).push '"'

mutual

/-- Append the compact form of a tree to a text. -/
def compactTo (out : String) : Json → String
  | .null => out ++ "null"
  | .bool b => out ++ (if b then "true" else "false")
  | .number text => out ++ text
  | .string body => quoteTo out body
  | .array items => (compactItemsTo (out.push '[') true items).push ']'
  | .object fields => (compactFieldsTo (out.push '{') true fields).push '}'

/-- Append items, each but the first after a comma. -/
def compactItemsTo (out : String) (first : Bool) : List Json → String
  | [] => out
  | item :: items =>
    compactItemsTo (compactTo (if first then out else out.push ',') item) false items

/-- Append fields, each but the first after a comma. -/
def compactFieldsTo (out : String) (first : Bool) : List (String × Json) → String
  | [] => out
  | (key, value) :: fields =>
    compactFieldsTo
      (compactTo ((quoteTo (if first then out else out.push ',') key).push ':') value) false fields

end

/-- The compact form of a tree. -/
def compact (json : Json) : String := compactTo "" json

/-- Begin a line at a depth. -/
def lineTo (out : String) (depth : Nat) : String :=
  (out.push '\n') ++ String.ofList (List.replicate (2 * depth) ' ')

mutual

/-- Append the indented form of a tree to a text. -/
def indentedTo (out : String) (depth : Nat) : Json → String
  | .null => out ++ "null"
  | .bool b => out ++ (if b then "true" else "false")
  | .number text => out ++ text
  | .string body => quoteTo out body
  | .array [] => out ++ "[]"
  | .array (item :: items) =>
    (lineTo (indentedItemsTo
      (indentedTo (lineTo (out.push '[') (depth + 1)) (depth + 1) item)
      (depth + 1) items) depth).push ']'
  | .object [] => out ++ "\x7b\x7d"
  | .object ((key, value) :: fields) =>
    (lineTo (indentedFieldsTo
      (indentedTo ((quoteTo (lineTo (out.push '{') (depth + 1)) key) ++ ": ") (depth + 1) value)
      (depth + 1) fields) depth).push '}'

/-- Append items after the first, each on its line. -/
def indentedItemsTo (out : String) (depth : Nat) : List Json → String
  | [] => out
  | item :: items =>
    indentedItemsTo (indentedTo (lineTo (out.push ',') depth) depth item) depth items

/-- Append fields after the first, each on its line. -/
def indentedFieldsTo (out : String) (depth : Nat) : List (String × Json) → String
  | [] => out
  | (key, value) :: fields =>
    indentedFieldsTo
      (indentedTo ((quoteTo (lineTo (out.push ',') depth) key) ++ ": ") depth value) depth fields

end

/-- The indented form of a tree. -/
def indented (json : Json) : String := indentedTo "" 0 json

end BinaryGrammar.Json
