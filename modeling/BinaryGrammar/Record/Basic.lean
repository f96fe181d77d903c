/-!
# Authored records

A grammar as its author wrote it, before any text is interpreted. Every attribute is kept as a
text, and one that was not written is the empty text. Elements nest through the element lists of
structures.
-/

set_option autoImplicit false

namespace BinaryGrammar.Record

/-- The attributes that every kind of element has. -/
structure Common where
  id : Nat := 0
  name : String := ""
  description : String := ""
  repeatmin : String := ""
  repeatmax : String := ""
  fillcolor : String := ""
  strokecolor : String := ""
  derives : String := ""
  deriving DecidableEq, Repr, Inhabited

/-- A value that a field may be required to have, and its name. -/
structure FixedValue where
  name : String := ""
  value : String := ""
  description : String := ""
  deriving DecidableEq, Repr, Inhabited

/-- A bit mask and the values its bits may have. -/
structure Mask where
  name : String := ""
  value : String := ""
  description : String := ""
  values : List FixedValue := []
  deriving DecidableEq, Repr, Inhabited

/-- A script's body in a record of its own; what it sets wins over the script's own attributes. -/
structure ScriptSource where
  language : String := ""
  text : String := ""
  deriving DecidableEq, Repr, Inhabited

/-- A script. -/
structure Script where
  name : String := ""
  type : String := ""
  language : String := ""
  text : String := ""
  source : Option ScriptSource := none
  deriving DecidableEq, Repr, Inhabited

/-- The attributes of a structure, its elements apart. -/
structure Struct where
  length : String := ""
  lengthoffset : String := ""
  lengthunit : String := ""
  endian : String := ""
  signed : String := ""
  encoding : String := ""
  order : String := ""
  display : String := ""
  deriving DecidableEq, Repr, Inhabited

/-- The attributes of a number. -/
structure Number where
  type : String := ""
  length : String := ""
  lengthunit : String := ""
  endian : String := ""
  signed : String := ""
  display : String := ""
  mustmatch : String := ""
  values : List FixedValue := []
  masks : List Mask := []
  deriving DecidableEq, Repr, Inhabited

/-- The attributes of a string. -/
structure Str where
  type : String := ""
  length : String := ""
  lengthunit : String := ""
  encoding : String := ""
  delimiter : String := ""
  mustmatch : String := ""
  values : List FixedValue := []
  deriving DecidableEq, Repr, Inhabited

/-- The attributes of a run of bytes. -/
structure Binary where
  length : String := ""
  lengthunit : String := ""
  mustmatch : String := ""
  values : List FixedValue := []
  deriving DecidableEq, Repr, Inhabited

/-- The attributes of an offset. -/
structure Offset where
  length : String := ""
  lengthunit : String := ""
  endian : String := ""
  display : String := ""
  relativeTo : String := ""
  references : String := ""
  referencedSize : String := ""
  followNullReference : String := ""
  additional : String := ""
  deriving DecidableEq, Repr, Inhabited

/-- The attributes of a reference to a structure. -/
structure StructRef where
  target : String := ""
  disabled : String := ""
  deriving DecidableEq, Repr, Inhabited

/-- The attributes of a reference to a grammar. -/
structure GrammarRef where
  grammar : String := ""
  uti : String := ""
  filename : String := ""
  disabled : String := ""
  deriving DecidableEq, Repr, Inhabited

/-- The attributes of a field that a script decodes. -/
structure Custom where
  length : String := ""
  lengthunit : String := ""
  script : String := ""
  deriving DecidableEq, Repr, Inhabited

/-- An element of a grammar. -/
inductive Element where
  | struct (common : Common) (attrs : Struct) (elements : List Element)
  | number (common : Common) (attrs : Number)
  | string (common : Common) (attrs : Str)
  | binary (common : Common) (attrs : Binary)
  | offset (common : Common) (attrs : Offset)
  | structRef (common : Common) (attrs : StructRef)
  | grammarRef (common : Common) (attrs : GrammarRef)
  | custom (common : Common) (attrs : Custom)
  | script (common : Common) (script : Script)
  deriving Inhabited

/-- A grammar. -/
structure Grammar where
  id : Nat := 0
  name : String := ""
  description : String := ""
  author : String := ""
  ext : String := ""
  email : String := ""
  complete : String := ""
  uti : String := ""
  start : String := ""
  elements : List Element := []
  scripts : List Script := []
  deriving Inhabited

/-- A grammar file. -/
structure Document where
  version : String := ""
  grammar : Grammar := {}
  deriving Inhabited

end BinaryGrammar.Record
