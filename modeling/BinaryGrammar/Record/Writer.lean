import BinaryGrammar.Json.Printer
import BinaryGrammar.Record.Basic

/-!
# Records to JSON

Writing gives every field, in order, under its name. The common attributes of an element stand in
the same object as its own.
-/

set_option autoImplicit false

namespace BinaryGrammar.Record

/-- The tree of a fixed value. -/
def FixedValue.toJson (v : FixedValue) : Json :=
  .ofFields
    [("name", .ofText v.name), ("value", .ofText v.value), ("description", .ofText v.description)]

/-- The tree of a mask. -/
def Mask.toJson (m : Mask) : Json :=
  .ofFields
    [("name", .ofText m.name), ("value", .ofText m.value),
      ("description", .ofText m.description), ("values", .array (m.values.map FixedValue.toJson))]

/-- The tree of a script's body. -/
def ScriptSource.toJson (s : ScriptSource) : Json :=
  .ofFields [("language", .ofText s.language), ("text", .ofText s.text)]

/-- The tree of a script. -/
def Script.toJson (s : Script) : Json :=
  .ofFields [("name", .ofText s.name), ("type", .ofText s.type), ("language", .ofText s.language),
    ("text", .ofText s.text),
    ("source", match s.source with
      | some source => source.toJson
      | none => .null)]

/-- The fields of the common attributes. -/
def Common.toFields (c : Common) : List (String × Json) :=
  [("id", .ofNat c.id), ("name", .ofText c.name), ("description", .ofText c.description),
    ("repeatmin", .ofText c.repeatmin), ("repeatmax", .ofText c.repeatmax),
    ("fillcolor", .ofText c.fillcolor), ("strokecolor", .ofText c.strokecolor),
    ("derives", .ofText c.derives)]

/-- The fields of a structure, its elements apart. -/
def Struct.toFields (s : Struct) : List (String × Json) :=
  [("length", .ofText s.length), ("lengthoffset", .ofText s.lengthoffset),
    ("lengthunit", .ofText s.lengthunit), ("endian", .ofText s.endian),
    ("signed", .ofText s.signed), ("encoding", .ofText s.encoding), ("order", .ofText s.order),
    ("display", .ofText s.display)]

/-- The fields of a number. -/
def Number.toFields (n : Number) : List (String × Json) :=
  [("type", .ofText n.type), ("length", .ofText n.length), ("lengthunit", .ofText n.lengthunit),
    ("endian", .ofText n.endian), ("signed", .ofText n.signed), ("display", .ofText n.display),
    ("mustmatch", .ofText n.mustmatch), ("values", .array (n.values.map FixedValue.toJson)),
    ("masks", .array (n.masks.map Mask.toJson))]

/-- The fields of a string. -/
def Str.toFields (s : Str) : List (String × Json) :=
  [("type", .ofText s.type), ("length", .ofText s.length), ("lengthunit", .ofText s.lengthunit),
    ("encoding", .ofText s.encoding), ("delimiter", .ofText s.delimiter),
    ("mustmatch", .ofText s.mustmatch), ("values", .array (s.values.map FixedValue.toJson))]

/-- The fields of a run of bytes. -/
def Binary.toFields (b : Binary) : List (String × Json) :=
  [("length", .ofText b.length), ("lengthunit", .ofText b.lengthunit),
    ("mustmatch", .ofText b.mustmatch), ("values", .array (b.values.map FixedValue.toJson))]

/-- The fields of an offset. -/
def Offset.toFields (o : Offset) : List (String × Json) :=
  [("length", .ofText o.length), ("lengthunit", .ofText o.lengthunit), ("endian", .ofText o.endian),
    ("display", .ofText o.display), ("relative_to", .ofText o.relativeTo),
    ("references", .ofText o.references), ("referenced_size", .ofText o.referencedSize),
    ("follow_null_reference", .ofText o.followNullReference), ("additional", .ofText o.additional)]

/-- The fields of a reference to a structure. -/
def StructRef.toFields (r : StructRef) : List (String × Json) :=
  [("structure", .ofText r.target), ("disabled", .ofText r.disabled)]

/-- The fields of a reference to a grammar. -/
def GrammarRef.toFields (g : GrammarRef) : List (String × Json) :=
  [("grammar", .ofText g.grammar), ("uti", .ofText g.uti), ("filename", .ofText g.filename),
    ("disabled", .ofText g.disabled)]

/-- The fields of a field that a script decodes. -/
def Custom.toFields (c : Custom) : List (String × Json) :=
  [("length", .ofText c.length), ("lengthunit", .ofText c.lengthunit), ("script", .ofText c.script)]

/-- An element's object: its kind and all its fields. -/
def tagged (kind : String) (common : Common) (fields : List (String × Json)) : Json :=
  .ofFields [(kind, .ofFields (common.toFields ++ fields))]

mutual

/-- The tree of an element. -/
def Element.toJson : Element → Json
  | .struct c s elements =>
    tagged "structure" c (s.toFields ++ [("elements", .array (Element.listToJson elements))])
  | .number c n => tagged "number" c n.toFields
  | .string c s => tagged "string" c s.toFields
  | .binary c b => tagged "binary" c b.toFields
  | .offset c o => tagged "offset" c o.toFields
  | .structRef c r => tagged "structref" c r.toFields
  | .grammarRef c g => tagged "grammarref" c g.toFields
  | .custom c u => tagged "custom" c u.toFields
  | .script c s => tagged "script" c [("script", s.toJson)]

/-- The trees of some elements. -/
def Element.listToJson : List Element → List Json
  | [] => []
  | e :: es => e.toJson :: Element.listToJson es

end

/-- The tree of a grammar. -/
def Grammar.toJson (g : Grammar) : Json :=
  .ofFields [("id", .ofNat g.id), ("name", .ofText g.name), ("description", .ofText g.description),
    ("author", .ofText g.author), ("ext", .ofText g.ext), ("email", .ofText g.email),
    ("complete", .ofText g.complete), ("uti", .ofText g.uti), ("start", .ofText g.start),
    ("elements", .array (Element.listToJson g.elements)),
    ("scripts", .array (g.scripts.map Script.toJson))]

/-- The tree of a document. -/
def Document.toJson (d : Document) : Json :=
  .ofFields [("version", .ofText d.version), ("grammar", d.grammar.toJson)]

/-- The text of a grammar file. -/
def Document.write (d : Document) : String := d.toJson.compact

end BinaryGrammar.Record
