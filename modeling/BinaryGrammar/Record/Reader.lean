import BinaryGrammar.Json.Number
import BinaryGrammar.Json.Reader
import BinaryGrammar.Record.Basic

/-!
# Records from JSON

Reading is strict about what it knows and lenient about what it does not: a known key may be given
once, under one of its names, and must have a value of its type, while other keys are skipped.
Records without common attributes may also be written as an array of their fields in order.

Arrays and objects may be nested `depthLimit` deep; the number of levels still allowed is passed
down as `room`. A skipped value of a plain record does not count and only has to be JSON. A skipped
value of an element does count, and its strings and numbers have to denote something.
-/

set_option autoImplicit false

namespace BinaryGrammar.Record

/-- Why a text is not a grammar file. -/
inductive Fault where
  | notJson
  | expected (what : String)
  | repeatedKey (key : String)
  | unknownKind (kind : String)
  | tooDeep
  deriving DecidableEq, Repr

/-- The wording of each cause. -/
def Fault.message : Fault → String
  | .notJson => "the text is not JSON"
  | .expected what => "expected " ++ what
  | .repeatedKey key => "repeated key " ++ key
  | .unknownKind kind => "unknown kind of element " ++ kind
  | .tooDeep => "nested too deep"

/-- How deep arrays and objects may be nested. -/
def depthLimit : Nat := 127

/-- The largest id. -/
def greatestId : Nat := 0xFFFFFFFF

/-! ## Scalars and fields -/

/-- A text. -/
def readText : Json → Except Fault String
  | .string body =>
    match Json.unescape? body with
    | some s => .ok s
    | none => .error (.expected "a string of paired surrogates")
  | _ => .error (.expected "a string")

/-- An id: digits only, without sign, point or exponent. -/
def readId : Json → Except Fault Nat
  | .number text =>
    match Digits.read? 10 text.toList with
    | some n => if n ≤ greatestId then .ok n else .error (.expected "an id")
    | none => .error (.expected "an id")
  | _ => .error (.expected "an id")

/-- The fields of an object, under the texts of their keys. -/
def readKeys (fields : List (String × Json)) : Except Fault (List (String × Json)) :=
  fields.mapM fun (key, value) =>
    match Json.unescape? key with
    | some k => .ok (k, value)
    | none => .error (.expected "a key of paired surrogates")

/-- Name the items of an array in order; every item needs a name. -/
def nameItems : List String → List Json → Except Fault (List (String × Json))
  | _, [] => .ok []
  | [], _ :: _ => .error (.expected "fewer items")
  | name :: names, item :: items =>
    match nameItems names items with
    | .ok rest => .ok ((name, item) :: rest)
    | .error e => .error e

/-- The fields of a plain record and the room inside it. -/
def openRecord (room : Nat) (names : List String) (json : Json) :
    Except Fault (Nat × List (String × Json)) :=
  match json, room with
  | .object fields, room' + 1 => (readKeys fields).map fun fs => (room', fs)
  | .array items, room' + 1 => (nameItems names items).map fun fs => (room', fs)
  | .object _, 0 => .error .tooDeep
  | .array _, 0 => .error .tooDeep
  | _, _ => .error (.expected "a record")

/-- The value of a key that may be given once, under one of its names. -/
def field (fields : List (String × Json)) (names : List String) : Except Fault (Option Json) :=
  match fields.filter fun (key, _) => names.contains key with
  | [] => .ok none
  | [(_, value)] => .ok (some value)
  | (key, _) :: _ => .error (.repeatedKey key)

/-- A text that is empty when its key is not given. -/
def textField (fields : List (String × Json)) (names : List String) : Except Fault String :=
  match field fields names with
  | .ok none => .ok ""
  | .ok (some json) => readText json
  | .error e => .error e

/-- An id that is zero when its key is not given. -/
def idField (fields : List (String × Json)) : Except Fault Nat :=
  match field fields ["id"] with
  | .ok none => .ok 0
  | .ok (some json) => readId json
  | .error e => .error e

/-- Read the items of an array. -/
def readList {α : Type} (room : Nat) (read : Nat → Json → Except Fault α) (json : Json) :
    Except Fault (List α) :=
  match json, room with
  | .array items, room' + 1 => items.mapM (read room')
  | .array _, 0 => .error .tooDeep
  | _, _ => .error (.expected "an array")

/-- A list that is empty when its key is not given. -/
def listField {α : Type} (room : Nat) (fields : List (String × Json)) (name : String)
    (read : Nat → Json → Except Fault α) : Except Fault (List α) :=
  match field fields [name] with
  | .ok none => .ok []
  | .ok (some json) => readList room read json
  | .error e => .error e

/-! ## Plain records -/

/-- The keys of a fixed value, in the order of its array form. -/
def FixedValue.keys : List String := ["name", "value", "description"]

/-- Read a fixed value. -/
def readFixedValue (room : Nat) (json : Json) : Except Fault FixedValue := do
  let (_, fs) ← openRecord room FixedValue.keys json
  return {
    name := ← textField fs ["name"]
    value := ← textField fs ["value"]
    description := ← textField fs ["description"] }

/-- The keys of a mask, in the order of its array form. -/
def Mask.keys : List String := ["name", "value", "description", "values"]

/-- Read a mask. -/
def readMask (room : Nat) (json : Json) : Except Fault Mask := do
  let (room, fs) ← openRecord room Mask.keys json
  return {
    name := ← textField fs ["name"]
    value := ← textField fs ["value"]
    description := ← textField fs ["description"]
    values := ← listField room fs "values" readFixedValue }

/-- The keys of a script source, in the order of its array form. -/
def ScriptSource.keys : List String := ["language", "text"]

/-- Read a script's body. -/
def readScriptSource (room : Nat) (json : Json) : Except Fault ScriptSource := do
  let (_, fs) ← openRecord room ScriptSource.keys json
  return {
    language := ← textField fs ["language"]
    text := ← textField fs ["text"] }

/-- Read a script's body, which may be null. -/
def sourceField (room : Nat) (fields : List (String × Json)) : Except Fault (Option ScriptSource) :=
  match field fields ["source"] with
  | .ok none => .ok none
  | .ok (some .null) => .ok none
  | .ok (some json) => (readScriptSource room json).map some
  | .error e => .error e

/-- The keys of a script, in the order of its array form. -/
def Script.keys : List String := ["name", "type", "language", "text", "source"]

/-- Read a script. -/
def readScript (room : Nat) (json : Json) : Except Fault Script := do
  let (room, fs) ← openRecord room Script.keys json
  return {
    name := ← textField fs ["name"]
    type := ← textField fs ["type"]
    language := ← textField fs ["language"]
    text := ← textField fs ["text"]
    source := ← sourceField room fs }

/-! ## Elements -/

mutual

/-- Whether a skipped value denotes something and is not nested too deep. -/
def isReadable (room : Nat) : Json → Bool
  | .null => true
  | .bool _ => true
  | .number text => Json.isInRange text
  | .string body => (Json.unescape? body).isSome
  | .array items => match room with
    | 0 => false
    | room' + 1 => areReadable room' items
  | .object fields => match room with
    | 0 => false
    | room' + 1 => areReadableFields room' fields

/-- Whether all items of a skipped array denote something. -/
def areReadable (room : Nat) : List Json → Bool
  | [] => true
  | item :: items => isReadable room item && areReadable room items

/-- Whether all fields of a skipped object denote something. -/
def areReadableFields (room : Nat) : List (String × Json) → Bool
  | [] => true
  | (key, value) :: fields =>
    (Json.unescape? key).isSome && isReadable room value && areReadableFields room fields

end

/-- The keys of the attributes that all elements share. -/
def Common.keys : List String :=
  ["id", "name", "description", "repeatmin", "repeatmax", "fillcolor", "strokecolor", "derives",
    "extends"]

/-- Read the common attributes of an element. -/
def readCommon (fs : List (String × Json)) : Except Fault Common := do
  return {
    id := ← idField fs
    name := ← textField fs ["name"]
    description := ← textField fs ["description"]
    repeatmin := ← textField fs ["repeatmin"]
    repeatmax := ← textField fs ["repeatmax"]
    fillcolor := ← textField fs ["fillcolor"]
    strokecolor := ← textField fs ["strokecolor"]
    derives := ← textField fs ["derives", "extends"] }

/-- The fields of an element and the room inside it; all keys but the given ones and the common
ones are skipped. -/
def openElement (room : Nat) (keys : List String) (json : Json) :
    Except Fault (Nat × List (String × Json)) :=
  match json, room with
  | .object fields, room' + 1 => do
    let fs ← readKeys fields
    let skipped := fs.filter fun (key, _) => !(keys.contains key || Common.keys.contains key)
    if skipped.all fun (_, value) => isReadable room' value then return (room', fs)
    else throw (.expected "a readable value")
  | .object _, 0 => .error .tooDeep
  | _, _ => .error (.expected "an object")

/-- The keys of a structure. -/
def Struct.keys : List String :=
  ["length", "lengthoffset", "lengthunit", "endian", "signed", "encoding", "order", "display",
    "elements"]

/-- Read the attributes of a structure, but not its elements. -/
def readStructAttrs (fs : List (String × Json)) : Except Fault Struct := do
  return {
    length := ← textField fs ["length"]
    lengthoffset := ← textField fs ["lengthoffset"]
    lengthunit := ← textField fs ["lengthunit"]
    endian := ← textField fs ["endian"]
    signed := ← textField fs ["signed"]
    encoding := ← textField fs ["encoding"]
    order := ← textField fs ["order"]
    display := ← textField fs ["display"] }

/-- The keys of a number. -/
def Number.keys : List String :=
  ["type", "length", "lengthunit", "endian", "signed", "display", "mustmatch", "values", "masks"]

/-- Read a number. -/
def readNumber (room : Nat) (json : Json) : Except Fault Element := do
  let (room, fs) ← openElement room Number.keys json
  let common ← readCommon fs
  return .number common {
    type := ← textField fs ["type"]
    length := ← textField fs ["length"]
    lengthunit := ← textField fs ["lengthunit"]
    endian := ← textField fs ["endian"]
    signed := ← textField fs ["signed"]
    display := ← textField fs ["display"]
    mustmatch := ← textField fs ["mustmatch"]
    values := ← listField room fs "values" readFixedValue
    masks := ← listField room fs "masks" readMask }

/-- The keys of a string. -/
def Str.keys : List String :=
  ["type", "length", "lengthunit", "encoding", "delimiter", "mustmatch", "values"]

/-- Read a string. -/
def readStr (room : Nat) (json : Json) : Except Fault Element := do
  let (room, fs) ← openElement room Str.keys json
  let common ← readCommon fs
  return .string common {
    type := ← textField fs ["type"]
    length := ← textField fs ["length"]
    lengthunit := ← textField fs ["lengthunit"]
    encoding := ← textField fs ["encoding"]
    delimiter := ← textField fs ["delimiter"]
    mustmatch := ← textField fs ["mustmatch"]
    values := ← listField room fs "values" readFixedValue }

/-- The keys of a run of bytes. -/
def Binary.keys : List String := ["length", "lengthunit", "mustmatch", "values"]

/-- Read a run of bytes. -/
def readBinary (room : Nat) (json : Json) : Except Fault Element := do
  let (room, fs) ← openElement room Binary.keys json
  let common ← readCommon fs
  return .binary common {
    length := ← textField fs ["length"]
    lengthunit := ← textField fs ["lengthunit"]
    mustmatch := ← textField fs ["mustmatch"]
    values := ← listField room fs "values" readFixedValue }

/-- The keys of an offset. -/
def Offset.keys : List String :=
  ["length", "lengthunit", "endian", "display", "relative_to", "references", "referenced_size",
    "follow_null_reference", "additional"]

/-- Read an offset. -/
def readOffset (room : Nat) (json : Json) : Except Fault Element := do
  let (_, fs) ← openElement room Offset.keys json
  let common ← readCommon fs
  return .offset common {
    length := ← textField fs ["length"]
    lengthunit := ← textField fs ["lengthunit"]
    endian := ← textField fs ["endian"]
    display := ← textField fs ["display"]
    relativeTo := ← textField fs ["relative_to"]
    references := ← textField fs ["references"]
    referencedSize := ← textField fs ["referenced_size"]
    followNullReference := ← textField fs ["follow_null_reference"]
    additional := ← textField fs ["additional"] }

/-- The keys of a reference to a structure. -/
def StructRef.keys : List String := ["structure", "disabled"]

/-- Read a reference to a structure. -/
def readStructRef (room : Nat) (json : Json) : Except Fault Element := do
  let (_, fs) ← openElement room StructRef.keys json
  let common ← readCommon fs
  return .structRef common {
    target := ← textField fs ["structure"]
    disabled := ← textField fs ["disabled"] }

/-- The keys of a reference to a grammar. -/
def GrammarRef.keys : List String := ["grammar", "uti", "filename", "disabled"]

/-- Read a reference to a grammar. -/
def readGrammarRef (room : Nat) (json : Json) : Except Fault Element := do
  let (_, fs) ← openElement room GrammarRef.keys json
  let common ← readCommon fs
  return .grammarRef common {
    grammar := ← textField fs ["grammar"]
    uti := ← textField fs ["uti"]
    filename := ← textField fs ["filename"]
    disabled := ← textField fs ["disabled"] }

/-- The keys of a field that a script decodes. -/
def Custom.keys : List String := ["length", "lengthunit", "script"]

/-- Read a field that a script decodes. -/
def readCustom (room : Nat) (json : Json) : Except Fault Element := do
  let (_, fs) ← openElement room Custom.keys json
  let common ← readCommon fs
  return .custom common {
    length := ← textField fs ["length"]
    lengthunit := ← textField fs ["lengthunit"]
    script := ← textField fs ["script"] }

/-- Read a script among the elements of a structure. -/
def readScriptElement (room : Nat) (json : Json) : Except Fault Element := do
  let (room, fs) ← openElement room ["script"] json
  let common ← readCommon fs
  let script ← match ← field fs ["script"] with
    | none => pure {}
    | some json => readScript room json
  return .script common script

/-- Read an element of a kind other than structure. -/
def readLeaf (kind : String) (room : Nat) (json : Json) : Except Fault Element :=
  match kind with
  | "number" => readNumber room json
  | "string" => readStr room json
  | "binary" => readBinary room json
  | "offset" => readOffset room json
  | "structref" => readStructRef room json
  | "grammarref" => readGrammarRef room json
  | "custom" => readCustom room json
  | "script" => readScriptElement room json
  | _ => .error (.unknownKind kind)

/-- Read a structure, given how to read one of its elements with the room inside their array. -/
def readStructure (room : Nat) (readInner : Except Fault (Json → Except Fault Element))
    (json : Json) : Except Fault Element := do
  let (_, fs) ← openElement room Struct.keys json
  let common ← readCommon fs
  let attrs ← readStructAttrs fs
  match ← field fs ["elements"] with
  | none => return .struct common attrs []
  | some (.array items) => do
    let read ← readInner
    return .struct common attrs (← items.mapM read)
  | some _ => throw (.expected "an array")

/-- Read an element: an object whose only key is the kind. -/
def readElement : Nat → Json → Except Fault Element
  | 0, .object _ => .error .tooDeep
  | room + 1, .object [(key, body)] =>
    match Json.unescape? key with
    | none => .error (.expected "a kind of element")
    | some "structure" =>
      match room with
      | inside + 2 => readStructure room (.ok (readElement inside)) body
      | _ => readStructure room (.error .tooDeep) body
    | some kind => readLeaf kind room body
  | _, _ => .error (.expected "an element")

/-! ## Documents -/

/-- The keys of a grammar, in the order of its array form. -/
def Grammar.keys : List String :=
  ["id", "name", "description", "author", "ext", "email", "complete", "uti", "start", "elements",
    "scripts"]

/-- Read a grammar. -/
def readGrammar (room : Nat) (json : Json) : Except Fault Grammar := do
  let (room, fs) ← openRecord room Grammar.keys json
  return {
    id := ← idField fs
    name := ← textField fs ["name"]
    description := ← textField fs ["description"]
    author := ← textField fs ["author"]
    ext := ← textField fs ["ext", "fileextension"]
    email := ← textField fs ["email"]
    complete := ← textField fs ["complete"]
    uti := ← textField fs ["uti"]
    start := ← textField fs ["start"]
    elements := ← listField room fs "elements" readElement
    scripts := ← listField room fs "scripts" readScript }

/-- The keys of a document, in the order of its array form. -/
def Document.keys : List String := ["version", "grammar"]

/-- Read a document from a tree. -/
def Document.ofJson (json : Json) : Except Fault Document := do
  let (room, fs) ← openRecord depthLimit Document.keys json
  let version ← textField fs ["version"]
  let grammar ← match ← field fs ["grammar"] with
    | none => pure {}
    | some json => readGrammar room json
  return { version, grammar }

/-- Read a document from the text of a grammar file. -/
def Document.parse (text : String) : Except Fault Document :=
  match Json.parse? text with
  | some json => Document.ofJson json
  | none => .error .notJson

end BinaryGrammar.Record
