import BinaryGrammar.Proofs.JsonText
import BinaryGrammar.Record.Reader
import BinaryGrammar.Record.Writer

/-!
# Records read back

A grammar file that is written from a document reads back as that document, as long as its arrays
and objects are nested no deeper than a reader allows. Writer and reader list the fields of each
record separately, so the argument has one lemma for each record: what is written under a key is
found under that key and nothing else is. An element's own fields share an object with the common
ones; they do not get in each other's way because no kind has a key that all elements have.

Depth is counted once, on the written tree. Whatever room is left when a record begins covers the
depth of that record's tree, and then the room inside covers its fields.
-/

set_option autoImplicit false

namespace BinaryGrammar

namespace Json

variable {room : Nat} {items : List Json} {fields : List (String × Json)}

/-! ## Depth -/

mutual

/-- How deep the arrays and objects of a tree are nested. -/
def depth : Json → Nat
  | .array items => depthOfItems items + 1
  | .object fields => depthOfFields fields + 1
  | _ => 0

/-- The greatest depth of some items. -/
def depthOfItems : List Json → Nat
  | [] => 0
  | item :: items => max item.depth (depthOfItems items)

/-- The greatest depth of some fields. -/
def depthOfFields : List (String × Json) → Nat
  | [] => 0
  | (_, value) :: fields => max value.depth (depthOfFields fields)

end

theorem depth_le_of_mem_items {item : Json} (h : item ∈ items) :
    item.depth ≤ depthOfItems items := by
  induction items with
  | nil => cases h
  | cons first items ih =>
      rw [depthOfItems]
      rcases List.mem_cons.mp h with rfl | h
      · exact Nat.le_max_left _ _
      · exact Nat.le_trans (ih h) (Nat.le_max_right _ _)

/-- The room that an array needs, and what it leaves for the items. -/
theorem room_of_array (h : (Json.array items).depth ≤ room) :
    ∃ inside, room = inside + 1 ∧ ∀ item ∈ items, item.depth ≤ inside := by
  rw [depth] at h
  obtain ⟨inside, rfl⟩ := Nat.exists_eq_succ_of_ne_zero (show room ≠ 0 by omega)
  refine ⟨inside, rfl, fun item hitem => ?_⟩
  have hle := depth_le_of_mem_items hitem
  omega

theorem depth_le_of_mem_fields {field : String × Json} (f : String → String)
    (h : field ∈ fields) :
    field.2.depth ≤ depthOfFields (fields.map fun (key, value) => (f key, value)) := by
  induction fields with
  | nil => cases h
  | cons first fields ih =>
      rw [List.map_cons, depthOfFields]
      rcases List.mem_cons.mp h with rfl | h
      · exact Nat.le_max_left _ _
      · exact Nat.le_trans (ih h) (Nat.le_max_right _ _)

/-- The room that an object needs, and what it leaves for the fields. -/
theorem room_of_ofFields (h : (ofFields fields).depth ≤ room) :
    ∃ inside, room = inside + 1 ∧ ∀ field ∈ fields, field.2.depth ≤ inside := by
  rw [ofFields, depth] at h
  obtain ⟨inside, rfl⟩ := Nat.exists_eq_succ_of_ne_zero (show room ≠ 0 by omega)
  refine ⟨inside, rfl, fun field hfield => ?_⟩
  exact Nat.le_trans (depth_le_of_mem_fields escape hfield) (Nat.le_of_succ_le_succ h)

/-! ## Trees of records -/

@[simp]
theorem denotes_null : Json.null.Denotes := trivial

@[simp]
theorem denotes_ofText (s : String) : (ofText s).Denotes := ⟨s, rfl⟩

@[simp]
theorem denotes_ofNat (n : Nat) : (ofNat n).Denotes := ⟨n, rfl⟩

@[simp]
theorem denotes_array : (Json.array items).Denotes ↔ ∀ item ∈ items, item.Denotes := by
  rw [Denotes]
  induction items with
  | nil => simp [DenoteAll]
  | cons item items ih => simp [DenoteAll, ih]

@[simp]
theorem denotes_ofFields : (ofFields fields).Denotes ↔ ∀ field ∈ fields, field.2.Denotes := by
  rw [ofFields, Denotes]
  induction fields with
  | nil => simp [FieldsDenote]
  | cons field fields ih => simp [FieldsDenote, ih]

end Json

namespace Record

variable {room : Nat} {fields own : List (String × Json)} {names keys : List String} {c : Common}

/-! ## Scalars -/

@[simp]
theorem ok_bind {α β : Type} (a : α) (f : α → Except Fault β) :
    ((Except.ok a : Except Fault α) >>= f) = f a :=
  rfl

@[simp]
theorem pure_eq_ok {α : Type} (a : α) : (pure a : Except Fault α) = .ok a := rfl

@[simp]
theorem readText_ofText (s : String) : readText (.ofText s) = .ok s := by
  simp [readText, Json.ofText, Json.unescape?_escape]

theorem readId_ofNat {n : Nat} (h : n ≤ greatestId) : readId (.ofNat n) = .ok n := by
  have hread : Digits.read? 10 (Digits.decimal n).toList = some n := by
    rw [Digits.decimal, String.toList_ofList, Digits.read?_write (by decide) (by decide)]
  simp [readId, Json.ofNat, hread, h]

/-! ## Objects and arrays -/

/-- Keys survive their escapes. -/
theorem readKeys_escaped (fields : List (String × Json)) :
    readKeys (fields.map fun (key, value) => (Json.escape key, value)) = .ok fields := by
  unfold readKeys
  induction fields with
  | nil => rfl
  | cons field fields ih => simp [ih, Json.unescape?_escape]

@[simp]
theorem openRecord_ofFields (room : Nat) (names : List String) (fields : List (String × Json)) :
    openRecord (room + 1) names (.ofFields fields) = .ok (room, fields) := by
  simp [openRecord, Json.ofFields, readKeys_escaped, Except.map]

/-- A list reads back if each of its members does. -/
theorem readList_map {α : Type} {read : Nat → Json → Except Fault α} {write : α → Json}
    {values : List α} (h : (Json.array (values.map write)).depth ≤ room)
    (hread : ∀ value room, (write value).depth ≤ room → read room (write value) = .ok value) :
    readList room read (.array (values.map write)) = .ok values := by
  obtain ⟨inside, rfl, hitems⟩ := Json.room_of_array h
  rw [readList]
  clear h
  induction values with
  | nil => rfl
  | cons value values ih =>
      obtain ⟨hvalue, hvalues⟩ := List.forall_mem_cons.mp hitems
      rw [List.map_cons, List.mapM_cons, hread value inside hvalue, ih hvalues]
      rfl

/-! ## Plain records -/

theorem readFixedValue_toJson (v : FixedValue) (room : Nat) (h : v.toJson.depth ≤ room) :
    readFixedValue room v.toJson = .ok v := by
  obtain ⟨inside, rfl, -⟩ := Json.room_of_ofFields h
  simp [readFixedValue, FixedValue.toJson, textField, field]

theorem readMask_toJson (m : Mask) (room : Nat) (h : m.toJson.depth ≤ room) :
    readMask room m.toJson = .ok m := by
  obtain ⟨inside, rfl, hfields⟩ := Json.room_of_ofFields h
  have hdepth : (Json.array (m.values.map FixedValue.toJson)).depth ≤ inside :=
    hfields ("values", _) (by simp)
  have hvalues := readList_map hdepth readFixedValue_toJson
  simp [readMask, Mask.toJson, textField, listField, field, hvalues]

theorem readScriptSource_toJson (s : ScriptSource) (room : Nat) (h : s.toJson.depth ≤ room) :
    readScriptSource room s.toJson = .ok s := by
  obtain ⟨inside, rfl, -⟩ := Json.room_of_ofFields h
  simp [readScriptSource, ScriptSource.toJson, textField, field]

theorem sourceField_toJson {s : ScriptSource} (h : s.toJson.depth ≤ room)
    (hfield : field fields ["source"] = .ok (some s.toJson)) :
    sourceField room fields = .ok (some s) := by
  -- a body is written as an object, so it is not taken for an absent one
  have hread : sourceField room fields = (readScriptSource room s.toJson).map some := by
    rw [sourceField, hfield]
    rfl
  rw [hread, readScriptSource_toJson s room h]
  rfl

theorem readScript_toJson (s : Script) (room : Nat) (h : s.toJson.depth ≤ room) :
    readScript room s.toJson = .ok s := by
  obtain ⟨inside, rfl, hfields⟩ := Json.room_of_ofFields h
  obtain ⟨name, type, language, text, source⟩ := s
  cases source with
  | none => simp [readScript, Script.toJson, textField, sourceField, field]
  | some source =>
      have hdepth : source.toJson.depth ≤ inside := hfields ("source", source.toJson) (by simp)
      simp [readScript, Script.toJson, textField, sourceField_toJson hdepth, field]

/-! ## Elements -/

theorem filter_eq_nil (h : ∀ key ∈ fields.map Prod.fst, key ∉ names) :
    fields.filter (fun (key, _) => names.contains key) = [] := by
  rw [List.filter_eq_nil_iff]
  intro field hfield
  simpa using h field.1 (List.mem_map_of_mem hfield)

theorem field_append_left (h : ∀ key ∈ own.map Prod.fst, key ∉ names) :
    field (fields ++ own) names = field fields names := by
  unfold field
  rw [List.filter_append, filter_eq_nil h, List.append_nil]

theorem field_append_right (h : ∀ key ∈ fields.map Prod.fst, key ∉ names) :
    field (fields ++ own) names = field own names := by
  unfold field
  rw [List.filter_append, filter_eq_nil h, List.nil_append]

theorem mem_keys_of_toFields (c : Common) : ∀ key ∈ c.toFields.map Prod.fst, key ∈ Common.keys := by
  simp [Common.toFields, Common.keys]

/-- Fields under their keys, none of which is a common one. -/
structure Own (keys : List String) (own : List (String × Json)) : Prop where
  keys_eq : own.map Prod.fst = keys
  apart : ∀ key ∈ keys, key ∉ Common.keys

/-- An element's own fields are found as if they stood alone. -/
theorem field_own (h : ∀ name ∈ names, name ∉ Common.keys) :
    field (c.toFields ++ own) names = field own names :=
  field_append_right fun key hkey hname => h key hname (mem_keys_of_toFields c key hkey)

/-- So are the common ones. -/
theorem readCommon_append (hown : Own keys own) (hid : c.id ≤ greatestId) :
    readCommon (c.toFields ++ own) = .ok c := by
  have hfield {names : List String} (h : ∀ name ∈ names, name ∈ Common.keys) :
      field (c.toFields ++ own) names = field c.toFields names := by
    refine field_append_left fun key hkey hname => ?_
    rw [hown.keys_eq] at hkey
    exact hown.apart key hkey (h key hname)
  -- the names that are looked up are given, so that they are common ones is decided for each
  simp (disch := decide) only [readCommon, idField, textField, hfield]
  simp [field, Common.toFields, readId_ofNat hid]

/-- Nothing that is written of an element is skipped. -/
theorem openElement_ofFields (room : Nat) (hown : Own keys own) :
    openElement (room + 1) keys (.ofFields (c.toFields ++ own)) =
      .ok (room, c.toFields ++ own) := by
  have hskipped : (c.toFields ++ own).filter
      (fun (key, _) => !(keys.contains key || Common.keys.contains key)) = [] := by
    rw [List.filter_eq_nil_iff]
    intro field hfield
    rcases List.mem_append.mp hfield with hcommon | hmem
    · have hkey := mem_keys_of_toFields c field.1 (List.mem_map_of_mem hcommon)
      simp [hkey]
    · have hkey : field.1 ∈ keys := hown.keys_eq ▸ List.mem_map_of_mem hmem
      simp [hkey]
  simp only [openElement, Json.ofFields, readKeys_escaped, ok_bind, hskipped, List.all_nil, if_true,
    pure_eq_ok]

/-- Whether a reader of elements gets an element back from its fields. -/
def Returns (read : Nat → Json → Except Fault Element) (c : Common) (own : List (String × Json))
    (e : Element) : Prop :=
  ∀ room, (Json.ofFields (c.toFields ++ own)).depth ≤ room →
    read room (.ofFields (c.toFields ++ own)) = .ok e

theorem readNumber_returns (n : Number) (hid : c.id ≤ greatestId) :
    Returns readNumber c n.toFields (.number c n) := by
  intro room h
  obtain ⟨inside, rfl, hfields⟩ := Json.room_of_ofFields h
  have hown : Own Number.keys n.toFields := ⟨rfl, by decide⟩
  have hvalues : (Json.array (n.values.map FixedValue.toJson)).depth ≤ inside :=
    hfields ("values", _) (by simp [Number.toFields])
  have hmasks : (Json.array (n.masks.map Mask.toJson)).depth ≤ inside :=
    hfields ("masks", _) (by simp [Number.toFields])
  simp (disch := decide) only [readNumber, openElement_ofFields inside hown,
    readCommon_append hown hid, ok_bind, textField, listField, field_own]
  simp [field, Number.toFields, readList_map hvalues readFixedValue_toJson,
    readList_map hmasks readMask_toJson]

theorem readStr_returns (s : Str) (hid : c.id ≤ greatestId) :
    Returns readStr c s.toFields (.string c s) := by
  intro room h
  obtain ⟨inside, rfl, hfields⟩ := Json.room_of_ofFields h
  have hown : Own Str.keys s.toFields := ⟨rfl, by decide⟩
  have hvalues : (Json.array (s.values.map FixedValue.toJson)).depth ≤ inside :=
    hfields ("values", _) (by simp [Str.toFields])
  simp (disch := decide) only [readStr, openElement_ofFields inside hown,
    readCommon_append hown hid, ok_bind, textField, listField, field_own]
  simp [field, Str.toFields, readList_map hvalues readFixedValue_toJson]

theorem readBinary_returns (b : Binary) (hid : c.id ≤ greatestId) :
    Returns readBinary c b.toFields (.binary c b) := by
  intro room h
  obtain ⟨inside, rfl, hfields⟩ := Json.room_of_ofFields h
  have hown : Own Binary.keys b.toFields := ⟨rfl, by decide⟩
  have hvalues : (Json.array (b.values.map FixedValue.toJson)).depth ≤ inside :=
    hfields ("values", _) (by simp [Binary.toFields])
  simp (disch := decide) only [readBinary, openElement_ofFields inside hown,
    readCommon_append hown hid, ok_bind, textField, listField, field_own]
  simp [field, Binary.toFields, readList_map hvalues readFixedValue_toJson]

theorem readOffset_returns (o : Offset) (hid : c.id ≤ greatestId) :
    Returns readOffset c o.toFields (.offset c o) := by
  intro room h
  obtain ⟨inside, rfl, -⟩ := Json.room_of_ofFields h
  have hown : Own Offset.keys o.toFields := ⟨rfl, by decide⟩
  simp (disch := decide) only [readOffset, openElement_ofFields inside hown,
    readCommon_append hown hid, ok_bind, textField, field_own]
  simp [field, Offset.toFields]

theorem readStructRef_returns (r : StructRef) (hid : c.id ≤ greatestId) :
    Returns readStructRef c r.toFields (.structRef c r) := by
  intro room h
  obtain ⟨inside, rfl, -⟩ := Json.room_of_ofFields h
  have hown : Own StructRef.keys r.toFields := ⟨rfl, by decide⟩
  simp (disch := decide) only [readStructRef, openElement_ofFields inside hown,
    readCommon_append hown hid, ok_bind, textField, field_own]
  simp [field, StructRef.toFields]

theorem readGrammarRef_returns (g : GrammarRef) (hid : c.id ≤ greatestId) :
    Returns readGrammarRef c g.toFields (.grammarRef c g) := by
  intro room h
  obtain ⟨inside, rfl, -⟩ := Json.room_of_ofFields h
  have hown : Own GrammarRef.keys g.toFields := ⟨rfl, by decide⟩
  simp (disch := decide) only [readGrammarRef, openElement_ofFields inside hown,
    readCommon_append hown hid, ok_bind, textField, field_own]
  simp [field, GrammarRef.toFields]

theorem readCustom_returns (u : Custom) (hid : c.id ≤ greatestId) :
    Returns readCustom c u.toFields (.custom c u) := by
  intro room h
  obtain ⟨inside, rfl, -⟩ := Json.room_of_ofFields h
  have hown : Own Custom.keys u.toFields := ⟨rfl, by decide⟩
  simp (disch := decide) only [readCustom, openElement_ofFields inside hown,
    readCommon_append hown hid, ok_bind, textField, field_own]
  simp [field, Custom.toFields]

theorem readScriptElement_returns (s : Script) (hid : c.id ≤ greatestId) :
    Returns readScriptElement c [("script", s.toJson)] (.script c s) := by
  intro room h
  obtain ⟨inside, rfl, hfields⟩ := Json.room_of_ofFields h
  have hown : Own ["script"] [("script", s.toJson)] := ⟨rfl, by decide⟩
  have hscript : s.toJson.depth ≤ inside := hfields ("script", s.toJson) (by simp)
  simp (disch := decide) only [readScriptElement, openElement_ofFields inside hown,
    readCommon_append hown hid, ok_bind, field_own]
  simp [field, readScript_toJson s inside hscript]

/-- An element of a kind other than structure reads back as its fields do. -/
theorem readElement_tagged {kind : String} {read : Nat → Json → Except Fault Element} {e : Element}
    (hkind : readLeaf kind = read) (hstructure : kind ≠ "structure")
    (hreturns : Returns read c own e) (h : (tagged kind c own).depth ≤ room) :
    readElement room (tagged kind c own) = .ok e := by
  obtain ⟨inside, rfl, hfields⟩ := Json.room_of_ofFields h
  have hdepth := hfields (kind, .ofFields (c.toFields ++ own)) (by simp)
  have hread := hreturns inside hdepth
  rw [← hkind] at hread
  rw [tagged, Json.ofFields, List.map_cons, List.map_nil, readElement.eq_def]
  simp only [Json.unescape?_escape]
  exact hread

theorem readStructAttrs_append (s : Struct) (items : Json) :
    readStructAttrs (c.toFields ++ (s.toFields ++ [("elements", items)])) = .ok s := by
  simp (disch := decide) only [readStructAttrs, textField, field_own]
  simp [field, Struct.toFields]

/-- A structure reads back if its elements do. -/
theorem readStructure_ofFields {s : Struct} {items : List Json} {elements : List Element}
    {read : Json → Except Fault Element} (hid : c.id ≤ greatestId)
    (hread : items.mapM read = .ok elements) :
    readStructure (room + 1) (.ok read)
        (.ofFields (c.toFields ++ (s.toFields ++ [("elements", .array items)]))) =
      .ok (.struct c s elements) := by
  have hown : Own Struct.keys (s.toFields ++ [("elements", .array items)]) := ⟨rfl, by decide⟩
  simp (disch := decide) only [readStructure, openElement_ofFields room hown,
    readCommon_append hown hid, readStructAttrs_append, ok_bind, field_own]
  simp [field, Struct.toFields, hread]

/-! ## Ids -/

mutual

/-- Whether the ids of an element and of those inside it are words of thirty-two bits. -/
def Element.IdsFit : Element → Prop
  | .struct c _ elements => c.id ≤ greatestId ∧ Element.AllIdsFit elements
  | .number c _ | .string c _ | .binary c _ | .offset c _ | .structRef c _ | .grammarRef c _
  | .custom c _ | .script c _ => c.id ≤ greatestId

/-- Whether the ids of some elements are. -/
def Element.AllIdsFit : List Element → Prop
  | [] => True
  | e :: es => e.IdsFit ∧ Element.AllIdsFit es

end

/-- Whether all ids of a document are. -/
def Document.IdsFit (d : Document) : Prop :=
  d.grammar.id ≤ greatestId ∧ Element.AllIdsFit d.grammar.elements

/-! ## All records -/

mutual

/-- An element reads back with everything inside it, in any room that covers its depth. -/
theorem readElement_toJson {room : Nat} : (e : Element) → e.IdsFit → e.toJson.depth ≤ room →
    readElement room e.toJson = .ok e
  | .struct c s elements, hids, h => by
      obtain ⟨hid, hids⟩ := hids
      -- three levels: an object for the kind, one for the fields, and the array of the elements
      obtain ⟨room, rfl, hkind⟩ := Json.room_of_ofFields h
      have hbody := hkind ("structure", _) List.mem_cons_self
      obtain ⟨room, rfl, hfields⟩ := Json.room_of_ofFields hbody
      have harray : (Json.array (Element.listToJson elements)).depth ≤ room :=
        hfields ("elements", _) (by simp)
      obtain ⟨inside, rfl, hitems⟩ := Json.room_of_array harray
      have hread := mapM_readElement elements hids hitems
      rw [Element.toJson, tagged, Json.ofFields, List.map_cons, List.map_nil, readElement]
      simp only [Json.unescape?_escape]
      exact readStructure_ofFields hid hread
  | .number c n, hid, h => readElement_tagged rfl (by decide) (readNumber_returns n hid) h
  | .string c s, hid, h => readElement_tagged rfl (by decide) (readStr_returns s hid) h
  | .binary c b, hid, h => readElement_tagged rfl (by decide) (readBinary_returns b hid) h
  | .offset c o, hid, h => readElement_tagged rfl (by decide) (readOffset_returns o hid) h
  | .structRef c r, hid, h => readElement_tagged rfl (by decide) (readStructRef_returns r hid) h
  | .grammarRef c g, hid, h => readElement_tagged rfl (by decide) (readGrammarRef_returns g hid) h
  | .custom c u, hid, h => readElement_tagged rfl (by decide) (readCustom_returns u hid) h
  | .script c s, hid, h => readElement_tagged rfl (by decide) (readScriptElement_returns s hid) h

theorem mapM_readElement {room : Nat} : (es : List Element) → Element.AllIdsFit es →
    (∀ item ∈ Element.listToJson es, item.depth ≤ room) →
      (Element.listToJson es).mapM (readElement room) = .ok es
  | [], _, _ => rfl
  | e :: es, hids, h => by
      obtain ⟨he, hes⟩ := List.forall_mem_cons.mp h
      rw [Element.listToJson, List.mapM_cons, readElement_toJson e hids.1 he,
        mapM_readElement es hids.2 hes]
      rfl

end

theorem readGrammar_toJson {g : Grammar} (hid : g.id ≤ greatestId)
    (hids : Element.AllIdsFit g.elements) (h : g.toJson.depth ≤ room) :
    readGrammar room g.toJson = .ok g := by
  obtain ⟨inside, rfl, hfields⟩ := Json.room_of_ofFields h
  have helements : (Json.array (Element.listToJson g.elements)).depth ≤ inside :=
    hfields ("elements", _) (by simp)
  have hscripts : (Json.array (g.scripts.map Script.toJson)).depth ≤ inside :=
    hfields ("scripts", _) (by simp)
  have hread : readList inside readElement (.array (Element.listToJson g.elements)) =
      .ok g.elements := by
    obtain ⟨room, rfl, hitems⟩ := Json.room_of_array helements
    exact mapM_readElement g.elements hids hitems
  simp [readGrammar, Grammar.toJson, idField, textField, listField, field, readId_ofNat hid, hread,
    readList_map hscripts readScript_toJson]

theorem ofJson_toJson {d : Document} (hids : d.IdsFit) (h : d.toJson.depth ≤ depthLimit) :
    Document.ofJson d.toJson = .ok d := by
  obtain ⟨inside, hinside, hfields⟩ := Json.room_of_ofFields h
  have hgrammar : d.grammar.toJson.depth ≤ inside := hfields ("grammar", d.grammar.toJson) (by simp)
  rw [Document.ofJson, hinside]
  simp [Document.toJson, textField, field, readGrammar_toJson hids.1 hids.2 hgrammar]

/-! ## Texts -/

theorem FixedValue.denotes (v : FixedValue) : v.toJson.Denotes := by
  simp [FixedValue.toJson]

theorem Mask.denotes (m : Mask) : m.toJson.Denotes := by
  simp [Mask.toJson, FixedValue.denotes]

theorem Script.denotes (s : Script) : s.toJson.Denotes := by
  obtain ⟨name, type, language, text, source⟩ := s
  cases source <;> simp [Script.toJson, ScriptSource.toJson]

theorem denotes_tagged {kind : String} (h : ∀ field ∈ own, field.2.Denotes) :
    (tagged kind c own).Denotes := by
  have hcommon : ∀ field ∈ c.toFields, field.2.Denotes := by simp [Common.toFields]
  simp only [tagged, Json.denotes_ofFields, List.mem_singleton, forall_eq]
  intro field hfield
  rcases List.mem_append.mp hfield with hmem | hmem
  · exact hcommon field hmem
  · exact h field hmem

mutual

theorem Element.denotes : (e : Element) → e.toJson.Denotes
  | .struct c s elements => by
      have helements := Element.denotes_listToJson elements
      refine denotes_tagged ?_
      simpa [Struct.toFields] using helements
  | .number c n =>
      denotes_tagged (by simp [Number.toFields, FixedValue.denotes, Mask.denotes])
  | .string c s => denotes_tagged (by simp [Str.toFields, FixedValue.denotes])
  | .binary c b => denotes_tagged (by simp [Binary.toFields, FixedValue.denotes])
  | .offset c o => denotes_tagged (by simp [Offset.toFields])
  | .structRef c r => denotes_tagged (by simp [StructRef.toFields])
  | .grammarRef c g => denotes_tagged (by simp [GrammarRef.toFields])
  | .custom c u => denotes_tagged (by simp [Custom.toFields])
  | .script c s => denotes_tagged (by simp [Script.denotes])

theorem Element.denotes_listToJson : (es : List Element) →
    ∀ item ∈ Element.listToJson es, item.Denotes
  | [] => by simp [Element.listToJson]
  | e :: es => by
      have he := Element.denotes e
      have hes := Element.denotes_listToJson es
      rw [Element.listToJson]
      exact List.forall_mem_cons.mpr ⟨he, hes⟩

end

theorem Document.denotes (d : Document) : d.toJson.Denotes := by
  have helements := Element.denotes_listToJson d.grammar.elements
  simpa [Document.toJson, Grammar.toJson, Script.denotes] using helements

/-- **A document that is written reads back**, if its tree is nested no deeper than a reader allows.
Ids are words of thirty-two bits; no file holds others. -/
theorem parse_write {d : Document} (hids : d.IdsFit) (h : d.toJson.depth ≤ depthLimit) :
    Document.parse d.write = .ok d := by
  rw [Document.parse, Document.write, Json.parse?_compact (Document.denotes d)]
  exact ofJson_toJson hids h

/-- A document with nested structures, fixed values, masks, a script with a body of its own, and
texts that need escapes. -/
def nestedDocument : Document where
  version := "1.0 \"draft\"\n"
  grammar := {
    id := 1
    name := "héader \\ body"
    ext := "png"
    elements := [
      .struct { id := 2, name := "outer", derives := "base" } { length := "16" } [
        .struct { id := 3, name := "inner" } {} [
          .number { id := 4, name := "flags" } {
            type := "integer"
            values := [{ name := "none", value := "0" }]
            masks := [{ name := "low", value := "0xF", values := [{ value := "1" }] }] },
          .string { id := 5, repeatmax := "3" } { delimiter := "\t" }],
        .script { id := greatestId } { source := some { language := "Lua", text := "\x01" } }]]
    scripts := [{ name := "check", type := "Grammar" }] }

theorem parse_write_nested : nestedDocument.IdsFit ∧ nestedDocument.toJson.depth ≤ depthLimit ∧
    Document.parse nestedDocument.write = .ok nestedDocument := by
  have hids : nestedDocument.IdsFit := by
    simp [nestedDocument, Document.IdsFit, Element.AllIdsFit, Element.IdsFit, greatestId]
  have hdepth : nestedDocument.toJson.depth ≤ depthLimit := by decide +kernel
  exact ⟨hids, hdepth, parse_write hids hdepth⟩

end Record

end BinaryGrammar
