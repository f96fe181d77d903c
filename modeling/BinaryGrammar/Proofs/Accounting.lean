import BinaryGrammar.Proofs.Forest
import BinaryGrammar.Proofs.Meaning

/-!
# Nothing authored is lost in silence

An element has the attributes that the texts of its record mean. A text that is not blank and means
nothing is reported, once, with the label of the element and the name of the attribute. A fixed
value or a mask is either kept, in its place among the others, or it is reported, once; with a mask
that is left out its values are left out and not reported. Nothing else is reported when a record
becomes a document.

What is to be reported about a record is said first, without the functions that build elements. The
main statement is `ofRecord_accounts`.
-/

set_option autoImplicit false

namespace BinaryGrammar

/-! ## Authored attributes -/

/-- An attribute of a record: its name, how its text is to be understood, and the text. -/
structure Authored where
  name : String
  form : Form
  text : String

namespace Authored

/-- The attribute is set, to what its text means. Blanks around the text do not count. -/
def Means (a : Authored) (x : Datum) : Prop :=
  Text.trim a.text ≠ "" ∧ a.form.Means (Text.trim a.text) x

/-- The text is not blank and means nothing. -/
def Invalid (a : Authored) : Prop :=
  Text.trim a.text ≠ "" ∧ ¬∃ x, a.form.Means (Text.trim a.text) x

instance (a : Authored) : Decidable a.Invalid := inferInstanceAs (Decidable (_ ∧ ¬_))

/-- What is to be reported about an attribute of an element. -/
def reports (l : Label) (a : Authored) : List Diagnostic :=
  if a.Invalid then [.invalidValue l a.name (Text.trim a.text)] else []

end Authored

/-! ## What is to be kept and what is to be reported -/

namespace Record

namespace FixedValue

/-- The fixed value of a number, if its text is one. -/
def number? (v : FixedValue) : Option (BinaryGrammar.FixedValue NumberLiteral) :=
  (Attribute.numberLiteral? (Text.trim v.value)).map fun n => ⟨v.name, n, v.description⟩

/-- A text that is no number is reported. -/
def numberReports (l : Label) (v : FixedValue) : List Diagnostic :=
  if v.number?.isSome then [] else [.invalidValue l "value" (Text.trim v.value)]

/-- The fixed value of a run of bytes, if its text is one. -/
def bytes? (v : FixedValue) : Option (BinaryGrammar.FixedValue Bytes) :=
  (Attribute.bytes? v.value).map fun b => ⟨v.name, b, v.description⟩

/-- A text that is no run of bytes is reported as it was written. -/
def bytesReports (l : Label) (v : FixedValue) : List Diagnostic :=
  if v.bytes?.isSome then [] else [.invalidValue l "value" v.value]

end FixedValue

namespace Mask

/-- A mask whose own value is an integer is kept, with those of its values that are numbers. -/
def kept? (m : Mask) : Option BinaryGrammar.Mask :=
  match Attribute.numberLiteral? (Text.trim m.value) with
  | some (.int v) =>
    some ⟨m.name, Word.toUnsigned v, m.description, m.values.filterMap FixedValue.number?⟩
  | _ => none

/-- Of a mask that is kept the values that are no numbers are reported, and else the mask. -/
def reports (l : Label) (m : Mask) : List Diagnostic :=
  match Attribute.numberLiteral? (Text.trim m.value) with
  | some (.int _) => m.values.flatMap (FixedValue.numberReports l)
  | some (.float _) => [.invalidValue l "mask" m.value]
  | none => [.invalidValue l "value" (Text.trim m.value)]

end Mask

/-- The colours of a record. -/
def Common.colours (c : Common) : List (Slot × Authored) :=
  [(.fillColour, ⟨"fillcolor", .colour, c.fillcolor⟩),
    (.strokeColour, ⟨"strokecolor", .colour, c.strokecolor⟩)]

namespace Element

/-- The label of a record. -/
def label (e : Element) : Label := Build.label e.kind e.common

/-- The attributes of a record that have a form, and their slots. -/
def authored : Element → List (Slot × Authored)
  | struct c s _ => c.colours ++
    [(.lengthUnit, ⟨"lengthunit", .lengthUnit, s.lengthunit⟩),
      (.endian, ⟨"endian", .endian, s.endian⟩),
      (.signed, ⟨"signed", .yesNo, s.signed⟩),
      (.order, ⟨"order", .order, s.order⟩),
      (.display, ⟨"display", .display, s.display⟩)]
  | number c n => c.colours ++
    [(.type, ⟨"type", .numberType, n.type⟩),
      (.lengthUnit, ⟨"lengthunit", .lengthUnit, n.lengthunit⟩),
      (.endian, ⟨"endian", .endian, n.endian⟩),
      (.signed, ⟨"signed", .yesNo, n.signed⟩),
      (.display, ⟨"display", .display, n.display⟩),
      (.mustMatch, ⟨"mustmatch", .yesNo, n.mustmatch⟩)]
  | string c s => c.colours ++
    [(.type, ⟨"type", .stringType, s.type⟩),
      (.lengthUnit, ⟨"lengthunit", .lengthUnit, s.lengthunit⟩),
      (.delimiter, ⟨"delimiter", .byte, s.delimiter⟩),
      (.mustMatch, ⟨"mustmatch", .yesNo, s.mustmatch⟩)]
  | binary c b => c.colours ++
    [(.lengthUnit, ⟨"lengthunit", .lengthUnit, b.lengthunit⟩),
      (.mustMatch, ⟨"mustmatch", .yesNo, b.mustmatch⟩)]
  | offset c o => c.colours ++
    [(.lengthUnit, ⟨"lengthunit", .lengthUnit, o.lengthunit⟩),
      (.endian, ⟨"endian", .endian, o.endian⟩),
      (.display, ⟨"display", .display, o.display⟩),
      (.followNullReference, ⟨"follow_null_reference", .yesNo, o.followNullReference⟩)]
  | structRef c r => c.colours ++ [(.disabled, ⟨"disabled", .yesNo, r.disabled⟩)]
  | grammarRef _ g => [(.disabled, ⟨"disabled", .yesNo, g.disabled⟩)]
  | custom c u => c.colours ++ [(.lengthUnit, ⟨"lengthunit", .lengthUnit, u.lengthunit⟩)]
  | script _ _ => []

/-- The masks of a record. -/
def masks : Element → List Mask
  | number _ n => n.masks
  | _ => []

/-- The fixed values that are kept of a record. Those of a string are all kept. -/
def keptValues : Element → Option Datum
  | number _ n => Datum.ofList? .numbers (n.values.filterMap FixedValue.number?)
  | string _ s => Datum.ofList? .strings (s.values.map Attribute.fixedString)
  | binary _ b => Datum.ofList? .binaries (b.values.filterMap FixedValue.bytes?)
  | _ => none

/-- What is to be reported about the fixed values of a record. -/
def valueReports (e : Element) : List Diagnostic :=
  match e with
  | number _ n => n.values.flatMap (FixedValue.numberReports e.label)
  | binary _ b => b.values.flatMap (FixedValue.bytesReports e.label)
  | _ => []

/-- What is to be reported about a record, apart from what is inside it. -/
def ownReports (e : Element) : List Diagnostic :=
  e.masks.flatMap (Mask.reports e.label) ++
    (e.authored.flatMap fun p => p.2.reports e.label) ++ e.valueReports

end Element

mutual

/-- What is to be reported about a record, what is inside it first. -/
def Element.reports : Element → List Diagnostic
  | .struct c s es => reportsOfAll es ++ (Element.struct c s es).ownReports
  | e => e.ownReports

/-- What is to be reported about records, one after the other. -/
def reportsOfAll : List Element → List Diagnostic
  | [] => []
  | e :: es => e.reports ++ reportsOfAll es

end

/-- Whether a grammar is complete. -/
def Grammar.completeness (g : Grammar) : Authored := ⟨"complete", .yesNo, g.complete⟩

/-- What is to be reported about a grammar file. -/
def Document.reports (r : Document) : List Diagnostic :=
  r.grammar.completeness.reports ⟨.grammar, r.grammar.id, r.grammar.name⟩ ++
    reportsOfAll r.grammar.elements

/-- An element is what a record says. -/
structure Element.Gives (e : Element) (built : BinaryGrammar.Element) : Prop where
  label : built.label = e.label
  /-- An attribute is set exactly to what its text means. -/
  attributes : ∀ p ∈ e.authored, ∀ x, built.datum? p.1 = some x ↔ p.2.Means x
  values : built.datum? .values = e.keptValues
  masks : built.datum? .masks = Datum.ofList? .masks (e.masks.filterMap Mask.kept?)

end Record

/-- The element of a number, and those inside it, are what a record says. -/
inductive Document.Given (doc : Document) : Record.Element → Nat → Prop where
  | element {e : Record.Element} {i : Nat} :
    e.Gives (doc.element i) → List.Forall₂ doc.Given e.elements (doc.element i).children →
    doc.Given e i

/-! ## Building elements -/

namespace Attribute

variable {α β : Type} {l : Label}

section

variable {read? : String → Option α} {attr s : String}

theorem interpret_blank (h : Text.trim s = "") : interpret read? l attr s = { value := none } := by
  unfold interpret
  rw [h]
  rfl

theorem interpret_some {v : α} (h : Text.trim s ≠ "") (hv : read? (Text.trim s) = some v) :
    interpret read? l attr s = { value := some v } := by
  unfold interpret
  dsimp only
  rw [if_neg (by rwa [String.isEmpty_iff]), hv]

theorem interpret_none (h : Text.trim s ≠ "") (hv : read? (Text.trim s) = none) :
    interpret read? l attr s = invalid l attr (Text.trim s) := by
  unfold interpret
  dsimp only
  rw [if_neg (by rwa [String.isEmpty_iff]), hv]

/-- An attribute is set to what its text means, and reported if it is invalid. -/
structure Accounts (l : Label) (a : Authored) (f : α → Datum) (taken : Noted (Option α)) :
    Prop where
  set : ∀ x, taken.value.map f = some x ↔ a.Means x
  notes : taken.notes = a.reports l

theorem interpret_accounts {f : α → Datum} (l : Label) (a : Authored)
    (hread : ∀ t, (read? t).map f = a.form.read? t) :
    Accounts l a f (interpret read? l a.name a.text) := by
  have hmeans (x : Datum) : (read? (Text.trim a.text)).map f = some x ↔
      a.form.Means (Text.trim a.text) x := by
    rw [hread, Form.read?_eq_some_iff]
  by_cases ht : Text.trim a.text = ""
  · rw [interpret_blank ht]
    exact ⟨fun x => iff_of_false nofun fun h => h.1 ht, (if_neg fun h => h.1 ht).symm⟩
  · cases hv : read? (Text.trim a.text) with
    | some v =>
        rw [hv] at hmeans
        have hvalid : ¬a.Invalid := fun h => h.2 ⟨f v, (hmeans _).mp rfl⟩
        rw [interpret_some ht hv]
        exact ⟨fun x => (hmeans x).trans (and_iff_right ht).symm, (if_neg hvalid).symm⟩
    | none =>
        rw [hv] at hmeans
        have hinvalid : a.Invalid := ⟨ht, fun ⟨x, hx⟩ => by cases (hmeans x).mpr hx⟩
        rw [interpret_none ht hv]
        exact ⟨fun x => (hmeans x).trans (and_iff_right ht).symm, (if_pos hinvalid).symm⟩

end

/-- Words are looked up among those of a form. -/
theorem pick_accounts (f : α → Datum) (table : List (String × α)) (l : Label) (a : Authored)
    (hread : a.form.read? = lookUp? (Form.tagged f table)) :
    Accounts l a f (pick table l a.name a.text) := by
  refine interpret_accounts l a fun t => ?_
  rw [hread]
  unfold lookUp? Form.tagged
  rw [List.find?_map, Option.map_map, Option.map_map]
  rfl

theorem yesNo_accounts (l : Label) (attr s : String) :
    Accounts l ⟨attr, .yesNo, s⟩ .flag (yesNo l attr s) :=
  pick_accounts .flag yesNoWords l ⟨attr, .yesNo, s⟩ rfl

theorem lengthUnit_accounts (l : Label) (s : String) :
    Accounts l ⟨"lengthunit", .lengthUnit, s⟩ .lengthUnit (pick lengthUnitWords l "lengthunit" s) :=
  pick_accounts .lengthUnit lengthUnitWords l ⟨"lengthunit", .lengthUnit, s⟩ rfl

theorem endian_accounts (l : Label) (s : String) :
    Accounts l ⟨"endian", .endian, s⟩ .endian (pick endianWords l "endian" s) :=
  pick_accounts .endian endianWords l ⟨"endian", .endian, s⟩ rfl

theorem display_accounts (l : Label) (s : String) :
    Accounts l ⟨"display", .display, s⟩ .display (pick displayWords l "display" s) :=
  pick_accounts .display displayWords l ⟨"display", .display, s⟩ rfl

theorem colour_accounts (l : Label) (attr s : String) :
    Accounts l ⟨attr, .colour, s⟩ .colour (colour l attr s) :=
  interpret_accounts l _ fun _ => rfl

theorem delimiter_accounts (l : Label) (s : String) :
    Accounts l ⟨"delimiter", .byte, s⟩ .byte (delimiter l s) :=
  interpret_accounts l _ fun _ => rfl

/-! ### Lists -/

/-- Of each of a list it is known what is kept and what is reported. -/
theorem collect_eq {f : α → Noted (Option β)} {kept? : α → Option β}
    {reports : α → List Diagnostic} (h : ∀ a, f a = { value := kept? a, notes := reports a }) :
    ∀ as : List α,
      collect f as = { value := as.filterMap kept?, notes := as.flatMap reports }
  | [] => rfl
  | a :: as => by
      unfold collect
      rw [h, collect_eq h as, List.filterMap_cons, List.flatMap_cons]
      cases kept? a with
      | none => exact congrArg (Noted.mk _) (congrArg (_ ++ ·) (List.append_nil _))
      | some b => exact congrArg (Noted.mk _) (congrArg (_ ++ ·) (List.append_nil _))

/-- A fixed value of a number is kept or reported. -/
theorem fixedNumber_eq (l : Label) (v : Record.FixedValue) :
    fixedNumber l v = { value := v.number?, notes := v.numberReports l } := by
  unfold fixedNumber numberLiteral Record.FixedValue.numberReports Record.FixedValue.number?
  dsimp only
  cases numberLiteral? (Text.trim v.value) with
  | some n => rfl
  | none => rfl

/-- A fixed value of a run of bytes is kept or reported. -/
theorem fixedBytes_eq (l : Label) (v : Record.FixedValue) :
    fixedBytes l v = { value := v.bytes?, notes := v.bytesReports l } := by
  unfold fixedBytes Record.FixedValue.bytesReports Record.FixedValue.bytes?
  cases bytes? v.value with
  | some b => rfl
  | none => rfl

/-- A mask is kept or reported. -/
theorem mask_eq (l : Label) (m : Record.Mask) :
    mask l m = { value := m.kept?, notes := m.reports l } := by
  unfold mask numberLiteral Record.Mask.kept? Record.Mask.reports
  dsimp only
  cases numberLiteral? (Text.trim m.value) with
  | none => rfl
  | some n =>
      cases n with
      | float x => rfl
      | int v =>
          -- the mask is kept, and now its values are looked at
          have hvalues := collect_eq (fixedNumber_eq l) m.values
          change Noted.andThen _ _ = _
          unfold Noted.andThen
          dsimp only
          rw [Noted.value_bind, Noted.notes_bind, hvalues]
          exact congrArg (Noted.mk _) (List.append_nil _)

end Attribute

namespace Build

open Attribute

/-- An element that is built of a record is what the record says, and what has been reported is what
is to be reported about it. -/
structure Accounts (e : Record.Element) (built : Noted Element) : Prop where
  gives : e.Gives built.value
  notes : built.notes = e.ownReports

/-- The colours are set to what their texts mean. -/
theorem colours_set {built : Element} (l : Label) (c : Record.Common)
    (h : built.colours = (colours l c).value) :
    ∀ p ∈ c.colours, ∀ x, built.datum? p.1 = some x ↔ p.2.Means x := by
  have hfill := colour_accounts l "fillcolor" c.fillcolor
  have hstroke := colour_accounts l "strokecolor" c.strokecolor
  simp only [Record.Common.colours, List.forall_mem_cons, Element.datum?, h, colours,
    Noted.value_bind, Noted.value_pure]
  exact ⟨hfill.set, hstroke.set, List.forall_mem_nil _⟩

theorem colours_notes (l : Label) (c : Record.Common) :
    (colours l c).notes = c.colours.flatMap fun p => p.2.reports l := by
  simp [colours, Record.Common.colours, (colour_accounts l "fillcolor" c.fillcolor).notes,
    (colour_accounts l "strokecolor" c.strokecolor).notes]

/-- An element that has colours before its other attributes. -/
theorem Accounts.coloured {e : Record.Element} {built : Noted Element} (l : Label)
    {c : Record.Common} {bs : List (Slot × Authored)} (hl : e.label = l)
    (hauthored : e.authored = c.colours ++ bs) (hlabel : built.value.label = l)
    (hcolours : built.value.colours = (colours l c).value)
    (hset : ∀ p ∈ bs, ∀ x, built.value.datum? p.1 = some x ↔ p.2.Means x)
    (hvalues : built.value.datum? .values = e.keptValues)
    (hmasks : built.value.datum? .masks =
      Datum.ofList? .masks (e.masks.filterMap Record.Mask.kept?))
    (hnotes : built.notes = e.masks.flatMap (Record.Mask.reports l) ++
      ((colours l c).notes ++ ((bs.flatMap fun p => p.2.reports l) ++ e.valueReports))) :
    Accounts e built where
  gives := by
    refine ⟨hlabel.trans hl.symm, ?_, hvalues, hmasks⟩
    rw [hauthored]
    exact List.forall_mem_append.mpr ⟨colours_set l c hcolours, hset⟩
  notes := by
    unfold Record.Element.ownReports
    rw [hnotes, hl, hauthored, colours_notes, List.flatMap_append, List.append_assoc,
      List.append_assoc]

theorem struct_accounts (c : Record.Common) (s : Record.Struct) (es : List Record.Element)
    (children : List Nat) : Accounts (.struct c s es) (struct c s children) := by
  have hunit := lengthUnit_accounts (label .struct c) s.lengthunit
  have hendian := endian_accounts (label .struct c) s.endian
  have hsigned := yesNo_accounts (label .struct c) "signed" s.signed
  have horder := pick_accounts .order orderWords (label .struct c) ⟨"order", .order, s.order⟩ rfl
  have hdisplay := display_accounts (label .struct c) s.display
  have hcolours : (struct c s children).value.colours = (colours (label .struct c) c).value := by
    simp only [struct, Noted.value_bind, Noted.value_pure]
  refine .coloured (label .struct c) rfl rfl rfl hcolours ?_ rfl rfl ?_
  · simp only [List.forall_mem_cons, struct, Noted.value_bind, Noted.value_pure, Element.datum?,
      Body.datum?, StructBody.datum?]
    exact ⟨hunit.set, hendian.set, hsigned.set, horder.set, hdisplay.set, List.forall_mem_nil _⟩
  · simp [struct, hunit.notes, hendian.notes, hsigned.notes, horder.notes, hdisplay.notes,
      Record.Element.masks, Record.Element.valueReports]

theorem number_accounts (c : Record.Common) (n : Record.Number) :
    Accounts (.number c n) (number c n) := by
  have htype := pick_accounts .numberType numberTypeWords (label .number c)
    ⟨"type", .numberType, n.type⟩ rfl
  have hunit := lengthUnit_accounts (label .number c) n.lengthunit
  have hendian := endian_accounts (label .number c) n.endian
  have hsigned := yesNo_accounts (label .number c) "signed" n.signed
  have hdisplay := display_accounts (label .number c) n.display
  have hmatch := yesNo_accounts (label .number c) "mustmatch" n.mustmatch
  have hvalues := collect_eq (fixedNumber_eq (label .number c)) n.values
  have hmasks := collect_eq (mask_eq (label .number c)) n.masks
  have hcolours : (number c n).value.colours = (colours (label .number c) c).value := by
    simp only [number, Noted.value_bind, Noted.value_pure]
  refine .coloured (label .number c) rfl rfl rfl hcolours ?_ ?_ ?_ ?_
  · simp only [List.forall_mem_cons, number, Noted.value_bind, Noted.value_pure, Element.datum?,
      Body.datum?, NumberBody.datum?]
    exact ⟨htype.set, hunit.set, hendian.set, hsigned.set, hdisplay.set, hmatch.set,
      List.forall_mem_nil _⟩
  · simp [number, Element.datum?, Body.datum?, NumberBody.datum?, hvalues,
      Record.Element.keptValues]
  · simp [number, Element.datum?, Body.datum?, NumberBody.datum?, hmasks, Record.Element.masks]
  · simp [number, htype.notes, hunit.notes, hendian.notes, hsigned.notes, hdisplay.notes,
      hmatch.notes, hvalues, hmasks, Record.Element.masks, Record.Element.valueReports,
      Record.Element.label, Record.Element.kind, Record.Element.common]

theorem string_accounts (c : Record.Common) (s : Record.Str) :
    Accounts (.string c s) (string c s) := by
  have htype := pick_accounts .stringType stringTypeWords (label .string c)
    ⟨"type", .stringType, s.type⟩ rfl
  have hunit := lengthUnit_accounts (label .string c) s.lengthunit
  have hdelimiter := delimiter_accounts (label .string c) s.delimiter
  have hmatch := yesNo_accounts (label .string c) "mustmatch" s.mustmatch
  have hcolours : (string c s).value.colours = (colours (label .string c) c).value := by
    simp only [string, Noted.value_bind, Noted.value_pure]
  refine .coloured (label .string c) rfl rfl rfl hcolours ?_ rfl rfl ?_
  · simp only [List.forall_mem_cons, string, Noted.value_bind, Noted.value_pure, Element.datum?,
      Body.datum?, StringBody.datum?]
    exact ⟨htype.set, hunit.set, hdelimiter.set, hmatch.set, List.forall_mem_nil _⟩
  · simp [string, htype.notes, hunit.notes, hdelimiter.notes, hmatch.notes, Record.Element.masks,
      Record.Element.valueReports]

theorem binary_accounts (c : Record.Common) (b : Record.Binary) :
    Accounts (.binary c b) (binary c b) := by
  have hunit := lengthUnit_accounts (label .binary c) b.lengthunit
  have hmatch := yesNo_accounts (label .binary c) "mustmatch" b.mustmatch
  have hvalues := collect_eq (fixedBytes_eq (label .binary c)) b.values
  have hcolours : (binary c b).value.colours = (colours (label .binary c) c).value := by
    simp only [binary, Noted.value_bind, Noted.value_pure]
  refine .coloured (label .binary c) rfl rfl rfl hcolours ?_ ?_ rfl ?_
  · simp only [List.forall_mem_cons, binary, Noted.value_bind, Noted.value_pure, Element.datum?,
      Body.datum?, BinaryBody.datum?]
    exact ⟨hunit.set, hmatch.set, List.forall_mem_nil _⟩
  · simp [binary, Element.datum?, Body.datum?, BinaryBody.datum?, hvalues,
      Record.Element.keptValues]
  · simp [binary, hunit.notes, hmatch.notes, hvalues, Record.Element.masks,
      Record.Element.valueReports, Record.Element.label, Record.Element.kind,
      Record.Element.common]

theorem offset_accounts (c : Record.Common) (o : Record.Offset) :
    Accounts (.offset c o) (offset c o) := by
  have hunit := lengthUnit_accounts (label .offset c) o.lengthunit
  have hendian := endian_accounts (label .offset c) o.endian
  have hdisplay := display_accounts (label .offset c) o.display
  have hfollow := yesNo_accounts (label .offset c) "follow_null_reference" o.followNullReference
  have hcolours : (offset c o).value.colours = (colours (label .offset c) c).value := by
    simp only [offset, Noted.value_bind, Noted.value_pure]
  refine .coloured (label .offset c) rfl rfl rfl hcolours ?_ rfl rfl ?_
  · simp only [List.forall_mem_cons, offset, Noted.value_bind, Noted.value_pure, Element.datum?,
      Body.datum?, OffsetBody.datum?]
    exact ⟨hunit.set, hendian.set, hdisplay.set, hfollow.set, List.forall_mem_nil _⟩
  · simp [offset, hunit.notes, hendian.notes, hdisplay.notes, hfollow.notes, Record.Element.masks,
      Record.Element.valueReports]

theorem structRef_accounts (c : Record.Common) (r : Record.StructRef) :
    Accounts (.structRef c r) (structRef c r) := by
  have hdisabled := yesNo_accounts (label .structRef c) "disabled" r.disabled
  have hcolours : (structRef c r).value.colours = (colours (label .structRef c) c).value := by
    simp only [structRef, Noted.value_bind, Noted.value_pure]
  refine .coloured (label .structRef c) rfl rfl rfl hcolours ?_ rfl rfl ?_
  · simp only [List.forall_mem_cons, structRef, Noted.value_bind, Noted.value_pure, Element.datum?,
      Body.datum?, StructRefBody.datum?]
    exact ⟨hdisabled.set, List.forall_mem_nil _⟩
  · simp [structRef, hdisabled.notes, Record.Element.masks, Record.Element.valueReports]

/-- A reference to a grammar has no colours. -/
theorem grammarRef_accounts (c : Record.Common) (g : Record.GrammarRef) :
    Accounts (.grammarRef c g) (grammarRef c g) := by
  have hdisabled := yesNo_accounts (label .grammarRef c) "disabled" g.disabled
  refine ⟨⟨rfl, ?_, rfl, rfl⟩, ?_⟩
  · simp only [Record.Element.authored, List.forall_mem_cons, grammarRef, Noted.value_bind,
      Noted.value_pure, Element.datum?, Body.datum?, GrammarRefBody.datum?]
    exact ⟨hdisabled.set, List.forall_mem_nil _⟩
  · simp [grammarRef, hdisabled.notes, Record.Element.ownReports, Record.Element.authored,
      Record.Element.masks, Record.Element.valueReports, Record.Element.label,
      Record.Element.kind, Record.Element.common]

theorem custom_accounts (c : Record.Common) (u : Record.Custom) :
    Accounts (.custom c u) (custom c u) := by
  have hunit := lengthUnit_accounts (label .custom c) u.lengthunit
  have hcolours : (custom c u).value.colours = (colours (label .custom c) c).value := by
    simp only [custom, Noted.value_bind, Noted.value_pure]
  refine .coloured (label .custom c) rfl rfl rfl hcolours ?_ rfl rfl ?_
  · simp only [List.forall_mem_cons, custom, Noted.value_bind, Noted.value_pure, Element.datum?,
      Body.datum?, CustomBody.datum?]
    exact ⟨hunit.set, List.forall_mem_nil _⟩
  · simp [custom, hunit.notes, Record.Element.masks, Record.Element.valueReports]

theorem scriptElement_accounts (c : Record.Common) (s : Record.Script) (i : Nat) :
    Accounts (.script c s) { value := scriptElement c i } :=
  ⟨⟨rfl, List.forall_mem_nil _, rfl, rfl⟩, rfl⟩

/-! ## Building documents -/

variable {a : Assembly} {doc : Document} {e : Record.Element}

/-- A record that has been numbered after what is inside it. -/
theorem given_push {b : Noted Element} (h : (a.push b).1.Within doc) (hb : Accounts e b)
    (hinside : List.Forall₂ doc.Given e.elements b.value.children) :
    doc.Given e (a.push b).2 := by
  have helement := h.of_push.2
  refine .element ?_ ?_
  · rw [helement]
    exact hb.gives
  · rw [helement]
    exact hinside

mutual

theorem addElement_given : ∀ (e : Record.Element) {a : Assembly},
    (addElement a e).1.Within doc → doc.Given e (addElement a e).2
  | .struct c s es, _, h =>
      given_push h (struct_accounts c s es _) (addElements_given es h.of_push.1)
  | .number c n, _, h => given_push h (number_accounts c n) .nil
  | .string c s, _, h => given_push h (string_accounts c s) .nil
  | .binary c b, _, h => given_push h (binary_accounts c b) .nil
  | .offset c o, _, h => given_push h (offset_accounts c o) .nil
  | .structRef c r, _, h => given_push h (structRef_accounts c r) .nil
  | .grammarRef c g, _, h => given_push h (grammarRef_accounts c g) .nil
  | .custom c u, _, h => given_push h (custom_accounts c u) .nil
  | .script c s, _, h => given_push h (scriptElement_accounts c s _) .nil

theorem addElements_given : ∀ (es : List Record.Element) {a : Assembly},
    (addElements a es).1.Within doc → List.Forall₂ doc.Given es (addElements a es).2
  | [], _, _ => .nil
  | e :: es, _, h => .cons (addElement_given e (addElements_laid es h).1) (addElements_given es h)

end

theorem push_notes {b : Noted Element} (hb : Accounts e b) :
    (a.push b).1.notes.toList = a.notes.toList ++ e.ownReports := by
  unfold Assembly.push
  rw [Array.toList_appendList, hb.notes]

mutual

/-- What is reported about a record is what is to be reported about it. -/
theorem addElement_notes : ∀ (e : Record.Element) (a : Assembly),
    (addElement a e).1.notes.toList = a.notes.toList ++ e.reports
  | .struct c s es, a => by
      refine (push_notes (struct_accounts c s es _)).trans ?_
      rw [addElements_notes es a, List.append_assoc]
      rfl
  | .number c n, _ => push_notes (number_accounts c n)
  | .string c s, _ => push_notes (string_accounts c s)
  | .binary c b, _ => push_notes (binary_accounts c b)
  | .offset c o, _ => push_notes (offset_accounts c o)
  | .structRef c r, _ => push_notes (structRef_accounts c r)
  | .grammarRef c g, _ => push_notes (grammarRef_accounts c g)
  | .custom c u, _ => push_notes (custom_accounts c u)
  | .script c s, _ => push_notes (scriptElement_accounts c s _)

theorem addElements_notes : ∀ (es : List Record.Element) (a : Assembly),
    (addElements a es).1.notes.toList = a.notes.toList ++ Record.reportsOfAll es
  | [], a => (List.append_nil _).symm
  | e :: es, a => by
      refine (addElements_notes es _).trans ?_
      rw [addElement_notes e a, List.append_assoc]
      rfl

end

theorem addScripts_notes : ∀ (ss : List Record.Script) (a : Assembly),
    (a.addScripts ss).1.notes = a.notes
  | [], _ => rfl
  | s :: ss, a => addScripts_notes ss (a.pushScript (script s "")).1

end Build

/-! ## One report for one attribute -/

/-- A diagnostic says that an attribute of an element is invalid. -/
def Diagnostic.names (l : Label) (attr : String) : Diagnostic → Bool
  | invalidValue l' attr' _ => l' == l && attr' == attr
  | _ => false

theorem Authored.filter_reports (a : Authored) (l : Label) (attr : String) :
    (a.reports l).filter (Diagnostic.names l attr) = if a.name = attr then a.reports l else [] := by
  unfold reports
  split
  · by_cases h : a.name = attr
    · simp [Diagnostic.names, h]
    · simp [Diagnostic.names, h]
  · simp

/-- Of the reports about attributes with different names only one has a given name. -/
theorem flatMap_named {α β : Type} {name : α → String} {as : List α} {a : α}
    (hnames : (as.map name).Nodup) (ha : a ∈ as) (f : α → List β) :
    (as.flatMap fun b => if name b = name a then f b else []) = f a := by
  -- neither those before it nor those after it have its name
  obtain ⟨before, after, rfl⟩ := List.append_of_mem ha
  rw [List.map_append, List.map_cons, List.nodup_middle, List.nodup_cons, List.mem_append] at hnames
  have hothers (bs : List α) (h : name a ∉ bs.map name) :
      (bs.flatMap fun b => if name b = name a then f b else []) = [] := by
    refine List.flatMap_eq_nil_iff.mpr fun b hb => if_neg fun hname => h ?_
    rw [← hname]
    exact List.mem_map_of_mem hb
  rw [List.flatMap_append, List.flatMap_cons, if_pos rfl,
    hothers before fun h => hnames.1 (.inl h), hothers after fun h => hnames.1 (.inr h),
    List.nil_append, List.append_nil]

namespace Record

variable {l : Label} {d : Diagnostic}

theorem FixedValue.mem_numberReports {v : FixedValue} (h : d ∈ v.numberReports l) :
    d = .invalidValue l "value" (Text.trim v.value) := by
  unfold numberReports at h
  split at h
  · cases h
  · exact List.mem_singleton.mp h

theorem FixedValue.mem_bytesReports {v : FixedValue} (h : d ∈ v.bytesReports l) :
    d = .invalidValue l "value" v.value := by
  unfold bytesReports at h
  split at h
  · cases h
  · exact List.mem_singleton.mp h

theorem Mask.mem_reports {m : Mask} (h : d ∈ m.reports l) :
    ∃ attr value, (attr = "value" ∨ attr = "mask") ∧ d = .invalidValue l attr value := by
  unfold reports at h
  split at h
  · obtain ⟨v, _, hv⟩ := List.mem_flatMap.mp h
    exact ⟨_, _, .inl rfl, v.mem_numberReports hv⟩
  · exact ⟨_, _, .inr rfl, List.mem_singleton.mp h⟩
  · exact ⟨_, _, .inl rfl, List.mem_singleton.mp h⟩

namespace Element

/-- The names of the attributes of a record differ, and are not those by which fixed values and
masks are reported. -/
theorem authored_names (e : Element) : (e.authored.map (·.2.name)).Nodup ∧
    ∀ p ∈ e.authored, p.2.name ≠ "value" ∧ p.2.name ≠ "mask" := by
  cases e <;> simp [authored, Common.colours]

theorem mem_valueReports {e : Element} (h : d ∈ e.valueReports) :
    ∃ value, d = .invalidValue e.label "value" value := by
  unfold valueReports at h
  split at h
  · obtain ⟨v, _, hv⟩ := List.mem_flatMap.mp h
    exact ⟨_, v.mem_numberReports hv⟩
  · obtain ⟨v, _, hv⟩ := List.mem_flatMap.mp h
    exact ⟨_, v.mem_bytesReports hv⟩
  · cases h

/-- **An attribute is reported once if it is invalid, and else not at all.** -/
theorem filter_ownReports (e : Element) {p : Slot × Authored} (hp : p ∈ e.authored) :
    e.ownReports.filter (Diagnostic.names e.label p.2.name) = p.2.reports e.label := by
  obtain ⟨hnames, hothers⟩ := e.authored_names
  obtain ⟨hvalue, hmask⟩ := hothers p hp
  -- masks and fixed values are reported by names that no attribute has
  have hmasks : (e.masks.flatMap (Mask.reports e.label)).filter
      (Diagnostic.names e.label p.2.name) = [] := by
    refine List.filter_eq_nil_iff.mpr fun d hd => ?_
    obtain ⟨m, _, hd⟩ := List.mem_flatMap.mp hd
    obtain ⟨attr, _, hattr, rfl⟩ := m.mem_reports hd
    rcases hattr with rfl | rfl
    · simp [Diagnostic.names, hvalue.symm]
    · simp [Diagnostic.names, hmask.symm]
  have hvalues : e.valueReports.filter (Diagnostic.names e.label p.2.name) = [] := by
    refine List.filter_eq_nil_iff.mpr fun d hd => ?_
    obtain ⟨_, rfl⟩ := mem_valueReports hd
    simp [Diagnostic.names, hvalue.symm]
  unfold ownReports
  rw [List.filter_append, List.filter_append, hmasks, hvalues, List.filter_flatMap]
  simp only [Authored.filter_reports]
  rw [flatMap_named hnames hp, List.nil_append, List.append_nil]

end Element

end Record

namespace Document

/-- **Nothing authored is lost in silence.** What is reported about a record is what is to be
reported, and elements have the attributes, fixed values and masks that are to be kept. -/
theorem ofRecord_accounts (r : Record.Document) :
    let doc := (ofRecord r).value
    (ofRecord r).notes = r.reports ∧
    (∀ x, doc.grammar.complete.map Datum.flag = some x ↔ r.grammar.completeness.Means x) ∧
    List.Forall₂ doc.Given r.grammar.elements doc.grammar.elements ∧
    ∀ e : Record.Element, ∀ p ∈ e.authored,
      e.ownReports.filter (Diagnostic.names e.label p.2.name) = p.2.reports e.label := by
  have hcomplete := Attribute.yesNo_accounts ⟨.grammar, r.grammar.id, r.grammar.name⟩ "complete"
    r.grammar.complete
  have hset : (ofRecord r).value.grammar.complete = (Attribute.yesNo
      ⟨.grammar, r.grammar.id, r.grammar.name⟩ "complete" r.grammar.complete).value := by
    unfold ofRecord ofParts
    dsimp only
  dsimp only
  rw [hset]
  refine ⟨?_, hcomplete.set, ?_, fun e p hp => e.filter_ownReports hp⟩
  · refine (Build.addElements_notes r.grammar.elements _).trans ?_
    rw [Build.addScripts_notes, hcomplete.notes, List.toList_toArray]
    rfl
  · exact Build.addElements_given r.grammar.elements (within_ofParts r.version _ _)

/-! ## A number with a mask -/

/-- The record of a number in which some texts mean nothing. -/
def middlingNumber : Record.Element :=
  .number { id := 2, name := "n", fillcolor := "00FF7F", strokecolor := " green " }
    { endian := "middle", signed := " ", display := "hex"
      values := [{ value := "7" }, { value := "seven" }]
      masks := [{ value := "0x0F", values := [{ value := "-" }] }, { value := "1.5" }] }

/-- The record of a grammar with the number as its only element. -/
def middling : Record.Document where
  grammar := { name := "g", complete := "perhaps", elements := [middlingNumber] }

/-- The number keeps its fill colour, its base, the value seven and the first of its masks. All
else is reported, its byte order once. -/
theorem ofRecord_middling :
    (ofRecord middling).notes =
      [.invalidValue ⟨.grammar, 0, "g"⟩ "complete" "perhaps",
        .invalidValue ⟨.number, 2, "n"⟩ "value" "-",
        .invalidValue ⟨.number, 2, "n"⟩ "mask" "1.5",
        .invalidValue ⟨.number, 2, "n"⟩ "strokecolor" "green",
        .invalidValue ⟨.number, 2, "n"⟩ "endian" "middle",
        .invalidValue ⟨.number, 2, "n"⟩ "value" "seven"] ∧
    middlingNumber.ownReports.filter (Diagnostic.names middlingNumber.label "endian") =
      [.invalidValue ⟨.number, 2, "n"⟩ "endian" "middle"] := by
  obtain ⟨hnotes, _, _, honce⟩ := ofRecord_accounts middling
  have hendian := honce middlingNumber (.endian, ⟨"endian", .endian, "middle"⟩)
    (by simp [middlingNumber, Record.Element.authored])
  rw [hnotes, hendian]
  exact ⟨by decide +kernel, by decide +kernel⟩

end Document

end BinaryGrammar
