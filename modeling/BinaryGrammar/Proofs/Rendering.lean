import BinaryGrammar.Proofs.Numeral
import BinaryGrammar.Render.Line

/-!
# Rendered values

What a line shows of a number can be relied on. The digits of an integer read back as the integer in
whatever base they are shown, as long as it is a signed word. The name before an integer is there
exactly if the integer has one of the values that its element lists, and it is the name of the first
such value, or else the names of all values under masks that the integer has.
-/

set_option autoImplicit false

namespace BinaryGrammar

/-! ## Integers -/

namespace Display

/-- In each base the digits are a numeral. -/
theorem magnitude?_digits (display : Display) (n : Nat) :
    Integer.magnitude? (display.digits n) = some n := by
  refine Integer.magnitude?_eq_some_iff.mpr ?_
  cases display with
  | binary =>
      have hread : Digits.read? 2 (Digits.write 2 n) = some n :=
        Digits.read?_write (by decide) (by decide) n
      exact ⟨2, _, rfl, hread⟩
  | dec =>
      have hread : Digits.read? 10 (Digits.write 10 n) = some n :=
        Digits.read?_write (by decide) (by decide) n
      have hdigits := (Digits.read?_isSome.mp (Option.isSome_iff_exists.mpr ⟨n, hread⟩)).2
      exact ⟨10, _, Integer.splitBase_of_digits hdigits, hread⟩
  | hex =>
      have hne : (Digits.write 16 n).map Char.toUpper ≠ [] := by
        rw [ne_eq, List.map_eq_nil_iff]
        exact Nat.toDigits_ne_nil
      have hread : Digits.readFrom? 16 0 ((Digits.write 16 n).map Char.toUpper) = some n :=
        Digits.readFrom?_write (fun k hk => (Digits.value?_digitChar hk).2) (by decide)
          (by decide) n
      rw [← Digits.read?_of_ne_nil hne] at hread
      exact ⟨16, _, rfl, hread⟩

/-- **Rendered integers read back.** Whichever base it is shown in, a signed word is read back from
its text, the least one too; and so is an unsigned word that is a signed one. The text of any other
integer is no literal. -/
theorem parse?_integer (display : Display) (v : Int) :
    Integer.parse? (display.integer v) = if Word.IsSigned v then some v else none := by
  have hdigits := display.magnitude?_digits v.natAbs
  unfold Integer.parse? integer
  rw [String.toList_ofList]
  by_cases hneg : v < 0
  · have habs : -(v.natAbs : Int) = v := by omega
    rw [if_pos hneg, Integer.ofChars?_minus hdigits, habs]
  · have habs : (v.natAbs : Int) = v := by omega
    rw [if_neg hneg, Integer.ofChars?_of_magnitude? hdigits, habs]

example : Display.hex.integer Word.least = "-0x8000000000000000" := by decide

end Display

/-! ## Names of values -/

namespace NumberBody

variable {body : NumberBody} {raw : Nat} {signed : Int} {label : String}

/-- The values under masks that an integer has, in the order in which they are listed. -/
def underMasks (body : NumberBody) (raw : Nat) : List (FixedValue NumberLiteral) :=
  body.masks.flatMap fun m => m.values.filter fun f =>
    f.value.matchesInt (raw &&& m.value) (Word.toSigned (raw &&& m.value))

/-- The label of an integer: the name of the first fixed value that it has, or else the names of all
values under masks that it has. -/
inductive Labelled (body : NumberBody) (raw : Nat) (signed : Int) : String → Prop
  | value {before after : List (FixedValue NumberLiteral)} {f : FixedValue NumberLiteral} :
    body.values = before ++ f :: after → (∀ g ∈ before, g.value.matchesInt raw signed = false) →
    f.value.matchesInt raw signed = true → Labelled body raw signed f.name
  | masks : (∀ f ∈ body.values, f.value.matchesInt raw signed = false) →
    body.underMasks raw ≠ [] →
    Labelled body raw signed (" | ".intercalate ((body.underMasks raw).map (·.name)))

/-- All values that an element lists have names. -/
structure Named (body : NumberBody) : Prop where
  values : ∀ f ∈ body.values, f.name ≠ ""
  masks : ∀ m ∈ body.masks, ∀ f ∈ m.values, f.name ≠ ""

theorem Named.underMasks (h : body.Named) : ∀ f ∈ body.underMasks raw, f.name ≠ "" := by
  intro f hf
  obtain ⟨m, hm, hf⟩ := List.mem_flatMap.mp hf
  exact h.masks m hm f (List.mem_of_mem_filter hf)

/-- An integer is accepted if it has a fixed value or one under a mask. -/
theorem acceptsInt_eq_true_iff : body.acceptsInt raw signed = true ↔
    (∃ f ∈ body.values, f.value.matchesInt raw signed = true) ∨ body.underMasks raw ≠ [] := by
  have hmasks : (body.masks.any fun m => !(m.hits raw).isEmpty) = true ↔
      body.underMasks raw ≠ [] := by
    rw [List.any_eq_true, ne_eq, underMasks, List.flatMap_eq_nil_iff]
    simp only [Bool.not_eq_true', List.isEmpty_eq_false_iff, not_forall, exists_prop]
    rfl
  unfold acceptsInt
  rw [Bool.or_eq_true, hmasks, List.any_eq_true]

theorem Labelled.acceptsInt (h : body.Labelled raw signed label) :
    body.acceptsInt raw signed = true := by
  rw [acceptsInt_eq_true_iff]
  cases h with
  | @value before after f hvalues _ hf =>
      refine .inl ⟨f, ?_, hf⟩
      rw [hvalues]
      exact List.mem_append_right _ List.mem_cons_self
  | masks _ hsome => exact .inr hsome

/-- **An integer has a label exactly if it is accepted.** -/
theorem exists_labelled_iff : (∃ label, body.Labelled raw signed label) ↔
    body.acceptsInt raw signed = true := by
  constructor
  · rintro ⟨label, h⟩
    exact h.acceptsInt
  · intro h
    cases hfind : body.values.find? fun f => f.value.matchesInt raw signed with
    | some f =>
        obtain ⟨hf, before, after, hvalues, hbefore⟩ := List.find?_eq_some_iff_append.mp hfind
        refine ⟨f.name, .value hvalues (fun g hg => ?_) hf⟩
        simpa using hbefore g hg
    | none =>
        have hnone : ∀ f ∈ body.values, f.value.matchesInt raw signed = false :=
          fun f hf => Bool.eq_false_iff.mpr (List.find?_eq_none.mp hfind f hf)
        refine ⟨_, .masks hnone ?_⟩
        rcases acceptsInt_eq_true_iff.mp h with ⟨f, hf, hmatch⟩ | hsome
        · rw [hnone f hf] at hmatch
          cases hmatch
        · exact hsome

end NumberBody

namespace Render

variable {body : NumberBody} {raw : Nat} {signed : Int} {label : String}

theorem maskNames_eq_filter (body : NumberBody) (raw : Nat) : maskNames body raw =
    ((body.underMasks raw).map (·.name)).filter fun name => !name.isEmpty := by
  unfold maskNames NumberBody.underMasks
  rw [List.map_flatMap]
  rfl

/-- No names get lost when all values have one. -/
theorem maskNames_eq (h : body.Named) :
    maskNames body raw = (body.underMasks raw).map (·.name) := by
  rw [maskNames_eq_filter, List.filter_eq_self]
  intro name hname
  obtain ⟨f, hf, rfl⟩ := List.mem_map.mp hname
  rw [Bool.not_eq_true', String.isEmpty_eq_false_iff]
  exact h.underMasks f hf

/-- Joined names are not empty when the first is not. -/
theorem intercalate_ne_empty {first : String} (hfirst : first ≠ "") (names : List String) :
    " | ".intercalate (first :: names) ≠ "" := by
  intro hempty
  have hlength := congrArg String.length hempty
  cases names with
  | nil =>
      rw [String.intercalate_singleton] at hempty
      exact hfirst hempty
  | cons second names =>
      rw [String.intercalate_cons_cons, String.length_append, String.length_append] at hlength
      simp at hlength

/-- The name of an integer is its label. -/
theorem integerName_of_labelled (hnamed : body.Named) (h : body.Labelled raw signed label) :
    integerName body raw signed = some label ∧ label ≠ "" := by
  unfold integerName
  rw [maskNames_eq hnamed]
  cases h with
  | @value before after f hvalues hbefore hf =>
      have hfind : body.values.find? (fun f => f.value.matchesInt raw signed) = some f := by
        refine List.find?_eq_some_iff_append.mpr ⟨hf, before, after, hvalues, fun g hg => ?_⟩
        rw [hbefore g hg]
        rfl
      have hname : f.name ≠ "" := hnamed.values f (List.mem_of_find?_eq_some hfind)
      have hsome : f.name.isEmpty = false := String.isEmpty_eq_false_iff.mpr hname
      refine ⟨?_, hname⟩
      simp [hfind, hsome]
  | masks hnone hsome =>
      have hfind : body.values.find? (fun f => f.value.matchesInt raw signed) = none :=
        List.find?_eq_none.mpr fun f hf => by simp [hnone f hf]
      have hnames : ∀ f ∈ body.underMasks raw, f.name ≠ "" := hnamed.underMasks
      cases hunder : body.underMasks raw with
      | nil => exact absurd hunder hsome
      | cons f rest =>
          have hfirst : f.name ≠ "" := hnames f (by rw [hunder]; exact List.mem_cons_self)
          refine ⟨?_, intercalate_ne_empty hfirst _⟩
          simp [hfind]

/-- An integer that is not accepted has no name. -/
theorem integerName_eq_none (h : body.acceptsInt raw signed = false) :
    integerName body raw signed = none := by
  have hnot : ¬ ((∃ f ∈ body.values, f.value.matchesInt raw signed = true) ∨
      body.underMasks raw ≠ []) := by
    rw [← NumberBody.acceptsInt_eq_true_iff, h]
    exact Bool.false_ne_true
  obtain ⟨hvalues, hmasks⟩ := not_or.mp hnot
  have hfind : body.values.find? (fun f => f.value.matchesInt raw signed) = none :=
    List.find?_eq_none.mpr fun f hf hmatch => hvalues ⟨f, hf, hmatch⟩
  have hnames : maskNames body raw = [] := by
    rw [maskNames_eq_filter, not_not.mp hmasks]
    rfl
  unfold integerName
  simp [hfind, hnames]

end Render

/-! ## Labels in lines -/

/-- A value holds an integer, signed or not. -/
inductive Value.Holds (v : Value) : Int → Prop
  | int {n : Int} : v.payload = .int n → Holds v n
  | uint {n : Nat} : v.payload = .uint n → Holds v n

namespace Value.Holds

variable {doc : Document} {v : Value} {body : NumberBody} {n : Int} {raw : Nat} {signed : Int}

theorem exists_readings (h : v.Holds n) : ∃ raw signed, v.readings? = some (raw, signed) := by
  unfold Value.readings?
  cases h with
  | int hpayload =>
      rw [hpayload]
      exact ⟨_, _, rfl⟩
  | uint hpayload =>
      rw [hpayload]
      exact ⟨_, _, rfl⟩

/-- Where something is listed, the readings decide. -/
theorem accepts_eq (h : v.Holds n) (hlisted : body.values ≠ [] ∨ body.masks ≠ [])
    (hreadings : v.readings? = some (raw, signed)) :
    body.accepts v = body.acceptsInt raw signed := by
  have hfloat : v.float? = none := by
    unfold Value.float?
    cases h with
    | int hpayload => rw [hpayload]
    | uint hpayload => rw [hpayload]
  have hempty : (body.values.isEmpty && body.masks.isEmpty) = false := by
    rw [Bool.and_eq_false_iff, List.isEmpty_eq_false_iff, List.isEmpty_eq_false_iff]
    exact hlisted
  unfold NumberBody.accepts
  rw [hempty, if_neg Bool.false_ne_true, hfloat, hreadings]

theorem line_eq (h : v.Holds n) (hbody : (doc.element v.element).body = .number body)
    (hreadings : v.readings? = some (raw, signed)) (data : Bytes) :
    Render.line doc data v =
      Render.named (Render.integerName body raw signed) ((doc.display v.element).integer n) := by
  have hinteger : Render.line doc data v = Render.integerLine doc v n := by
    unfold Render.line
    cases h with
    | int hpayload => rw [hpayload]
    | uint hpayload => rw [hpayload]
  rw [hinteger]
  unfold Render.integerLine
  rw [hbody, hreadings]

end Value.Holds

namespace Render

/-- **Labels agree with fixed values.** Where an element lists fixed values or masks, and all values
have names, an integer that was decoded for it is shown after a label exactly if it is accepted, and
else is shown by itself. The label is the name of the first fixed value that the integer has, or
else the names of all values under masks that it has. -/
theorem line_labels {doc : Document} {v : Value} {body : NumberBody} {n : Int}
    (hbody : (doc.element v.element).body = .number body) (hholds : v.Holds n)
    (hlisted : body.values ≠ [] ∨ body.masks ≠ []) (hnamed : body.Named) (data : Bytes) :
    ∃ raw signed, v.readings? = some (raw, signed) ∧
      ((∃ label, body.Labelled raw signed label ∧
          line doc data v = label ++ " (" ++ (doc.display v.element).integer n ++ ")") ↔
        body.accepts v = true) ∧
      (line doc data v = (doc.display v.element).integer n ↔ body.accepts v = false) := by
  obtain ⟨raw, signed, hreadings⟩ := hholds.exists_readings
  refine ⟨raw, signed, hreadings, ?_⟩
  rw [hholds.accepts_eq hlisted hreadings, hholds.line_eq hbody hreadings]
  generalize (doc.display v.element).integer n = text
  have hlabelled {label : String} (h : body.Labelled raw signed label) :
      named (integerName body raw signed) text = label ++ " (" ++ text ++ ")" := by
    obtain ⟨hname, hne⟩ := integerName_of_labelled hnamed h
    rw [hname]
    unfold named
    dsimp only
    rw [if_neg (by rw [String.isEmpty_iff]; exact hne)]
  constructor
  · rw [← NumberBody.exists_labelled_iff]
    exact ⟨fun ⟨label, h, _⟩ => ⟨label, h⟩, fun ⟨label, h⟩ => ⟨label, h, hlabelled h⟩⟩
  · constructor
    · intro hplain
      rw [Bool.eq_false_iff]
      intro haccepted
      -- a label makes the text longer
      obtain ⟨label, h⟩ := NumberBody.exists_labelled_iff.mpr haccepted
      have hopen : " (".length = 2 := rfl
      have hlength := congrArg String.length (hlabelled h)
      rw [hplain] at hlength
      simp only [String.length_append] at hlength
      omega
    · intro hrefused
      rw [integerName_eq_none hrefused]
      rfl

/-! ## An integer under two masks

Two bits give the kind of a record, and a third one is a flag. -/

/-- The values of the masks. -/
def kindAndFlag : NumberBody where
  length := some (.constant 1)
  signed := some false
  display := some .hex
  values := [⟨"end", .int 0, ""⟩]
  masks := [⟨"kind", 3, "", [⟨"leaf", .int 1, ""⟩, ⟨"branch", .int 2, ""⟩]⟩,
    ⟨"flags", 8, "", [⟨"packed", .int 8, ""⟩]⟩]

/-- A document with the number. -/
def kindAndFlagDocument : Document := .ofParts "" {} #[{ body := .number kindAndFlag }] #[]

/-- A packed leaf. -/
def packedLeaf : Value := { element := 0, offset := 0, length := 1, payload := .uint 9 }

/-- A packed leaf has a value under each mask and is no fixed value, so it has two names. -/
theorem line_labels_masks : kindAndFlag.accepts packedLeaf = true ∧
    ∃ label, kindAndFlag.Labelled 9 9 label ∧
      line kindAndFlagDocument #[] packedLeaf = label ++ " (" ++ "0x9" ++ ")" := by
  have hbody : (kindAndFlagDocument.element packedLeaf.element).body = .number kindAndFlag := rfl
  have hholds : packedLeaf.Holds 9 := .uint rfl
  have hlisted : kindAndFlag.values ≠ [] ∨ kindAndFlag.masks ≠ [] := Or.inl (by decide)
  have hnamed : kindAndFlag.Named := ⟨by decide, by decide⟩
  have haccepts : kindAndFlag.accepts packedLeaf = true := by decide
  obtain ⟨raw, signed, hreadings, hlabel, _⟩ := line_labels hbody hholds hlisted hnamed #[]
  cases hreadings
  exact ⟨haccepts, hlabel.mpr haccepts⟩

end Render

end BinaryGrammar
