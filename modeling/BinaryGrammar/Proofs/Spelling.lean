import Mathlib.Data.Nat.Digits.Defs
import BinaryGrammar.Proofs.Constant
import BinaryGrammar.Proofs.Literal
import BinaryGrammar.Reference

/-!
# Spellings

Integers, expressions and references are authored as texts and written as texts again. Which texts
are integers is a matter of spelling: at most one sign, a base mark or none, and one or more digits
of that base, so that a text of any length is an integer exactly if it is spelled like that and its
value is a signed word. A text that is written is in general not the text that was authored, since
blanks around it, zeros at its beginning, its base and its sign may be gone, but what was authored
is read back from it.
-/

set_option autoImplicit false

namespace BinaryGrammar

/-! ## Digits -/

namespace Digits

variable {base n : Nat} {c : Char} {cs : List Char}

/-- The character that writes a value, a letter also in upper case. -/
def IsDigit (c : Char) (k : Nat) : Prop := c = Nat.digitChar k ∨ c = (Nat.digitChar k).toUpper

instance (c : Char) (k : Nat) : Decidable (IsDigit c k) :=
  inferInstanceAs (Decidable (c = Nat.digitChar k ∨ c = (Nat.digitChar k).toUpper))

/-- The code points of digits: the letters come after the figures. -/
theorem toNat_digitChar {k : Nat} (h : k < 16) :
    (Nat.digitChar k).toNat = (if k < 10 then 48 + k else 87 + k) ∧
      (Nat.digitChar k).toUpper.toNat = if k < 10 then 48 + k else 55 + k := by
  have hall : ∀ k < 16, (Nat.digitChar k).toNat = (if k < 10 then 48 + k else 87 + k) ∧
      (Nat.digitChar k).toUpper.toNat = if k < 10 then 48 + k else 55 + k := by
    decide
  exact hall k h

theorem value?_eq_some_iff {k : Nat} (h : k < 16) : value? c = some k ↔ IsDigit c k := by
  obtain ⟨hlower, hupper⟩ := toNat_digitChar h
  constructor
  · intro hvalue
    unfold IsDigit
    rw [← Char.toNat_inj, ← Char.toNat_inj, hlower, hupper]
    unfold value? at hvalue
    simp only [char_le_iff, Char.reduceToNat] at hvalue
    split at hvalue
    · have := Option.some.inj hvalue
      split <;> omega
    · split at hvalue
      · have := Option.some.inj hvalue
        split <;> omega
      · split at hvalue
        · have := Option.some.inj hvalue
          split <;> omega
        · cases hvalue
  · rintro (rfl | rfl)
    · exact (value?_digitChar h).1
    · exact (value?_digitChar h).2

theorem valueIn?_eq_some_iff {k : Nat} (hle : base ≤ 16) :
    valueIn? base c = some k ↔ k < base ∧ IsDigit c k := by
  rw [valueIn?_eq_some]
  constructor
  · rintro ⟨hvalue, hlt⟩
    exact ⟨hlt, (value?_eq_some_iff (by omega)).mp hvalue⟩
  · rintro ⟨hlt, hdigit⟩
    exact ⟨(value?_eq_some_iff (by omega)).mpr hdigit, hlt⟩

/-- Characters are one or more digits of a base with these values. -/
structure Spell (base : Nat) (cs : List Char) (ks : List Nat) : Prop where
  digits : List.Forall₂ IsDigit cs ks
  ne_nil : ks ≠ []
  lt : ∀ k ∈ ks, k < base

/-- Digits from the last one on write the number that they have in the positional system. -/
theorem writes_reverse {ks : List Nat} (hle : base ≤ 16) (hdigits : List.Forall₂ IsDigit cs ks)
    (hne : ks ≠ []) (hlt : ∀ k ∈ ks, k < base) : Writes base cs.reverse (Nat.ofDigits base ks) := by
  induction hdigits with
  | nil => exact absurd rfl hne
  | @cons c k cs ks hdigit hdigits ih =>
      obtain ⟨hk, hlt⟩ := List.forall_mem_cons.mp hlt
      have hvalue : valueIn? base c = some k := (valueIn?_eq_some_iff hle).mpr ⟨hk, hdigit⟩
      rw [List.reverse_cons, Nat.ofDigits_cons]
      by_cases hks : ks = []
      · subst hks
        rw [List.forall₂_nil_right_iff.mp hdigits]
        simpa using Writes.digit hvalue
      · have hwrites := (ih hks hlt).snoc hvalue
        rw [Nat.mul_comm, Nat.add_comm] at hwrites
        exact hwrites

/-- **Digits write the number with these digits in the positional system.** -/
theorem writes_iff_spell (hle : base ≤ 16) :
    Writes base cs n ↔ ∃ ks, Spell base cs ks ∧ n = Nat.ofDigits base ks.reverse := by
  constructor
  · intro h
    induction h with
    | @digit c v hv =>
        obtain ⟨hlt, hdigit⟩ := (valueIn?_eq_some_iff hle).mp hv
        refine ⟨[v], ⟨.cons hdigit .nil, List.cons_ne_nil _ _, by simpa using hlt⟩, ?_⟩
        simp
    | @snoc cs n c v _ hv ih =>
        obtain ⟨hlt, hdigit⟩ := (valueIn?_eq_some_iff hle).mp hv
        obtain ⟨ks, hks, rfl⟩ := ih
        refine ⟨ks ++ [v], ⟨?_, by simp, ?_⟩, ?_⟩
        · exact List.rel_append hks.digits (.cons hdigit .nil)
        · intro k hk
          rcases List.mem_append.mp hk with hk | hk
          · exact hks.lt k hk
          · rwa [List.mem_singleton.mp hk]
        · -- the last digit is the first of the reversed ones
          rw [List.reverse_append, List.reverse_singleton, List.singleton_append,
            Nat.ofDigits_cons, Nat.mul_comm, Nat.add_comm]
  · rintro ⟨ks, ⟨hdigits, hne, hlt⟩, rfl⟩
    have hback := writes_reverse hle (List.forall₂_reverse_iff.mpr hdigits)
      (by rwa [ne_eq, List.reverse_eq_nil_iff]) fun k hk => hlt k (List.mem_reverse.mp hk)
    rwa [List.reverse_reverse] at hback

/-- Digits are no blanks. -/
theorem Writes.not_blank (h : Writes base cs n) : ∀ c ∈ cs, Text.isBlank c = false := by
  have hsome := Option.isSome_iff_exists.mpr ⟨n, read?_eq_some_iff.mpr h⟩
  intro c hc
  have hpart := Formula.isNamePart_of_digit ((read?_isSome.mp hsome).2 c hc)
  rw [Bool.eq_false_iff]
  intro hblank
  rw [Formula.isNamePart_of_isBlank hblank] at hpart
  cases hpart

/-- Digits without a sign are read up to a bound. -/
theorem Writes.readBounded? {bound : Nat} (h : Writes base cs n) (hle : n ≤ bound) :
    readBounded? base bound cs = some n := by
  have hread := read?_eq_some_iff.mpr h
  have hplus : ∀ ds, cs ≠ '+' :: ds := by
    rintro ds rfl
    have hnone : valueIn? base '+' = none := rfl
    simp [read?, readFrom?, hnone] at hread
  unfold Digits.readBounded?
  dsimp only
  split
  · rename_i k hk
    split at hk
    · exact absurd rfl (hplus _)
    · cases hread.symm.trans hk
      rw [if_pos hle]
  · rename_i hk
    split at hk
    · exact absurd rfl (hplus _)
    · cases hread.symm.trans hk

theorem writes_write (n : Nat) : Writes 10 (write 10 n) n :=
  read?_eq_some_iff.mp (read?_write (by decide) (by decide) n)

end Digits

/-! ## Integers -/

namespace Integer

variable {cs : List Char} {text : String} {v : Int}

/-- The signs, and what a number counts after them. -/
inductive Sign : List Char → Int → Prop
  | none : Sign [] 1
  | plus : Sign ['+'] 1
  | minus : Sign ['-'] (-1)

/-- One sign or none, a base mark or none, and then digits of the base: the value is that of the
digits in the positional system, with the sign. -/
inductive Spells : List Char → Int → Prop
  | mk {sign mark ds : List Char} {factor : Int} {base : Nat} {ks : List Nat} :
    Sign sign factor → Mark base mark → Digits.Spell base ds ks →
    Spells (sign ++ (mark ++ ds)) (factor * (Nat.ofDigits base ks.reverse : Nat))

theorem Mark.base_le {base : Nat} {mark : List Char} (h : Mark base mark) : base ≤ 16 := by
  cases h <;> decide

theorem numeral_iff {n : Nat} : Numeral cs n ↔ ∃ base mark ds ks, Mark base mark ∧
    Digits.Spell base ds ks ∧ cs = mark ++ ds ∧ n = Nat.ofDigits base ks.reverse := by
  constructor
  · rintro @⟨base, n, mark, ds, hmark, hds⟩
    obtain ⟨ks, hks, rfl⟩ := (Digits.writes_iff_spell hmark.base_le).mp hds
    exact ⟨base, mark, ds, ks, hmark, hks, rfl, rfl⟩
  · rintro ⟨base, mark, ds, ks, hmark, hks, rfl, rfl⟩
    exact .mk hmark ((Digits.writes_iff_spell hmark.base_le).mpr ⟨ks, hks, rfl⟩)

theorem writes_iff_spells : Writes cs v ↔ Spells cs v := by
  constructor
  · intro h
    cases h with
    | plain hn =>
        obtain ⟨base, mark, ds, ks, hmark, hks, rfl, rfl⟩ := numeral_iff.mp hn
        simpa using Spells.mk .none hmark hks
    | plus hn =>
        obtain ⟨base, mark, ds, ks, hmark, hks, rfl, rfl⟩ := numeral_iff.mp hn
        simpa using Spells.mk .plus hmark hks
    | minus hn =>
        obtain ⟨base, mark, ds, ks, hmark, hks, rfl, rfl⟩ := numeral_iff.mp hn
        simpa using Spells.mk .minus hmark hks
  · rintro ⟨hsign, hmark, hks⟩
    have hn : Numeral _ _ := numeral_iff.mpr ⟨_, _, _, _, hmark, hks, rfl, rfl⟩
    cases hsign with
    | none => simpa using Writes.plain hn
    | plus => simpa using Writes.plus hn
    | minus => simpa using Writes.minus hn

/-- **The integers are the signed words that are spelled like that.** -/
theorem parse?_eq_some_iff :
    parse? text = some v ↔ Spells text.toList v ∧ -2 ^ 63 ≤ v ∧ v ≤ 2 ^ 63 - 1 := by
  unfold parse?
  rw [ofChars?_eq_some_iff, writes_iff_spells]
  rfl

/-! ### What is spelled has no blanks -/

/-- The characters that an integer can begin with. -/
def begins : List Char := "+-0123456789".toList

/-- An integer begins with a sign or a figure. -/
theorem Spells.head? (h : Spells cs v) : ∃ c ∈ begins, cs.head? = some c := by
  obtain ⟨hsign, hmark, hks⟩ := h
  cases hsign with
  | plus => exact ⟨'+', by decide, rfl⟩
  | minus => exact ⟨'-', by decide, rfl⟩
  | none =>
      cases hmark with
      | hexadecimal _ => exact ⟨'0', by decide, rfl⟩
      | octal _ => exact ⟨'0', by decide, rfl⟩
      | binary _ => exact ⟨'0', by decide, rfl⟩
      | decimal =>
          obtain ⟨hdigits, hne, hlt⟩ := hks
          cases hdigits with
          | nil => exact absurd rfl hne
          | @cons c k ds ks hdigit _ =>
              have hall : ∀ k < 10,
                  Nat.digitChar k ∈ begins ∧ (Nat.digitChar k).toUpper ∈ begins := by
                decide
              have hk : k < 10 := hlt k List.mem_cons_self
              refine ⟨c, ?_, rfl⟩
              rcases hdigit with rfl | rfl
              · exact (hall k hk).1
              · exact (hall k hk).2

theorem Sign.not_blank {sign : List Char} {factor : Int} (h : Sign sign factor) :
    ∀ c ∈ sign, Text.isBlank c = false := by
  cases h <;> simp [Text.isBlank, Text.blankRanges]

theorem Mark.not_blank {base : Nat} {mark : List Char} (h : Mark base mark) :
    ∀ c ∈ mark, Text.isBlank c = false := by
  cases h with
  | decimal => simp
  | hexadecimal hx => rcases hx with rfl | rfl <;> simp [Text.isBlank, Text.blankRanges]
  | octal ho => rcases ho with rfl | rfl <;> simp [Text.isBlank, Text.blankRanges]
  | binary hb => rcases hb with rfl | rfl <;> simp [Text.isBlank, Text.blankRanges]

theorem Spells.not_blank (h : Spells cs v) : ∀ c ∈ cs, Text.isBlank c = false := by
  obtain ⟨hsign, hmark, hks⟩ := h
  have hwrites := (Digits.writes_iff_spell hmark.base_le).mpr ⟨_, hks, rfl⟩
  intro c hc
  rcases List.mem_append.mp hc with hc | hc
  · exact hsign.not_blank c hc
  · rcases List.mem_append.mp hc with hc | hc
    · exact hmark.not_blank c hc
    · exact hwrites.not_blank c hc

end Integer

/-! ## Trimmed texts -/

namespace Text

variable {cs : List Char} {text : String}

/-- Characters between which no blank is at either end are left as they are. -/
theorem trimChars_eq_self (hfirst : ∀ c ∈ cs.head?, isBlank c = false)
    (hlast : ∀ c ∈ cs.getLast?, isBlank c = false) : trimChars cs = cs := by
  have hkept {ds : List Char} (h : ∀ c ∈ ds.head?, isBlank c = false) :
      ds.dropWhile isBlank = ds := by
    cases ds with
    | nil => rfl
    | cons d ds => rw [List.dropWhile_cons, h d rfl, if_neg Bool.false_ne_true]
  have hback : ∀ c ∈ cs.reverse.head?, isBlank c = false := by
    rwa [List.head?_reverse]
  unfold trimChars
  rw [hkept hfirst, hkept hback, List.reverse_reverse]

theorem trimChars_of_not_blank (h : ∀ c ∈ cs, isBlank c = false) : trimChars cs = cs :=
  trimChars_eq_self (fun c hc => h c (List.mem_of_mem_head? hc))
    fun c hc => h c (List.mem_of_mem_getLast? hc)

/-- What has been trimmed is left as it is. -/
theorem trimChars_trimChars (cs : List Char) : trimChars (trimChars cs) = trimChars cs := by
  refine trimChars_eq_self (fun c hc => ?_) fun c hc => ?_
  · rw [Bool.eq_false_iff]
    intro hblank
    obtain ⟨rest, hrest⟩ := List.head?_eq_some_iff.mp hc
    have hsplit : trimChars cs = [] ++ c :: rest := hrest
    exact (Formula.blank_inside hblank hsplit).1 rfl
  · rw [Bool.eq_false_iff]
    intro hblank
    obtain ⟨rest, hrest⟩ := List.getLast?_eq_some_iff.mp hc
    exact (Formula.blank_inside hblank hrest).2 rfl

theorem trim_trim (text : String) : trim (trim text) = trim text := by
  unfold trim
  rw [String.toList_ofList, trimChars_trimChars]

theorem trim_of_not_blank (h : ∀ c ∈ text.toList, isBlank c = false) : trim text = text := by
  unfold trim
  rw [trimChars_of_not_blank h, String.ofList_toList]

end Text

/-! ## Expressions -/

namespace Expression

variable {text : String} {e : Expression} {v : Int}

/-- The word for no limit is no integer, whatever the case of its letters. -/
theorem sameIgnoringCase_of_spells (h : Integer.Spells text.toList v) :
    Text.sameIgnoringCase text "unlimited" = false := by
  obtain ⟨c, hc, hhead⟩ := h.head?
  have hnone : Integer.begins.all (fun c => c.toLower != 'u') = true := by decide
  rw [sameIgnoringCase_eq, beq_eq_false_iff_ne]
  intro hsame
  have hfirst := congrArg List.head? hsame
  rw [List.head?_map, hhead] at hfirst
  exact bne_iff_ne.mp (List.all_eq_true.mp hnone c hc) (Option.some.inj hfirst)

/-- The decimal text of an integer writes it. -/
theorem writes_decimalInt (v : Int) : Integer.Writes (Digits.decimalInt v).toList v := by
  have hn : Integer.Numeral (Digits.write 10 v.natAbs) v.natAbs :=
    .mk .decimal (Digits.writes_write _)
  unfold Digits.decimalInt Digits.decimal
  split
  · have habs : -(v.natAbs : Int) = v := by omega
    have hminus := Integer.Writes.minus hn
    rw [habs] at hminus
    rw [String.toList_append, String.toList_ofList, String.toList_ofList]
    exact hminus
  · have habs : (v.natAbs : Int) = v := by omega
    have hplain := Integer.Writes.plain hn
    rw [habs] at hplain
    rwa [String.toList_ofList]

/-- The decimal text of a signed word is the constant. -/
theorem parse?_decimalInt (h : Word.IsSigned v) :
    parse? (Digits.decimalInt v) = some (.constant v) := by
  have hwrites := writes_decimalInt v
  have hspells := Integer.writes_iff_spells.mp hwrites
  have htrim := Text.trim_of_not_blank hspells.not_blank
  have hword : Text.sameIgnoringCase (Text.trim (Digits.decimalInt v)) "unlimited" = false := by
    rw [htrim]
    exact sameIgnoringCase_of_spells hspells
  rw [parse?_eq_constant_iff hword, htrim]
  exact Integer.ofChars?_eq_some_iff.mpr ⟨hwrites, h⟩

/-- A constant is a signed word. -/
theorem isSigned_of_parse? (h : parse? text = some (.constant v)) : Word.IsSigned v := by
  by_cases hword : Text.sameIgnoringCase (Text.trim text) "unlimited" = true
  · unfold parse? at h
    dsimp only at h
    rw [hword, if_pos rfl] at h
    split at h
    · cases h
    · cases h
      decide
  · rw [Bool.not_eq_true] at hword
    exact (Integer.ofChars?_cases ((parse?_eq_constant_iff hword).mp h)).1

/-- **What is authored is read back from the text that is written.** -/
theorem parse?_text (h : parse? text = some e) : parse? e.text = some e := by
  cases e with
  | constant v => exact parse?_decimalInt (isSigned_of_parse? h)
  | formula t =>
      obtain ⟨rfl, hempty, hword, hnone⟩ := parse?_eq_formula_iff.mp h
      exact parse?_eq_formula_iff.mpr ⟨(Text.trim_trim text).symm, hempty, hword, hnone⟩

end Expression

/-! ## References -/

namespace Reference

variable {r : Reference} {n : Nat}

/-- A text that is not blank is an id or else a name. -/
theorem parse?_eq_some_iff {s : String} : parse? s = some r ↔ (Text.trim s).isEmpty = false ∧
    ((∃ n, idOf? (Text.trim s) = some n ∧ r = .id n) ∨
      (idOf? (Text.trim s) = none ∧ r = .name (Text.trim s))) := by
  unfold parse?
  dsimp only
  generalize Text.trim s = t
  cases hempty : t.isEmpty <;> cases hid : idOf? t <;> simp [eq_comm]

/-- An id that is read is not too large. -/
theorem idOf?_le {t : String} (h : idOf? t = some n) : n ≤ greatestId := by
  unfold idOf? at h
  split at h
  · exact (Attribute.readBounded?_cases h).1
  · cases h

theorem toList_text_id (n : Nat) :
    (text (.id n)).toList = 'i' :: 'd' :: ':' :: Digits.write 10 n := by
  unfold text Digits.decimal
  rw [String.toList_append, String.toList_ofList, String.toList_ofList]
  rfl

/-- The text of an id that is not too large is the id. -/
theorem parse?_text_id (h : n ≤ greatestId) : parse? (text (.id n)) = some (.id n) := by
  have hblank := (Digits.writes_write n).not_blank
  have htrim : Text.trim (text (.id n)) = text (.id n) := by
    refine Text.trim_of_not_blank ?_
    rw [toList_text_id]
    simpa [Text.isBlank, Text.blankRanges] using hblank
  have hid : idOf? (text (.id n)) = some n := by
    unfold idOf?
    rw [toList_text_id]
    change Digits.readBounded? 10 greatestId (Text.trimChars (Digits.write 10 n)) = some n
    rw [Text.trimChars_of_not_blank hblank, (Digits.writes_write n).readBounded? h]
  have hempty : (text (.id n)).isEmpty = false := by
    rw [String.isEmpty_eq_false_iff, ne_eq, ← String.toList_inj, toList_text_id]
    exact List.cons_ne_nil _ _
  refine parse?_eq_some_iff.mpr ?_
  rw [htrim]
  exact ⟨hempty, .inl ⟨n, hid, rfl⟩⟩

/-- **What refers to something is read back from the text that is written.** -/
theorem parse?_text {s : String} (h : parse? s = some r) : parse? r.text = some r := by
  obtain ⟨hempty, ⟨n, hid, rfl⟩ | ⟨hid, rfl⟩⟩ := parse?_eq_some_iff.mp h
  · exact parse?_text_id (idOf?_le hid)
  · refine parse?_eq_some_iff.mpr ?_
    unfold text
    rw [Text.trim_trim]
    exact ⟨hempty, .inr ⟨hid, rfl⟩⟩

end Reference

/-- **Integers are read exactly as they are spelled, and texts are read back.** A text is the
integer that it spells, if that is a signed word, and any other text is none. Whatever expression or
reference has been read from a text is the one that is read from its own text. -/
theorem spelled_and_read_back :
    (∀ s v, Integer.parse? s = some v ↔
      Integer.Spells s.toList v ∧ -2 ^ 63 ≤ v ∧ v ≤ 2 ^ 63 - 1) ∧
    (∀ s, Integer.parse? s = none ↔
      ∀ v, Integer.Spells s.toList v → ¬ (-2 ^ 63 ≤ v ∧ v ≤ 2 ^ 63 - 1)) ∧
    (∀ e, (∃ s, Expression.parse? s = some e) → Expression.parse? e.text = some e) ∧
    ∀ r, (∃ s, Reference.parse? s = some r) → Reference.parse? r.text = some r := by
  refine ⟨fun s v => Integer.parse?_eq_some_iff, fun s => ?_, ?_, ?_⟩
  · rw [Option.eq_none_iff_forall_ne_some]
    refine forall_congr' fun v => ?_
    rw [ne_eq, Integer.parse?_eq_some_iff, not_and]
  · rintro e ⟨s, h⟩
    exact Expression.parse?_text h
  · rintro r ⟨s, h⟩
    exact Reference.parse?_text h

/-- The least signed word is spelled in base sixteen, eight is no digit of base eight, and a
constant and an id lose their blanks, signs and zeros. -/
theorem spelled_and_read_back_samples :
    Integer.Spells "-0X8000000000000000".toList Word.least ∧
      (∀ v, Integer.Spells "0o8".toList v → ¬ (-2 ^ 63 ≤ v ∧ v ≤ 2 ^ 63 - 1)) ∧
      Expression.parse? "7" = some (.constant 7) ∧ Reference.parse? "id:5" = some (.id 5) := by
  have hconstant : Expression.parse? " +007 " = some (.constant 7) := by
    refine (Expression.parse?_eq_constant_iff ?_).mpr (by decide)
    rw [Expression.sameIgnoringCase_eq]
    decide
  have hid : Reference.parse? " id: +05" = some (.id 5) := by decide
  have hleast : Integer.parse? "-0X8000000000000000" = some Word.least := by decide
  have hnone : Integer.parse? "0o8" = none := by decide
  have hseven : (Expression.constant 7).text = "7" := by decide
  have hfive : (Reference.id 5).text = "id:5" := by decide
  obtain ⟨hspelled, hother, hexpression, hreference⟩ := spelled_and_read_back
  refine ⟨((hspelled _ _).mp hleast).1, (hother _).mp hnone, ?_, ?_⟩
  · rw [← hseven]
    exact hexpression _ ⟨_, hconstant⟩
  · rw [← hfive]
    exact hreference _ ⟨_, hid⟩

end BinaryGrammar
