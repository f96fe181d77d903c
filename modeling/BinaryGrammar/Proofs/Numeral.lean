import Mathlib.Data.List.Basic
import Mathlib.Data.List.Induction
import BinaryGrammar.Formula.Parser

/-!
# Numerals

Two readers take numbers apart. One reads an authored integer with its sign and base mark, the other
splits a formula into tokens, and there a number has no sign. What they share is the **numeral**: a
base mark or none, and then digits of that base. The digits of a number, written in any base up to
sixteen, read back as the number; an authored integer is read as what its text writes, if that is a
signed word; and a numeral that stands in a formula before something that cannot continue it is one
token.
-/

set_option autoImplicit false

namespace BinaryGrammar

/-! ## Digits -/

namespace Digits

variable {base n acc : Nat} {c : Char} {cs ds : List Char}

theorem valueIn?_eq_some {v : Nat} : valueIn? base c = some v ↔ value? c = some v ∧ v < base := by
  unfold valueIn?
  cases h : value? c with
  | none => simp
  | some w =>
      by_cases hw : w < base
      · simp only [hw, if_true, Option.some.injEq]
        constructor
        · rintro rfl
          exact ⟨rfl, hw⟩
        · exact fun h => h.1
      · simp only [hw, if_false, Option.some.injEq]
        constructor
        · intro h
          cases h
        · rintro ⟨rfl, hlt⟩
          exact absurd hlt hw

theorem char_le_iff {a b : Char} : a ≤ b ↔ a.toNat ≤ b.toNat := by
  rw [Char.le_def, UInt32.le_iff_toNat_le, Char.toNat_val, Char.toNat_val]

/-- The digits of a base by their code points. -/
theorem valueIn?_isSome : (valueIn? base c).isSome ↔
    (48 ≤ c.toNat ∧ c.toNat ≤ 57 ∧ c.toNat < 48 + base) ∨
      (97 ≤ c.toNat ∧ c.toNat ≤ 122 ∧ c.toNat < 87 + base) ∨
      (65 ≤ c.toNat ∧ c.toNat ≤ 90 ∧ c.toNat < 55 + base) := by
  have hsome : (valueIn? base c).isSome ↔ ∃ v, value? c = some v ∧ v < base := by
    rw [Option.isSome_iff_exists]
    exact exists_congr fun v => valueIn?_eq_some
  rw [hsome]
  unfold value?
  simp only [char_le_iff, Char.reduceToNat]
  split
  · simp only [Option.some.injEq, exists_eq_left']
    omega
  · split
    · simp only [Option.some.injEq, exists_eq_left']
      omega
    · split
      · simp only [Option.some.injEq, exists_eq_left']
        omega
      · simp only [reduceCtorEq, false_and, exists_false, false_iff]
        omega

/-- The digits that are written, in either case, have their values. -/
theorem value?_digitChar (h : n < 16) :
    value? (Nat.digitChar n) = some n ∧ value? (Nat.digitChar n).toUpper = some n := by
  have hall : ∀ n < 16,
      value? (Nat.digitChar n) = some n ∧ value? (Nat.digitChar n).toUpper = some n := by
    decide
  exact hall n h

theorem readFrom?_append (acc : Nat) (cs ds : List Char) :
    readFrom? base acc (cs ++ ds) = (readFrom? base acc cs).bind (readFrom? base · ds) := by
  induction cs generalizing acc with
  | nil => rfl
  | cons c cs ih =>
      simp only [List.cons_append, readFrom?]
      cases valueIn? base c with
      | none => rfl
      | some v => exact ih _

/-- Characters read as a number exactly if all of them are digits. -/
theorem readFrom?_isSome : (readFrom? base acc cs).isSome ↔ ∀ c ∈ cs, (valueIn? base c).isSome := by
  induction cs generalizing acc with
  | nil => simp [readFrom?]
  | cons c cs ih =>
      simp only [readFrom?, List.forall_mem_cons]
      cases h : valueIn? base c with
      | none => simp
      | some v => simp [ih]

theorem read?_isSome : (read? base cs).isSome ↔ cs ≠ [] ∧ ∀ c ∈ cs, (valueIn? base c).isSome := by
  cases cs with
  | nil => simp [read?]
  | cons c cs =>
      unfold read?
      rw [readFrom?_isSome]
      simp

theorem readFrom?_zeros (hb : 0 < base) (k : Nat) :
    readFrom? base 0 (List.replicate k '0') = some 0 := by
  have hzero : valueIn? base '0' = some 0 := valueIn?_eq_some.mpr ⟨rfl, hb⟩
  induction k with
  | zero => rfl
  | succ k ih => simpa [List.replicate_succ, readFrom?, hzero] using ih

/-- The digits of a number read back as the number, also in the other case. -/
theorem readFrom?_write {f : Char → Char}
    (hf : ∀ k < 16, value? (f (Nat.digitChar k)) = some k) (hb : 1 < base) (hle : base ≤ 16)
    (n : Nat) : readFrom? base 0 ((write base n).map f) = some n := by
  have hdigit (k : Nat) (hk : k < base) : valueIn? base (f (Nat.digitChar k)) = some k :=
    valueIn?_eq_some.mpr ⟨hf k (by omega), hk⟩
  induction n using Nat.strongRecOn with
  | ind n ih =>
      unfold write
      rcases Nat.lt_or_ge n base with hlt | hge
      · rw [Nat.toDigits_of_lt_base hlt]
        simp [readFrom?, hdigit n hlt]
      · -- the last digit is the remainder, and the others write the quotient
        have hquot : n / base < n := Nat.div_lt_self (by omega) hb
        have hrem : n % base < base := Nat.mod_lt n (by omega)
        have hrest := ih (n / base) hquot
        unfold write at hrest
        rw [Nat.toDigits_of_base_le hb hge, List.map_append, readFrom?_append, hrest]
        simp [readFrom?, hdigit _ hrem, Nat.mul_comm (n / base), Nat.div_add_mod]

theorem read?_of_ne_nil (h : cs ≠ []) : read? base cs = readFrom? base 0 cs := by
  cases cs with
  | nil => exact absurd rfl h
  | cons c cs => rfl

theorem read?_write (hb : 1 < base) (hle : base ≤ 16) (n : Nat) :
    read? base (write base n) = some n := by
  have hread := readFrom?_write (f := id) (fun k hk => (value?_digitChar hk).1) hb hle n
  rw [List.map_id] at hread
  have hne : write base n ≠ [] := Nat.toDigits_ne_nil
  rw [read?_of_ne_nil hne, hread]

/-- Digits write a number: each place counts as often as the base says for the next one. -/
inductive Writes (base : Nat) : List Char → Nat → Prop
  | digit {c : Char} {v : Nat} : valueIn? base c = some v → Writes base [c] v
  | snoc {cs : List Char} {n : Nat} {c : Char} {v : Nat} :
    Writes base cs n → valueIn? base c = some v → Writes base (cs ++ [c]) (n * base + v)

theorem Writes.ne_nil (h : Writes base cs n) : cs ≠ [] := by
  cases h with
  | digit _ => exact List.cons_ne_nil _ _
  | snoc _ _ => exact List.append_ne_nil_of_right_ne_nil _ (List.cons_ne_nil _ _)

theorem readFrom?_snoc (c : Char) : readFrom? base 0 (cs ++ [c]) =
    (readFrom? base 0 cs).bind fun n => (valueIn? base c).map fun v => n * base + v := by
  rw [readFrom?_append]
  congr 1
  funext n
  cases h : valueIn? base c <;> simp [readFrom?, h]

/-- **Digits are read as the number that they write.** -/
theorem read?_eq_some_iff : read? base cs = some n ↔ Writes base cs n := by
  constructor
  · intro h
    induction cs using List.reverseRecOn generalizing n with
    | nil => cases h
    | append_singleton cs c ih =>
        rw [read?_of_ne_nil (by simp), readFrom?_snoc] at h
        obtain ⟨before, hbefore, h⟩ := Option.bind_eq_some_iff.mp h
        obtain ⟨v, hv, rfl⟩ := Option.map_eq_some_iff.mp h
        cases hcs : cs with
        | nil =>
            rw [hcs] at hbefore
            cases hbefore
            rw [Nat.zero_mul, Nat.zero_add]
            exact .digit hv
        | cons d ds =>
            rw [← hcs]
            refine .snoc (ih ?_) hv
            rw [read?_of_ne_nil (by simp [hcs]), hbefore]
  · intro h
    rw [read?_of_ne_nil h.ne_nil]
    induction h with
    | digit hv => simp [readFrom?, hv]
    | snoc _ hv ih => simp [readFrom?_snoc, ih, hv]

end Digits

/-! ## Integers -/

namespace Integer

variable {cs ds : List Char} {base n : Nat} {v : Int}

/-- Decimal digits do not look like a base mark. -/
theorem splitBase_of_digits (h : ∀ c ∈ cs, (Digits.valueIn? 10 c).isSome) :
    splitBase cs = (10, cs) := by
  unfold splitBase
  split
  on_goal 7 => rfl
  all_goals exact absurd (h _ (List.mem_cons_of_mem _ (List.mem_cons_self ..))) (by decide)

/-- The number that a base mark or none and then digits write. -/
def magnitude? (cs : List Char) : Option Nat := Digits.read? (splitBase cs).1 (splitBase cs).2

theorem magnitude?_eq_some_iff : magnitude? cs = some n ↔
    ∃ base ds, splitBase cs = (base, ds) ∧ Digits.read? base ds = some n := by
  unfold magnitude?
  constructor
  · intro h
    exact ⟨_, _, rfl, h⟩
  · rintro ⟨base, ds, hsplit, h⟩
    rw [hsplit]
    exact h

/-- A numeral does not begin with a sign. -/
theorem splitSign_of_magnitude? (h : magnitude? cs = some n) : splitSign cs = (false, cs) := by
  have hsign (c : Char) (hbase : splitBase (c :: cs.tail) = (10, c :: cs.tail))
      (hvalue : Digits.valueIn? 10 c = none) : cs ≠ c :: cs.tail := by
    intro hcs
    rw [hcs] at h
    simp [magnitude?, hbase, Digits.read?, Digits.readFrom?, hvalue] at h
  unfold splitSign
  split
  · exact absurd rfl (hsign '-' rfl rfl)
  · exact absurd rfl (hsign '+' rfl rfl)
  · rfl

/-- An integer without a sign is a numeral of a signed word. -/
theorem ofChars?_of_magnitude? (h : magnitude? cs = some n) :
    ofChars? cs = if Word.IsSigned n then some (n : Int) else none := by
  have hsign := splitSign_of_magnitude? h
  unfold magnitude? at h
  unfold ofChars?
  simp [hsign, h]

theorem ofChars?_minus (h : magnitude? cs = some n) :
    ofChars? ('-' :: cs) = if Word.IsSigned (-(n : Int)) then some (-(n : Int)) else none := by
  unfold magnitude? at h
  unfold ofChars? splitSign
  simp [h]

/-! ### Texts of integers -/

/-- The bases and their marks. -/
inductive Mark : Nat → List Char → Prop
  | decimal : Mark 10 []
  | hexadecimal {x : Char} : x = 'x' ∨ x = 'X' → Mark 16 ['0', x]
  | octal {o : Char} : o = 'o' ∨ o = 'O' → Mark 8 ['0', o]
  | binary {b : Char} : b = 'b' ∨ b = 'B' → Mark 2 ['0', b]

/-- A mark, and then digits of its base. -/
inductive Numeral : List Char → Nat → Prop
  | mk {base n : Nat} {mark ds : List Char} :
    Mark base mark → Digits.Writes base ds n → Numeral (mark ++ ds) n

/-- A numeral, with at most one sign before it. -/
inductive Writes : List Char → Int → Prop
  | plain {cs : List Char} {n : Nat} : Numeral cs n → Writes cs n
  | plus {cs : List Char} {n : Nat} : Numeral cs n → Writes ('+' :: cs) n
  | minus {cs : List Char} {n : Nat} : Numeral cs n → Writes ('-' :: cs) (-n)

theorem splitBase_mark (h : splitBase cs = (base, ds)) :
    ∃ mark, Mark base mark ∧ cs = mark ++ ds := by
  unfold splitBase at h
  split at h <;> cases h
  · exact ⟨_, .hexadecimal (.inl rfl), rfl⟩
  · exact ⟨_, .hexadecimal (.inr rfl), rfl⟩
  · exact ⟨_, .octal (.inl rfl), rfl⟩
  · exact ⟨_, .octal (.inr rfl), rfl⟩
  · exact ⟨_, .binary (.inl rfl), rfl⟩
  · exact ⟨_, .binary (.inr rfl), rfl⟩
  · exact ⟨_, .decimal, rfl⟩

theorem magnitude?_eq_some_iff_numeral : magnitude? cs = some n ↔ Numeral cs n := by
  rw [magnitude?_eq_some_iff]
  constructor
  · rintro ⟨base, ds, hsplit, hread⟩
    obtain ⟨mark, hmark, rfl⟩ := splitBase_mark hsplit
    exact .mk hmark (Digits.read?_eq_some_iff.mp hread)
  · rintro @⟨base, n, mark, ds, hmark, hds⟩
    have hread := Digits.read?_eq_some_iff.mpr hds
    refine ⟨base, ds, ?_, hread⟩
    cases hmark with
    | decimal =>
        have hsome := Option.isSome_iff_exists.mpr ⟨n, hread⟩
        exact splitBase_of_digits (Digits.read?_isSome.mp hsome).2
    | hexadecimal hx => rcases hx with rfl | rfl <;> rfl
    | octal ho => rcases ho with rfl | rfl <;> rfl
    | binary hb => rcases hb with rfl | rfl <;> rfl

/-- The integer that a text writes, whether or not it is a word. -/
def value? (cs : List Char) : Option Int :=
  (magnitude? (splitSign cs).2).map fun (n : Nat) =>
    if (splitSign cs).1 then -(n : Int) else (n : Int)

theorem value?_eq_some_iff : value? cs = some v ↔ Writes cs v := by
  unfold value?
  constructor
  · intro h
    obtain ⟨n, hn, rfl⟩ := Option.map_eq_some_iff.mp h
    rw [magnitude?_eq_some_iff_numeral] at hn
    unfold splitSign at hn ⊢
    split at hn
    · exact .minus hn
    · exact .plus hn
    · exact .plain hn
  · intro h
    cases h with
    | plain hn =>
        rw [← magnitude?_eq_some_iff_numeral] at hn
        simp [splitSign_of_magnitude? hn, hn]
    | plus hn =>
        rw [← magnitude?_eq_some_iff_numeral] at hn
        simp [splitSign, hn]
    | minus hn =>
        rw [← magnitude?_eq_some_iff_numeral] at hn
        simp [splitSign, hn]

/-- **An integer literal is a text that writes a signed word.** -/
theorem ofChars?_eq_some_iff : ofChars? cs = some v ↔ Writes cs v ∧ Word.IsSigned v := by
  have hvalue : ofChars? cs =
      (value? cs).bind fun w => if Word.IsSigned w then some w else none := by
    unfold ofChars? value? magnitude?
    dsimp only
    cases Digits.read? (splitBase (splitSign cs).2).1 (splitBase (splitSign cs).2).2 <;> rfl
  rw [hvalue, Option.bind_eq_some_iff]
  simp only [value?_eq_some_iff, Option.ite_none_right_eq_some, Option.some.injEq]
  constructor
  · rintro ⟨w, hw, hsigned, rfl⟩
    exact ⟨hw, hsigned⟩
  · rintro ⟨hv, hsigned⟩
    exact ⟨v, hv, hsigned, rfl⟩

end Integer

/-! ## Tokens -/

namespace Formula

variable {base : Nat} {c : Char} {cs ds rest : List Char} {mode : Mode} {ended : List Token}

/-- The bases that a mark stands for, and ten. -/
def IsBase (base : Nat) : Prop := base = 2 ∨ base = 8 ∨ base = 10 ∨ base = 16

instance (base : Nat) : Decidable (IsBase base) :=
  inferInstanceAs (Decidable (base = 2 ∨ base = 8 ∨ base = 10 ∨ base = 16))

/-- Both readers know the same digits. -/
theorem isDigitOf_iff (hb : IsBase base) :
    isDigitOf base c = true ↔ (Digits.valueIn? base c).isSome := by
  have hdigit : c.isDigit = true ↔ 48 ≤ c.toNat ∧ c.toNat ≤ 57 := Char.isDigit_iff_toNat
  have hchar (d : Char) : (c == d) = true ↔ c.toNat = d.toNat := by
    rw [beq_iff_eq, Char.toNat_inj]
  rw [Digits.valueIn?_isSome]
  rcases hb with rfl | rfl | rfl | rfl <;> unfold isDigitOf <;>
    simp only [Bool.or_eq_true, Bool.and_eq_true, decide_eq_true_eq, Digits.char_le_iff, hdigit,
      hchar, Char.reduceToNat] <;> omega

theorem splitBase_isBase (cs : List Char) : IsBase (Integer.splitBase cs).1 := by
  unfold Integer.splitBase IsBase
  split <;> simp

/-- What cannot continue a number or a path. -/
def Ends (rest : List Char) : Prop := ∀ c ∈ rest.head?, isNamePart c = false ∧ c ≠ '.'

theorem tokensFrom?_cons {next : Mode} (hstep : mode.step c = some (ended, next)) :
    tokensFrom? mode (c :: rest) = (tokensFrom? next rest).map (ended ++ ·) := by
  rw [tokensFrom?, hstep]
  dsimp only
  cases tokensFrom? next rest <;> rfl

/-- A character that ends no token. -/
theorem tokensFrom?_grow {next : Mode} (hstep : mode.step c = some ([], next)) :
    tokensFrom? mode (c :: rest) = tokensFrom? next rest := by
  rw [tokensFrom?_cons hstep]
  cases tokensFrom? next rest <;> rfl

/-- A mode that is over leaves its token, and what follows is read by itself. -/
theorem tokensFrom?_turn (hfinish : mode.finish = some ended)
    (hstep : ∀ c ∈ rest.head?, mode.step c = mode.turn c) :
    tokensFrom? mode rest = (tokensFrom? .idle rest).map (ended ++ ·) := by
  cases rest with
  | nil =>
      unfold tokensFrom?
      rw [hfinish]
      simp [Mode.finish]
  | cons c rest =>
      have hturn := hstep c rfl
      unfold Mode.turn at hturn
      rw [hfinish] at hturn
      cases hbegin : Mode.begin c with
      | none =>
          rw [hbegin] at hturn
          have hidle : Mode.idle.step c = none := hbegin
          rw [tokensFrom?, tokensFrom?, hturn, hidle]
          rfl
      | some begun =>
          obtain ⟨tokens, next⟩ := begun
          rw [hbegin] at hturn
          have hidle : Mode.idle.step c = some (tokens, next) := hbegin
          rw [tokensFrom?_cons hturn, tokensFrom?_cons hidle, Option.map_map]
          congr 1
          funext more
          simp

theorem tokensFrom?_digits (hall : ∀ c ∈ ds, isDigitOf base c = true) (text : List Char) :
    tokensFrom? (.digits base text) (ds ++ rest) =
      tokensFrom? (.digits base (ds.reverse ++ text)) rest := by
  induction ds generalizing text with
  | nil => rfl
  | cons d ds ih =>
      obtain ⟨hd, hds⟩ := List.forall_mem_cons.mp hall
      have hstep : (Mode.digits base text).step d = some ([], .digits base (d :: text)) := by
        simp [Mode.step, hd]
      rw [List.cons_append, tokensFrom?_grow hstep, ih hds, List.reverse_cons, List.append_assoc,
        List.singleton_append]

/-- The characters that begin names, by their code points. -/
theorem isNameStart_iff : isNameStart c = true ↔
    (65 ≤ c.toNat ∧ c.toNat ≤ 90) ∨ (97 ≤ c.toNat ∧ c.toNat ≤ 122) ∨ c.toNat = 95 := by
  have hline : (c == '_') = true ↔ c.toNat = 95 := by
    rw [beq_iff_eq, ← Char.toNat_inj]
    rfl
  have hupper : c.isUpper = true ↔ 65 ≤ c.toNat ∧ c.toNat ≤ 90 := by
    unfold Char.isUpper
    simp [UInt32.le_iff_toNat_le]
  have hlower : c.isLower = true ↔ 97 ≤ c.toNat ∧ c.toNat ≤ 122 := by
    unfold Char.isLower
    simp [UInt32.le_iff_toNat_le]
  unfold isNameStart Char.isAlpha
  simp only [Bool.or_eq_true, hline, hupper, hlower]
  omega

theorem isNamePart_iff : isNamePart c = true ↔
    (48 ≤ c.toNat ∧ c.toNat ≤ 57) ∨ isNameStart c = true := by
  have hdigit : c.isDigit = true ↔ 48 ≤ c.toNat ∧ c.toNat ≤ 57 := Char.isDigit_iff_toNat
  unfold isNamePart isNameStart Char.isAlphanum
  simp only [Bool.or_eq_true, ← hdigit]
  grind

theorem isNamePart_of_digit (h : (Digits.valueIn? base c).isSome) : isNamePart c = true := by
  rw [isNamePart_iff, isNameStart_iff]
  rw [Digits.valueIn?_isSome] at h
  omega

theorem isSpace_of_isNamePart (h : isNamePart c = true) : isSpace c = false := by
  rw [Bool.eq_false_iff]
  intro hspace
  simp only [isSpace, Bool.or_eq_true, beq_iff_eq] at hspace
  rcases hspace with ((rfl | rfl) | rfl) | rfl <;> exact absurd h (by decide)

theorem isDigitOf_eq_false (hb : IsBase base) (h : isNamePart c = false) :
    isDigitOf base c = false := by
  rw [Bool.eq_false_iff, ne_eq, isDigitOf_iff hb]
  intro hdigit
  rw [isNamePart_of_digit hdigit] at h
  cases h

/-- Digits that go on from what has been read, up to something that cannot continue them. -/
theorem tokensFrom?_digits_end (hb : IsBase base)
    (hall : ∀ c ∈ ds, (Digits.valueIn? base c).isSome) (hrest : Ends rest) (text : List Char) :
    tokensFrom? (.digits base text) (ds ++ rest) =
      (tokensFrom? .idle rest).map (.number (String.ofList (text.reverse ++ ds)) :: ·) := by
  rw [tokensFrom?_digits fun c hc => (isDigitOf_iff hb).mpr (hall c hc)]
  have hfinish : (Mode.digits base (ds.reverse ++ text)).finish =
      some [.number (String.ofList (text.reverse ++ ds))] := by
    simp [Mode.finish]
  refine tokensFrom?_turn hfinish fun c hc => ?_
  have hstop := isDigitOf_eq_false hb (hrest c hc).1
  simp [Mode.step, hstop]

/-- A numeral with a mark. -/
theorem tokensFrom?_marked {mark : Char} (hb : IsBase base)
    (hmark : Mode.zero.step mark = some ([], .marked base mark)) (hne : ds ≠ [])
    (hall : ∀ c ∈ ds, (Digits.valueIn? base c).isSome) (hrest : Ends rest) :
    tokensFrom? .idle ('0' :: mark :: ds ++ rest) =
      (tokensFrom? .idle rest).map (.number (String.ofList ('0' :: mark :: ds)) :: ·) := by
  cases ds with
  | nil => exact absurd rfl hne
  | cons d ds =>
      obtain ⟨hd, hds⟩ := List.forall_mem_cons.mp hall
      have hdigit : (Mode.marked base mark).step d = some ([], .digits base [d, mark, '0']) := by
        simp [Mode.step, (isDigitOf_iff hb).mpr hd]
      have hzero : Mode.idle.step '0' = some ([], .zero) := rfl
      rw [List.cons_append, List.cons_append, List.cons_append, tokensFrom?_grow hzero,
        tokensFrom?_grow hmark, tokensFrom?_grow hdigit, tokensFrom?_digits_end hb hds hrest]
      rfl

/-- A numeral without a mark. -/
theorem tokensFrom?_decimal (hne : ds ≠ []) (hall : ∀ c ∈ ds, (Digits.valueIn? 10 c).isSome)
    (hrest : Ends rest) :
    tokensFrom? .idle (ds ++ rest) =
      (tokensFrom? .idle rest).map (.number (String.ofList ds) :: ·) := by
  have hten : IsBase 10 := by decide
  cases ds with
  | nil => exact absurd rfl hne
  | cons d ds =>
      obtain ⟨hd, hds⟩ := List.forall_mem_cons.mp hall
      have hdigit : d.isDigit = true := (isDigitOf_iff hten).mpr hd
      by_cases hzero : d = '0'
      · -- a leading zero might begin a mark, so the next character decides
        subst hzero
        have hstep : Mode.idle.step '0' = some ([], .zero) := rfl
        rw [List.cons_append, tokensFrom?_grow hstep]
        cases ds with
        | nil =>
            have hfinish : Mode.zero.finish = some [.number (String.ofList ['0'])] := rfl
            refine tokensFrom?_turn hfinish fun c hc => ?_
            have hpart := (hrest c hc).1
            have hne : ∀ e, isNamePart e = true → (c == e) = false := by
              intro e he
              rw [beq_eq_false_iff_ne]
              rintro rfl
              rw [he] at hpart
              cases hpart
            have hnot : c.isDigit = false := isDigitOf_eq_false hten hpart
            simp [Mode.step, hne, hnot, isNamePart]
        | cons e ds =>
            obtain ⟨he, hes⟩ := List.forall_mem_cons.mp hds
            have hnext : Mode.zero.step e = some ([], .digits 10 [e, '0']) := by
              have hedigit : e.isDigit = true := (isDigitOf_iff hten).mpr he
              have hmark : ∀ m, m.isDigit = false → (e == m) = false := by
                intro m hm
                rw [beq_eq_false_iff_ne]
                rintro rfl
                rw [hedigit] at hm
                cases hm
              simp [Mode.step, hmark, hedigit]
            rw [List.cons_append, tokensFrom?_grow hnext, tokensFrom?_digits_end hten hes hrest]
            rfl
      · have hspace : isSpace d = false := isSpace_of_isNamePart (isNamePart_of_digit hd)
        have hstep : Mode.idle.step d = some ([], .digits 10 [d]) := by
          simp [Mode.step, Mode.begin, hspace, hzero, hdigit]
        rw [List.cons_append, tokensFrom?_grow hstep, tokensFrom?_digits_end hten hds hrest]
        rfl

/-- **A numeral is one token.** -/
theorem tokensFrom?_numeral {n : Nat} (h : Integer.magnitude? cs = some n) (hrest : Ends rest) :
    tokensFrom? .idle (cs ++ rest) =
      (tokensFrom? .idle rest).map (.number (String.ofList cs) :: ·) := by
  obtain ⟨base, ds, hsplit, hread⟩ := Integer.magnitude?_eq_some_iff.mp h
  obtain ⟨hne, hall⟩ := Digits.read?_isSome.mp (Option.isSome_iff_exists.mpr ⟨n, hread⟩)
  have hb : IsBase base := by
    have := splitBase_isBase cs
    rwa [hsplit] at this
  unfold Integer.splitBase at hsplit
  -- one case for each mark, and the last one for none
  split at hsplit <;> cases hsplit
  on_goal 7 => exact tokensFrom?_decimal hne hall hrest
  all_goals exact tokensFrom?_marked hb rfl hne hall hrest

end Formula

end BinaryGrammar
