import Mathlib.Data.List.TakeWhile
import BinaryGrammar.Json.Printer
import BinaryGrammar.Json.Reader
import BinaryGrammar.Proofs.Numeral

/-!
# JSON texts read back

Writing a tree in its compact form and reading the text gives the tree again, for every tree whose
strings are escaped texts and whose numbers are natural numbers in decimal. The argument has the two
steps of the reader: the written characters of a value are cut into the value's tokens whatever
follows, as long as it does not continue a number or a word, and the tokens of a value put the value
where it belongs whatever is open around it. Below both stands the escape of a single character,
which the reader of tokens takes in and `unescape?` undoes.
-/

set_option autoImplicit false

namespace BinaryGrammar.Json

variable {c : Char} {cs rest : List Char} {acc : List Token}

/-! ## Escapes -/

/-- The characters with an escape of one letter, and that letter. -/
def letterEscapes : List (Char × Char) :=
  [('"', '"'), ('\\', '\\'), ('\x08', 'b'), ('\x0c', 'f'), ('\n', 'n'), ('\r', 'r'), ('\t', 't')]

/-- Four digits write a control character. -/
theorem padded_write_control {n : Nat} (h : n < 0x20) :
    Digits.padded 4 (Digits.write 16 n) =
      ['0', '0', Nat.digitChar (n / 16), Nat.digitChar (n % 16)] := by
  have hall : ∀ n < 0x20, Digits.padded 4 (Digits.write 16 n) =
      ['0', '0', Nat.digitChar (n / 16), Nat.digitChar (n % 16)] := by
    decide
  exact hall n h

/-- A character is escaped by a letter or by its code unit, or it stands for itself. -/
theorem escapeChar_cases (c : Char) :
    (∃ e, (c, e) ∈ letterEscapes ∧ escapeChar c = ['\\', e]) ∨
      (c.toNat < 0x20 ∧ escapeChar c =
        ['\\', 'u', '0', '0', Nat.digitChar (c.toNat / 16), Nat.digitChar (c.toNat % 16)]) ∨
      (c ≠ '"' ∧ c ≠ '\\' ∧ 0x20 ≤ c.toNat ∧ escapeChar c = [c]) := by
  unfold escapeChar
  -- one case for each letter, and the last for all other characters
  split
  on_goal 8 =>
    rename_i hquote hbackslash _ _ _ _ _
    by_cases hcontrol : c.toNat < 0x20
    · simp [hcontrol, padded_write_control hcontrol]
    · exact .inr (.inr ⟨hquote, hbackslash, Nat.le_of_not_lt hcontrol, if_neg hcontrol⟩)
  all_goals exact .inl ⟨_, by decide, rfl⟩

theorem valueIn?_digitChar {k : Nat} (hk : k < 16) :
    Digits.valueIn? 16 (Nat.digitChar k) = some k :=
  Digits.valueIn?_eq_some.mpr ⟨(Digits.value?_digitChar hk).1, hk⟩

theorem unit?_control {n : Nat} (h : n < 0x20) :
    unit? '0' '0' (Nat.digitChar (n / 16)) (Nat.digitChar (n % 16)) = some n := by
  have hzero : Digits.valueIn? 16 '0' = some 0 := by decide
  simp only [unit?, hzero, valueIn?_digitChar (show n / 16 < 16 by omega),
    valueIn?_digitChar (show n % 16 < 16 by omega)]
  simp only [Option.some.injEq]
  omega

/-- The escape of a character is undone, whatever follows. -/
theorem unescapeFrom?_escapeChar (acc : List Char) (c : Char) (rest : List Char) :
    unescapeFrom? acc (escapeChar c ++ rest) = unescapeFrom? (c :: acc) rest := by
  rcases escapeChar_cases c with ⟨e, hmem, hescape⟩ | ⟨hcontrol, hescape⟩ | ⟨-, hplain, -, hescape⟩
  · rw [hescape]
    simp only [letterEscapes, List.mem_cons, Prod.mk.injEq, List.not_mem_nil, or_false] at hmem
    rcases hmem with ⟨rfl, rfl⟩ | ⟨rfl, rfl⟩ | ⟨rfl, rfl⟩ | ⟨rfl, rfl⟩ | ⟨rfl, rfl⟩ | ⟨rfl, rfl⟩ |
      ⟨rfl, rfl⟩ <;> simp [unescapeFrom?]
  · -- the code unit of a control character is no surrogate
    have hhigh : isHighSurrogate c.toNat = false := by
      simp only [isHighSurrogate, Bool.and_eq_false_iff, decide_eq_false_iff_not]
      omega
    have hlow : isLowSurrogate c.toNat = false := by
      simp only [isLowSurrogate, Bool.and_eq_false_iff, decide_eq_false_iff_not]
      omega
    rw [hescape]
    simp [unescapeFrom?, unit?_control hcontrol, hhigh, hlow]
  · rw [hescape]
    simp [unescapeFrom?, hplain]

theorem toList_foldl_push (s : String) (cs : List Char) :
    (cs.foldl String.push s).toList = s.toList ++ cs := by
  induction cs generalizing s with
  | nil => simp
  | cons c cs ih => simp [ih]

theorem toList_escape (s : String) : (escape s).toList = s.toList.flatMap escapeChar := by
  have hfold (cs : List Char) (acc : String) :
      (cs.foldl (fun acc c => (escapeChar c).foldl String.push acc) acc).toList =
        acc.toList ++ cs.flatMap escapeChar := by
    induction cs generalizing acc with
    | nil => simp
    | cons c cs ih => simp [ih, toList_foldl_push]
  unfold escape
  rw [hfold]
  rfl

/-- **Every text survives its escape.** -/
theorem unescape?_escape (s : String) : unescape? (escape s) = some s := by
  have hrun (cs acc : List Char) :
      unescapeFrom? acc (cs.flatMap escapeChar) = some (acc.reverse ++ cs) := by
    induction cs generalizing acc with
    | nil => simp [unescapeFrom?]
    | cons c cs ih =>
        rw [List.flatMap_cons, unescapeFrom?_escapeChar, ih]
        simp
  unfold unescape?
  rw [toList_escape, hrun]
  simp

/-! ## Characters of a tree -/

/-- What stands before an entry. -/
def comma (first : Bool) : List Char := if first then [] else [',']

/-- A string between its quotes. -/
def quotedChars (body : String) : List Char := '"' :: (body.toList ++ ['"'])

mutual

/-- The characters of the compact form of a tree. -/
def chars : Json → List Char
  | .null => ['n', 'u', 'l', 'l']
  | .bool true => ['t', 'r', 'u', 'e']
  | .bool false => ['f', 'a', 'l', 's', 'e']
  | .number text => text.toList
  | .string body => quotedChars body
  | .array items => '[' :: (itemChars true items ++ [']'])
  | .object fields => '{' :: (fieldChars true fields ++ ['}'])

/-- The characters of items, each but the first after a comma. -/
def itemChars (first : Bool) : List Json → List Char
  | [] => []
  | item :: items => comma first ++ (item.chars ++ itemChars false items)

/-- The characters of fields, each but the first after a comma. -/
def fieldChars (first : Bool) : List (String × Json) → List Char
  | [] => []
  | (key, value) :: fields =>
    comma first ++ (quotedChars key ++ ':' :: (value.chars ++ fieldChars false fields))

end

theorem toList_comma (out : String) (first : Bool) :
    (if first then out else out.push ',').toList = out.toList ++ comma first := by
  cases first <;> simp [comma]

theorem toList_quoteTo (out body : String) :
    (quoteTo out body).toList = out.toList ++ quotedChars body := by
  simp [quoteTo, quotedChars]

mutual

theorem toList_compactTo (out : String) : (json : Json) →
    (compactTo out json).toList = out.toList ++ json.chars
  | .null => by simp [compactTo, chars]
  | .bool true => by simp [compactTo, chars]
  | .bool false => by simp [compactTo, chars]
  | .number text => by simp [compactTo, chars]
  | .string body => by rw [compactTo, toList_quoteTo, chars]
  | .array items => by
      rw [compactTo, String.toList_push, toList_compactItemsTo]
      simp [chars]
  | .object fields => by
      rw [compactTo, String.toList_push, toList_compactFieldsTo]
      simp [chars]

theorem toList_compactItemsTo (out : String) (first : Bool) : (items : List Json) →
    (compactItemsTo out first items).toList = out.toList ++ itemChars first items
  | [] => by simp [compactItemsTo, itemChars]
  | item :: items => by
      rw [compactItemsTo, toList_compactItemsTo, toList_compactTo _ item, toList_comma, itemChars]
      simp

theorem toList_compactFieldsTo (out : String) (first : Bool) : (fields : List (String × Json)) →
    (compactFieldsTo out first fields).toList = out.toList ++ fieldChars first fields
  | [] => by simp [compactFieldsTo, fieldChars]
  | (key, value) :: fields => by
      rw [compactFieldsTo, toList_compactFieldsTo, toList_compactTo _ value, String.toList_push,
        toList_quoteTo, toList_comma, fieldChars]
      simp

end

/-! ## Tokens of a tree -/

mutual

/-- The tokens of a tree. -/
def tokens : Json → List Token
  | .null => [.null]
  | .bool b => [.bool b]
  | .number text => [.number text]
  | .string body => [.string body]
  | .array items => .openBracket :: (itemTokens true items ++ [.closeBracket])
  | .object fields => .openBrace :: (fieldTokens true fields ++ [.closeBrace])

/-- The tokens of items, each but the first after a comma. -/
def itemTokens (first : Bool) : List Json → List Token
  | [] => []
  | item :: items => (if first then [] else [.comma]) ++ (item.tokens ++ itemTokens false items)

/-- The tokens of fields, each but the first after a comma. -/
def fieldTokens (first : Bool) : List (String × Json) → List Token
  | [] => []
  | (key, value) :: fields =>
    (if first then [] else [.comma]) ++
      (.string key :: .colon :: (value.tokens ++ fieldTokens false fields))

end

mutual

/-- Whether the strings and keys of a tree are escaped texts and its numbers natural numbers. -/
def Denotes : Json → Prop
  | .null => True
  | .bool _ => True
  | .number text => ∃ n : Nat, text = Digits.decimal n
  | .string body => ∃ s, body = escape s
  | .array items => DenoteAll items
  | .object fields => FieldsDenote fields

/-- Whether all items do. -/
def DenoteAll : List Json → Prop
  | [] => True
  | item :: items => item.Denotes ∧ DenoteAll items

/-- Whether all fields do. -/
def FieldsDenote : List (String × Json) → Prop
  | [] => True
  | (key, value) :: fields => (∃ s, key = escape s) ∧ value.Denotes ∧ FieldsDenote fields

end

/-- What cannot continue a number or a word. -/
def Ends (rest : List Char) : Prop :=
  ∀ c ∈ rest.head?, isNumberPart c = false ∧ ('a' ≤ c && c ≤ 'z') = false

theorem ends_cons (hpart : isNumberPart c = false) (hletter : ('a' ≤ c && c ≤ 'z') = false) :
    Ends (c :: rest) := by
  intro d hd
  cases hd
  exact ⟨hpart, hletter⟩

theorem tokensFrom?_step {mode next : Mode} {ended : List Token}
    (hstep : mode.step c = some (ended, next)) :
    tokensFrom? acc mode (c :: rest) = tokensFrom? (ended.reverse ++ acc) next rest := by
  rw [tokensFrom?, hstep]

/-- A mode that is over leaves its token, and what follows is read by itself. -/
theorem tokensFrom?_turn {mode : Mode} {ended : List Token} (hfinish : mode.finish = some ended)
    (hstep : ∀ c ∈ rest.head?, mode.step c = mode.turn c) :
    tokensFrom? acc mode rest = tokensFrom? (ended.reverse ++ acc) .idle rest := by
  cases rest with
  | nil =>
      have hidle : Mode.idle.finish = some [] := rfl
      simp [tokensFrom?, hfinish, hidle]
  | cons c rest =>
      have hturn := hstep c rfl
      unfold Mode.turn at hturn
      rw [hfinish] at hturn
      cases hbegin : Mode.begin c with
      | none =>
          rw [hbegin] at hturn
          have hidle : Mode.idle.step c = none := hbegin
          rw [tokensFrom?, tokensFrom?, hturn, hidle]
      | some begun =>
          obtain ⟨tokens, next⟩ := begun
          rw [hbegin] at hturn
          have hidle : Mode.idle.step c = some (tokens, next) := hbegin
          rw [tokensFrom?_step hturn, tokensFrom?_step hidle]
          simp

/-- The escape of a character stays in its string. -/
theorem tokensFrom?_escapeChar (body : List Char) (c : Char) (rest : List Char) :
    tokensFrom? acc (.string body) (escapeChar c ++ rest) =
      tokensFrom? acc (.string ((escapeChar c).reverse ++ body)) rest := by
  rcases escapeChar_cases c with ⟨e, hmem, hescape⟩ | ⟨hcontrol, hescape⟩ |
    ⟨hquote, hbackslash, hvisible, hescape⟩
  · have hshort : Mode.isShortEscape e = true ∧ e ≠ 'u' := by
      simp only [letterEscapes, List.mem_cons, Prod.mk.injEq, List.not_mem_nil, or_false] at hmem
      rcases hmem with ⟨-, rfl⟩ | ⟨-, rfl⟩ | ⟨-, rfl⟩ | ⟨-, rfl⟩ | ⟨-, rfl⟩ | ⟨-, rfl⟩ |
        ⟨-, rfl⟩ <;> decide
    rw [hescape]
    simp [tokensFrom?, Mode.step, hshort]
  · have hhigh := valueIn?_digitChar (show c.toNat / 16 < 16 by omega)
    have hlow := valueIn?_digitChar (show c.toNat % 16 < 16 by omega)
    have hzero : Digits.valueIn? 16 '0' = some 0 := by decide
    rw [hescape]
    simp [tokensFrom?, Mode.step, hhigh, hlow, hzero]
  · rw [hescape]
    simp [tokensFrom?, Mode.step, hquote, hbackslash, Nat.not_lt_of_le hvisible]

/-- A quoted text is one token. -/
theorem tokensFrom?_quoted (s : String) (rest : List Char) :
    tokensFrom? acc .idle (quotedChars (escape s) ++ rest) =
      tokensFrom? (.string (escape s) :: acc) .idle rest := by
  -- no quote of the text itself ends the string, because it stands after a backslash
  have hrun (cs body : List Char) :
      tokensFrom? acc (.string body) (cs.flatMap escapeChar ++ '"' :: rest) =
        tokensFrom? acc (.string ((cs.flatMap escapeChar).reverse ++ body)) ('"' :: rest) := by
    induction cs generalizing body with
    | nil => rfl
    | cons c cs ih =>
        rw [List.flatMap_cons, List.append_assoc, tokensFrom?_escapeChar, ih, List.reverse_append,
          List.append_assoc]
  have hopen : Mode.idle.step '"' = some ([], .string []) := rfl
  have hclose : (Mode.string (s.toList.flatMap escapeChar).reverse).step '"' =
      some ([.string (escape s)], .idle) := by
    simp [Mode.step, ← toList_escape]
  rw [quotedChars, List.cons_append, tokensFrom?_step hopen, List.append_assoc, toList_escape,
    List.singleton_append]
  rw [List.reverse_nil, List.nil_append, hrun, List.append_nil, tokensFrom?_step hclose]
  rfl

/-! ## Numbers and words -/

/-- The digits of a number other than zero begin with a digit other than zero. -/
theorem write_eq_cons {n : Nat} (hn : 0 < n) :
    ∃ d ds, Digits.write 10 n = d :: ds ∧ d ≠ '0' ∧ ∀ c ∈ d :: ds, c.isDigit = true := by
  have hdigit : ∀ k < 10, (Nat.digitChar k).isDigit = true := by decide
  have hzero : ∀ k < 10, 0 < k → Nat.digitChar k ≠ '0' := by decide
  induction n using Nat.strongRecOn with
  | ind n ih =>
      unfold Digits.write at *
      rcases Nat.lt_or_ge n 10 with hlt | hge
      · refine ⟨Nat.digitChar n, [], Nat.toDigits_of_lt_base hlt, hzero n hlt hn, ?_⟩
        simpa using hdigit n hlt
      · -- without its last digit the number is still not zero
        obtain ⟨d, ds, hds, hd, hall⟩ := ih (n / 10) (by omega) (by omega)
        refine ⟨d, ds ++ [Nat.digitChar (n % 10)], ?_, hd, ?_⟩
        · rw [Nat.toDigits_of_base_le (by decide) hge, hds]
          rfl
        · intro c hc
          rw [← List.cons_append, List.mem_append, List.mem_singleton] at hc
          rcases hc with hc | rfl
          · exact hall c hc
          · exact hdigit _ (by omega)

/-- What is written of a natural number is a number that begins with a digit. -/
theorem write_number (n : Nat) : ∃ d ds, Digits.write 10 n = d :: ds ∧
    isNumber (d :: ds) = true ∧ ∀ c ∈ d :: ds, c.isDigit = true := by
  rcases Nat.eq_zero_or_pos n with rfl | hn
  · refine ⟨'0', [], rfl, rfl, fun c hc => ?_⟩
    rw [List.mem_singleton.mp hc]
    rfl
  · obtain ⟨d, ds, hds, hd, hall⟩ := write_eq_cons hn
    refine ⟨d, ds, hds, ?_, hall⟩
    obtain ⟨hdigit, hdigits⟩ := List.forall_mem_cons.mp hall
    have hminus : d ≠ '-' := by
      rintro rfl
      cases hdigit
    -- a zero in front would have to stand alone
    have hdrop : ds.dropWhile Char.isDigit = [] := List.dropWhile_eq_nil_iff.mpr hdigits
    simp [isNumber, isUnsignedNumber, hminus, hdigit, hdrop, isNumberTail, isExponent]

theorem isNumberPart_of_isDigit (h : c.isDigit = true) : isNumberPart c = true := by
  simp [isNumberPart, h]

theorem tokensFrom?_numberParts (hall : ∀ c ∈ cs, isNumberPart c = true) (text : List Char) :
    tokensFrom? acc (.number text) (cs ++ rest) =
      tokensFrom? acc (.number (cs.reverse ++ text)) rest := by
  induction cs generalizing text with
  | nil => rfl
  | cons c cs ih =>
      obtain ⟨hc, hcs⟩ := List.forall_mem_cons.mp hall
      have hstep : (Mode.number text).step c = some ([], .number (c :: text)) := by
        simp [Mode.step, hc]
      rw [List.cons_append, tokensFrom?_step hstep, List.reverse_nil, List.nil_append, ih hcs,
        List.reverse_cons, List.append_assoc, List.singleton_append]

theorem begin_of_isDigit (h : c.isDigit = true) : Mode.begin c = some ([], .number [c]) := by
  have hspace : isSpace c = false := by
    rw [Bool.eq_false_iff]
    intro hspace
    simp only [isSpace, Bool.or_eq_true, beq_iff_eq] at hspace
    rcases hspace with ((rfl | rfl) | rfl) | rfl <;> cases h
  unfold Mode.begin
  split
  on_goal 8 => simp [hspace, h]
  all_goals cases h

/-- A natural number is one token. -/
theorem tokensFrom?_decimal (n : Nat) (hrest : Ends rest) :
    tokensFrom? acc .idle ((Digits.decimal n).toList ++ rest) =
      tokensFrom? (.number (Digits.decimal n) :: acc) .idle rest := by
  obtain ⟨d, ds, hwrite, hnumber, hall⟩ := write_number n
  obtain ⟨hd, hds⟩ := List.forall_mem_cons.mp hall
  have hparts : ∀ c ∈ ds, isNumberPart c = true := fun c hc => isNumberPart_of_isDigit (hds c hc)
  have hbegin : Mode.idle.step d = some ([], .number [d]) := begin_of_isDigit hd
  have hfinish : (Mode.number (ds.reverse ++ [d])).finish =
      some [.number (Digits.decimal n)] := by
    simp [Mode.finish, Digits.decimal, hwrite, hnumber]
  have hstop : ∀ c ∈ rest.head?, (Mode.number (ds.reverse ++ [d])).step c =
      (Mode.number (ds.reverse ++ [d])).turn c := by
    intro c hc
    simp [Mode.step, (hrest c hc).1]
  have htext : (Digits.decimal n).toList = d :: ds := by
    rw [Digits.decimal, String.toList_ofList, hwrite]
  rw [htext, List.cons_append, tokensFrom?_step hbegin, List.reverse_nil, List.nil_append,
    tokensFrom?_numberParts hparts, tokensFrom?_turn hfinish hstop]
  rfl

/-- A word that ends here. -/
theorem tokensFrom?_word {text : List Char} {token : Token}
    (hfinish : (Mode.word text).finish = some [token]) (hrest : Ends rest) :
    tokensFrom? acc (.word text) rest = tokensFrom? (token :: acc) .idle rest := by
  refine tokensFrom?_turn hfinish fun c hc => ?_
  have hletter := (hrest c hc).2
  simp only [Mode.step, hletter, if_false, Bool.false_eq_true]

/-! ## From characters to tokens -/

/-- A comma or nothing before an entry. -/
theorem tokensFrom?_comma (first : Bool) :
    tokensFrom? acc .idle (comma first ++ rest) =
      tokensFrom? ((if first then [] else [Token.comma]).reverse ++ acc) .idle rest := by
  cases first
  · exact tokensFrom?_step rfl
  · rfl

theorem ends_itemChars {items : List Json} (hrest : Ends rest) :
    Ends (itemChars false items ++ rest) := by
  cases items with
  | nil => exact hrest
  | cons item items => exact ends_cons (by decide) (by decide)

theorem ends_fieldChars {fields : List (String × Json)} (hrest : Ends rest) :
    Ends (fieldChars false fields ++ rest) := by
  cases fields with
  | nil => exact hrest
  | cons field fields => exact ends_cons (by decide) (by decide)

mutual

/-- The characters of a value are cut into its tokens. -/
theorem tokensFrom?_chars (acc : List Token) {rest : List Char} (hrest : Ends rest) :
    (json : Json) → json.Denotes →
      tokensFrom? acc .idle (json.chars ++ rest) =
        tokensFrom? (json.tokens.reverse ++ acc) .idle rest
  | .null, _ => by
      have hword : (Mode.word ['l', 'l', 'u', 'n']).finish = some [.null] := rfl
      exact tokensFrom?_word hword hrest
  | .bool true, _ => by
      have hword : (Mode.word ['e', 'u', 'r', 't']).finish = some [.bool true] := rfl
      exact tokensFrom?_word hword hrest
  | .bool false, _ => by
      have hword : (Mode.word ['e', 's', 'l', 'a', 'f']).finish = some [.bool false] := rfl
      exact tokensFrom?_word hword hrest
  | .number text, h => by
      obtain ⟨n, rfl⟩ := h
      exact tokensFrom?_decimal n hrest
  | .string body, h => by
      obtain ⟨s, rfl⟩ := h
      exact tokensFrom?_quoted s rest
  | .array items, h => by
      -- the bracket ends the last item, so what follows the array does not matter inside
      have hclose : Mode.idle.step ']' = some ([.closeBracket], .idle) := rfl
      have hopen : Mode.idle.step '[' = some ([.openBracket], .idle) := rfl
      rw [chars, List.cons_append, tokensFrom?_step hopen, List.append_assoc, List.singleton_append,
        tokensFrom?_itemChars true _ (ends_cons (by decide) (by decide)) items h,
        tokensFrom?_step hclose, tokens]
      simp
  | .object fields, h => by
      have hclose : Mode.idle.step '}' = some ([.closeBrace], .idle) := rfl
      have hopen : Mode.idle.step '{' = some ([.openBrace], .idle) := rfl
      rw [chars, List.cons_append, tokensFrom?_step hopen, List.append_assoc, List.singleton_append,
        tokensFrom?_fieldChars true _ (ends_cons (by decide) (by decide)) fields h,
        tokensFrom?_step hclose, tokens]
      simp

theorem tokensFrom?_itemChars (first : Bool) (acc : List Token) {rest : List Char}
    (hrest : Ends rest) : (items : List Json) → DenoteAll items →
      tokensFrom? acc .idle (itemChars first items ++ rest) =
        tokensFrom? ((itemTokens first items).reverse ++ acc) .idle rest
  | [], _ => rfl
  | item :: items, h => by
      rw [itemChars, List.append_assoc, List.append_assoc, tokensFrom?_comma,
        tokensFrom?_chars _ (ends_itemChars hrest) item h.1,
        tokensFrom?_itemChars false _ hrest items h.2, itemTokens]
      simp

theorem tokensFrom?_fieldChars (first : Bool) (acc : List Token) {rest : List Char}
    (hrest : Ends rest) : (fields : List (String × Json)) → FieldsDenote fields →
      tokensFrom? acc .idle (fieldChars first fields ++ rest) =
        tokensFrom? ((fieldTokens first fields).reverse ++ acc) .idle rest
  | [], _ => rfl
  | (key, value) :: fields, h => by
      obtain ⟨⟨s, rfl⟩, hvalue, hfields⟩ := h
      have hcolon : Mode.idle.step ':' = some ([.colon], .idle) := rfl
      rw [fieldChars, List.append_assoc, List.append_assoc, tokensFrom?_comma, tokensFrom?_quoted,
        List.cons_append, tokensFrom?_step hcolon, List.append_assoc,
        tokensFrom?_chars _ (ends_fieldChars hrest) value hvalue,
        tokensFrom?_fieldChars false _ hrest fields hfields, fieldTokens]
      simp

end

/-! ## From tokens to trees -/

variable {stack stack' : List Open} {phase phase' : Phase}

theorem build?_read {token : Token} {more : List Token}
    (h : readToken token stack phase = some (stack', phase')) :
    build? (token :: more) stack phase = build? more stack' phase' := by
  rw [build?, h]

/-- A value does not begin with a closing bracket, so in an array it may come first. -/
theorem build?_firstItem (json : Json) (more : List Token) (stack : List Open) :
    build? (json.tokens ++ more) stack .firstItem = build? (json.tokens ++ more) stack .value := by
  cases json <;> simp [Json.tokens, build?, readToken]

theorem readToken_openBracket (stack : List Open) :
    readToken .openBracket stack .value = some (.array [] :: stack, .firstItem) :=
  rfl

theorem readToken_openBrace (stack : List Open) :
    readToken .openBrace stack .value = some (.object [] :: stack, .firstKey) :=
  rfl

/-- A key and its colon. -/
theorem build?_key (key : String) (more : List Token) {before : List (String × Json)}
    (hphase : phase = .firstKey ∨ phase = .key) :
    build? (.string key :: .colon :: more) (.object before :: stack) phase =
      build? more (.field before key :: stack) .value := by
  have hkey : readToken (.string key) (.object before :: stack) phase =
      some (.field before key :: stack, .colon) := by
    rcases hphase with rfl | rfl <;> rfl
  rw [build?_read hkey, build?_read rfl]

mutual

/-- The tokens of a value put it where it belongs. -/
theorem build?_tokens (more : List Token) {stack stack' : List Open} {phase : Phase} :
    (json : Json) → place json stack = some (stack', phase) →
      build? (json.tokens ++ more) stack .value = build? more stack' phase
  | .null, h => build?_read h
  | .bool b, h => build?_read h
  | .number text, h => build?_read h
  | .string body, h => build?_read h
  | .array [], h => by
      have hclose : close .closeBracket (.array [] :: stack) = some (stack', phase) := h
      rw [tokens, itemTokens, List.cons_append, build?_read (readToken_openBracket stack)]
      exact build?_read hclose
  | .array (item :: items), h => by
      -- items are collected newest first and turned round when the array is closed
      have hclose : close .closeBracket (.array (items.reverse ++ [item]) :: stack) =
          some (stack', phase) := by
        simpa [close] using h
      rw [tokens, itemTokens, List.cons_append, build?_read (readToken_openBracket stack)]
      simp only [if_true, List.nil_append, List.append_assoc]
      rw [build?_firstItem, build?_tokens _ item rfl, build?_itemTokens _ items]
      exact build?_read hclose
  | .object [], h => by
      have hclose : close .closeBrace (.object [] :: stack) = some (stack', phase) := h
      rw [tokens, fieldTokens, List.cons_append, build?_read (readToken_openBrace stack)]
      exact build?_read hclose
  | .object ((key, value) :: fields), h => by
      have hclose : close .closeBrace (.object (fields.reverse ++ [(key, value)]) :: stack) =
          some (stack', phase) := by
        simpa [close] using h
      rw [tokens, fieldTokens, List.cons_append, build?_read (readToken_openBrace stack)]
      simp only [if_true, List.nil_append, List.append_assoc, List.cons_append]
      rw [build?_key key _ (.inl rfl), build?_tokens _ value rfl, build?_fieldTokens _ fields]
      exact build?_read hclose

theorem build?_itemTokens (more : List Token) {stack : List Open} {before : List Json} :
    (items : List Json) →
      build? (itemTokens false items ++ more) (.array before :: stack) .next =
        build? more (.array (items.reverse ++ before) :: stack) .next
  | [] => rfl
  | item :: items => by
      have hcomma : readToken .comma (.array before :: stack) .next =
          some (.array before :: stack, .value) := rfl
      simp only [itemTokens, if_false, Bool.false_eq_true, List.append_assoc, List.cons_append,
        List.nil_append]
      rw [build?_read hcomma, build?_tokens _ item rfl, build?_itemTokens _ items]
      simp

theorem build?_fieldTokens (more : List Token) {stack : List Open}
    {before : List (String × Json)} : (fields : List (String × Json)) →
      build? (fieldTokens false fields ++ more) (.object before :: stack) .next =
        build? more (.object (fields.reverse ++ before) :: stack) .next
  | [] => rfl
  | (key, value) :: fields => by
      have hcomma : readToken .comma (.object before :: stack) .next =
          some (.object before :: stack, .key) := rfl
      simp only [fieldTokens, if_false, Bool.false_eq_true, List.append_assoc, List.cons_append,
        List.nil_append]
      rw [build?_read hcomma, build?_key key _ (.inr rfl), build?_tokens _ value rfl,
        build?_fieldTokens _ fields]
      simp

end

/-- **The compact form of a tree reads back as the tree.** -/
theorem parse?_compact {json : Json} (h : json.Denotes) : parse? json.compact = some json := by
  have hchars : json.compact.toList = json.chars ++ [] := by
    rw [compact, toList_compactTo]
    simp
  have hends : Ends [] := by
    intro c hc
    cases hc
  have htokens : tokens? json.compact = some json.tokens := by
    rw [tokens?, hchars, tokensFrom?_chars _ hends json h]
    simp [tokensFrom?, Mode.finish]
  have hplace : place json [] = some ([], .done json) := rfl
  have hbuild := build?_tokens [] json hplace
  rw [List.append_nil, build?] at hbuild
  simp [parse?, htokens, hbuild]

end BinaryGrammar.Json
