import BinaryGrammar.Expression
import BinaryGrammar.Proofs.Lexing

/-!
# Constants and formulas

A text that is authored as one integer is a constant and is never evaluated; any other text is a
formula. Both ways of giving a text its value agree on the constants, up to two spellings that a
formula cannot have: a plus sign before the number, and the least signed word, whose digits without
the minus sign are too large. In the other direction, a text that is evaluated without any field in
scope and is no constant combines something: it has an operator besides a minus sign at its
beginning, a parenthesis, or a space inside.
-/

set_option autoImplicit false

namespace BinaryGrammar

/-! ## Signs -/

namespace Integer

variable {cs : List Char} {v : Int}

/-- An integer is a numeral of a signed word, with a minus sign, with a plus sign or with none. -/
theorem ofChars?_cases (h : ofChars? cs = some v) :
    Word.IsSigned v ∧
      ((∃ n : Nat, magnitude? cs = some n ∧ v = n) ∨
        (∃ n : Nat, ∃ ds, cs = '-' :: ds ∧ magnitude? ds = some n ∧ v = -n) ∨
        ∃ ds, cs = '+' :: ds) := by
  obtain ⟨hwrites, hsigned⟩ := ofChars?_eq_some_iff.mp h
  refine ⟨hsigned, ?_⟩
  cases hwrites with
  | plain hn => exact .inl ⟨_, magnitude?_eq_some_iff_numeral.mpr hn, rfl⟩
  | minus hn => exact .inr (.inl ⟨_, _, rfl, magnitude?_eq_some_iff_numeral.mpr hn, rfl⟩)
  | plus _ => exact .inr (.inr ⟨_, rfl⟩)

end Integer

/-- The negative of a signed word that is no negative itself is one too. -/
theorem Word.IsSigned.neg {n : Nat} (h : Word.IsSigned n) : Word.IsSigned (-(n : Int)) := by
  unfold Word.IsSigned Word.least Word.greatest at h ⊢
  omega

/-- Whether an error says that a text cannot be read, and not that its value does not exist. -/
def EvalError.isReading : EvalError → Bool
  | .malformed _ => true
  | .invalidNumber _ => true
  | .unknownName _ => false
  | .divisionByZero => false
  | .overflow => false

namespace Formula

variable {cs : List Char} {n : Nat} {v : Int} {f : Formula} {tokens : List Token} {text : String}
  {scope : Scope}

/-! ## Reading -/

theorem isInvalidNumber_number (text : String) :
    (Token.number text).isInvalidNumber = true ↔ Integer.parse? text = none := by
  unfold Token.isInvalidNumber
  rw [Option.isNone_iff_eq_none]

/-- A formula is read if its tokens can be arranged and all its numbers are signed words. -/
theorem parse_eq_ok_iff : parse text = .ok f ↔
    ∃ tokens, tokens? text = some tokens ∧ readTokens tokens [] {} none = some f ∧
      ∀ token ∈ tokens, token.isInvalidNumber = false := by
  -- only numbers are invalid, so it is a number that would be found
  have hvalid {tokens : List Token}
      (h : ∀ n, tokens.find? Token.isInvalidNumber ≠ some (.number n)) :
      ∀ token ∈ tokens, token.isInvalidNumber = false := by
    intro token hmem
    rw [Bool.eq_false_iff]
    intro hinvalid
    obtain ⟨first, hfirst⟩ := Option.isSome_iff_exists.mp
      (List.find?_isSome.mpr ⟨token, hmem, hinvalid⟩)
    have hbad := List.find?_some hfirst
    cases first with
    | number n => exact h n hfirst
    | path names => cases hbad
    | op op => cases hbad
    | tilde => cases hbad
    | openParen => cases hbad
    | closeParen => cases hbad
  constructor
  · intro h
    unfold parse at h
    split at h
    · cases h
    · rename_i tokens htokens
      split at h
      · cases h
      · rename_i g hread
        split at h
        · cases h
        · rename_i hfind
          cases h
          exact ⟨tokens, htokens, hread, hvalid hfind⟩
  · rintro ⟨tokens, htokens, hread, hall⟩
    have hfind : tokens.find? Token.isInvalidNumber = none :=
      List.find?_eq_none.mpr fun token hmem => by simp [hall token hmem]
    simp [parse, htokens, hread, hfind]

theorem evaluate_eq_ok (h : evaluate scope text = .ok v) :
    ∃ f, parse text = .ok f ∧ eval scope f = .ok v := by
  unfold evaluate at h
  split at h
  · rename_i f hparse
    exact ⟨f, hparse, h⟩
  · cases h

/-! ## From constants to formulas -/

theorem tokensFrom?_numeral_end (h : Integer.magnitude? cs = some n) :
    tokensFrom? .idle cs = some [.number (String.ofList cs)] := by
  have hends : Ends [] := by
    intro c hc
    cases hc
  have hone := tokensFrom?_numeral h hends
  rw [List.append_nil] at hone
  rw [hone]
  rfl

theorem tokensFrom?_minus (cs : List Char) :
    tokensFrom? .idle ('-' :: cs) = (tokensFrom? .idle cs).map ([.op .subtract] ++ ·) :=
  tokensFrom?_cons rfl

theorem parse?_numeral_of_isSigned (h : Integer.magnitude? cs = some n)
    (hsigned : Word.IsSigned n) : Integer.parse? (String.ofList cs) = some (n : Int) := by
  unfold Integer.parse?
  rw [String.toList_ofList, Integer.ofChars?_of_magnitude? h, if_pos hsigned]

theorem tokens?_minus_numeral (htext : text.toList = '-' :: cs)
    (h : Integer.magnitude? cs = some n) :
    tokens? text = some [.op .subtract, .number (String.ofList cs)] := by
  unfold tokens?
  rw [htext, tokensFrom?_minus, tokensFrom?_numeral_end h]
  rfl

/-- A numeral of a signed word has its value as a formula. -/
theorem evaluate_numeral (htext : text.toList = cs) (h : Integer.magnitude? cs = some n)
    (hsigned : Word.IsSigned n) : evaluate scope text = .ok (n : Int) := by
  have hvalue := parse?_numeral_of_isSigned h hsigned
  have hparse : parse text = .ok (.number n) := by
    refine parse_eq_ok_iff.mpr ⟨[.number (String.ofList cs)], ?_, ?_, ?_⟩
    · unfold tokens?
      rw [htext, tokensFrom?_numeral_end h]
    · simp [readTokens, numberValue, hvalue, applySigns, Row.close, unroll, joinLevels, joinLevel,
        BinaryOp.levels]
    · simp [Token.isInvalidNumber, hvalue]
  simp [evaluate, hparse, eval]

/-- So has its negative. -/
theorem evaluate_minus (htext : text.toList = '-' :: cs) (h : Integer.magnitude? cs = some n)
    (hsigned : Word.IsSigned n) : evaluate scope text = .ok (-(n : Int)) := by
  have hvalue := parse?_numeral_of_isSigned h hsigned
  have hparse : parse text = .ok (.unary .negate (.number n)) := by
    refine parse_eq_ok_iff.mpr ⟨_, tokens?_minus_numeral htext h, ?_, ?_⟩
    · simp [readTokens, numberValue, hvalue, applySigns, Row.close, unroll, joinLevels, joinLevel,
        BinaryOp.levels]
    · simp [Token.isInvalidNumber, hvalue]
  have hneg := Word.IsSigned.neg hsigned
  simp [evaluate, hparse, eval, applyUnary, checked, hneg]

/-- A minus sign before a numeral that is too large does not help. -/
theorem evaluate_minus_large (htext : text.toList = '-' :: cs)
    (h : Integer.magnitude? cs = some n) (hlarge : ¬ Word.IsSigned n) :
    evaluate scope text = .error (.invalidNumber (String.ofList cs)) := by
  have hvalue : Integer.parse? (String.ofList cs) = none := by
    unfold Integer.parse?
    rw [String.toList_ofList, Integer.ofChars?_of_magnitude? h, if_neg hlarge]
  simp [evaluate, parse, tokens?_minus_numeral htext h, readTokens, List.find?,
    Token.isInvalidNumber, hvalue]

/-- No formula begins with a plus sign. -/
theorem evaluate_plus (htext : text.toList = '+' :: cs) :
    evaluate scope text = .error (.malformed malformedDetail) := by
  have htokens : tokens? text = (tokensFrom? .idle cs).map ([.op .add] ++ ·) := by
    unfold tokens?
    rw [htext]
    exact tokensFrom?_cons rfl
  unfold evaluate parse
  rw [htokens]
  cases tokensFrom? .idle cs with
  | none => rfl
  | some tokens => simp [readTokens]

/-- The integers that a formula cannot write as they are authored. -/
def Unwritable (s : String) (v : Int) : Prop := s.toList.head? = some '+' ∨ v = Word.least

instance (s : String) (v : Int) : Decidable (Unwritable s v) :=
  inferInstanceAs (Decidable (s.toList.head? = some '+' ∨ v = Word.least))

theorem evaluate_writable (hparse : Integer.parse? text = some v) (h : ¬ Unwritable text v) :
    evaluate scope text = .ok v := by
  obtain ⟨hplus, hleast⟩ := not_or.mp h
  obtain ⟨hsigned, ⟨n, hn, rfl⟩ | ⟨n, ds, htext, hn, rfl⟩ | ⟨ds, htext⟩⟩ :=
    Integer.ofChars?_cases hparse
  · exact evaluate_numeral rfl hn hsigned
  · -- of the negative words only the least one has no positive counterpart
    have hpositive : Word.IsSigned n := by
      unfold Word.IsSigned Word.least Word.greatest at *
      omega
    exact evaluate_minus htext hn hpositive
  · rw [htext] at hplus
    exact absurd rfl hplus

theorem evaluate_unwritable (hparse : Integer.parse? text = some v) (h : Unwritable text v) :
    ∃ e, evaluate scope text = .error e ∧ e.isReading = true := by
  obtain ⟨hsigned, ⟨n, hn, rfl⟩ | ⟨n, ds, htext, hn, rfl⟩ | ⟨ds, htext⟩⟩ :=
    Integer.ofChars?_cases hparse
  · rcases h with hplus | hleast
    · -- a numeral does not begin with a sign
      obtain ⟨ds, hds⟩ := List.head?_eq_some_iff.mp hplus
      have hsign := Integer.splitSign_of_magnitude? hn
      rw [hds] at hsign
      simp [Integer.splitSign] at hsign
    · unfold Word.least at hleast
      omega
  · rcases h with hplus | hleast
    · rw [htext] at hplus
      simp at hplus
    · have hlarge : ¬ Word.IsSigned n := by
        unfold Word.IsSigned Word.least Word.greatest at *
        omega
      exact ⟨_, evaluate_minus_large htext hn hlarge, rfl⟩
  · exact ⟨_, evaluate_plus htext, rfl⟩

/-! ## From formulas to constants -/

/-- Some characters after a minus sign at their beginning, if there is one. -/
def afterMinus : List Char → List Char
  | '-' :: cs => cs
  | cs => cs

theorem afterMinus_eq_self (h : ¬ ∃ ds, cs = '-' :: ds) : afterMinus cs = cs := by
  unfold afterMinus
  split
  · exact absurd ⟨_, rfl⟩ h
  · rfl

theorem mem_of_mem_afterMinus {c : Char} (h : c ∈ afterMinus cs) : c ∈ cs := by
  unfold afterMinus at h
  split at h
  · exact List.mem_cons_of_mem _ h
  · exact h

/-- A space with something before it and something after it. -/
def SpaceInside (cs : List Char) : Prop :=
  ∃ before c after, cs = before ++ c :: after ∧ before ≠ [] ∧ after ≠ [] ∧ isSpace c = true

/-- A text that combines something: besides a minus sign at its beginning it has an operator, or it
has a parenthesis or a space inside. -/
def Compound (s : String) : Prop :=
  (∃ op : BinaryOp, op.symbol <:+: afterMinus s.toList) ∨ '~' ∈ s.toList ∨
    '(' ∈ s.toList ∨ ')' ∈ s.toList ∨ SpaceInside s.toList

/-- The tokens that are operands by themselves. -/
def Token.isAtom : Token → Bool
  | .number _ => true
  | .path _ => true
  | _ => false

/-- A number without a sign and a field are read only if nothing else stands there. -/
theorem readTokens_atoms {signs : List UnaryOp} (hatoms : ∀ token ∈ tokens, token.isAtom = true)
    (h : readTokens tokens [] { signs := signs } none = some f) :
    (∃ text, tokens = [.number text]) ∨ ∃ names, tokens = [.path names] ∧
      f = applySigns signs (.path names) := by
  have hstop {token : Token} {rest : List Token} {g : Formula} (hatom : token.isAtom = true) :
      readTokens (token :: rest) [] { signs := signs } (some g) = none := by
    cases token with
    | number text => simp [readTokens]
    | path names => simp [readTokens]
    | op op => cases hatom
    | tilde => cases hatom
    | openParen => cases hatom
    | closeParen => cases hatom
  cases tokens with
  | nil => simp [readTokens] at h
  | cons first rest =>
      obtain ⟨hfirst, hrest⟩ := List.forall_mem_cons.mp hatoms
      -- whatever the first token is, a second one could not follow it
      have hone {g : Formula} (h : readTokens rest [] { signs := signs } (some g) = some f) :
          rest = [] ∧ f = g := by
        cases rest with
        | nil =>
            simp [readTokens, Row.close, unroll, joinLevels, joinLevel, BinaryOp.levels] at h
            exact ⟨rfl, h.symm⟩
        | cons second rest =>
            rw [hstop (hrest second List.mem_cons_self)] at h
            cases h
      cases first with
      | number text =>
          rw [readTokens] at h
          obtain ⟨rfl, -⟩ := hone h
          exact .inl ⟨text, rfl⟩
      | path names =>
          rw [readTokens] at h
          obtain ⟨rfl, hf⟩ := hone h
          exact .inr ⟨names, rfl, hf⟩
      | op op => cases hfirst
      | tilde => cases hfirst
      | openParen => cases hfirst
      | closeParen => cases hfirst

theorem eval_applySigns_error {e : EvalError} (signs : List UnaryOp) (h : eval scope f = .error e) :
    eval scope (applySigns signs f) = .error e := by
  unfold applySigns
  induction signs generalizing f with
  | nil => exact h
  | cons sign signs ih =>
      refine ih ?_
      rw [eval, h]

/-- Characters without operators, parentheses and spaces. -/
structure Plain (cs : List Char) : Prop where
  operators : ∀ op : BinaryOp, ¬ op.symbol <:+: cs
  tilde : '~' ∉ cs
  openParen : '(' ∉ cs
  closeParen : ')' ∉ cs
  spaces : ∀ c ∈ cs, isSpace c = false

theorem Plain.flatMap_chars (hplain : Plain cs) (h : tokensFrom? .idle cs = some tokens) :
    tokens.flatMap Token.chars = cs := by
  have hproper : Mode.idle.Proper := trivial
  have hchars := chars_tokensFrom? hproper h
  have hfilter : cs.filter (fun c => !isSpace c) = cs :=
    List.filter_eq_self.mpr fun c hc => by simp [hplain.spaces c hc]
  rw [hchars, hfilter]
  rfl

/-- Plain characters are cut into numbers and paths. -/
theorem Plain.isAtom (hplain : Plain cs) (h : tokensFrom? .idle cs = some tokens) :
    ∀ token ∈ tokens, token.isAtom = true := by
  intro token hmem
  have hinfix : token.chars <:+: cs := by
    obtain ⟨before, after, rfl⟩ := List.append_of_mem hmem
    rw [← hplain.flatMap_chars h, List.flatMap_append, List.flatMap_cons, ← List.append_assoc]
    exact ⟨_, _, rfl⟩
  have hchar {c : Char} (hc : c ∈ token.chars) : c ∈ cs := hinfix.subset hc
  cases token with
  | number text => rfl
  | path names => rfl
  | op op => exact absurd hinfix (hplain.operators op)
  | tilde => exact absurd (hchar List.mem_cons_self) hplain.tilde
  | openParen => exact absurd (hchar List.mem_cons_self) hplain.openParen
  | closeParen => exact absurd (hchar List.mem_cons_self) hplain.closeParen

/-- Plain characters that have a value after some signs, with no field in scope, are a numeral. -/
theorem Plain.magnitude? {signs : List UnaryOp} (hplain : Plain cs)
    (htokens : tokensFrom? .idle cs = some tokens)
    (hread : readTokens tokens [] { signs := signs } none = some f)
    (hvalid : ∀ token ∈ tokens, token.isInvalidNumber = false) (heval : eval .empty f = .ok v) :
    ∃ n : Nat, Integer.magnitude? cs = some n ∧ Word.IsSigned n := by
  rcases readTokens_atoms (hplain.isAtom htokens) hread with ⟨text, rfl⟩ | ⟨names, rfl, rfl⟩
  · have htext : text.toList = cs := by simpa [Token.chars] using hplain.flatMap_chars htokens
    have hnumber := hvalid _ List.mem_cons_self
    rw [Bool.eq_false_iff, ne_eq, isInvalidNumber_number, Integer.parse?, htext] at hnumber
    obtain ⟨w, hw⟩ := Option.ne_none_iff_exists'.mp hnumber
    obtain ⟨hsigned, ⟨n, hn, rfl⟩ | ⟨n, ds, rfl, -⟩ | ⟨ds, rfl⟩⟩ := Integer.ofChars?_cases hw
    · exact ⟨n, hn, hsigned⟩
    · exact absurd ⟨[], ds, rfl⟩ (hplain.operators .subtract)
    · exact absurd ⟨[], ds, rfl⟩ (hplain.operators .add)
  · -- a field has no value in the empty scope, whatever its signs
    have hunknown : eval .empty (.path names) = .error (.unknownName (pathText names)) := rfl
    rw [eval_applySigns_error signs hunknown] at heval
    cases heval

/-- **What has a value and no combination is an integer.** -/
theorem parse?_of_evaluate (hplain : Plain (afterMinus text.toList))
    (h : evaluate .empty text = .ok v) : Integer.parse? text ≠ none := by
  obtain ⟨f, hparse, heval⟩ := evaluate_eq_ok h
  obtain ⟨tokens, htokens, hread, hvalid⟩ := parse_eq_ok_iff.mp hparse
  unfold tokens? at htokens
  unfold Integer.parse?
  by_cases hminus : ∃ ds, text.toList = '-' :: ds
  · -- the sign is a token of its own, and the rest is read with the sign in front
    obtain ⟨ds, hds⟩ := hminus
    rw [hds] at hplain htokens ⊢
    rw [tokensFrom?_minus] at htokens
    obtain ⟨tokens, hds, rfl⟩ := Option.map_eq_some_iff.mp htokens
    obtain ⟨-, hvalid⟩ := List.forall_mem_cons.mp hvalid
    rw [List.singleton_append, readTokens] at hread
    have hplain : Plain ds := hplain
    obtain ⟨n, hn, hsigned⟩ := hplain.magnitude? hds hread hvalid heval
    rw [Integer.ofChars?_minus hn, if_pos (Word.IsSigned.neg hsigned)]
    simp
  · rw [afterMinus_eq_self hminus] at hplain
    obtain ⟨n, hn, hsigned⟩ := hplain.magnitude? htokens hread hvalid heval
    rw [Integer.ofChars?_of_magnitude? hn, if_pos hsigned]
    simp

/-! ## Trimmed texts -/

theorem isBlank_of_isSpace {c : Char} (h : isSpace c = true) : Text.isBlank c = true := by
  simp only [isSpace, Bool.or_eq_true, beq_iff_eq] at h
  rcases h with ((rfl | rfl) | rfl) | rfl <;> decide

/-- What trimming leaves neither begins nor ends with a blank. -/
theorem blank_inside {before after : List Char} {c : Char} (hblank : Text.isBlank c = true)
    (h : Text.trimChars cs = before ++ c :: after) : before ≠ [] ∧ after ≠ [] := by
  have hkept (ds : List Char) (d : Char) (hd : (ds.dropWhile Text.isBlank).head? = some d) :
      Text.isBlank d = false := by
    have := List.head?_dropWhile_not Text.isBlank ds
    rw [hd] at this
    simpa using this
  unfold Text.trimChars at h
  constructor
  · rintro rfl
    -- what is dropped at the end leaves the beginning as it is
    obtain ⟨dropped, hdropped⟩ := List.dropWhile_suffix Text.isBlank
      (l := (cs.dropWhile Text.isBlank).reverse)
    have hfront : cs.dropWhile Text.isBlank = c :: (after ++ dropped.reverse) := by
      have := congrArg List.reverse hdropped
      rw [List.reverse_append, List.reverse_reverse, h] at this
      exact this.symm
    have hfirst := hkept cs c (by rw [hfront]; rfl)
    rw [hblank] at hfirst
    cases hfirst
  · rintro rfl
    have hback : (cs.dropWhile Text.isBlank).reverse.dropWhile Text.isBlank =
        c :: before.reverse := by
      have := congrArg List.reverse h
      rw [List.reverse_reverse] at this
      rw [this]
      simp
    have hlast := hkept _ c (by rw [hback]; rfl)
    rw [hblank] at hlast
    cases hlast

/-- A trimmed text that combines nothing is plain. -/
theorem plain_of_not_compound (h : ¬ Compound (Text.trim text)) :
    Plain (afterMinus (Text.trim text).toList) := by
  unfold Compound at h
  push Not at h
  obtain ⟨hops, htilde, hopen, hclose, hspace⟩ := h
  refine ⟨hops, fun hc => htilde (mem_of_mem_afterMinus hc),
    fun hc => hopen (mem_of_mem_afterMinus hc), fun hc => hclose (mem_of_mem_afterMinus hc), ?_⟩
  intro c hc
  rw [Bool.eq_false_iff]
  intro hblank
  obtain ⟨before, after, hsplit⟩ := List.append_of_mem (mem_of_mem_afterMinus hc)
  have htrim : Text.trimChars text.toList = before ++ c :: after := by
    rw [← hsplit, Text.trim, String.toList_ofList]
  obtain ⟨hbefore, hafter⟩ := blank_inside (isBlank_of_isSpace hblank) htrim
  exact hspace ⟨before, c, after, hsplit, hbefore, hafter, hblank⟩

/-- Blanks around a formula make no difference. -/
theorem evaluate_trim (h : evaluate scope text = .ok v) :
    evaluate scope (Text.trim text) = .ok v := by
  obtain ⟨f, hparse, heval⟩ := evaluate_eq_ok h
  obtain ⟨tokens, htokens, hread, hvalid⟩ := parse_eq_ok_iff.mp hparse
  have htrim : parse (Text.trim text) = .ok f :=
    parse_eq_ok_iff.mpr ⟨tokens, tokens?_trim htokens, hread, hvalid⟩
  simp [evaluate, htrim, heval]

end Formula

namespace Expression

variable {text : String} {v : Int}

theorem sameIgnoringCase_eq (s t : String) : Text.sameIgnoringCase s t =
    (s.toList.map Char.toLower == t.toList.map Char.toLower) := by
  unfold Text.sameIgnoringCase
  rw [Bool.eq_iff_iff, beq_iff_eq, beq_iff_eq, ← String.toList_inj, String.toList_map,
    String.toList_map]

theorem parse?_eq_constant_iff
    (hword : Text.sameIgnoringCase (Text.trim text) "unlimited" = false) :
    parse? text = some (.constant v) ↔ Integer.parse? (Text.trim text) = some v := by
  unfold parse?
  simp only [hword, if_false, Bool.false_eq_true]
  split
  · -- an empty text is no integer either
    rename_i hempty
    rw [String.isEmpty_iff.mp hempty]
    simp [Integer.parse?, Integer.ofChars?, Integer.splitSign, Integer.splitBase, Digits.read?]
  · cases Integer.parse? (Text.trim text) <;> simp

theorem parse?_eq_formula_iff {t : String} : parse? text = some (.formula t) ↔
    t = Text.trim text ∧ t.isEmpty = false ∧ Text.sameIgnoringCase t "unlimited" = false ∧
      Integer.parse? t = none := by
  constructor
  · intro h
    unfold parse? at h
    dsimp only at h
    split at h
    · cases h
    · rename_i hempty
      split at h
      · cases h
      · rename_i hword
        split at h
        · cases h
        · rename_i hnone
          cases h
          exact ⟨rfl, Bool.eq_false_iff.mpr hempty, Bool.eq_false_iff.mpr hword, hnone⟩
  · rintro ⟨rfl, hempty, hword, hnone⟩
    simp [parse?, hempty, hword, hnone]

/-- **Constants have the value they have as formulas.** Only a plus sign and the least signed word
cannot be written in a formula. Conversely a text that has a value without any field, and is no
constant, combines something. -/
theorem constant_agrees (text : String) :
    (∀ v, parse? text = some (.constant v) →
      Text.sameIgnoringCase (Text.trim text) "unlimited" = false →
      (Formula.Unwritable (Text.trim text) v →
        ∃ e, Formula.evaluate .empty (Text.trim text) = .error e ∧ e.isReading = true) ∧
      (¬ Formula.Unwritable (Text.trim text) v →
        Formula.evaluate .empty (Text.trim text) = .ok v)) ∧
    ∀ t v, parse? text = some (.formula t) →
      Formula.evaluate .empty text = .ok v ∨ Formula.evaluate .empty t = .ok v →
      Formula.Compound t := by
  constructor
  · intro v h hword
    have hparse := (parse?_eq_constant_iff hword).mp h
    exact ⟨Formula.evaluate_unwritable hparse, Formula.evaluate_writable hparse⟩
  · intro t v h hvalue
    obtain ⟨rfl, -, -, hnone⟩ := parse?_eq_formula_iff.mp h
    have htrim : Formula.evaluate .empty (Text.trim text) = .ok v := by
      rcases hvalue with hvalue | hvalue
      · exact Formula.evaluate_trim hvalue
      · exact hvalue
    by_contra hsingle
    exact Formula.parse?_of_evaluate (Formula.plain_of_not_compound hsingle) htrim hnone

/-- A constant in base sixteen, the two spellings that are refused, and a formula with a space. -/
theorem constant_agrees_spellings :
    Formula.evaluate .empty "-0x10" = .ok (-16) ∧
      (∃ e, Formula.evaluate .empty "+5" = .error e ∧ e.isReading = true) ∧
      (∃ e, Formula.evaluate .empty "-9223372036854775808" = .error e ∧ e.isReading = true) ∧
      Formula.Compound "- 5" := by
  refine ⟨?_, ?_, ?_, ?_⟩
  · have htrim : Text.trim " -0x10 " = "-0x10" := by decide
    have hword : Text.sameIgnoringCase (Text.trim " -0x10 ") "unlimited" = false := by
      rw [sameIgnoringCase_eq]
      decide
    have hconstant := (parse?_eq_constant_iff (v := -16) hword).mpr (by decide)
    have h := ((constant_agrees " -0x10 ").1 (-16) hconstant hword).2
    rw [htrim] at h
    exact h (by decide)
  · have htrim : Text.trim "+5" = "+5" := by decide
    have hword : Text.sameIgnoringCase (Text.trim "+5") "unlimited" = false := by
      rw [sameIgnoringCase_eq]
      decide
    have hconstant := (parse?_eq_constant_iff (v := 5) hword).mpr (by decide)
    have h := ((constant_agrees "+5").1 5 hconstant hword).1
    rw [htrim] at h
    exact h (by decide)
  · have htrim : Text.trim "-9223372036854775808" = "-9223372036854775808" := by decide
    have hword : Text.sameIgnoringCase (Text.trim "-9223372036854775808") "unlimited" = false := by
      rw [sameIgnoringCase_eq]
      decide
    have hconstant := (parse?_eq_constant_iff (v := Word.least) hword).mpr (by decide)
    have h := ((constant_agrees "-9223372036854775808").1 Word.least hconstant hword).1
    rw [htrim] at h
    exact h (by decide)
  · have hword : Text.sameIgnoringCase "- 5" "unlimited" = false := by
      rw [sameIgnoringCase_eq]
      decide
    have hformula : parse? "- 5" = some (.formula "- 5") :=
      parse?_eq_formula_iff.mpr ⟨by decide, by decide, hword, by decide⟩
    exact (constant_agrees "- 5").2 "- 5" (-5) hformula (.inl (by rfl))

end Expression

end BinaryGrammar
