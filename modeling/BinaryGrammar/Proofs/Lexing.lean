import BinaryGrammar.Formula.Eval
import BinaryGrammar.Proofs.Numeral
import BinaryGrammar.Text.Blank

/-!
# What tokens say about a text

Cutting a formula's text into tokens loses nothing but the spaces: the characters of the tokens, one
after the other, are those of the text without its spaces. Blanks around a text that can be cut make
no difference, because all of them are spaces.
-/

set_option autoImplicit false

namespace BinaryGrammar

/-- The text of an operator between its operands. -/
def BinaryOp.symbol : BinaryOp → List Char
  | or => ['|']
  | xor => ['^']
  | and => ['&']
  | shiftLeft => ['<', '<']
  | shiftRight => ['>', '>']
  | add => ['+']
  | subtract => ['-']
  | multiply => ['*']
  | divide => ['/']
  | remainder => ['%']

namespace Formula

variable {c : Char} {cs : List Char} {mode next : Mode} {ended tokens : List Token}

/-! ## Nothing but spaces is lost -/

/-- The characters of a token. -/
def Token.chars : Token → List Char
  | .number text => text.toList
  | .path names => (pathText names).toList
  | .op o => o.symbol
  | .tilde => ['~']
  | .openParen => ['(']
  | .closeParen => [')']

/-- Names, newest first, each with the dot after it. -/
def dotted (before : List String) : List Char :=
  before.reverse.flatMap fun name => name.toList ++ ['.']

/-- The characters that have been read of a token. -/
def Mode.chars : Mode → List Char
  | .idle => []
  | .zero => ['0']
  | .marked _ mark => ['0', mark]
  | .digits _ text => text.reverse
  | .name before text => dotted before ++ text.reverse
  | .dot before => dotted before
  | .half op => op.symbol.take 1

/-- A mode that occurs: only the shifts have two halves. -/
def Mode.Proper : Mode → Prop
  | .half op => op = .shiftLeft ∨ op = .shiftRight
  | _ => True

theorem toList_pathText_concat (before : List String) (name : String) :
    (pathText (before.reverse ++ [name])).toList = dotted before ++ name.toList := by
  unfold pathText dotted
  induction before.reverse with
  | nil => simp
  | cons first names ih =>
      rw [List.cons_append, String.intercalate_cons_of_ne_nil (by simp)]
      simp [ih]

/-- What a character leaves when it is read between tokens. -/
def kept (c : Char) : List Char := if isSpace c then [] else [c]

theorem chars_begin (h : Mode.begin c = some (ended, next)) :
    next.Proper ∧ ended.flatMap Token.chars ++ next.chars = kept c := by
  unfold Mode.begin at h
  unfold kept
  by_cases hspace : isSpace c = true
  · simp only [hspace, if_true] at h ⊢
    cases h
    exact ⟨trivial, rfl⟩
  · simp only [hspace, if_false, Bool.false_eq_true] at h ⊢
    split at h
    · rename_i hzero
      cases h
      rw [eq_of_beq hzero]
      exact ⟨trivial, rfl⟩
    · split at h
      · cases h
        exact ⟨trivial, rfl⟩
      · split at h
        · cases h
          exact ⟨trivial, rfl⟩
        · -- one case for each operator and parenthesis; the last two are halves of a shift
          split at h <;> cases h
          on_goal 12 => exact ⟨.inl rfl, rfl⟩
          on_goal 12 => exact ⟨.inr rfl, rfl⟩
          all_goals exact ⟨trivial, rfl⟩

theorem chars_finish (h : mode.finish = some ended) :
    ended.flatMap Token.chars = mode.chars := by
  cases mode with
  | idle => cases h; rfl
  | zero => cases h; rfl
  | marked base mark => cases h
  | digits base text =>
      cases h
      simp [Token.chars, Mode.chars]
  | name before text =>
      cases h
      simp [Token.chars, Mode.chars, toList_pathText_concat]
  | dot before => cases h
  | half op => cases h

theorem chars_turn (h : mode.turn c = some (ended, next)) :
    next.Proper ∧ ended.flatMap Token.chars ++ next.chars = mode.chars ++ kept c := by
  unfold Mode.turn at h
  split at h
  · rename_i closed begun following hfinish hbegin
    cases h
    obtain ⟨hproper, hchars⟩ := chars_begin hbegin
    refine ⟨hproper, ?_⟩
    rw [List.flatMap_append, chars_finish hfinish, List.append_assoc, hchars]
  · cases h

theorem kept_of_isNamePart (h : isNamePart c = true) : kept c = [c] := by
  unfold kept
  rw [isSpace_of_isNamePart h]
  rfl

theorem isNamePart_of_isDigitOf {base : Nat} (h : isDigitOf base c = true) :
    isNamePart c = true := by
  have hvalue : (Digits.valueIn? 16 c).isSome := by
    have hdigit : c.isDigit = true ↔ 48 ≤ c.toNat ∧ c.toNat ≤ 57 := Char.isDigit_iff_toNat
    have hchar (d : Char) : (c == d) = true ↔ c.toNat = d.toNat := by
      rw [beq_iff_eq, Char.toNat_inj]
    rw [Digits.valueIn?_isSome]
    unfold isDigitOf at h
    split at h <;>
      simp only [Bool.or_eq_true, Bool.and_eq_true, decide_eq_true_eq, Digits.char_le_iff, hdigit,
        hchar, Char.reduceToNat] at h <;> omega
  exact isNamePart_of_digit hvalue

/-- One character: what has been read grows by it, unless it is a space. -/
theorem chars_step (hmode : mode.Proper) (h : mode.step c = some (ended, next)) :
    next.Proper ∧ ended.flatMap Token.chars ++ next.chars = mode.chars ++ kept c := by
  cases mode with
  | idle => exact chars_begin h
  | zero =>
      -- a mark and a digit are taken in, and anything else ends the zero
      have hmark {x y : Char} (hx : isNamePart x = true) (hy : isNamePart y = true)
          (hc : (c == x || c == y) = true) : kept c = [c] := by
        rw [Bool.or_eq_true, beq_iff_eq, beq_iff_eq] at hc
        rcases hc with rfl | rfl
        · exact kept_of_isNamePart hx
        · exact kept_of_isNamePart hy
      unfold Mode.step at h
      dsimp only at h
      split at h
      · rename_i hc
        cases h
        rw [hmark (by decide) (by decide) hc]
        exact ⟨trivial, rfl⟩
      · split at h
        · rename_i hc
          cases h
          rw [hmark (by decide) (by decide) hc]
          exact ⟨trivial, rfl⟩
        · split at h
          · rename_i hc
            cases h
            rw [hmark (by decide) (by decide) hc]
            exact ⟨trivial, rfl⟩
          · split at h
            · rename_i hc
              cases h
              have hdigit : isDigitOf 10 c = true := hc
              rw [kept_of_isNamePart (isNamePart_of_isDigitOf hdigit)]
              exact ⟨trivial, rfl⟩
            · exact chars_turn h
  | marked base mark =>
      unfold Mode.step at h
      dsimp only at h
      split at h
      · rename_i hdigit
        cases h
        rw [kept_of_isNamePart (isNamePart_of_isDigitOf hdigit)]
        exact ⟨trivial, rfl⟩
      · cases h
  | digits base text =>
      unfold Mode.step at h
      dsimp only at h
      split at h
      · rename_i hdigit
        cases h
        rw [kept_of_isNamePart (isNamePart_of_isDigitOf hdigit)]
        exact ⟨trivial, by simp [Mode.chars]⟩
      · exact chars_turn h
  | name before text =>
      unfold Mode.step at h
      dsimp only at h
      split at h
      · rename_i hpart
        cases h
        rw [kept_of_isNamePart hpart]
        exact ⟨trivial, by simp [Mode.chars]⟩
      · split at h
        · rename_i hdot
          cases h
          rw [eq_of_beq hdot]
          exact ⟨trivial, by simp [Mode.chars, dotted, kept, isSpace]⟩
        · exact chars_turn h
  | dot before =>
      unfold Mode.step at h
      dsimp only at h
      split at h
      · rename_i hstart
        cases h
        rw [kept_of_isNamePart (isNamePart_iff.mpr (.inr hstart))]
        exact ⟨trivial, by simp [Mode.chars]⟩
      · cases h
  | half op =>
      rcases hmode with rfl | rfl
      all_goals
        unfold Mode.step at h
        dsimp only at h
        split at h
        · rename_i hsame
          cases h
          rw [eq_of_beq hsame]
          exact ⟨trivial, rfl⟩
        · cases h

/-- **The tokens of a text are its characters without the spaces.** -/
theorem chars_tokensFrom? (hmode : mode.Proper) (h : tokensFrom? mode cs = some tokens) :
    tokens.flatMap Token.chars = mode.chars ++ cs.filter fun c => !isSpace c := by
  induction cs generalizing mode tokens with
  | nil =>
      rw [tokensFrom?] at h
      rw [chars_finish h, List.filter_nil, List.append_nil]
  | cons c cs ih =>
      rw [tokensFrom?] at h
      split at h
      · cases h
      · rename_i ended next hstep
        obtain ⟨hnext, hchars⟩ := chars_step hmode hstep
        split at h
        · cases h
        · rename_i more hmore
          cases h
          have hkept : kept c ++ cs.filter (fun c => !isSpace c) =
              (c :: cs).filter fun c => !isSpace c := by
            unfold kept
            rw [List.filter_cons]
            cases isSpace c <;> rfl
          rw [List.flatMap_append, ih hnext hmore, ← List.append_assoc, hchars, List.append_assoc,
            hkept]

/-! ## Blanks around a text -/

theorem isNamePart_of_isBlank (h : Text.isBlank c = true) : isNamePart c = false := by
  rw [Bool.eq_false_iff, ne_eq, isNamePart_iff, isNameStart_iff]
  simp only [Text.isBlank, Text.blankRanges, List.any_cons, List.any_nil, Bool.or_false,
    Bool.or_eq_true, Bool.and_eq_true, decide_eq_true_eq] at h
  omega

theorem isNameStart_eq_false (h : isNamePart c = false) : isNameStart c = false := by
  rw [Bool.eq_false_iff]
  intro hstart
  rw [isNamePart_iff.mpr (.inr hstart)] at h
  cases h

/-- A blank cannot be read between tokens unless it is a space. -/
theorem begin_of_isBlank (h : Text.isBlank c = true) :
    Mode.begin c = if isSpace c then some ([], .idle) else none := by
  have hpart := isNamePart_of_isBlank h
  have hten : isDigitOf 10 c = false := isDigitOf_eq_false (by decide) hpart
  have hdigit : c.isDigit = false := hten
  have hstart : isNameStart c = false := isNameStart_eq_false hpart
  have hzero : (c == '0') = false := by
    rw [beq_eq_false_iff_ne]
    rintro rfl
    cases hpart
  unfold Mode.begin
  simp only [hzero, hdigit, hstart, if_false, Bool.false_eq_true]
  congr 1
  split
  on_goal 14 => rfl
  all_goals exact absurd h (by decide)

/-- A blank continues no token. -/
theorem step_of_isBlank (h : Text.isBlank c = true) (mode : Mode) : mode.step c = mode.turn c := by
  have hpart := isNamePart_of_isBlank h
  have hne {d : Char} (hd : Text.isBlank d = false) : (c == d) = false := by
    rw [beq_eq_false_iff_ne]
    rintro rfl
    rw [h] at hd
    cases hd
  have hdigit (base : Nat) : isDigitOf base c = false := by
    rw [Bool.eq_false_iff]
    intro hdigit
    rw [isNamePart_of_isDigitOf hdigit] at hpart
    cases hpart
  cases mode with
  | idle =>
      unfold Mode.turn Mode.step Mode.finish
      cases Mode.begin c <;> rfl
  | zero =>
      have hten : c.isDigit = false := hdigit 10
      simp [Mode.step, hne, hten, Text.isBlank, Text.blankRanges]
  | marked base mark => simp [Mode.step, hdigit, Mode.turn, Mode.finish]
  | digits base text => simp [Mode.step, hdigit]
  | name before text =>
      have hdot : (c == '.') = false := hne (by decide)
      simp [Mode.step, hpart, hdot]
  | dot before =>
      have hstart : isNameStart c = false := isNameStart_eq_false hpart
      simp [Mode.step, hstart, Mode.turn, Mode.finish]
  | half op =>
      have hleft : (c == '<') = false := hne (by decide)
      have hright : (c == '>') = false := hne (by decide)
      cases op <;> simp [Mode.step, hleft, hright, Mode.turn, Mode.finish]

/-- A blank at the end of a text that can be cut makes no difference. -/
theorem tokensFrom?_concat_blank (hblank : Text.isBlank c = true)
    (h : tokensFrom? mode (cs ++ [c]) = some tokens) : tokensFrom? mode cs = some tokens := by
  induction cs generalizing mode tokens with
  | nil =>
      cases hfinish : mode.finish with
      | none =>
          have hstep : mode.step c = none := by
            rw [step_of_isBlank hblank, Mode.turn, hfinish]
          rw [List.nil_append, tokensFrom?, hstep] at h
          cases h
      | some ended =>
          have hidle : tokensFrom? .idle [c] = if isSpace c then some [] else none := by
            have hbegin : Mode.idle.step c = if isSpace c then some ([], .idle) else none :=
              begin_of_isBlank hblank
            rw [tokensFrom?, hbegin]
            cases isSpace c <;> rfl
          rw [List.nil_append, tokensFrom?_turn hfinish fun d hd => ?_, hidle] at h
          · cases hspace : isSpace c with
            | false =>
                rw [hspace] at h
                cases h
            | true =>
                rw [hspace] at h
                rw [tokensFrom?, hfinish]
                simpa using h
          · cases hd
            exact step_of_isBlank hblank mode
  | cons d cs ih =>
      rw [List.cons_append, tokensFrom?] at h
      rw [tokensFrom?]
      split at h
      · cases h
      · rename_i ended next hstep
        split at h
        · cases h
        · rename_i more hmore
          cases h
          rw [ih hmore]

theorem tokensFrom?_cons_blank (hblank : Text.isBlank c = true)
    (h : tokensFrom? .idle (c :: cs) = some tokens) : tokensFrom? .idle cs = some tokens := by
  have hbegin : Mode.idle.step c = if isSpace c then some ([], .idle) else none :=
    begin_of_isBlank hblank
  cases hspace : isSpace c with
  | false =>
      rw [hspace] at hbegin
      rw [tokensFrom?, hbegin] at h
      cases h
  | true =>
      rw [hspace] at hbegin
      rwa [tokensFrom?_grow hbegin] at h

theorem tokensFrom?_dropWhile (h : tokensFrom? .idle cs = some tokens) :
    tokensFrom? .idle (cs.dropWhile Text.isBlank) = some tokens := by
  induction cs with
  | nil => exact h
  | cons c cs ih =>
      rw [List.dropWhile_cons]
      split
      · rename_i hblank
        exact ih (tokensFrom?_cons_blank hblank h)
      · exact h

theorem tokensFrom?_dropWhile_reverse (h : tokensFrom? .idle cs.reverse = some tokens) :
    tokensFrom? .idle (cs.dropWhile Text.isBlank).reverse = some tokens := by
  induction cs with
  | nil => exact h
  | cons c cs ih =>
      rw [List.dropWhile_cons]
      split
      · rename_i hblank
        rw [List.reverse_cons] at h
        exact ih (tokensFrom?_concat_blank hblank h)
      · exact h

/-- **Blanks around a text that can be cut into tokens make no difference.** -/
theorem tokens?_trim {text : String} (h : tokens? text = some tokens) :
    tokens? (Text.trim text) = some tokens := by
  unfold tokens? at h ⊢
  unfold Text.trim Text.trimChars
  rw [String.toList_ofList]
  refine tokensFrom?_dropWhile_reverse ?_
  rw [List.reverse_reverse]
  exact tokensFrom?_dropWhile h

end Formula

end BinaryGrammar
