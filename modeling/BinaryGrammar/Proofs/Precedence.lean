import Mathlib.Data.List.Chain
import BinaryGrammar.Proofs.Lexing

/-!
# Writing formulas and reading them back

A formula is written as a row of words with as few parentheses as its operators allow: an operand
stands in parentheses exactly if it binds looser than its operator, or equally tight and on the
right. Each word can be written in its own **style**: a literal in one of four bases, in either case
and after any number of zeros, and after every word any number of spaces, tabs, carriage returns
and line feeds.

Reading gives back the formula that was written, whatever the styles. It goes in two steps. The
characters are cut into the words that were written, because no two literals or paths ever stand
side by side. And a row of operands with operators between them is joined level by level to the tree
it was taken from: joining the tighter levels works on both sides of a looser operator separately.
-/

set_option autoImplicit false

namespace BinaryGrammar

/-! ## Words -/

/-- The bases in which a literal can be written. -/
inductive LiteralBase where
  | decimal
  | hexadecimal
  | octal
  | binary
  deriving DecidableEq, Repr

namespace LiteralBase

/-- The number of digits of a base. -/
def radix : LiteralBase → Nat
  | decimal => 10
  | hexadecimal => 16
  | octal => 8
  | binary => 2

/-- What stands before the digits. -/
def mark (capital : Bool) : LiteralBase → List Char
  | decimal => []
  | hexadecimal => ['0', if capital then 'X' else 'x']
  | octal => ['0', if capital then 'O' else 'o']
  | binary => ['0', if capital then 'B' else 'b']

theorem radix_bounds (base : LiteralBase) : 1 < base.radix ∧ base.radix ≤ 16 := by
  cases base <;> decide

end LiteralBase

namespace Formula

/-- A character that may stand between words. -/
abbrev Space := { c : Char // isSpace c = true }

/-- How one word is written, and what follows it. -/
structure Style where
  base : LiteralBase := .decimal
  /-- The mark and the digits above nine are capital letters. -/
  capital : Bool := false
  /-- Zeros before the digits. -/
  zeros : Nat := 0
  gap : List Space := []

/-- The digits of a number in a style. -/
def Style.digits (style : Style) (n : Nat) : List Char :=
  List.replicate style.zeros '0' ++
    (Digits.write style.base.radix n).map (if style.capital then Char.toUpper else id)

/-- A number in a style: its mark and its digits. -/
def Style.numeral (style : Style) (n : Nat) : List Char :=
  style.base.mark style.capital ++ style.digits n

/-- A token before it is spelled out. -/
inductive Lexeme where
  | literal (value : Int)
  | path (names : List String)
  | op (op : BinaryOp)
  | tilde
  | openParen
  | closeParen
  deriving DecidableEq, Repr

namespace Lexeme

/-- The characters of a word. -/
def chars (style : Style) : Lexeme → List Char
  | literal v => style.numeral v.toNat
  | path names => (pathText names).toList
  | op o => o.symbol
  | tilde => ['~']
  | openParen => ['(']
  | closeParen => [')']

/-- The token a word is read as. -/
def token (style : Style) : Lexeme → Token
  | literal v => .number (String.ofList (style.numeral v.toNat))
  | path names => .path names
  | op o => .op o
  | tilde => .tilde
  | openParen => .openParen
  | closeParen => .closeParen

/-- A word that would run together with another one of its sort. -/
def isAtom : Lexeme → Bool
  | literal _ => true
  | path _ => true
  | _ => false

end Lexeme

/-- The word of a sign. -/
def signLexeme : UnaryOp → Lexeme
  | .negate => .op .subtract
  | .complement => .tilde

/-- How tightly the signs bind. -/
def signLevel : Nat := 6

/-- How tightly a formula holds together; nothing holds tighter than a number or a path. -/
def binding : Formula → Nat
  | number _ => signLevel + 1
  | path _ => signLevel + 1
  | unary _ _ => signLevel
  | binary op _ _ => op.level

/-- Words in parentheses, where these are needed. -/
def enclosed (needed : Bool) (ls : List Lexeme) : List Lexeme :=
  if needed then .openParen :: (ls ++ [.closeParen]) else ls

/-- The words of a formula, with as few parentheses as possible. -/
def lexemes : Formula → List Lexeme
  | number v => [.literal v]
  | path names => [.path names]
  | unary op f => signLexeme op :: enclosed (f.binding < signLevel) f.lexemes
  | binary op f g =>
    enclosed (f.binding < op.level) f.lexemes ++
      .op op :: enclosed (g.binding ≤ op.level) g.lexemes

/-- The characters of words, each in its own style. -/
def layout : (Nat → Style) → List Lexeme → List Char
  | _, [] => []
  | style, l :: ls =>
    l.chars (style 0) ++ ((style 0).gap.map (·.1) ++ layout (fun i => style (i + 1)) ls)

/-- The text of a formula: the spaces before it, and then its words in their styles. -/
def print (lead : List Space) (style : Nat → Style) (f : Formula) : String :=
  String.ofList (lead.map (·.1) ++ layout style f.lexemes)

/-- Whether a text can be a field name in a formula. -/
def isName (name : String) : Bool :=
  match name.toList with
  | [] => false
  | c :: cs => isNameStart c && cs.all isNamePart

/-- The lexemes that can be written. -/
def Lexeme.Printable : Lexeme → Prop
  | .literal v => 0 ≤ v ∧ Word.IsSigned v
  | .path names => names ≠ [] ∧ ∀ name ∈ names, isName name = true
  | _ => True

/-- The formulas that can be written: numbers are signed words without a sign, and the parts of
paths are names. -/
def Printable : Formula → Prop
  | number v => 0 ≤ v ∧ Word.IsSigned v
  | path names => names ≠ [] ∧ ∀ name ∈ names, isName name = true
  | unary _ f => f.Printable
  | binary _ f g => f.Printable ∧ g.Printable

/-! ## Joining -/

section Joining

variable {levels : List Nat} {op : BinaryOp} {a b f g : Formula} {xs ys : List (BinaryOp × Formula)}

/-- A first operand, and the operators after it with their right operands. -/
abbrev Chain := Formula × List (BinaryOp × Formula)

/-- A chain after its operators of some levels have been applied, level by level. -/
def joinTo (levels : List Nat) (chain : Chain) : Chain :=
  levels.foldl (fun c level => joinLevel level c.1 c.2) chain

theorem joinLevels_eq (levels : List Nat) (chain : Chain) :
    joinLevels levels chain.1 chain.2 = (joinTo levels chain).1 := by
  induction levels generalizing chain with
  | nil => rfl
  | cons level levels ih => exact ih (joinLevel level chain.1 chain.2)

theorem joinTo_append (upper lower : List Nat) (chain : Chain) :
    joinTo (upper ++ lower) chain = joinTo lower (joinTo upper chain) := List.foldl_append

theorem joinTo_single (levels : List Nat) (f : Formula) : joinTo levels (f, []) = (f, []) := by
  induction levels with
  | nil => rfl
  | cons level levels ih => exact ih

/-- An operator of another level divides a chain into two that are joined by themselves. -/
theorem joinLevel_divided {level : Nat} (hop : op.level ≠ level) :
    joinLevel level a (xs ++ (op, b) :: ys) =
      ((joinLevel level a xs).1,
        (joinLevel level a xs).2 ++
          (op, (joinLevel level b ys).1) :: (joinLevel level b ys).2) := by
  induction xs generalizing a with
  | nil => simp [joinLevel, hop]
  | cons x xs ih =>
      obtain ⟨o, c⟩ := x
      rw [List.cons_append]
      by_cases ho : o.level = level
      · simp only [joinLevel, ho, if_true]
        exact ih
      · simp only [joinLevel, ho, if_false, List.cons_append]
        rw [ih]

theorem joinTo_divided (hop : op.level ∉ levels) :
    joinTo levels (a, xs ++ (op, b) :: ys) =
      ((joinTo levels (a, xs)).1,
        (joinTo levels (a, xs)).2 ++
          (op, (joinTo levels (b, ys)).1) :: (joinTo levels (b, ys)).2) := by
  induction levels generalizing a b xs ys with
  | nil => rfl
  | cons level levels ih =>
      obtain ⟨hlevel, hrest⟩ := not_or.mp (mt List.mem_cons.mpr hop)
      have hstep : joinTo (level :: levels) (a, xs ++ (op, b) :: ys) =
          joinTo levels (joinLevel level a (xs ++ (op, b) :: ys)) := rfl
      rw [hstep, joinLevel_divided hlevel, ih hrest]
      rfl

/-- A chain whose operators are all of one level is one operand before what follows. -/
theorem joinLevel_joined {level : Nat} (h : joinLevel level a xs = (f, [])) :
    joinLevel level a (xs ++ ys) = joinLevel level f ys := by
  induction xs generalizing a with
  | nil =>
      cases h
      rfl
  | cons x xs ih =>
      obtain ⟨o, c⟩ := x
      rw [List.cons_append]
      by_cases ho : o.level = level
      · simp only [joinLevel, ho, if_true] at h ⊢
        exact ih h
      · simp [joinLevel, ho] at h

/-- The levels from the tightest down to the given one. -/
def tightDownTo (level : Nat) : List Nat := (List.range' level (signLevel - level)).reverse

theorem tightDownTo_zero : tightDownTo 0 = BinaryOp.levels := by decide

theorem tightDownTo_succ {level : Nat} (h : level < signLevel) :
    tightDownTo level = tightDownTo (level + 1) ++ [level] := by
  unfold tightDownTo
  obtain ⟨k, hk⟩ := Nat.exists_eq_add_of_lt h
  have hnow : signLevel - level = k + 1 := by omega
  have hnext : signLevel - (level + 1) = k := by omega
  rw [hnow, hnext, List.range'_succ, List.reverse_cons]

theorem notMem_tightDownTo (level : Nat) : level ∉ tightDownTo (level + 1) := by
  unfold tightDownTo
  rw [List.mem_reverse, List.mem_range'_1]
  omega

/-- Going further down only adds levels. -/
theorem exists_tightDownTo {lower upper : Nat} (h : lower ≤ upper) (hle : upper ≤ signLevel) :
    ∃ levels, tightDownTo lower = tightDownTo upper ++ levels := by
  obtain ⟨k, rfl⟩ := Nat.exists_eq_add_of_le h
  induction k with
  | zero => exact ⟨[], (List.append_nil _).symm⟩
  | succ k ih =>
      obtain ⟨levels, hlevels⟩ := ih (by omega) (by omega)
      refine ⟨(lower + k) :: levels, ?_⟩
      rw [hlevels, tightDownTo_succ (by omega), List.append_assoc]
      rfl

theorem level_lt (op : BinaryOp) : op.level < signLevel := by
  cases op <;> decide

/-- Two chains that are joined around an operator, one by all levels down to its own and the other
before. -/
theorem joinTo_binary {left right : Chain}
    (hleft : joinTo (tightDownTo op.level) left = (f, []))
    (hright : joinTo (tightDownTo (op.level + 1)) right = (g, [])) :
    joinTo (tightDownTo op.level) (left.1, left.2 ++ (op, right.1) :: right.2) =
      (binary op f g, []) := by
  rw [tightDownTo_succ (level_lt op), joinTo_append] at hleft ⊢
  rw [joinTo_divided (notMem_tightDownTo op.level), hright]
  -- on the left only operators of this level remain, and they come first
  calc joinLevel op.level (joinTo (tightDownTo (op.level + 1)) left).1
        ((joinTo (tightDownTo (op.level + 1)) left).2 ++ [(op, g)])
      = joinLevel op.level f [(op, g)] := joinLevel_joined hleft
    _ = (binary op f g, []) := by simp [joinLevel]

/-- The chain that stands in the outermost parentheses of a formula. -/
def spread : Formula → Chain
  | binary op f g =>
    let left := if f.binding < op.level then (f, []) else f.spread
    let right := if g.binding ≤ op.level then (g, []) else g.spread
    (left.1, left.2 ++ (op, right.1) :: right.2)
  | f => (f, [])

/-- A chain is joined to the formula that it was taken from, once all levels as tight as the formula
have been joined. -/
theorem joinTo_spread (f : Formula) {level : Nat} (h : level ≤ f.binding) :
    joinTo (tightDownTo level) f.spread = (f, []) := by
  induction f generalizing level with
  | number v => exact joinTo_single _ _
  | path names => exact joinTo_single _ _
  | unary op f => exact joinTo_single _ _
  | binary op f g ihf ihg =>
      have hlevel := level_lt op
      -- joining down to the operator leaves the left side whole, and the right side already before
      have hleft : joinTo (tightDownTo op.level)
          (if f.binding < op.level then (f, []) else f.spread) = (f, []) := by
        split
        · exact joinTo_single _ _
        · exact ihf (by omega)
      have hright : joinTo (tightDownTo (op.level + 1))
          (if g.binding ≤ op.level then (g, []) else g.spread) = (g, []) := by
        split
        · exact joinTo_single _ _
        · exact ihg (by omega)
      obtain ⟨levels, hlevels⟩ := exists_tightDownTo h (Nat.le_of_lt hlevel)
      rw [hlevels, joinTo_append]
      calc joinTo levels (joinTo (tightDownTo op.level) (binary op f g).spread)
          = joinTo levels (binary op f g, []) := by rw [spread, joinTo_binary hleft hright]
        _ = (binary op f g, []) := joinTo_single _ _

end Joining

/-! ## Literals -/

namespace Style

variable (style : Style) (n : Nat)

theorem readFrom?_digits : Digits.readFrom? style.base.radix 0 (style.digits n) = some n := by
  obtain ⟨hlow, hhigh⟩ := style.base.radix_bounds
  unfold digits
  rw [Digits.readFrom?_append, Digits.readFrom?_zeros (by omega), Option.bind_some]
  cases style.capital with
  | true => exact Digits.readFrom?_write (fun k hk => (Digits.value?_digitChar hk).2) hlow hhigh n
  | false => exact Digits.readFrom?_write (fun k hk => (Digits.value?_digitChar hk).1) hlow hhigh n

theorem digits_ne_nil : style.digits n ≠ [] := by
  have hwrite : Digits.write style.base.radix n ≠ [] := Nat.toDigits_ne_nil
  simp [digits, hwrite]

theorem splitBase_numeral :
    Integer.splitBase (style.numeral n) = (style.base.radix, style.digits n) := by
  have hread := style.readFrom?_digits n
  unfold numeral
  cases hbase : style.base with
  | decimal =>
      rw [hbase] at hread
      have hsome := Option.isSome_iff_exists.mpr ⟨n, hread⟩
      exact Integer.splitBase_of_digits (Digits.readFrom?_isSome.mp hsome)
  | hexadecimal => cases style.capital <;> rfl
  | octal => cases style.capital <;> rfl
  | binary => cases style.capital <;> rfl

/-- A number that is written in any style is read as that number. -/
theorem magnitude?_numeral : Integer.magnitude? (style.numeral n) = some n := by
  refine Integer.magnitude?_eq_some_iff.mpr ⟨_, _, style.splitBase_numeral n, ?_⟩
  rw [Digits.read?_of_ne_nil (style.digits_ne_nil n), style.readFrom?_digits]

end Style

theorem parse?_numeral (style : Style) {v : Int} (hpos : 0 ≤ v) (hv : Word.IsSigned v) :
    Integer.parse? (String.ofList (style.numeral v.toNat)) = some v := by
  have hcast : (v.toNat : Int) = v := Int.toNat_of_nonneg hpos
  unfold Integer.parse?
  rw [String.toList_ofList, Integer.ofChars?_of_magnitude? (style.magnitude?_numeral _), hcast,
    if_pos hv]

theorem numberValue_numeral (style : Style) {v : Int} (hpos : 0 ≤ v) (hv : Word.IsSigned v) :
    numberValue (String.ofList (style.numeral v.toNat)) = v := by
  rw [numberValue, parse?_numeral style hpos hv]
  rfl

/-! ## Reading words -/

section Reading

variable {op : BinaryOp} {f g : Formula} {rest : List Token} {outer : List Row}

/-- The operands that an operator follows, newest first, and the last operand, after a chain has
been read. -/
def feed (before : List (Formula × BinaryOp)) (a : Formula) :
    List (BinaryOp × Formula) → List (Formula × BinaryOp) × Formula
  | [] => (before, a)
  | (op, b) :: rest => feed ((a, op) :: before) b rest

theorem feed_append (before : List (Formula × BinaryOp)) (a b : Formula)
    (xs ys : List (BinaryOp × Formula)) :
    feed before a (xs ++ (op, b) :: ys) =
      feed (((feed before a xs).2, op) :: (feed before a xs).1) b ys := by
  induction xs generalizing before a with
  | nil => rfl
  | cons x xs ih => exact ih ((a, x.1) :: before) x.2

theorem unroll_feed (before : List (Formula × BinaryOp)) (a : Formula)
    (xs tail : List (BinaryOp × Formula)) :
    unroll (feed before a xs).1 (feed before a xs).2 tail = unroll before a (xs ++ tail) := by
  induction xs generalizing before a with
  | nil => rfl
  | cons x xs ih => exact ih ((a, x.1) :: before) x.2

/-- The state after a chain has been read inside one pair of parentheses. -/
def readTokensAfter (before : List (Formula × BinaryOp)) (chain : Chain) (rest : List Token)
    (outer : List Row) : Option Formula :=
  readTokens rest outer ⟨(feed before chain.1 chain.2).1, []⟩
    (some (feed before chain.1 chain.2).2)

/-- The row of a formula closes to the formula. -/
theorem close_spread (f : Formula) (signs : List UnaryOp) :
    Row.close ⟨(feed [] f.spread.1 f.spread.2).1, signs⟩ (feed [] f.spread.1 f.spread.2).2 = f := by
  have hjoin := joinTo_spread f (Nat.zero_le _)
  rw [tightDownTo_zero] at hjoin
  unfold Row.close
  rw [unroll_feed, List.append_nil]
  calc joinLevels BinaryOp.levels f.spread.1 f.spread.2
      = (joinTo BinaryOp.levels f.spread).1 := joinLevels_eq _ _
    _ = f := by rw [hjoin]

/-- Once an operand has been read, the signs before it do not matter any more. -/
theorem readTokens_signs (before : List (Formula × BinaryOp)) (signs : List UnaryOp) :
    readTokens rest outer ⟨before, signs⟩ (some f) =
      readTokens rest outer ⟨before, []⟩ (some f) := by
  cases rest with
  | nil => cases outer <;> rfl
  | cons token rest => cases token <;> rfl

/-- Lexemes that are read as a single operand, whatever signs stand before them. -/
def ReadsTight (ls : List Lexeme) (f : Formula) : Prop :=
  ∀ (rest : List Token) (outer : List Row) (before : List (Formula × BinaryOp))
    (signs : List UnaryOp),
    readTokens (ls.map (Lexeme.token {}) ++ rest) outer ⟨before, signs⟩ none =
      readTokens rest outer ⟨before, []⟩ (some (applySigns signs f))

/-- Lexemes that are read as a chain. -/
def ReadsAs (ls : List Lexeme) (chain : Chain) : Prop :=
  ∀ (rest : List Token) (outer : List Row) (before : List (Formula × BinaryOp)),
    readTokens (ls.map (Lexeme.token {}) ++ rest) outer ⟨before, []⟩ none =
      readTokensAfter before chain rest outer

theorem ReadsTight.readsAs {ls : List Lexeme} (h : ReadsTight ls f) : ReadsAs ls (f, []) :=
  fun rest outer before => h rest outer before []

theorem ReadsAs.parenthesised (h : ReadsAs f.lexemes f.spread) :
    ReadsTight (.openParen :: (f.lexemes ++ [.closeParen])) f := by
  intro rest outer before signs
  have hinner := h (.closeParen :: rest) (⟨before, signs⟩ :: outer) []
  have hclosed : readTokensAfter [] f.spread (.closeParen :: rest) (⟨before, signs⟩ :: outer) =
      readTokens rest outer ⟨before, signs⟩ (some (applySigns signs f)) := by
    rw [readTokensAfter, readTokens]
    dsimp only
    rw [close_spread]
  rw [hclosed, readTokens_signs] at hinner
  rw [← hinner]
  simp only [List.map_cons, List.map_append, List.map_nil, Lexeme.token, List.cons_append,
    List.append_assoc, List.nil_append]
  rfl

theorem ReadsTight.sign {ls : List Lexeme} (h : ReadsTight ls f) (op : UnaryOp) :
    ReadsTight (signLexeme op :: ls) (.unary op f) := by
  intro rest outer before signs
  have hrest := h rest outer before (op :: signs)
  cases op with
  | negate => exact hrest
  | complement => exact hrest

theorem ReadsAs.joined {ls rs : List Lexeme} {left right : Chain} (hl : ReadsAs ls left)
    (hr : ReadsAs rs right) (op : BinaryOp) :
    ReadsAs (ls ++ .op op :: rs) (left.1, left.2 ++ (op, right.1) :: right.2) := by
  intro rest outer before
  have hleft := hl (.op op :: (rs.map (Lexeme.token {}) ++ rest)) outer before
  have hright := hr rest outer
    (((feed before left.1 left.2).2, op) :: (feed before left.1 left.2).1)
  unfold readTokensAfter at hleft hright ⊢
  rw [feed_append]
  simp only [List.map_append, List.map_cons, List.append_assoc, List.cons_append, Lexeme.token]
  rw [hleft, ← hright]
  rfl

/-- The lexemes of a formula are read as its chain, and as one operand if it holds together. -/
theorem reads_lexemes (f : Formula) (hf : f.Printable) :
    ReadsAs f.lexemes f.spread ∧ (signLevel ≤ f.binding → ReadsTight f.lexemes f) := by
  induction f with
  | number v =>
      have htight : ReadsTight [.literal v] (number v) := by
        intro rest outer before signs
        rw [← readTokens_signs before signs]
        simp only [List.map_cons, List.map_nil, List.singleton_append, Lexeme.token]
        rw [readTokens]
        dsimp only
        rw [numberValue_numeral {} hf.1 hf.2]
      exact ⟨htight.readsAs, fun _ => htight⟩
  | path names =>
      have htight : ReadsTight [.path names] (path names) := by
        intro rest outer before signs
        rw [← readTokens_signs before signs]
        rfl
      exact ⟨htight.readsAs, fun _ => htight⟩
  | unary op f ih =>
      obtain ⟨hchain, htight⟩ := ih hf
      have hoperand : ReadsTight (enclosed (f.binding < signLevel) f.lexemes) f := by
        unfold enclosed
        split
        · exact hchain.parenthesised
        · rename_i hloose
          exact htight (by simpa using hloose)
      have hsigned := hoperand.sign op
      exact ⟨hsigned.readsAs, fun _ => hsigned⟩
  | binary op f g ihf ihg =>
      obtain ⟨hf, hg⟩ := hf
      have hleft : ReadsAs (enclosed (f.binding < op.level) f.lexemes)
          (if f.binding < op.level then (f, []) else f.spread) := by
        by_cases hloose : f.binding < op.level
        · simp only [enclosed, hloose, decide_true, if_true]
          exact (ihf hf).1.parenthesised.readsAs
        · simp only [enclosed, hloose, decide_false, if_false, Bool.false_eq_true]
          exact (ihf hf).1
      have hright : ReadsAs (enclosed (g.binding ≤ op.level) g.lexemes)
          (if g.binding ≤ op.level then (g, []) else g.spread) := by
        by_cases hloose : g.binding ≤ op.level
        · simp only [enclosed, hloose, decide_true, if_true]
          exact (ihg hg).1.parenthesised.readsAs
        · simp only [enclosed, hloose, decide_false, if_false, Bool.false_eq_true]
          exact (ihg hg).1
      refine ⟨hleft.joined hright op, fun hbinding => ?_⟩
      have hlevel := level_lt op
      exact absurd hbinding (by simp only [binding]; omega)

end Reading

/-! ## Cutting characters into lexemes -/

section Cutting

variable {rest : List Char} {style : Nat → Style} {ls : List Lexeme}

theorem tokensFrom?_nameParts {cs : List Char} (hall : ∀ c ∈ cs, isNamePart c = true)
    (before : List String) (text : List Char) :
    tokensFrom? (.name before text) (cs ++ rest) =
      tokensFrom? (.name before (cs.reverse ++ text)) rest := by
  induction cs generalizing text with
  | nil => rfl
  | cons c cs ih =>
      obtain ⟨hc, hcs⟩ := List.forall_mem_cons.mp hall
      have hstep : (Mode.name before text).step c = some ([], .name before (c :: text)) := by
        simp [Mode.step, hc]
      rw [List.cons_append, tokensFrom?_grow hstep, ih hcs, List.reverse_cons, List.append_assoc,
        List.singleton_append]

theorem exists_of_isName {name : String} (h : isName name = true) :
    ∃ c cs, name.toList = c :: cs ∧ isNameStart c = true ∧ ∀ d ∈ cs, isNamePart d = true := by
  unfold isName at h
  split at h
  · cases h
  · rename_i c cs hlist
    rw [Bool.and_eq_true, List.all_eq_true] at h
    exact ⟨c, cs, hlist, h.1, h.2⟩

/-- The rest of a path after the characters of one of its names. -/
theorem tokensFrom?_names {names : List String} (hnames : ∀ name ∈ names, isName name = true)
    (hrest : Ends rest) (before : List String) (text : List Char) :
    tokensFrom? (.name before text) (names.flatMap (fun name => '.' :: name.toList) ++ rest) =
      (tokensFrom? .idle rest).map
        (.path (before.reverse ++ String.ofList text.reverse :: names) :: ·) := by
  induction names generalizing before text with
  | nil =>
      have hfinish : (Mode.name before text).finish =
          some [.path (before.reverse ++ [String.ofList text.reverse])] := rfl
      refine tokensFrom?_turn hfinish fun c hc => ?_
      obtain ⟨hpart, hdot⟩ := hrest c hc
      simp [Mode.step, hpart, hdot]
  | cons name names ih =>
      obtain ⟨hname, hnames⟩ := List.forall_mem_cons.mp hnames
      obtain ⟨c, cs, hlist, hc, hcs⟩ := exists_of_isName hname
      have hdot : (Mode.name before text).step '.' =
          some ([], .dot (String.ofList text.reverse :: before)) := rfl
      have hstart : (Mode.dot (String.ofList text.reverse :: before)).step c =
          some ([], .name (String.ofList text.reverse :: before) [c]) := by
        simp [Mode.step, hc]
      have hwhole : String.ofList (cs.reverse ++ [c]).reverse = name := by
        rw [List.reverse_append, List.reverse_reverse, List.reverse_singleton,
          List.singleton_append, ← hlist, String.ofList_toList]
      rw [List.flatMap_cons, hlist, List.cons_append, List.cons_append, List.append_assoc,
        tokensFrom?_grow hdot, List.cons_append, tokensFrom?_grow hstart,
        tokensFrom?_nameParts hcs, ih hnames, hwhole]
      simp

theorem toList_pathText (name : String) (names : List String) :
    (pathText (name :: names)).toList =
      name.toList ++ names.flatMap (fun name => '.' :: name.toList) := by
  unfold pathText
  induction names generalizing name with
  | nil => simp
  | cons next names ih =>
      rw [String.intercalate_cons_cons]
      simp [ih]

theorem step_nameStart {c : Char} (h : isNameStart c = true) :
    Mode.idle.step c = some ([], .name [] [c]) := by
  have hspace : isSpace c = false := isSpace_of_isNamePart (isNamePart_iff.mpr (.inr h))
  have hdigit : c.isDigit = false := by
    rw [Bool.eq_false_iff, ne_eq, Char.isDigit_iff_toNat]
    rw [isNameStart_iff] at h
    simp only [Char.reduceToNat]
    omega
  have hzero : c ≠ '0' := by
    rintro rfl
    cases hdigit
  simp [Mode.step, Mode.begin, hspace, hzero, hdigit, h]

/-- A path is one token. -/
theorem tokensFrom?_path {names : List String} (hne : names ≠ [])
    (hnames : ∀ name ∈ names, isName name = true) (hrest : Ends rest) :
    tokensFrom? .idle ((pathText names).toList ++ rest) =
      (tokensFrom? .idle rest).map (.path names :: ·) := by
  cases names with
  | nil => exact absurd rfl hne
  | cons name names =>
      obtain ⟨hname, hnames⟩ := List.forall_mem_cons.mp hnames
      obtain ⟨c, cs, hlist, hc, hcs⟩ := exists_of_isName hname
      have hstart : Mode.idle.step c = some ([], .name [] [c]) := step_nameStart hc
      have hwhole : String.ofList (cs.reverse ++ [c]).reverse = name := by
        rw [List.reverse_append, List.reverse_reverse, List.reverse_singleton,
          List.singleton_append, ← hlist, String.ofList_toList]
      rw [toList_pathText, hlist, List.cons_append, List.cons_append, tokensFrom?_grow hstart,
        List.append_assoc, tokensFrom?_nameParts hcs, tokensFrom?_names hnames hrest, hwhole]
      rfl

/-- The tokens of lexemes, each in its own style. -/
def spelled : (Nat → Style) → List Lexeme → List Token
  | _, [] => []
  | style, l :: ls => l.token (style 0) :: spelled (fun i => style (i + 1)) ls

/-- No two lexemes that would run together stand side by side. -/
def Apart (ls : List Lexeme) : Prop :=
  ls.IsChain fun a b => a.isAtom = true → b.isAtom = false

/-- An operator or parenthesis is cut off by itself. -/
theorem tokensFrom?_mark {l : Lexeme} (h : l.isAtom = false) (st : Style) :
    tokensFrom? .idle (l.chars st ++ rest) = (tokensFrom? .idle rest).map (l.token st :: ·) := by
  have hone {c : Char} {t : Token} (hstep : Mode.idle.step c = some ([t], .idle)) :
      tokensFrom? .idle (c :: rest) = (tokensFrom? .idle rest).map (t :: ·) :=
    tokensFrom?_cons hstep
  have htwo {c : Char} {o : BinaryOp} (hstep : Mode.idle.step c = some ([], .half o))
      (hhalf : (Mode.half o).step c = some ([.op o], .idle)) :
      tokensFrom? .idle (c :: c :: rest) = (tokensFrom? .idle rest).map (.op o :: ·) := by
    rw [tokensFrom?_grow hstep]
    exact tokensFrom?_cons hhalf
  cases l with
  | literal v => cases h
  | path names => cases h
  | tilde => exact hone rfl
  | openParen => exact hone rfl
  | closeParen => exact hone rfl
  | op o =>
      cases o with
      | shiftLeft => exact htwo rfl rfl
      | shiftRight => exact htwo rfl rfl
      | _ => exact hone rfl

theorem ends_cons {c : Char} (hpart : isNamePart c = false) (hdot : c ≠ '.') :
    Ends (c :: rest) := by
  intro d hd
  cases hd
  exact ⟨hpart, hdot⟩

theorem ends_chars {l : Lexeme} (h : l.isAtom = false) (st : Style) :
    Ends (l.chars st ++ rest) := by
  cases l with
  | literal v => cases h
  | path names => cases h
  | op o => cases o <;> exact ends_cons (by decide) (by decide)
  | _ => exact ends_cons (by decide) (by decide)

theorem ends_gap (gap : List Space) (h : Ends rest) : Ends (gap.map (·.1) ++ rest) := by
  cases gap with
  | nil => exact h
  | cons c gap =>
      obtain ⟨c, hspace⟩ := c
      refine ends_cons ?_ ?_
      · rw [Bool.eq_false_iff]
        intro hpart
        rw [isSpace_of_isNamePart hpart] at hspace
        cases hspace
      · rintro rfl
        cases hspace

theorem tokensFrom?_gap (gap : List Space) :
    tokensFrom? .idle (gap.map (·.1) ++ rest) = tokensFrom? .idle rest := by
  induction gap with
  | nil => rfl
  | cons c gap ih =>
      have hstep : Mode.idle.step c.1 = some ([], .idle) := by
        simp [Mode.step, Mode.begin, c.2]
      rw [List.map_cons, List.cons_append, tokensFrom?_grow hstep, ih]

/-- Any lexeme is cut off before something that cannot continue it. -/
theorem tokensFrom?_lexeme {l : Lexeme} (hl : l.Printable) (st : Style)
    (hrest : l.isAtom = true → Ends rest) :
    tokensFrom? .idle (l.chars st ++ rest) = (tokensFrom? .idle rest).map (l.token st :: ·) := by
  cases l with
  | literal v => exact tokensFrom?_numeral (st.magnitude?_numeral _) (hrest rfl)
  | path names => exact tokensFrom?_path hl.1 hl.2 (hrest rfl)
  | op o => exact tokensFrom?_mark rfl st
  | tilde => exact tokensFrom?_mark rfl st
  | openParen => exact tokensFrom?_mark rfl st
  | closeParen => exact tokensFrom?_mark rfl st

/-- Lexemes that stand apart are cut where they were put together. -/
theorem tokensFrom?_layout (hls : ∀ l ∈ ls, l.Printable) (hapart : Apart ls) (style : Nat → Style) :
    tokensFrom? .idle (layout style ls) = some (spelled style ls) := by
  induction ls generalizing style with
  | nil => rfl
  | cons l ls ih =>
      obtain ⟨hl, hls⟩ := List.forall_mem_cons.mp hls
      obtain ⟨hnext, hapart⟩ := List.isChain_cons.mp hapart
      have hends : l.isAtom = true → Ends (layout (fun i => style (i + 1)) ls) := by
        intro hatom
        cases ls with
        | nil => intro c hc; cases hc
        | cons next ls => exact ends_chars (hnext next rfl hatom) _
      unfold layout spelled
      rw [tokensFrom?_lexeme hl _ fun hatom => ends_gap _ (hends hatom), tokensFrom?_gap,
        ih hls hapart]
      rfl

end Cutting

/-! ## Whole formulas -/

section Whole

variable {f : Formula} {ls : List Lexeme}

theorem printable_enclosed {needed : Bool} (h : ∀ l ∈ ls, l.Printable) :
    ∀ l ∈ enclosed needed ls, l.Printable := by
  intro l hl
  unfold enclosed at hl
  split at hl
  · rcases List.mem_cons.mp hl with rfl | hl
    · trivial
    · rcases List.mem_append.mp hl with hl | hl
      · exact h l hl
      · rw [List.mem_singleton.mp hl]
        trivial
  · exact h l hl

theorem printable_lexemes (hf : f.Printable) : ∀ l ∈ f.lexemes, l.Printable := by
  induction f with
  | number v => exact List.forall_mem_singleton.mpr hf
  | path names => exact List.forall_mem_singleton.mpr hf
  | unary op f ih =>
      refine List.forall_mem_cons.mpr ⟨?_, printable_enclosed (ih hf)⟩
      cases op <;> trivial
  | binary op f g ihf ihg =>
      intro l hl
      rcases List.mem_append.mp hl with hl | hl
      · exact printable_enclosed (ihf hf.1) l hl
      · rcases List.mem_cons.mp hl with rfl | hl
        · trivial
        · exact printable_enclosed (ihg hf.2) l hl

/-- A lexeme that does not run together with others may stand before any. -/
theorem apart_cons {l : Lexeme} (hl : l.isAtom = false) (h : Apart ls) : Apart (l :: ls) := by
  refine List.isChain_cons.mpr ⟨fun next _ hatom => ?_, h⟩
  rw [hl] at hatom
  cases hatom

theorem apart_append {l : Lexeme} {rs : List Lexeme} (hl : l.isAtom = false) (h : Apart ls)
    (hrs : Apart rs) : Apart (ls ++ l :: rs) := by
  refine List.isChain_append.mpr ⟨h, apart_cons hl hrs, fun last _ next hnext _ => ?_⟩
  cases hnext
  exact hl

theorem apart_enclosed {needed : Bool} (h : Apart ls) : Apart (enclosed needed ls) := by
  unfold enclosed
  split
  · exact apart_cons rfl (apart_append rfl h List.isChain_nil)
  · exact h

theorem apart_lexemes (f : Formula) : Apart f.lexemes := by
  induction f with
  | number v => exact List.isChain_singleton _
  | path names => exact List.isChain_singleton _
  | unary op f ih =>
      refine apart_cons ?_ (apart_enclosed ih)
      cases op <;> rfl
  | binary op f g ihf ihg => exact apart_append rfl (apart_enclosed ihf) (apart_enclosed ihg)

/-- How numbers are spelled does not matter for the formula. -/
theorem readTokens_spelled (hls : ∀ l ∈ ls, l.Printable) (style : Nat → Style) (outer : List Row)
    (row : Row) (last : Option Formula) :
    readTokens (spelled style ls) outer row last =
      readTokens (ls.map (Lexeme.token {})) outer row last := by
  induction ls generalizing style outer row last with
  | nil => rfl
  | cons l ls ih =>
      obtain ⟨hl, hls⟩ := List.forall_mem_cons.mp hls
      have hrest := ih hls fun i => style (i + 1)
      cases l with
      | literal v =>
          cases last with
          | none =>
              simp only [spelled, List.map_cons, Lexeme.token, readTokens,
                numberValue_numeral _ hl.1 hl.2]
              exact hrest _ _ _
          | some f => rfl
      | path names =>
          cases last with
          | none => exact hrest _ _ _
          | some f => rfl
      | op o =>
          cases last with
          | none =>
              cases o with
              | subtract => exact hrest _ _ _
              | _ => rfl
          | some f => exact hrest _ _ _
      | tilde =>
          cases last with
          | none => exact hrest _ _ _
          | some f => rfl
      | openParen =>
          cases last with
          | none => exact hrest _ _ _
          | some f => rfl
      | closeParen =>
          cases last with
          | none => rfl
          | some f =>
              cases outer with
              | nil => rfl
              | cons above outer => exact hrest _ _ _

theorem find?_spelled (hls : ∀ l ∈ ls, l.Printable) (style : Nat → Style) :
    (spelled style ls).find? Token.isInvalidNumber = none := by
  induction ls generalizing style with
  | nil => rfl
  | cons l ls ih =>
      obtain ⟨hl, hls⟩ := List.forall_mem_cons.mp hls
      have hvalid : (l.token (style 0)).isInvalidNumber = false := by
        cases l with
        | literal v =>
            simp only [Lexeme.token, Token.isInvalidNumber, parse?_numeral _ hl.1 hl.2]
            rfl
        | _ => rfl
      unfold spelled
      rw [List.find?_cons, hvalid]
      exact ih hls _

/-- **Reading a formula gives back what was written**, whatever the bases of its literals and the
spaces between its lexemes. -/
theorem parse_print (hf : f.Printable) (lead : List Space) (style : Nat → Style) :
    parse (f.print lead style) = .ok f := by
  have hlexemes := printable_lexemes hf
  have htokens : tokens? (f.print lead style) = some (spelled style f.lexemes) := by
    unfold tokens? print
    rw [String.toList_ofList, tokensFrom?_gap, tokensFrom?_layout hlexemes (apart_lexemes f)]
  have hread : readTokens (spelled style f.lexemes) [] {} none = some f := by
    have hchain := (reads_lexemes f hf).1 [] [] []
    rw [List.append_nil] at hchain
    rw [readTokens_spelled hlexemes, hchain]
    unfold readTokensAfter readTokens
    rw [close_spread]
  unfold parse
  rw [htokens]
  dsimp only
  rw [hread]
  dsimp only
  rw [find?_spelled hlexemes]

instance decidablePrintable : (f : Formula) → Decidable f.Printable
  | .number v => inferInstanceAs (Decidable (0 ≤ v ∧ Word.IsSigned v))
  | .path names => inferInstanceAs (Decidable (names ≠ [] ∧ ∀ name ∈ names, isName name = true))
  | .unary _ f => decidablePrintable f
  | .binary _ f g =>
    have := decidablePrintable f
    have := decidablePrintable g
    inferInstanceAs (Decidable (f.Printable ∧ g.Printable))

/-- A difference whose right operand is one too, with signs and a product. -/
def nestedDifference : Formula :=
  .binary .subtract (.path ["head", "size"])
    (.binary .subtract (.unary .negate (.binary .add (.number 31) (.number 2)))
      (.binary .multiply (.unary .complement (.unary .negate (.number 10))) (.path ["n_1"])))

/-- Lexemes in turn in decimal without spaces, and in hexadecimal with a tab after each. -/
def alternating (i : Nat) : Style :=
  if i % 2 = 0 then {}
  else { base := .hexadecimal, capital := true, zeros := 1, gap := [⟨'\t', rfl⟩] }

theorem parse_print_nested :
    nestedDifference.Printable ∧
      nestedDifference.print [⟨' ', rfl⟩] alternating =
        " head.size-\t(-\t(0X01F\t+0X02\t)-\t~-\t10*\tn_1)\t" ∧
      parse (nestedDifference.print [⟨' ', rfl⟩] alternating) = .ok nestedDifference := by
  have hf : nestedDifference.Printable := by decide
  exact ⟨hf, by decide, parse_print hf [⟨' ', rfl⟩] alternating⟩

end Whole

end Formula

end BinaryGrammar
