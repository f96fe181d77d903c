import Mathlib.Data.Int.Bitwise
import BinaryGrammar.Formula.Eval

/-!
# Formulas over unbounded integers

Every formula has an exact value, which knows no words: quotients go toward zero, a shift by `k`
multiplies or divides by two to the power `k`, and the bitwise operators work on two's complement
without an end. A formula **fits** when all of its names are known, no divisor is zero, all shift
counts are below sixty-four, and its exact value and those of all its parts are signed words.

A formula that fits is evaluated to its exact value. The converse holds for every operator but one:
a shift to the left does not look at the bits it pushes out, so a formula may have a value although
it **spills**. Where it does not, having a value means fitting, and the value is exact.
-/

set_option autoImplicit false

namespace BinaryGrammar

/-! ## Exact values -/

/-- The value of an operator before its operand, over unbounded integers. -/
def UnaryOp.exact : UnaryOp → Int → Int
  | .negate, v => -v
  | .complement, v => Int.lnot v

/-- The value of an operator between its operands, over unbounded integers. -/
def BinaryOp.exact : BinaryOp → Int → Int → Int
  | .add, a, b => a + b
  | .subtract, a, b => a - b
  | .multiply, a, b => a * b
  | .divide, a, b => a.tdiv b
  | .remainder, a, b => a.tmod b
  | .shiftLeft, a, b => a * 2 ^ b.toNat
  | .shiftRight, a, b => a.fdiv (2 ^ b.toNat)
  | .and, a, b => Int.land a b
  | .or, a, b => Int.lor a b
  | .xor, a, b => Int.xor a b

/-- Whether an operator has a value at all. A remainder needs a quotient that is a signed word. -/
def BinaryOp.Defined : BinaryOp → Int → Int → Prop
  | .divide, _, b => b ≠ 0
  | .remainder, a, b => b ≠ 0 ∧ Word.IsSigned (a.tdiv b)
  | .shiftLeft, _, b => 0 ≤ b ∧ b < 64
  | .shiftRight, _, b => 0 ≤ b ∧ b < 64
  | _, _, _ => True

instance BinaryOp.decidableDefined (a b : Int) : (op : BinaryOp) → Decidable (op.Defined a b)
  | .divide => inferInstanceAs (Decidable (b ≠ 0))
  | .remainder => inferInstanceAs (Decidable (b ≠ 0 ∧ Word.IsSigned (a.tdiv b)))
  | .shiftLeft => inferInstanceAs (Decidable (0 ≤ b ∧ b < 64))
  | .shiftRight => inferInstanceAs (Decidable (0 ≤ b ∧ b < 64))
  | .add | .subtract | .multiply | .and | .or | .xor => inferInstanceAs (Decidable True)

/-- A scope of signed words. -/
def Scope.Worded (scope : Scope) : Prop := ∀ names v, scope names = some v → Word.IsSigned v

namespace Formula

/-- All numbers of a formula are signed words. -/
def Worded : Formula → Prop
  | .number v => Word.IsSigned v
  | .path _ => True
  | .unary _ f => f.Worded
  | .binary _ f g => f.Worded ∧ g.Worded

instance decidableWorded : (f : Formula) → Decidable f.Worded
  | .number v => inferInstanceAs (Decidable (Word.IsSigned v))
  | .path _ => inferInstanceAs (Decidable True)
  | .unary _ f => decidableWorded f
  | .binary _ f g =>
    have := decidableWorded f
    have := decidableWorded g
    inferInstanceAs (Decidable (f.Worded ∧ g.Worded))

/-- The value of a formula over unbounded integers; names that are not known count as zero. -/
def exact (scope : Scope) : Formula → Int
  | .number v => v
  | .path names => (scope names).getD 0
  | .unary op f => op.exact (f.exact scope)
  | .binary op f g => op.exact (f.exact scope) (g.exact scope)

/-- All names are known, all operators are defined, and all values are signed words. -/
def Fits (scope : Scope) : Formula → Prop
  | .number _ => True
  | .path names => (scope names).isSome
  | .unary op f => f.Fits scope ∧ Word.IsSigned (op.exact (f.exact scope))
  | .binary op f g =>
    f.Fits scope ∧ g.Fits scope ∧ op.Defined (f.exact scope) (g.exact scope) ∧
      Word.IsSigned (op.exact (f.exact scope) (g.exact scope))

instance decidableFits (scope : Scope) : (f : Formula) → Decidable (f.Fits scope)
  | .number _ => inferInstanceAs (Decidable True)
  | .path names => inferInstanceAs (Decidable ((scope names).isSome = true))
  | .unary op f =>
    have := decidableFits scope f
    inferInstanceAs (Decidable (f.Fits scope ∧ Word.IsSigned (op.exact (f.exact scope))))
  | .binary op f g =>
    have := decidableFits scope f
    have := decidableFits scope g
    inferInstanceAs (Decidable (f.Fits scope ∧ g.Fits scope ∧
      op.Defined (f.exact scope) (g.exact scope) ∧
      Word.IsSigned (op.exact (f.exact scope) (g.exact scope))))

/-- Somewhere in the formula operands that fit are shifted to the left by a proper count, and the
result is no signed word. -/
def Spills (scope : Scope) : Formula → Prop
  | .number _ => False
  | .path _ => False
  | .unary _ f => f.Spills scope
  | .binary op f g =>
    f.Spills scope ∨ g.Spills scope ∨
      (op = .shiftLeft ∧ f.Fits scope ∧ g.Fits scope ∧
        op.Defined (f.exact scope) (g.exact scope) ∧
        ¬ Word.IsSigned (op.exact (f.exact scope) (g.exact scope)))

/-! ## Words as bits -/

theorem ofBits_toBits {v : Int} (h : Word.IsSigned v) : ofBits (toBits v) = v := by
  obtain ⟨hlow, hhigh⟩ := h
  unfold Word.least at hlow
  unfold Word.greatest at hhigh
  exact BitVec.toInt_ofInt_eq_self (by decide) (by omega) (by omega)

theorem isSigned_ofBits (b : BitVec 64) : Word.IsSigned (ofBits b) := by
  have hlow := BitVec.le_toInt b
  have hhigh := BitVec.toInt_lt (x := b)
  unfold Word.IsSigned Word.least Word.greatest ofBits
  omega

/-- The bits of a word are those of the integer. -/
theorem getLsbD_toBits (v : Int) {i : Nat} (hi : i < 64) :
    (toBits v).getLsbD i = v.testBit i := by
  unfold toBits
  cases v with
  | ofNat n =>
      rw [Int.ofNat_eq_natCast, BitVec.ofInt_natCast, BitVec.getLsbD_ofNat]
      simp [hi, Int.testBit]
  | negSucc n =>
      rw [BitVec.ofInt_negSucc_eq_not_ofNat, BitVec.getLsbD_not, BitVec.getLsbD_ofNat]
      simp [hi, Int.testBit]

/-- An integer is a signed word if its bits are, apart from the sign, below two to the power 63. -/
theorem isSigned_natCast {n : Nat} (h : n < 2 ^ 63) : Word.IsSigned (n : Int) := by
  unfold Word.IsSigned Word.least Word.greatest
  omega

theorem isSigned_negSucc {n : Nat} (h : n < 2 ^ 63) : Word.IsSigned (Int.negSucc n) := by
  unfold Word.IsSigned Word.least Word.greatest
  omega

theorem exists_of_isSigned {v : Int} (h : Word.IsSigned v) :
    ∃ n : Nat, n < 2 ^ 63 ∧ (v = (n : Int) ∨ v = Int.negSucc n) := by
  unfold Word.IsSigned Word.least Word.greatest at h
  cases v with
  | ofNat n =>
      rw [Int.ofNat_eq_natCast] at h ⊢
      exact ⟨n, by omega, .inl rfl⟩
  | negSucc n => exact ⟨n, by omega, .inr rfl⟩

/-- A bitwise operation on signed words gives a signed word. -/
theorem isSigned_bitwise (f : Bool → Bool → Bool) {a b : Int} (ha : Word.IsSigned a)
    (hb : Word.IsSigned b) : Word.IsSigned (Int.bitwise f a b) := by
  have hnat (g : Bool → Bool → Bool) {m n : Nat} (hm : m < 2 ^ 63) (hn : n < 2 ^ 63) :
      Word.IsSigned (Int.natBitwise g m n) := by
    unfold Int.natBitwise
    cases hg : g false false with
    | true => exact isSigned_negSucc (Nat.bitwise_lt_two_pow hm hn)
    | false => exact isSigned_natCast (Nat.bitwise_lt_two_pow hm hn)
  obtain ⟨m, hm, ha⟩ := exists_of_isSigned ha
  obtain ⟨n, hn, hb⟩ := exists_of_isSigned hb
  rcases ha with rfl | rfl <;> rcases hb with rfl | rfl
  · exact hnat f hm hn
  · exact hnat (fun x y => f x (!y)) hm hn
  · exact hnat (fun x y => f (!x) y) hm hn
  · exact hnat (fun x y => f (!x) (!y)) hm hn

/-- A word whose bits are those of a bitwise operation on two words is its exact value. -/
theorem ofBits_bitwise (f : Bool → Bool → Bool) {a b : Int} (ha : Word.IsSigned a)
    (hb : Word.IsSigned b) {z : BitVec 64}
    (hz : ∀ i < 64, z.getLsbD i = f ((toBits a).getLsbD i) ((toBits b).getLsbD i)) :
    ofBits z = Int.bitwise f a b := by
  have hbits : z = toBits (Int.bitwise f a b) := by
    refine BitVec.eq_of_getLsbD_eq fun i hi => ?_
    rw [hz i hi, getLsbD_toBits _ hi, getLsbD_toBits _ hi, getLsbD_toBits _ hi,
      Int.testBit_bitwise]
  rw [hbits, ofBits_toBits (isSigned_bitwise f ha hb)]

/-! ## One operator -/

theorem isSigned_lnot {v : Int} (h : Word.IsSigned v) : Word.IsSigned (Int.lnot v) := by
  obtain ⟨n, hn, rfl | rfl⟩ := exists_of_isSigned h
  · exact isSigned_negSucc hn
  · exact isSigned_natCast hn

theorem ofBits_not {v : Int} (h : Word.IsSigned v) : ofBits (~~~ toBits v) = Int.lnot v := by
  have hbits : ~~~ toBits v = toBits (Int.lnot v) := by
    refine BitVec.eq_of_getLsbD_eq fun i hi => ?_
    rw [BitVec.getLsbD_not, getLsbD_toBits _ hi, getLsbD_toBits _ hi, Int.testBit_lnot]
    simp [hi]
  rw [hbits, ofBits_toBits (isSigned_lnot h)]

/-- A shift to the left keeps the lowest sixty-four bits of the exact value. -/
theorem ofBits_shiftLeft (a : Int) (n : Nat) :
    ofBits (toBits a <<< n) = ofBits (toBits (a * 2 ^ n)) := by
  have hcast : (2 : Int) ^ n = ((2 ^ n : Nat) : Int) := by push_cast; rfl
  have hpow : BitVec.ofInt 64 (2 ^ n) = BitVec.twoPow 64 n := by
    refine BitVec.eq_of_toNat_eq ?_
    rw [hcast, BitVec.ofInt_natCast, BitVec.toNat_ofNat, BitVec.toNat_twoPow]
  unfold toBits
  rw [BitVec.ofInt_mul, BitVec.shiftLeft_eq_mul_twoPow, hpow]

theorem ofBits_sshiftRight {a : Int} (h : Word.IsSigned a) (n : Nat) :
    ofBits ((toBits a).sshiftRight n) = a.fdiv (2 ^ n) := by
  have hword : (toBits a).toInt = a := ofBits_toBits h
  have hpos : (0 : Int) ≤ 2 ^ n := Int.pow_nonneg (by decide)
  unfold ofBits
  rw [BitVec.toInt_sshiftRight, hword, Int.shiftRight_eq_div_pow, Int.fdiv_eq_ediv_of_nonneg _ hpos]
  push_cast
  rfl

theorem isSigned_fdiv {a : Int} (h : Word.IsSigned a) (n : Nat) :
    Word.IsSigned (a.fdiv (2 ^ n)) := by
  rw [← ofBits_sshiftRight h n]
  exact isSigned_ofBits _

variable {a b : Int}

theorem isSigned_tmod (a : Int) (hb : Word.IsSigned b) (h0 : b ≠ 0) :
    Word.IsSigned (a.tmod b) := by
  have habs : (a.tmod b).natAbs = a.natAbs % b.natAbs := Int.natAbs_tmod a b
  have hlt : a.natAbs % b.natAbs < b.natAbs := Nat.mod_lt _ (by omega)
  unfold Word.IsSigned Word.least Word.greatest at *
  omega

/-- The only quotient of signed words that is none is that of the least word by minus one. -/
theorem isSigned_tdiv_iff (ha : Word.IsSigned a) (h0 : b ≠ 0) :
    Word.IsSigned (a.tdiv b) ↔ ¬ (a = Word.least ∧ b = -1) := by
  constructor
  · rintro h ⟨rfl, rfl⟩
    exact absurd h (by decide)
  · intro h
    have habs : (a.tdiv b).natAbs = a.natAbs / b.natAbs := Int.natAbs_tdiv a b
    rcases Nat.lt_or_ge b.natAbs 2 with hsmall | hlarge
    · -- dividing by one or minus one
      have hb : b = 1 ∨ b = -1 := by omega
      rcases hb with rfl | rfl
      · rwa [Int.tdiv_one]
      · have hne : a ≠ Word.least := fun ha => h ⟨ha, rfl⟩
        rw [Int.tdiv_neg, Int.tdiv_one]
        unfold Word.IsSigned Word.least Word.greatest at *
        omega
    · have hhalf : a.natAbs / b.natAbs ≤ a.natAbs / 2 := Nat.div_le_div_left hlarge (by decide)
      unfold Word.IsSigned Word.least Word.greatest at *
      omega

theorem checked_ok {v w : Int} : checked v = .ok w ↔ Word.IsSigned v ∧ w = v := by
  unfold checked
  split
  · rename_i h
    simp [h, eq_comm]
  · rename_i h
    simp [h]

theorem shiftCount_ok {v : Int} {n : Nat} :
    shiftCount v = .ok n ↔ (0 ≤ v ∧ v < 64) ∧ n = v.toNat := by
  unfold shiftCount
  split
  · rename_i h
    simp [h, eq_comm]
  · rename_i h
    simp [h]

theorem applyUnary_ok (op : UnaryOp) (ha : Word.IsSigned a) {w : Int} :
    applyUnary op a = .ok w ↔ Word.IsSigned (op.exact a) ∧ w = op.exact a := by
  cases op with
  | negate => exact checked_ok
  | complement =>
      unfold applyUnary UnaryOp.exact
      dsimp only
      rw [ofBits_not ha]
      simp [isSigned_lnot ha, eq_comm]

/-- What a shift to the left gives, whether its exact value is a word or not. -/
theorem applyBinary_shiftLeft {w : Int} :
    applyBinary .shiftLeft a b = .ok w ↔
      BinaryOp.shiftLeft.Defined a b ∧ w = ofBits (toBits (BinaryOp.shiftLeft.exact a b)) := by
  unfold applyBinary BinaryOp.Defined BinaryOp.exact
  dsimp only
  cases h : shiftCount b with
  | ok n =>
      obtain ⟨hb, rfl⟩ := shiftCount_ok.mp h
      dsimp only
      rw [ofBits_shiftLeft]
      simp [hb, eq_comm]
  | error e =>
      have hb : ¬ (0 ≤ b ∧ b < 64) := fun hb => by simp [shiftCount, hb] at h
      simp [hb]

/-- Every operator but the shift to the left has a value exactly where it is defined and its exact
value is a word, and it has that value. -/
theorem applyBinary_ok {op : BinaryOp} (hop : op ≠ .shiftLeft) (ha : Word.IsSigned a)
    (hb : Word.IsSigned b) {w : Int} :
    applyBinary op a b = .ok w ↔
      op.Defined a b ∧ Word.IsSigned (op.exact a b) ∧ w = op.exact a b := by
  cases op with
  | add => simp [applyBinary, BinaryOp.Defined, BinaryOp.exact, checked_ok]
  | subtract => simp [applyBinary, BinaryOp.Defined, BinaryOp.exact, checked_ok]
  | multiply => simp [applyBinary, BinaryOp.Defined, BinaryOp.exact, checked_ok]
  | divide =>
      unfold applyBinary BinaryOp.Defined BinaryOp.exact
      dsimp only
      split
      · rename_i h
        simp [h]
      · rename_i h
        simp [h, checked_ok]
  | remainder =>
      unfold applyBinary BinaryOp.Defined BinaryOp.exact
      dsimp only
      split
      · rename_i h
        simp [h]
      · rename_i h
        rw [isSigned_tdiv_iff ha h]
        split
        · rename_i hleast
          exact iff_of_false (by simp) fun hd => hd.1.2 hleast
        · rename_i hleast
          simp only [h, hleast, isSigned_tmod a hb h, ne_eq, not_false_eq_true, and_self, true_and,
            Except.ok.injEq, eq_comm]
  | shiftLeft => exact absurd rfl hop
  | shiftRight =>
      unfold applyBinary BinaryOp.Defined BinaryOp.exact
      dsimp only
      cases h : shiftCount b with
      | ok n =>
          obtain ⟨hb, rfl⟩ := shiftCount_ok.mp h
          dsimp only
          rw [ofBits_sshiftRight ha]
          simp [hb, isSigned_fdiv ha, eq_comm]
      | error e =>
          have hb : ¬ (0 ≤ b ∧ b < 64) := fun hb => by simp [shiftCount, hb] at h
          simp [hb]
  | and =>
      have hbits : ofBits (toBits a &&& toBits b) = Int.land a b := by
        rw [← Int.bitwise_and]
        exact ofBits_bitwise and ha hb fun i hi => BitVec.getLsbD_and
      have hword := isSigned_bitwise and ha hb
      rw [Int.bitwise_and] at hword
      simp [applyBinary, BinaryOp.Defined, BinaryOp.exact, hbits, hword, eq_comm]
  | or =>
      have hbits : ofBits (toBits a ||| toBits b) = Int.lor a b := by
        rw [← Int.bitwise_or]
        exact ofBits_bitwise or ha hb fun i hi => BitVec.getLsbD_or
      have hword := isSigned_bitwise or ha hb
      rw [Int.bitwise_or] at hword
      simp [applyBinary, BinaryOp.Defined, BinaryOp.exact, hbits, hword, eq_comm]
  | xor =>
      have hbits : ofBits (toBits a ^^^ toBits b) = Int.xor a b := by
        rw [← Int.bitwise_xor]
        exact ofBits_bitwise xor ha hb fun i hi => BitVec.getLsbD_xor
      have hword := isSigned_bitwise xor ha hb
      rw [Int.bitwise_xor] at hword
      simp [applyBinary, BinaryOp.Defined, BinaryOp.exact, hbits, hword, eq_comm]

/-- Operators on signed words give signed words, the shift to the left included. -/
theorem applyBinary_isSigned {op : BinaryOp} (ha : Word.IsSigned a) (hb : Word.IsSigned b) {w : Int}
    (h : applyBinary op a b = .ok w) : Word.IsSigned w := by
  by_cases hop : op = .shiftLeft
  · subst hop
    obtain ⟨-, rfl⟩ := applyBinary_shiftLeft.mp h
    exact isSigned_ofBits _
  · obtain ⟨-, hword, rfl⟩ := (applyBinary_ok hop ha hb).mp h
    exact hword

/-- Where the exact value is a word, all operators give it. -/
theorem applyBinary_exact {op : BinaryOp} (ha : Word.IsSigned a) (hb : Word.IsSigned b)
    (hd : op.Defined a b) (hword : Word.IsSigned (op.exact a b)) :
    applyBinary op a b = .ok (op.exact a b) := by
  by_cases hop : op = .shiftLeft
  · subst hop
    exact applyBinary_shiftLeft.mpr ⟨hd, (ofBits_toBits hword).symm⟩
  · exact (applyBinary_ok hop ha hb).mpr ⟨hd, hword, rfl⟩

/-! ## Whole formulas -/

variable {scope : Scope} {f : Formula} {v : Int}

/-- Values stay signed words, also where a shift loses bits. -/
theorem eval_isSigned (hscope : scope.Worded) (hf : f.Worded) (h : eval scope f = .ok v) :
    Word.IsSigned v := by
  induction f generalizing v with
  | number n =>
      cases h
      exact hf
  | path names =>
      unfold eval at h
      split at h
      · rename_i n hn
        cases h
        exact hscope names _ hn
      · cases h
  | unary op f ih =>
      unfold eval at h
      split at h
      · rename_i a ha
        obtain ⟨hword, rfl⟩ := (applyUnary_ok op (ih hf ha)).mp h
        exact hword
      · cases h
  | binary op f g ihf ihg =>
      unfold eval at h
      split at h
      · cases h
      · rename_i a ha
        split at h
        · cases h
        · rename_i b hb
          exact applyBinary_isSigned (ihf hf.1 ha) (ihg hf.2 hb) h

theorem Fits.isSigned (hscope : scope.Worded) (hf : f.Worded) (h : f.Fits scope) :
    Word.IsSigned (f.exact scope) := by
  cases f with
  | number n => exact hf
  | path names =>
      obtain ⟨n, hn⟩ := Option.isSome_iff_exists.mp h
      have hword := hscope names n hn
      simpa [exact, hn] using hword
  | unary op f => exact h.2
  | binary op f g => exact h.2.2.2

/-- A formula that fits has its exact value. -/
theorem Fits.eval (hscope : scope.Worded) (hf : f.Worded) (h : f.Fits scope) :
    eval scope f = .ok (f.exact scope) := by
  induction f with
  | number n => rfl
  | path names =>
      obtain ⟨n, hn⟩ := Option.isSome_iff_exists.mp h
      simp [Formula.eval, exact, hn]
  | unary op f ih =>
      obtain ⟨hfits, hword⟩ := h
      have hwords : f.Worded := hf
      have ha := hfits.isSigned hscope hwords
      simp only [Formula.eval, ih hf hfits, exact]
      exact (applyUnary_ok op ha).mpr ⟨hword, rfl⟩
  | binary op f g ihf ihg =>
      obtain ⟨hfitsf, hfitsg, hd, hword⟩ := h
      have ha := hfitsf.isSigned hscope hf.1
      have hb := hfitsg.isSigned hscope hf.2
      simp only [Formula.eval, ihf hf.1 hfitsf, ihg hf.2 hfitsg, exact]
      exact applyBinary_exact ha hb hd hword

/-- A formula with a value fits and has its exact value, or it spills. -/
theorem eval_fits_or_spills (hscope : scope.Worded) (hf : f.Worded) (h : eval scope f = .ok v) :
    (f.Fits scope ∧ v = f.exact scope) ∨ f.Spills scope := by
  induction f generalizing v with
  | number n =>
      cases h
      exact .inl ⟨trivial, rfl⟩
  | path names =>
      unfold Formula.eval at h
      split at h
      · rename_i n hn
        cases h
        exact .inl ⟨by simp [Fits, hn], by simp [exact, hn]⟩
      · cases h
  | unary op f ih =>
      unfold Formula.eval at h
      split at h
      · rename_i a ha
        rcases ih hf ha with ⟨hfits, rfl⟩ | hspills
        · have hwords : f.Worded := hf
          obtain ⟨hword, rfl⟩ := (applyUnary_ok op (hfits.isSigned hscope hwords)).mp h
          exact .inl ⟨⟨hfits, hword⟩, rfl⟩
        · exact .inr hspills
      · cases h
  | binary op f g ihf ihg =>
      unfold Formula.eval at h
      split at h
      · cases h
      · rename_i a ha
        split at h
        · cases h
        · rename_i b hb
          rcases ihf hf.1 ha with ⟨hfitsf, rfl⟩ | hspills
          · rcases ihg hf.2 hb with ⟨hfitsg, rfl⟩ | hspills
            · have hwa := hfitsf.isSigned hscope hf.1
              have hwb := hfitsg.isSigned hscope hf.2
              by_cases hop : op = .shiftLeft
              · -- the one operator whose exact value may be lost
                subst hop
                obtain ⟨hd, rfl⟩ := applyBinary_shiftLeft.mp h
                by_cases hword : Word.IsSigned (BinaryOp.shiftLeft.exact (f.exact scope)
                    (g.exact scope))
                · exact .inl ⟨⟨hfitsf, hfitsg, hd, hword⟩, ofBits_toBits hword⟩
                · exact .inr (.inr (.inr ⟨rfl, hfitsf, hfitsg, hd, hword⟩))
              · obtain ⟨hd, hword, rfl⟩ := (applyBinary_ok hop hwa hwb).mp h
                exact .inl ⟨⟨hfitsf, hfitsg, hd, hword⟩, rfl⟩
            · exact .inr (.inr (.inl hspills))
          · exact .inr (.inl hspills)

/-- A formula that spills does not fit. -/
theorem Spills.not_fits (h : f.Spills scope) : ¬ f.Fits scope := by
  induction f with
  | number n => cases h
  | path names => cases h
  | unary op f ih => exact fun hfits => ih h hfits.1
  | binary op f g ihf ihg =>
      intro hfits
      rcases h with h | h | h
      · exact ihf h hfits.1
      · exact ihg h hfits.2.1
      · exact h.2.2.2.2 hfits.2.2.2

/-- **Formulas are exact as long as no shift pushes bits out on the left.** A formula that fits has
its exact value. The value that a formula has is a signed word. Either the formula fits and the
value is exact, so that no name is unknown, no divisor is zero, no shift count is improper and no
value anywhere leaves the signed words; or it spills, and then it does not fit. -/
theorem eval_exact (hscope : scope.Worded) (hf : f.Worded) :
    (f.Fits scope → eval scope f = .ok (f.exact scope)) ∧
      (∀ v, eval scope f = .ok v →
        Word.IsSigned v ∧ ((f.Fits scope ∧ v = f.exact scope) ∨ f.Spills scope)) ∧
      (f.Spills scope → ¬ f.Fits scope) := by
  refine ⟨?_, ?_, ?_⟩
  · intro hfits
    exact hfits.eval hscope hf
  · intro v h
    exact ⟨eval_isSigned hscope hf h, eval_fits_or_spills hscope hf h⟩
  · intro hspills
    exact hspills.not_fits

/-- The least word, shifted in both directions, divided and masked. -/
def leastMasked : Formula :=
  .binary .and
    (.binary .divide
      (.binary .shiftLeft (.binary .shiftRight (.path ["low"]) (.number 3)) (.number 2))
      (.unary .negate (.number 3)))
    (.unary .complement (.unary .negate (.number 256)))

/-- A scope in which `low` is the least word. -/
def lowScope : Scope := fun names => if names = ["low"] then some Word.least else none

theorem eval_exact_leastMasked :
    lowScope.Worded ∧ leastMasked.Worded ∧ leastMasked.Fits lowScope ∧
      eval lowScope leastMasked = .ok 85 := by
  have hscope : lowScope.Worded := by
    intro names v h
    unfold lowScope at h
    split at h
    · cases h
      decide
    · cases h
  have hf : leastMasked.Worded := by decide
  have hfits : leastMasked.Fits lowScope := by decide
  have hexact : leastMasked.exact lowScope = 85 := by decide
  exact ⟨hscope, hf, hfits, hexact ▸ (eval_exact hscope hf).1 hfits⟩

/-- Four, shifted by sixty-two places, is two to the power 64, but the formula's value is zero. -/
theorem eval_pushed_out :
    (parse "4 << 62").toOption.map (fun f => f.exact .empty) = some 18446744073709551616 ∧
      evaluate .empty "4 << 62" = .ok 0 := by
  decide

end Formula

end BinaryGrammar
