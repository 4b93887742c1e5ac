import Mathlib.Data.Int.ModEq
import Mathlib.Data.Rat.Floor
import TernLang.Proofs.Value.Integers

/-!
Arithmetic of 64 bits. Sums, differences, products and negations are the exact results modulo 2^64,
whatever the operands. Division goes toward zero, and of operands of 64 bits only the least integer
and minus one have a quotient that does not fit. All this is what signed machine words do.
-/
namespace TernLang

/-- `m` fits in 64 bits and agrees with `n` in them. -/
def Wraps (n m : Int) : Prop := Fits m ∧ m ≡ n [ZMOD 2 ^ 64]

def Value.WrapOf (v : Value) (n : Int) : Prop :=
  ∃ m, v = .int m ∧ Wraps n m ∧ ∀ k, Wraps n k → k = m

def truncated (a b : Int) : Int :=
  if 0 ≤ (a : ℚ) / b then ⌊(a : ℚ) / b⌋ else ⌈(a : ℚ) / b⌉

/-- Division with a remainder that has the sign of the dividend. -/
structure Divides (a b q r : Int) : Prop where
  whole : q * b + r = a
  small : |r| < |b|
  sign : r = 0 ∨ r.sign = a.sign

def word (n : Int) : BitVec 64 := BitVec.ofInt 64 n

theorem wraps_wrap (n : Int) : Wraps n (wrap n) := ⟨fits_wrap n, wrap_emod n⟩

theorem eq_of_wraps {n k m : Int} (first : Wraps n k) (second : Wraps n m) : k = m := by
  obtain ⟨⟨low, high⟩, same⟩ := first
  obtain ⟨⟨low', high'⟩, same'⟩ := second
  have congruent := same.trans same'.symm
  unfold Int.ModEq at congruent
  omega

theorem wrap_eq_bmod (n : Int) : wrap n = n.bmod 0x10000000000000000 := by
  have low := Int.le_bmod (x := n) (m := 0x10000000000000000) (by decide)
  have high := Int.bmod_lt (x := n) (m := 0x10000000000000000) (by decide)
  have same := Int.bmod_emod (x := n) (m := 0x10000000000000000)
  exact eq_of_wraps (wraps_wrap n) ⟨⟨by omega, by omega⟩, same⟩

theorem wrapOf_wrap (n : Int) : (Value.int (wrap n)).WrapOf n :=
  ⟨wrap n, rfl, wraps_wrap n, fun _ other => eq_of_wraps other (wraps_wrap n)⟩

theorem wrap_of_fits {n : Int} (h : Fits n) : wrap n = n := eq_of_wraps (wraps_wrap n) ⟨h, rfl⟩

section
variable {a b q r : Int}

theorem divides_tdiv (a : Int) (some : b ≠ 0) : Divides a b (a.tdiv b) (a.tmod b) where
  whole := Int.tdiv_mul_add_tmod a b
  small := by
    rw [Int.abs_eq_natAbs, Int.abs_eq_natAbs, Int.natAbs_tmod]
    exact Int.ofNat_lt.mpr (Nat.mod_lt _ (Int.natAbs_pos.mpr some))
  sign := by
    rw [Int.sign_tmod]
    by_cases exact : b ∣ a
    · exact .inl (Int.tmod_eq_zero_of_dvd exact)
    · exact .inr (if_neg exact)

namespace Divides

theorem divisor_ne_zero (h : Divides a b q r) : b ≠ 0 := by
  rintro rfl
  exact absurd h.small (by simp)

theorem remainder_nonneg (h : Divides a b q r) (dividend : 0 ≤ a) : 0 ≤ r := by
  rcases h.sign with none | same
  · exact none.ge
  · rw [← Int.sign_nonneg_iff, same]
    exact Int.sign_nonneg_iff.mpr dividend

theorem remainder_nonpos (h : Divides a b q r) (dividend : a ≤ 0) : r ≤ 0 := by
  rcases h.sign with none | same
  · exact none.le
  · rw [← Int.sign_nonpos_iff, same]
    exact Int.sign_nonpos_iff.mpr dividend

theorem fraction (h : Divides a b q r) : (a : ℚ) / b = q + (r : ℚ) / b := by
  have some : (b : ℚ) ≠ 0 := Int.cast_ne_zero.mpr h.divisor_ne_zero
  rw [← h.whole]
  push_cast
  field_simp

theorem quotient_eq (h : Divides a b q r) : q = truncated a b := by
  have small : |(r : ℚ) / b| < 1 := by
    rw [abs_div, div_lt_one (abs_pos.mpr (Int.cast_ne_zero.mpr h.divisor_ne_zero))]
    exact_mod_cast h.small
  obtain ⟨low, high⟩ := abs_lt.mp small
  unfold truncated
  split
  · rename_i nonneg
    have fraction : 0 ≤ (r : ℚ) / b := by
      rcases div_nonneg_iff.mp nonneg with ⟨dividend, divisor⟩ | ⟨dividend, divisor⟩
      · exact div_nonneg (Int.cast_nonneg (h.remainder_nonneg (Int.cast_nonneg_iff.mp dividend)))
          divisor
      · exact div_nonneg_of_nonpos
          (Int.cast_nonpos.mpr (h.remainder_nonpos (Int.cast_nonpos.mp dividend))) divisor
    rw [h.fraction]
    refine (Int.floor_eq_iff.mpr ⟨?_, ?_⟩).symm
    · linarith
    · linarith
  · rename_i negative
    have fraction : (r : ℚ) / b ≤ 0 := by
      rcases div_nonpos_iff.mp (le_of_not_ge negative) with
        ⟨dividend, divisor⟩ | ⟨dividend, divisor⟩
      · exact div_nonpos_of_nonneg_of_nonpos
          (Int.cast_nonneg (h.remainder_nonneg (Int.cast_nonneg_iff.mp dividend))) divisor
      · exact div_nonpos_of_nonpos_of_nonneg
          (Int.cast_nonpos.mpr (h.remainder_nonpos (Int.cast_nonpos.mp dividend))) divisor
    rw [h.fraction]
    refine (Int.ceil_eq_iff.mpr ⟨?_, ?_⟩).symm
    · linarith
    · linarith

theorem unique {q' r' : Int} (first : Divides a b q r) (second : Divides a b q' r') :
    q = q' ∧ r = r' := by
  have same : q = q' := first.quotient_eq.trans second.quotient_eq.symm
  have whole := first.whole.trans second.whole.symm
  subst same
  exact ⟨rfl, Int.add_left_cancel whole⟩

end Divides

theorem fits_tmod (a : Int) (some : b ≠ 0) (divisor : Fits b) : Fits (a.tmod b) := by
  have small := (divides_tdiv a some).small
  obtain ⟨low, high⟩ := divisor
  rw [abs_lt] at small
  rcases abs_cases b with ⟨same, _⟩ | ⟨same, _⟩
  · rw [same] at small
    exact ⟨by omega, by omega⟩
  · rw [same] at small
    exact ⟨by omega, by omega⟩

theorem fits_tdiv (dividend : Fits a) (some : b ≠ 0)
    (other : ¬ (a = -0x8000000000000000 ∧ b = -1)) : Fits (a.tdiv b) := by
  obtain ⟨low, high⟩ := dividend
  by_cases one : b = 1
  · rw [one, Int.tdiv_one]
    exact ⟨low, high⟩
  · by_cases minus : b = -1
    · rw [minus, Int.tdiv_neg, Int.tdiv_one]
      exact ⟨by omega, by omega⟩
    · have half : (a.tdiv b).natAbs ≤ a.natAbs / 2 := by
        rw [Int.natAbs_tdiv]
        exact Nat.div_le_div_left (by omega) (by decide)
      exact ⟨by omega, by omega⟩

end

namespace Operator
variable {a b : Int}

theorem quotient_eq_tdiv (a b : Int) : quotient a b = a.tdiv b := by
  unfold quotient
  cases a with
  | ofNat m =>
    have positive : (0 : Int) ≤ Int.ofNat m := Int.natCast_nonneg m
    cases b with
    | ofNat n => exact if_pos (iff_of_true positive (Int.natCast_nonneg n))
    | negSucc n =>
      rw [if_neg fun same => absurd (same.mp positive) (by simp)]
      rfl
  | negSucc m =>
    cases b with
    | ofNat n =>
      rw [if_neg fun same => absurd (same.mpr (Int.natCast_nonneg n)) (by simp)]
      rfl
    | negSucc n =>
      rw [if_pos (iff_of_false (by simp) (by simp))]
      rfl

theorem remainder_eq_tmod (a b : Int) : remainder a b = a.tmod b := by
  rw [remainder, quotient_eq_tdiv, Int.tmod_def]

theorem binary_integer {op : String} {v : Value} (h : integer? op a b = some v) :
    binary op (.int a) (.int b) = v := by
  have same : (Value.int a).tag = (Value.int b).tag := rfl
  have found : binary? op (.int a) (.int b) = some v := h
  rw [binary, if_pos same, found]
  rfl

theorem binary_divided (a : Int) (some : b ≠ 0) :
    binary "/" (.int a) (.int b) = .int (wrap (a.tdiv b)) ∧
      binary "%" (.int a) (.int b) = .int (wrap (a.tmod b)) :=
  ⟨binary_integer (by simp [integer?, some, quotient_eq_tdiv]),
    binary_integer (by simp [integer?, some, remainder_eq_tmod])⟩

theorem binary_refused_iff (a b : Int) :
    (binary "/" (.int a) (.int b) = .err "division by zero" ↔ b = 0) ∧
      (binary "%" (.int a) (.int b) = .err "division by zero" ↔ b = 0) := by
  by_cases none : b = 0
  · subst none
    exact ⟨iff_of_true rfl rfl, iff_of_true rfl rfl⟩
  · obtain ⟨quotient, remainder⟩ := binary_divided a none
    rw [quotient, remainder]
    exact ⟨iff_of_false nofun none, iff_of_false nofun none⟩

end Operator

/-! Words. -/

theorem toInt_word (n : Int) : (word n).toInt = wrap n :=
  (BitVec.toInt_ofInt n).trans (wrap_eq_bmod n).symm

theorem toInt_word_of_fits {n : Int} (h : Fits n) : (word n).toInt = n :=
  (toInt_word n).trans (wrap_of_fits h)

section
variable (a b : Int)

theorem toInt_word_add : (word a + word b).toInt = wrap (a + b) := by
  rw [← toInt_word, word, word, word, BitVec.ofInt_add]

theorem toInt_word_neg : (-word a).toInt = wrap (-a) := by
  rw [← toInt_word, word, word, BitVec.ofInt_neg]

theorem toInt_word_sub : (word a - word b).toInt = wrap (a - b) := by
  rw [← toInt_word, word, word, word, Int.sub_eq_add_neg, BitVec.ofInt_add, BitVec.ofInt_neg,
    BitVec.sub_eq_add_neg]

theorem toInt_word_mul : (word a * word b).toInt = wrap (a * b) := by
  rw [← toInt_word, word, word, word, BitVec.ofInt_mul]

end

theorem toInt_word_divided {a b : Int} (dividend : Fits a) (divisor : Fits b) (some : b ≠ 0) :
    ((word a).sdiv (word b)).toInt = wrap (a.tdiv b) ∧
      ((word a).srem (word b)).toInt = wrap (a.tmod b) := by
  rw [BitVec.toInt_sdiv, BitVec.toInt_srem, toInt_word_of_fits dividend,
    toInt_word_of_fits divisor, wrap_of_fits (fits_tmod a some divisor)]
  exact ⟨(wrap_eq_bmod _).symm, rfl⟩

/-- What the operators answer on integers of any size. Machine words of 64 bits answer the same;
a division by words is one of integers that fit. -/
theorem integer_operators_exact (a b : Int) :
    (Operator.binary "+" (.int a) (.int b)).WrapOf (a + b) ∧
    (Operator.binary "-" (.int a) (.int b)).WrapOf (a - b) ∧
    (Operator.binary "*" (.int a) (.int b)).WrapOf (a * b) ∧
    (Operator.unary "-" (.int a)).WrapOf (-a) ∧
    (Operator.binary "/" (.int a) (.int b) = .err "division by zero" ↔ b = 0) ∧
    (Operator.binary "%" (.int a) (.int b) = .err "division by zero" ↔ b = 0) ∧
    (b ≠ 0 → ∃ q r, q = truncated a b ∧ Divides a b q r ∧
      (∀ q' r', Divides a b q' r' → q' = q ∧ r' = r) ∧
      (Operator.binary "/" (.int a) (.int b)).WrapOf q ∧
      (Operator.binary "%" (.int a) (.int b)).WrapOf r ∧
      (Fits a → Fits b → ¬ (a = -0x8000000000000000 ∧ b = -1) →
        Operator.binary "/" (.int a) (.int b) = .int q ∧
        Operator.binary "%" (.int a) (.int b) = .int r)) ∧
    (a = -0x8000000000000000 ∧ b = -1 →
      Operator.binary "/" (.int a) (.int b) = .int (-0x8000000000000000) ∧
      Operator.binary "%" (.int a) (.int b) = .int 0) ∧
    Operator.binary "+" (.int a) (.int b) = .int (word a + word b).toInt ∧
    Operator.binary "-" (.int a) (.int b) = .int (word a - word b).toInt ∧
    Operator.binary "*" (.int a) (.int b) = .int (word a * word b).toInt ∧
    Operator.unary "-" (.int a) = .int (-word a).toInt ∧
    (Fits a → Fits b → b ≠ 0 →
      Operator.binary "/" (.int a) (.int b) = .int ((word a).sdiv (word b)).toInt ∧
      Operator.binary "%" (.int a) (.int b) = .int ((word a).srem (word b)).toInt) := by
  have sum : Operator.binary "+" (.int a) (.int b) = .int (wrap (a + b)) := rfl
  have difference : Operator.binary "-" (.int a) (.int b) = .int (wrap (a - b)) := rfl
  have product : Operator.binary "*" (.int a) (.int b) = .int (wrap (a * b)) := rfl
  have negation : Operator.unary "-" (.int a) = .int (wrap (-a)) := rfl
  obtain ⟨byZero, byZero'⟩ := Operator.binary_refused_iff a b
  rw [sum, difference, product, negation, toInt_word_add, toInt_word_sub, toInt_word_mul,
    toInt_word_neg]
  refine ⟨wrapOf_wrap _, wrapOf_wrap _, wrapOf_wrap _, wrapOf_wrap _, byZero, byZero', ?_, ?_, rfl,
    rfl, rfl, rfl, ?_⟩
  · intro some
    have divides := divides_tdiv a some
    obtain ⟨quotient, remainder⟩ := Operator.binary_divided a some
    rw [quotient, remainder]
    refine ⟨_, _, divides.quotient_eq, divides, fun q' r' other => other.unique divides,
      wrapOf_wrap _, wrapOf_wrap _, ?_⟩
    intro dividend divisor other
    rw [wrap_of_fits (fits_tdiv dividend some other), wrap_of_fits (fits_tmod a some divisor)]
    exact ⟨rfl, rfl⟩
  · rintro ⟨rfl, rfl⟩
    exact ⟨rfl, rfl⟩
  · intro dividend divisor some
    obtain ⟨quotient, remainder⟩ := toInt_word_divided dividend divisor some
    rw [quotient, remainder]
    exact Operator.binary_divided a some

theorem integer_operators_exact_negative :
    Operator.binary "/" (.int (-7)) (.int 2) = .int (-3) ∧
      Operator.binary "%" (.int (-7)) (.int 2) = .int (-1) ∧
      ((word (-7)).sdiv (word 2)).toInt = -3 := by
  obtain ⟨-, -, -, -, -, -, divided, -, -, -, -, -, words⟩ := integer_operators_exact (-7) 2
  obtain ⟨q, r, -, -, unique, -, -, exact⟩ := divided (by decide)
  obtain ⟨rfl, rfl⟩ := unique (-3) (-1) ⟨by decide, by decide, .inr (by decide)⟩
  have dividend : Fits (-7) := ⟨by decide, by decide⟩
  have divisor : Fits 2 := ⟨by decide, by decide⟩
  obtain ⟨quotient, remainder⟩ := exact dividend divisor (by decide)
  obtain ⟨same, -⟩ := words dividend divisor (by decide)
  exact ⟨quotient, remainder, (Value.int.inj (quotient.symm.trans same)).symm⟩

end TernLang
