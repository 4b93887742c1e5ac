import TernLang.Syntax.Parser

/-!
The text of an integer: its decimal digits, behind a minus sign if it is negative. The digits are
read as the absolute value again, so different integers have different texts.
-/
namespace TernLang

theorem isDigit_of_toDigits {n : Nat} {c : Char} (member : c ∈ Nat.toDigits 10 n) : isDigit c := by
  have digit : c.isDigit := Nat.isDigit_of_mem_toDigits (by decide) (by decide) member
  simpa [Char.isDigit, isDigit, Char.le_def] using digit

theorem digitsValue_toDigits (n : Nat) : digitsValue (Nat.toDigits 10 n) = n :=
  Nat.ofDigitChars_ten_toDigits

theorem length_toDigits {n : Nat} (small : n ≤ 0x7fffffffffffffff) :
    (Nat.toDigits 10 n).length ≤ 19 := by
  apply (Nat.length_toDigits_le_iff (by decide) (by decide)).mpr
  omega

theorem exists_toDigits (n : Nat) : ∃ c cs, Nat.toDigits 10 n = c :: cs :=
  List.exists_cons_of_ne_nil Nat.toDigits_ne_nil

theorem toList_toString (n : Int) : (toString n).toList =
    if 0 ≤ n then Nat.toDigits 10 n.natAbs else '-' :: Nat.toDigits 10 n.natAbs := by
  cases n with
  | ofNat m =>
    have text : toString (Int.ofNat m) = m.repr := rfl
    have positive : 0 ≤ Int.ofNat m := Int.natCast_nonneg m
    rw [text, Nat.repr_eq_ofList_toDigits, String.toList_ofList, if_pos positive]
    rfl
  | negSucc m =>
    have text : toString (Int.negSucc m) = "-" ++ (m + 1).repr := rfl
    have negative : ¬ 0 ≤ Int.negSucc m := Int.not_le.mpr (Int.negSucc_lt_zero m)
    have digits : (m + 1).repr.toList = Nat.toDigits 10 (m + 1) := by
      rw [Nat.repr_eq_ofList_toDigits, String.toList_ofList]
    rw [text, String.toList_append, digits, if_neg negative]
    rfl

theorem minus_not_mem_toDigits (n : Nat) : '-' ∉ Nat.toDigits 10 n := fun member =>
  absurd (isDigit_of_toDigits member) (by decide)

theorem toString_inj {m n : Int} : toString m = toString n ↔ m = n := by
  constructor
  · intro same
    have chars := congrArg String.toList same
    rw [toList_toString, toList_toString] at chars
    have digits {a b : Nat} (equal : Nat.toDigits 10 a = Nat.toDigits 10 b) : a = b := by
      rw [← digitsValue_toDigits a, equal, digitsValue_toDigits]
    by_cases left : 0 ≤ m
    · by_cases right : 0 ≤ n
      · rw [if_pos left, if_pos right] at chars
        have := digits chars
        omega
      · rw [if_pos left, if_neg right] at chars
        exact absurd (chars ▸ List.mem_cons_self) (minus_not_mem_toDigits m.natAbs)
    · by_cases right : 0 ≤ n
      · rw [if_neg left, if_pos right] at chars
        exact absurd (chars ▸ List.mem_cons_self) (minus_not_mem_toDigits n.natAbs)
      · rw [if_neg left, if_neg right] at chars
        have := digits (List.cons.inj chars).2
        omega
  · rintro rfl
    rfl

end TernLang
