import TernLang.Proofs.Syntax.Written

/-!
Literals. The integers and the codes of `exit` in a program that has been read are at most 63 bits
wide and not negative.
-/
namespace TernLang

/-- The integer that is written here, if one is, takes 63 bits at most. -/
def Node.ShortLiteral : Node → Prop
  | .expr (.int n) | .stmt (.exit _ n) => 0 ≤ n.value ∧ n.value ≤ 0x7fffffffffffffff
  | _ => True

theorem IsNumeral.short {t : Token} {n : Nat} (h : IsNumeral t n) :
    (0 : Int) ≤ n ∧ (n : Int) ≤ 0x7fffffffffffffff := by
  obtain ⟨-, -, -, bound⟩ := h
  omega

theorem Derives.short {phrase : Phrase} {ts : List Token} (h : Derives phrase ts) :
    phrase.Here Node.ShortLiteral := by
  induction h with
  | int numeral => exact numeral.short
  | exit word code => exact code.short
  | tighter low h ih => exact ih
  | plain h ih | atom h ih => exact ih
  | grouped opening h closing ih => exact ih
  | _ => trivial

theorem parse_short (text : String) :
    (Node.program (parse text).program).Throughout Node.ShortLiteral :=
  parse_throughout text (fun h _ => h.short) trivial

end TernLang
