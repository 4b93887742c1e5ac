import TernLang.Failure

/-!
Operators on values. Both sides of a binary operator have to be of one type before the operator is
looked up. Integers are 64 bits wide and wrap; division goes toward zero and a remainder has the
sign of the dividend.
-/
namespace TernLang

/-- The integer of 64 bits, two's complement, that agrees with `n` in its low bits. -/
def wrap (n : Int) : Int := (n + 0x8000000000000000) % 0x10000000000000000 - 0x8000000000000000

theorem wrap_bounds (n : Int) :
    -0x8000000000000000 ≤ wrap n ∧ wrap n < 0x8000000000000000 := by
  unfold wrap
  omega

theorem wrap_emod (n : Int) : wrap n % 0x10000000000000000 = n % 0x10000000000000000 := by
  unfold wrap
  omega

namespace Operator

def quotient (a b : Int) : Int :=
  let q : Int := a.natAbs / b.natAbs
  if 0 ≤ a ↔ 0 ≤ b then q else -q

def remainder (a b : Int) : Int := a - b * quotient a b

def integer? : String → Int → Int → Option Value
  | "+", a, b => some (.int (wrap (a + b)))
  | "-", a, b => some (.int (wrap (a - b)))
  | "*", a, b => some (.int (wrap (a * b)))
  | "/", a, b => some (if b = 0 then .fail .divisionByZero else .int (wrap (quotient a b)))
  | "%", a, b => some (if b = 0 then .fail .divisionByZero else .int (wrap (remainder a b)))
  | "<", a, b => some (.bool (a < b))
  | "<=", a, b => some (.bool (a ≤ b))
  | ">", a, b => some (.bool (b < a))
  | ">=", a, b => some (.bool (b ≤ a))
  | "==", a, b => some (.bool (a = b))
  | "!=", a, b => some (.bool (a ≠ b))
  | _, _, _ => none

def string? : String → String → String → Option Value
  | "+", s, t => some (.str (s ++ t))
  | _, _, _ => none

def boolean? : String → Bool → Bool → Option Value
  | "==", a, b => some (.bool (a = b))
  | "!=", a, b => some (.bool (a ≠ b))
  | "&&", a, b => some (.bool (a && b))
  | "||", a, b => some (.bool (a || b))
  | _, _, _ => none

def binary? (op : String) : Value → Value → Option Value
  | .int a, .int b => integer? op a b
  | .str s, .str t => string? op s t
  | .bool a, .bool b => boolean? op a b
  | _, _ => none

def binary (op : String) (left right : Value) : Value :=
  if left.tag = right.tag then
    (binary? op left right).getD (.fail (.noBinary left.tag op right.tag))
  else .fail (.typeMismatch left.tag op right.tag)

/-- Zero is the only integer whose negation is true, though a condition takes zero for true. -/
def unary (op : String) (right : Value) : Value :=
  match op, right with
  | "!", .bool b => .bool !b
  | "!", .int n => .bool (n = 0)
  | "-", .int n => .int (wrap (-n))
  | _, _ => .fail (.noUnary op right.tag)

end Operator
end TernLang
