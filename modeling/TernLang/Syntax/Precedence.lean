import TernLang.Syntax.Token

/-!
How tightly operators bind. A token that continues no expression has the lowest precedence, so an
expression ends before it.
-/
namespace TernLang

abbrev Precedence := Nat

namespace Precedence

def lowest : Precedence := 0
def unary : Precedence := 7

end Precedence

/-- All binary operators associate to the left; a call or an index binds tighter than any. -/
def Kind.precedence : Kind → Nat
  | .or => 1
  | .and => 2
  | .eq | .notEq => 3
  | .lt | .ltEq | .gt | .gtEq => 4
  | .plus | .minus => 5
  | .asterisk | .slash | .percent => 6
  | .lparen => 8
  | .lbracket => 9
  | _ => Precedence.lowest

end TernLang
