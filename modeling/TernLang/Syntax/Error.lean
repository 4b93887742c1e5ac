import TernLang.Syntax.Token

/-!
What can be wrong with a program text, and the line that reports it.
-/
namespace TernLang

inductive SyntaxError where
  | expected (wanted found : Kind)
  | noOperand (found : Kind)
  | badInteger (digits : String)
  deriving DecidableEq, Repr

def SyntaxError.message : SyntaxError → String
  | expected wanted found =>
    "expected next token to be " ++ wanted.name ++ ", got " ++ found.name ++ " instead"
  | noOperand found => "no prefix parse function for " ++ found.name ++ " found"
  | badInteger digits => "could not parse '" ++ digits ++ "' as integer"

end TernLang
