import TernLang.Text.Printable

/-!
Text between quotes, as descriptions of values show it. Apostrophes are the quotes, unless the text
holds an apostrophe and no double quote. The quote in use and the backslash are escaped by a
backslash, characters that do not print by a letter or by their code point in hexadecimal digits.
-/
namespace TernLang.Text

def hexDigits : Nat → Nat → List Char
  | 0, _ => []
  | width + 1, n => hexDigits width (n / 16) ++ [Nat.digitChar (n % 16)]

/-- The shortest of the three escapes by code point that can hold it. -/
def escapePoint (n : Nat) : List Char :=
  if n < 0x100 then '\\' :: 'x' :: hexDigits 2 n
  else if n < 0x10000 then '\\' :: 'u' :: hexDigits 4 n
  else '\\' :: 'U' :: hexDigits 8 n

def escapeChar (quote c : Char) : List Char :=
  if c = quote || c = '\\' then ['\\', c]
  else if c = '\n' then ['\\', 'n']
  else if c = '\r' then ['\\', 'r']
  else if c = '\t' then ['\\', 't']
  else if isPrintable c then [c]
  else escapePoint c.toNat

def chooseQuote (cs : List Char) : Char :=
  if cs.contains '\'' && !cs.contains '"' then '"' else '\''

def quote (s : String) : String :=
  let mark := chooseQuote s.toList
  String.ofList (mark :: (s.toList.flatMap (escapeChar mark) ++ [mark]))

end TernLang.Text
