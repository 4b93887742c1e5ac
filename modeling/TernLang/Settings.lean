import TernLang.Files.Path
import TernLang.Text.Blank
import TernLang.Text.Digit

/-!
Settings, taken from three variables that may be unset: the directories that modules are looked for
in, the least level of messages that are shown, and the limit on nested evaluation.
-/
namespace TernLang

structure Settings where
  roots : Option String
  level : Option String
  limit : Option String
  deriving Inhabited

namespace Settings

def unset : Settings := ⟨none, none, none⟩

/-- Directories are given between colons. Blanks around one do not count, nor do empty ones, but a
variable that is set to nothing counts as unset. -/
def moduleRoots (s : Settings) : List Path :=
  match s.roots with
  | none | some "" => [.of "."]
  | some text => (((Text.split ':' text).map Text.trim).filter (· ≠ "")).map Path.of

/-- The capital of a letter, as far as a level's name can tell: two letters outside the ASCII range
have a capital inside it. -/
def capital (c : Char) : Char :=
  if c = '\u0131' then 'I' else if c = '\u017f' then 'S' else c.toUpper

def defaultLogLevel : Nat := 30

def levelOf? : String → Option Nat
  | "NOTSET" => some 0
  | "DEBUG" => some 10
  | "INFO" => some 20
  | "WARN" | "WARNING" => some 30
  | "ERROR" => some 40
  | "CRITICAL" | "FATAL" => some 50
  | _ => none

def logLevel (s : Settings) : Nat :=
  match s.level with
  | none => defaultLogLevel
  | some text => (levelOf? ((Text.trim text).map capital)).getD defaultLogLevel

def defaultRecursionLimit : Nat := 5000

def maxLimitDigits : Nat := 4300

/-- A text that is made of digits has to be a numeral; any other text counts as unset. -/
def recursionLimit? (s : Settings) : Option Nat :=
  let digits := (Text.trim (s.limit.getD "")).toList
  if digits.isEmpty || !digits.all Text.isAnyDigit then some defaultRecursionLimit
  else if maxLimitDigits < digits.length then none
  else Text.numeralValue? digits

end Settings
end TernLang
