import TernLang.Syntax.Printer
import TernLang.Text.Quoted
import TernLang.Value.Basic

/-!
Two texts of a value: `text` is what a program prints, `describe` is the one used where a value is
named in a message, which tells apart values that print alike.
-/
namespace TernLang

def boolText (b : Bool) : String := if b then "true" else "false"

def Key.text : Key → String
  | int n => toString n
  | bool b => boolText b
  | str s => s

/-- What tells keys apart: the type and the text, so that `1` and `"1"` are two keys. -/
def Key.tagged : Key → TypeTag × String
  | int n => (.integer, toString n)
  | bool b => (.boolean, boolText b)
  | str s => (.string, s)

def functionText (parameters : List Ident) (body : Block) : String :=
  "fn(" ++ ", ".intercalate (parameters.map Ident.text) ++ ") " ++
    braced ("\n" ++ body.text ++ "\n")

mutual

def Value.text : Value → String
  | .int n => toString n
  | .bool b => boolText b
  | .str s => s
  | .null => "null"
  | .array vs => "[" ++ ", ".intercalate (valueTexts vs) ++ "]"
  | .hash ps => braced (", ".intercalate (entryTexts ps))
  | .fn ps b _ => functionText ps b
  | .builtin b => "builtin function " ++ b.name
  | .ret v => v.text
  | .brk => "break"
  | .err m => "ERROR: " ++ m

def valueTexts : List Value → List String
  | [] => []
  | v :: vs => v.text :: valueTexts vs

def entryTexts : List (Key × Value) → List String
  | [] => []
  | (k, v) :: ps => (k.text ++ ": " ++ v.text) :: entryTexts ps

end

def describeBool (b : Bool) : String := "Boolean(value=" ++ (if b then "True" else "False") ++ ")"

def Key.describe : Key → String
  | int n => "Integer(value=" ++ toString n ++ ")"
  | bool b => describeBool b
  | str s => "String(value=" ++ Text.quote s ++ ")"

def describeEntry (k : Key) (value : String) : String :=
  "HashKey(type='" ++ k.tagged.1.name ++ "', key=" ++ Text.quote k.tagged.2 ++ "): HashPair(key=" ++
    k.describe ++ ", value=" ++ value ++ ")"

mutual

def Value.describe : Value → String
  | .int n => "Integer(value=" ++ toString n ++ ")"
  | .bool b => describeBool b
  | .str s => "String(value=" ++ Text.quote s ++ ")"
  | .null => "NULL"
  | .array vs => "Array(elements=[" ++ ", ".intercalate (describeAll vs) ++ "])"
  | .hash ps => "Hash(pairs=" ++ braced (", ".intercalate (describeEntries ps)) ++ ")"
  | .fn ps b _ => "<Function " ++ functionText ps b ++ ">"
  | .builtin b => "<Builtin " ++ b.name ++ ">"
  | .ret v => "ReturnValue(value=" ++ v.describe ++ ")"
  | .brk => "BREAK"
  | .err m => "Error(message=" ++ Text.quote m ++ ")"

def describeAll : List Value → List String
  | [] => []
  | v :: vs => v.describe :: describeAll vs

def describeEntries : List (Key × Value) → List String
  | [] => []
  | (k, v) :: ps => describeEntry k v.describe :: describeEntries ps

end

end TernLang
