/-!
Tokens of Tern text. A token is a kind together with the text it was read from; `Kind.name` is the
spelling used in messages, and for operators and delimiters also in programs.
-/
namespace TernLang

inductive Kind where
  | illegal | eof
  | ident | int | string
  | assign | plus | minus | bang | asterisk | slash | percent
  | lt | gt | ltEq | gtEq | eq | notEq | and | or
  | comma | semicolon | colon | lparen | rparen | lbrace | rbrace | lbracket | rbracket
  | fnWord | letWord | trueWord | falseWord | ifWord | elseWord | returnWord | importWord
  | loopWord | breakWord | exitWord
  deriving DecidableEq, Repr

namespace Kind

def name : Kind → String
  | illegal => "ILLEGAL"
  | eof => "EOF"
  | ident => "IDENT"
  | int => "INT"
  | string => "STRING"
  | assign => "="
  | plus => "+"
  | minus => "-"
  | bang => "!"
  | asterisk => "*"
  | slash => "/"
  | percent => "%"
  | lt => "<"
  | gt => ">"
  | ltEq => "<="
  | gtEq => ">="
  | eq => "=="
  | notEq => "!="
  | and => "&&"
  | or => "||"
  | comma => ","
  | semicolon => ";"
  | colon => ":"
  | lparen => "("
  | rparen => ")"
  | lbrace => "\x7b"
  | rbrace => "\x7d"
  | lbracket => "["
  | rbracket => "]"
  | fnWord => "FUNCTION"
  | letWord => "LET"
  | trueWord => "TRUE"
  | falseWord => "FALSE"
  | ifWord => "IF"
  | elseWord => "ELSE"
  | returnWord => "RETURN"
  | importWord => "IMPORT"
  | loopWord => "LOOP"
  | breakWord => "BREAK"
  | exitWord => "EXIT"

def ofPair? : Char → Char → Option Kind
  | '=', '=' => some eq
  | '!', '=' => some notEq
  | '&', '&' => some and
  | '|', '|' => some or
  | '<', '=' => some ltEq
  | '>', '=' => some gtEq
  | _, _ => none

def ofChar? : Char → Option Kind
  | '=' => some assign
  | '+' => some plus
  | '-' => some minus
  | '!' => some bang
  | '*' => some asterisk
  | '/' => some slash
  | '%' => some percent
  | '<' => some lt
  | '>' => some gt
  | ',' => some comma
  | ';' => some semicolon
  | ':' => some colon
  | '(' => some lparen
  | ')' => some rparen
  | '\x7b' => some lbrace
  | '\x7d' => some rbrace
  | '[' => some lbracket
  | ']' => some rbracket
  | _ => none

def ofWord : String → Kind
  | "fn" => fnWord
  | "let" => letWord
  | "true" => trueWord
  | "false" => falseWord
  | "if" => ifWord
  | "else" => elseWord
  | "return" => returnWord
  | "import" => importWord
  | "loop" => loopWord
  | "break" => breakWord
  | "exit" => exitWord
  | _ => ident

end Kind

structure Token where
  kind : Kind
  literal : String
  deriving DecidableEq, Repr

namespace Token

/-- What follows the last token of a text, however often one asks. -/
def eof : Token := ⟨.eof, ""⟩

def symbol (k : Kind) : Token := ⟨k, k.name⟩

/-- The text that reads as this token; the literal of a string leaves out its quotes. -/
def spelling (t : Token) : String :=
  if t.kind = .string then "\"" ++ t.literal ++ "\"" else t.literal

end Token
end TernLang
