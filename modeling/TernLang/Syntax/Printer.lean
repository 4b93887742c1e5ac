import TernLang.Syntax.Tree

/-!
The canonical text of a tree. Operators and index brackets are wrapped in parentheses, so the text
shows how the tree is grouped; integers and truth values are written as their tokens were.
-/
namespace TernLang

def Ident.text (i : Ident) : String := i.name

def IntLit.text (n : IntLit) : String := n.token.literal

def StrLit.text (s : StrLit) : String := "\"" ++ s.value ++ "\""

def braced (body : String) : String := "\x7b" ++ body ++ "\x7d"

def Stray.text (s : Stray) : String := "<" ++ s.name ++ ">"

mutual

def Expr.text : Expr → String
  | .ident i => i.text
  | .int n => n.text
  | .str s => s.text
  | .bool t _ => t.literal
  | .array _ es => "[" ++ ", ".intercalate (exprTexts es) ++ "]"
  | .hash _ ps => braced (", ".intercalate (pairTexts ps))
  | .unary _ op r => "(" ++ op ++ r.text ++ ")"
  | .binary _ l op r => "(" ++ l.text ++ " " ++ op ++ " " ++ r.text ++ ")"
  | .cond _ c b none => "if (" ++ c.text ++ ") " ++ braced b.text
  | .cond _ c b (some a) => "if (" ++ c.text ++ ") " ++ braced b.text ++ " else " ++ braced a.text
  | .fn _ ps b => "fn(" ++ ", ".intercalate (ps.map Ident.text) ++ ") " ++ braced b.text
  | .call _ f es => f.text ++ "(" ++ ", ".intercalate (exprTexts es) ++ ")"
  | .index _ l i => "(" ++ l.text ++ "[" ++ i.text ++ "])"
  | .loop _ b => "loop " ++ braced b.text
  | .stray s => s.text

def Stmt.text : Stmt → String
  | .bind _ i e => "let " ++ i.text ++ " = " ++ e.text
  | .ret _ e => "return " ++ e.text
  | .expr _ e => e.text
  | .block b => b.text
  | .load _ p => "import " ++ p.text
  | .exit _ n => "exit " ++ n.text
  | .brk _ => "break"
  | .stray s => s.text

/-- The statements alone; whoever prints a block around them adds the braces. -/
def Block.text : Block → String
  | .mk _ ss => "; ".intercalate (stmtTexts ss)

def exprTexts : List Expr → List String
  | [] => []
  | e :: es => e.text :: exprTexts es

def pairTexts : List (Expr × Expr) → List String
  | [] => []
  | (k, v) :: ps => (k.text ++ ": " ++ v.text) :: pairTexts ps

def stmtTexts : List Stmt → List String
  | [] => []
  | s :: ss => s.text :: stmtTexts ss

end

def Program.text (p : Program) : String := "; ".intercalate (stmtTexts p.statements)

def Node.text : Node → String
  | .program p => p.text
  | .block b => b.text
  | .stmt s => s.text
  | .expr e => e.text

end TernLang
