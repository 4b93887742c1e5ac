import TernLang.Syntax.Token

/-!
Syntax trees. Every node keeps the token it was read from. Operators and names are kept as text, so
that a tree built by hand may hold ones that no program text spells.
-/
namespace TernLang

structure Ident where
  token : Token
  name : String
  deriving DecidableEq, Repr

structure IntLit where
  token : Token
  value : Int
  deriving DecidableEq, Repr

structure StrLit where
  token : Token
  value : String
  deriving DecidableEq, Repr

/-- A node of no known form: it can be built by hand and is refused when evaluated. -/
inductive Stray where
  | node | statement | expression
  deriving DecidableEq, Repr

def Stray.name : Stray → String
  | node => "Node"
  | statement => "Statement"
  | expression => "Expression"

mutual

inductive Expr where
  | ident (i : Ident)
  | int (n : IntLit)
  | str (s : StrLit)
  | bool (token : Token) (value : Bool)
  | array (token : Token) (elements : List Expr)
  | hash (token : Token) (pairs : List (Expr × Expr))
  | unary (token : Token) (operator : String) (right : Expr)
  | binary (token : Token) (left : Expr) (operator : String) (right : Expr)
  | cond (token : Token) (condition : Expr) (consequence : Block) (alternative : Option Block)
  | fn (token : Token) (parameters : List Ident) (body : Block)
  | call (token : Token) (callee : Expr) (arguments : List Expr)
  | index (token : Token) (left index : Expr)
  | loop (token : Token) (body : Block)
  | stray (form : Stray)

inductive Stmt where
  | bind (token : Token) (name : Ident) (value : Expr)
  | ret (token : Token) (value : Expr)
  | expr (token : Token) (value : Expr)
  | block (body : Block)
  | load (token : Token) (path : StrLit)
  | exit (token : Token) (code : IntLit)
  | brk (token : Token)
  | stray (form : Stray)

inductive Block where
  | mk (token : Token) (statements : List Stmt)

end

instance : Inhabited Expr := ⟨.stray .node⟩
instance : Inhabited Stmt := ⟨.stray .node⟩
instance : Inhabited Block := ⟨.mk .eof []⟩

def Block.token : Block → Token
  | .mk t _ => t

def Block.statements : Block → List Stmt
  | .mk _ ss => ss

structure Program where
  statements : List Stmt
  deriving Inhabited

inductive Node where
  | program (p : Program)
  | block (b : Block)
  | stmt (s : Stmt)
  | expr (e : Expr)

def Expr.token : Expr → Token
  | .ident i => i.token
  | .int n => n.token
  | .str s => s.token
  | .bool t _ | .array t _ | .hash t _ | .unary t _ _ | .binary t _ _ _ | .cond t _ _ _
  | .fn t _ _ | .call t _ _ | .index t _ _ | .loop t _ => t
  | .stray _ => .eof

def Stmt.token : Stmt → Token
  | .block b => b.token
  | .bind t _ _ | .ret t _ | .expr t _ | .load t _ | .exit t _ | .brk t => t
  | .stray _ => .eof

def Program.leading (p : Program) : String :=
  match p.statements with
  | [] => ""
  | s :: _ => s.token.literal

end TernLang
