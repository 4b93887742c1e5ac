import TernLang.Syntax.Printer

/-!
Trees without the tokens of their expression statements. Such a token is the first of the expression
and no part of what the statement says: a pair of parentheses around the expression changes it.
-/
namespace TernLang

mutual

def Expr.unmarked : Expr → Expr
  | .ident i => .ident i
  | .int n => .int n
  | .str s => .str s
  | .bool t b => .bool t b
  | .array t es => .array t (unmarkedExprs es)
  | .hash t ps => .hash t (unmarkedPairs ps)
  | .unary t op r => .unary t op r.unmarked
  | .binary t l op r => .binary t l.unmarked op r.unmarked
  | .cond t c b none => .cond t c.unmarked b.unmarked none
  | .cond t c b (some a) => .cond t c.unmarked b.unmarked (some a.unmarked)
  | .fn t is b => .fn t is b.unmarked
  | .call t f es => .call t f.unmarked (unmarkedExprs es)
  | .index t l i => .index t l.unmarked i.unmarked
  | .loop t b => .loop t b.unmarked
  | .stray s => .stray s

def Stmt.unmarked : Stmt → Stmt
  | .bind t i e => .bind t i e.unmarked
  | .ret t e => .ret t e.unmarked
  | .expr _ e => .expr .eof e.unmarked
  | .block b => .block b.unmarked
  | .load t p => .load t p
  | .exit t n => .exit t n
  | .brk t => .brk t
  | .stray s => .stray s

def Block.unmarked : Block → Block
  | .mk t ss => .mk t (unmarkedStmts ss)

def unmarkedExprs : List Expr → List Expr
  | [] => []
  | e :: es => e.unmarked :: unmarkedExprs es

def unmarkedPairs : List (Expr × Expr) → List (Expr × Expr)
  | [] => []
  | (k, v) :: ps => (k.unmarked, v.unmarked) :: unmarkedPairs ps

def unmarkedStmts : List Stmt → List Stmt
  | [] => []
  | s :: ss => s.unmarked :: unmarkedStmts ss

end

def Program.unmarked (p : Program) : Program := ⟨unmarkedStmts p.statements⟩

mutual

theorem Expr.text_unmarked : ∀ e : Expr, e.unmarked.text = e.text
  | .ident _ | .int _ | .str _ | .bool _ _ | .stray _ => rfl
  | .array _ es => by simp only [Expr.unmarked, Expr.text, exprTexts_unmarked es]
  | .hash _ ps => by simp only [Expr.unmarked, Expr.text, pairTexts_unmarked ps]
  | .unary _ _ r => by simp only [Expr.unmarked, Expr.text, r.text_unmarked]
  | .binary _ l _ r => by simp only [Expr.unmarked, Expr.text, l.text_unmarked, r.text_unmarked]
  | .cond _ c b none => by simp only [Expr.unmarked, Expr.text, c.text_unmarked, b.text_unmarked]
  | .cond _ c b (some a) => by
    simp only [Expr.unmarked, Expr.text, c.text_unmarked, b.text_unmarked, a.text_unmarked]
  | .fn _ _ b => by simp only [Expr.unmarked, Expr.text, b.text_unmarked]
  | .call _ f es => by simp only [Expr.unmarked, Expr.text, f.text_unmarked, exprTexts_unmarked es]
  | .index _ l i => by simp only [Expr.unmarked, Expr.text, l.text_unmarked, i.text_unmarked]
  | .loop _ b => by simp only [Expr.unmarked, Expr.text, b.text_unmarked]

theorem Stmt.text_unmarked : ∀ s : Stmt, s.unmarked.text = s.text
  | .bind _ _ e | .ret _ e | .expr _ e => by simp only [Stmt.unmarked, Stmt.text, e.text_unmarked]
  | .block b => by simp only [Stmt.unmarked, Stmt.text, b.text_unmarked]
  | .load _ _ | .exit _ _ | .brk _ | .stray _ => rfl

theorem Block.text_unmarked : ∀ b : Block, b.unmarked.text = b.text
  | .mk _ ss => by simp only [Block.unmarked, Block.text, stmtTexts_unmarked ss]

theorem exprTexts_unmarked : ∀ es : List Expr, exprTexts (unmarkedExprs es) = exprTexts es
  | [] => rfl
  | e :: es => by simp only [unmarkedExprs, exprTexts, e.text_unmarked, exprTexts_unmarked es]

theorem pairTexts_unmarked :
    ∀ ps : List (Expr × Expr), pairTexts (unmarkedPairs ps) = pairTexts ps
  | [] => rfl
  | (k, v) :: ps => by
    simp only [unmarkedPairs, pairTexts, k.text_unmarked, v.text_unmarked, pairTexts_unmarked ps]

theorem stmtTexts_unmarked : ∀ ss : List Stmt, stmtTexts (unmarkedStmts ss) = stmtTexts ss
  | [] => rfl
  | s :: ss => by simp only [unmarkedStmts, stmtTexts, s.text_unmarked, stmtTexts_unmarked ss]

end

/-- The text of a program does not show the tokens of its expression statements. -/
theorem Program.text_unmarked (p : Program) : p.unmarked.text = p.text := by
  simp only [Program.unmarked, Program.text, stmtTexts_unmarked]

end TernLang
