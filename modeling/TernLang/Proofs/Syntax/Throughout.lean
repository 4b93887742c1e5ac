import TernLang.Syntax.Tree

/-!
What nodes are put together from, and properties that hold throughout a node: of it and of all that
is written in it, however deep and in whatever function.
-/
namespace TernLang

def Expr.parts : Expr → List Node
  | .ident _ | .int _ | .str _ | .bool _ _ | .stray _ => []
  | .array _ es => es.map .expr
  | .hash _ ps => ps.flatMap fun p => [.expr p.1, .expr p.2]
  | .unary _ _ r => [.expr r]
  | .binary _ l _ r => [.expr l, .expr r]
  | .cond _ c b a => .expr c :: .block b :: a.toList.map .block
  | .fn _ _ b => [.block b]
  | .call _ f es => .expr f :: es.map .expr
  | .index _ l n => [.expr l, .expr n]
  | .loop _ b => [.block b]

def Block.parts (b : Block) : List Node := b.statements.map .stmt

def Stmt.parts : Stmt → List Node
  | .bind _ _ e | .ret _ e | .expr _ e => [.expr e]
  | .block b => b.parts
  | .load _ _ | .exit _ _ | .brk _ | .stray _ => []

namespace Node

def parts : Node → List Node
  | .program p => p.statements.map .stmt
  | .block b => b.parts
  | .stmt s => s.parts
  | .expr e => e.parts

inductive Throughout (P : Node → Prop) : Node → Prop where
  | intro {n : Node} (here : P n) (parts : ∀ p ∈ n.parts, Throughout P p) : Throughout P n

/-- The node is written in another, or is the other itself. -/
inductive Occurs (n : Node) : Node → Prop where
  | here : Occurs n n
  | part {m p : Node} (inside : p ∈ m.parts) (h : Occurs n p) : Occurs n m

variable {P : Node → Prop} {n p : Node}

theorem Throughout.here (h : n.Throughout P) : P n := by
  cases h with
  | intro here parts => exact here

theorem Throughout.part (h : n.Throughout P) (inside : p ∈ n.parts) : p.Throughout P := by
  cases h with
  | intro here parts => exact parts p inside

theorem Throughout.both {Q : Node → Prop} (h : n.Throughout P) (other : n.Throughout Q) :
    n.Throughout fun p => P p ∧ Q p := by
  induction h with
  | intro here parts ih =>
    constructor
    · exact ⟨here, other.here⟩
    · exact fun p inside => ih p inside (other.part inside)

theorem Throughout.of_occurs {m : Node} (h : m.Throughout P) (occurs : n.Occurs m) : P n := by
  induction occurs with
  | here => exact h.here
  | part inside _ ih => exact ih (h.part inside)

theorem throughout_leaf (here : P n) (parts : n.parts = []) : n.Throughout P := by
  constructor
  · exact here
  · intro p inside
    rw [parts] at inside
    cases inside

theorem throughout_one (here : P n) (parts : n.parts = [p]) (h : p.Throughout P) :
    n.Throughout P := by
  constructor
  · exact here
  · intro q inside
    rw [parts] at inside
    exact List.mem_singleton.mp inside ▸ h

theorem throughout_two {q : Node} (here : P n) (parts : n.parts = [p, q]) (h : p.Throughout P)
    (other : q.Throughout P) : n.Throughout P := by
  constructor
  · exact here
  · rw [parts]
    exact List.forall_mem_cons.mpr ⟨h, List.forall_mem_singleton.mpr other⟩

end Node
end TernLang
