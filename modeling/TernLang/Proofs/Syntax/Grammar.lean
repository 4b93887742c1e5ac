import TernLang.Syntax.Parser

/-!
The grammar of Tern programs. A derivation relates a list of tokens to a phrase: a nonterminal
together with the tree that the tokens stand for. Nothing here refers to the parser.
-/
namespace TernLang

namespace Kind

/-- The binary operators from the loosest level to the tightest, all of them left-associative. -/
def ladder : Nat → List Kind
  | 0 => [.or]
  | 1 => [.and]
  | 2 => [.eq, .notEq]
  | 3 => [.lt, .ltEq, .gt, .gtEq]
  | 4 => [.plus, .minus]
  | 5 => [.asterisk, .slash, .percent]
  | _ => []

def Continues (k : Kind) : Prop := (∃ level, k ∈ ladder level) ∨ k = .lparen ∨ k = .lbracket

end Kind

def Stmt.EndsInExpr : Stmt → Prop
  | .bind _ _ _ | .ret _ _ | .expr _ _ => True
  | _ => False

/-- What stands for an integer: at most 4300 digits, and a value of at most 63 bits. -/
def IsNumeral (t : Token) (n : Nat) : Prop :=
  t.kind = .int ∧ t.literal.length ≤ 4300 ∧ digitsValue t.literal.toList = n ∧
    n ≤ 0x7fffffffffffffff

/-- The nonterminals, each with the tree that its tokens stand for. -/
inductive Phrase where
  /-- An expression whose loosest operator is at this level of the ladder or a tighter one. The
  level after the last is that of the unary operators. -/
  | expr (level : Nat) (e : Expr)
  | applied (e : Expr)
  | primary (e : Expr)
  | items (es : List Expr)
  | moreItems (es : List Expr)
  | pairs (ps : List (Expr × Expr))
  | names (is : List Ident)
  | moreNames (is : List Ident)
  | block (b : Block)
  /-- A statement without the semicolon that may end it. -/
  | sentence (s : Stmt)
  | statements (ss : List Stmt)

/-- Tokens that a phrase can be read from. -/
inductive Derives : Phrase → List Token → Prop where
  | binary {level l r ts us} {t : Token} (left : Derives (.expr level l) ts)
      (op : t.kind ∈ Kind.ladder level) (right : Derives (.expr (level + 1) r) us) :
      Derives (.expr level (.binary t l t.literal r)) (ts ++ t :: us)
  | tighter {level e ts} (low : level < 6) (h : Derives (.expr (level + 1) e) ts) :
      Derives (.expr level e) ts
  | unary {r ts} {t : Token} (op : t.kind = .bang ∨ t.kind = .minus)
      (right : Derives (.expr 6 r) ts) : Derives (.expr 6 (.unary t t.literal r)) (t :: ts)
  | plain {e ts} (h : Derives (.applied e) ts) : Derives (.expr 6 e) ts
  | atom {e ts} (h : Derives (.primary e) ts) : Derives (.applied e) ts
  | call {f es ts us} {t u : Token} (callee : Derives (.applied f) ts) (opening : t.kind = .lparen)
      (arguments : Derives (.items es) us) (closing : u.kind = .rparen) :
      Derives (.applied (.call t f es)) (ts ++ t :: us ++ [u])
  | index {l i ts us} {t u : Token} (left : Derives (.applied l) ts) (opening : t.kind = .lbracket)
      (place : Derives (.expr 0 i) us) (closing : u.kind = .rbracket) :
      Derives (.applied (.index t l i)) (ts ++ t :: us ++ [u])
  | ident {t : Token} (word : t.kind = .ident) : Derives (.primary (.ident ⟨t, t.literal⟩)) [t]
  | int {t : Token} {n : Nat} (numeral : IsNumeral t n) : Derives (.primary (.int ⟨t, n⟩)) [t]
  | str {t : Token} (string : t.kind = .string) : Derives (.primary (.str ⟨t, t.literal⟩)) [t]
  | yes {t : Token} (word : t.kind = .trueWord) : Derives (.primary (.bool t true)) [t]
  | no {t : Token} (word : t.kind = .falseWord) : Derives (.primary (.bool t false)) [t]
  | grouped {e ts} {t u : Token} (opening : t.kind = .lparen) (h : Derives (.expr 0 e) ts)
      (closing : u.kind = .rparen) : Derives (.primary e) (t :: ts ++ [u])
  | array {es ts} {t u : Token} (opening : t.kind = .lbracket) (h : Derives (.items es) ts)
      (closing : u.kind = .rbracket) : Derives (.primary (.array t es)) (t :: ts ++ [u])
  | hash {ps ts} {t u : Token} (opening : t.kind = .lbrace) (h : Derives (.pairs ps) ts)
      (closing : u.kind = .rbrace) : Derives (.primary (.hash t ps)) (t :: ts ++ [u])
  | cond {c b ts us} {t o p : Token} (word : t.kind = .ifWord) (opening : o.kind = .lparen)
      (condition : Derives (.expr 0 c) ts) (closing : p.kind = .rparen)
      (consequence : Derives (.block b) us) :
      Derives (.primary (.cond t c b none)) (t :: o :: ts ++ p :: us)
  | condElse {c b a ts us vs} {t o p w : Token} (word : t.kind = .ifWord)
      (opening : o.kind = .lparen)
      (condition : Derives (.expr 0 c) ts) (closing : p.kind = .rparen)
      (consequence : Derives (.block b) us) (other : w.kind = .elseWord)
      (alternative : Derives (.block a) vs) :
      Derives (.primary (.cond t c b (some a))) (t :: o :: ts ++ p :: us ++ w :: vs)
  | fn {is b ts us} {t o p : Token} (word : t.kind = .fnWord) (opening : o.kind = .lparen)
      (parameters : Derives (.names is) ts) (closing : p.kind = .rparen)
      (body : Derives (.block b) us) : Derives (.primary (.fn t is b)) (t :: o :: ts ++ p :: us)
  | loop {b ts} {t : Token} (word : t.kind = .loopWord) (body : Derives (.block b) ts) :
      Derives (.primary (.loop t b)) (t :: ts)
  | noItems : Derives (.items []) []
  | someItems {e es ts us} (first : Derives (.expr 0 e) ts) (rest : Derives (.moreItems es) us) :
      Derives (.items (e :: es)) (ts ++ us)
  | lastItem : Derives (.moreItems []) []
  | nextItem {e es ts us} {t : Token} (comma : t.kind = .comma) (first : Derives (.expr 0 e) ts)
      (rest : Derives (.moreItems es) us) : Derives (.moreItems (e :: es)) (t :: ts ++ us)
  | noPairs : Derives (.pairs []) []
  | lastPair {k v ts us} {c : Token} (key : Derives (.expr 0 k) ts) (colon : c.kind = .colon)
      (value : Derives (.expr 0 v) us) : Derives (.pairs [(k, v)]) (ts ++ c :: us)
  /-- No pair has to follow the comma. -/
  | nextPair {k v ps ts us vs} {c m : Token} (key : Derives (.expr 0 k) ts)
      (colon : c.kind = .colon)
      (value : Derives (.expr 0 v) us) (comma : m.kind = .comma) (rest : Derives (.pairs ps) vs) :
      Derives (.pairs ((k, v) :: ps)) (ts ++ c :: us ++ m :: vs)
  | noNames : Derives (.names []) []
  | someNames {is ts} {t : Token} (word : t.kind = .ident) (rest : Derives (.moreNames is) ts) :
      Derives (.names (⟨t, t.literal⟩ :: is)) (t :: ts)
  | lastName : Derives (.moreNames []) []
  | nextName {is ts} {m t : Token} (comma : m.kind = .comma) (word : t.kind = .ident)
      (rest : Derives (.moreNames is) ts) :
      Derives (.moreNames (⟨t, t.literal⟩ :: is)) (m :: t :: ts)
  | block {ss ts} {t u : Token} (opening : t.kind = .lbrace) (h : Derives (.statements ss) ts)
      (closing : u.kind = .rbrace) : Derives (.block (.mk t ss)) (t :: ts ++ [u])
  | bind {e ts} {t i a : Token} (word : t.kind = .letWord) (name : i.kind = .ident)
      (assign : a.kind = .assign) (value : Derives (.expr 0 e) ts) :
      Derives (.sentence (.bind t ⟨i, i.literal⟩ e)) (t :: i :: a :: ts)
  | ret {e ts} {t : Token} (word : t.kind = .returnWord) (value : Derives (.expr 0 e) ts) :
      Derives (.sentence (.ret t e)) (t :: ts)
  | load {t p : Token} (word : t.kind = .importWord) (path : p.kind = .string) :
      Derives (.sentence (.load t ⟨p, p.literal⟩)) [t, p]
  | exit {t c : Token} {n : Nat} (word : t.kind = .exitWord) (code : IsNumeral c n) :
      Derives (.sentence (.exit t ⟨c, n⟩)) [t, c]
  | brk {t : Token} (word : t.kind = .breakWord) : Derives (.sentence (.brk t)) [t]
  | expr {e ts} {t : Token} (h : Derives (.expr 0 e) (t :: ts)) :
      Derives (.sentence (.expr t e)) (t :: ts)
  | noStatements : Derives (.statements []) []
  | closed {s ss ts us} {t : Token} (first : Derives (.sentence s) ts) (stop : t.kind = .semicolon)
      (rest : Derives (.statements ss) us) : Derives (.statements (s :: ss)) (ts ++ t :: us)
  /-- Without a semicolon between them, a statement may follow an expression only if it cannot be
  taken for a continuation of it. -/
  | joined {s ss ts us} (first : Derives (.sentence s) ts) (rest : Derives (.statements ss) us)
      (apart : s.EndsInExpr → ∀ t ∈ us.head?, ¬ t.kind.Continues) :
      Derives (.statements (s :: ss)) (ts ++ us)

def Program.DerivedFrom (p : Program) (ts : List Token) : Prop :=
  Derives (.statements p.statements) ts

end TernLang
