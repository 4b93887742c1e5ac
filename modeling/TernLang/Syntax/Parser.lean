import TernLang.Syntax.Cursor
import TernLang.Syntax.Lexeme
import TernLang.Syntax.Precedence
import TernLang.Syntax.Tree

/-!
From tokens to trees. Statements are read by their first word, expressions by climbing precedences.
A parser is entered with the cursor on the first token of what it reads and leaves it on the last.

The parts that read one form take the parsers of its constituents as arguments, wherever those read;
only `expression`, `statement` and `block` are recursive, on a depth that the number of tokens
bounds. A text is never refused as a whole: a broken statement is reported and skipped, and reading
goes on after it.
-/
namespace TernLang

def Integer.max : Nat := 0x7fffffffffffffff

/-- The longest numeral that is read as an integer, leading zeros included. -/
def Integer.maxDigits : Nat := 4300

def digitsValue (digits : List Char) : Nat :=
  digits.foldl (fun n c => 10 * n + (c.toNat - '0'.toNat)) 0

def integerOf? (digits : String) : Option Nat :=
  if digits.length ≤ Integer.maxDigits ∧ digitsValue digits.toList ≤ Integer.max then
    some (digitsValue digits.toList)
  else none

namespace Parse

def ident : Parse Ident := do
  let t ← token
  pure ⟨t, t.literal⟩

def integer : Parse IntLit := do
  let t ← token
  match integerOf? t.literal with
  | some n => pure ⟨t, n⟩
  | none => fail (.badInteger t.literal)

def string : Parse StrLit := do
  let t ← token
  pure ⟨t, t.literal⟩

variable {m : Type → Type} [Monad m] [MonadParse m]

def moreItems (expr : m Expr) : Nat → m (List Expr)
  | 0 => MonadParse.stuck
  | n + 1 => do
    let next ← nextKind
    if next = .comma then
      advance
      advance
      let e ← expr
      let es ← moreItems expr n
      pure (e :: es)
    else pure []

/-- Expressions between commas, up to a closing token that becomes the current one. -/
def items (expr : m Expr) (close : Kind) (n : Nat) : m (List Expr) := do
  let next ← nextKind
  if next = close then
    advance
    pure []
  else
    advance
    let e ← expr
    let es ← moreItems expr n
    expect close
    pure (e :: es)

def moreParameters : Nat → m (List Ident)
  | 0 => MonadParse.stuck
  | n + 1 => do
    let next ← nextKind
    if next = .comma then
      advance
      expect .ident
      let i ← ident
      let is ← moreParameters n
      pure (i :: is)
    else pure []

def parameters (n : Nat) : m (List Ident) := do
  let next ← nextKind
  if next = .rparen then
    advance
    pure []
  else
    expect .ident
    let i ← ident
    let is ← moreParameters n
    expect .rparen
    pure (i :: is)

/-- Pairs up to the closing brace, which stays the next token. One comma may stand before it. -/
def pairs (expr : m Expr) : Nat → m (List (Expr × Expr))
  | 0 => MonadParse.stuck
  | n + 1 => do
    let next ← nextKind
    if next = .rbrace then pure []
    else
      advance
      let key ← expr
      expect .colon
      advance
      let value ← expr
      let after ← nextKind
      if after = .rbrace then pure [(key, value)]
      else
        expect .comma
        let rest ← pairs expr n
        pure ((key, value) :: rest)

def grouped (expr : m Expr) : m Expr := do
  advance
  let e ← expr
  expect .rparen
  pure e

def unary (right : m Expr) : m Expr := do
  let t ← token
  advance
  let r ← right
  pure (.unary t t.literal r)

def array (expr : m Expr) (n : Nat) : m Expr := do
  let t ← token
  let es ← items expr .rbracket n
  pure (.array t es)

def hash (expr : m Expr) (n : Nat) : m Expr := do
  let t ← token
  let ps ← pairs expr n
  expect .rbrace
  pure (.hash t ps)

def alternative (block : m Block) : m (Option Block) := do
  let next ← nextKind
  if next = .elseWord then
    advance
    expect .lbrace
    let b ← block
    pure (some b)
  else pure none

def cond (expr : m Expr) (block : m Block) : m Expr := do
  let t ← token
  expect .lparen
  advance
  let c ← expr
  expect .rparen
  expect .lbrace
  let b ← block
  let a ← alternative block
  pure (.cond t c b a)

def function (block : m Block) (n : Nat) : m Expr := do
  let t ← token
  expect .lparen
  let ps ← parameters n
  expect .lbrace
  let b ← block
  pure (.fn t ps b)

def loop (block : m Block) : m Expr := do
  let t ← token
  expect .lbrace
  let b ← block
  pure (.loop t b)

def operand (expr : Precedence → m Expr) (block : m Block) (n : Nat) : m Expr := do
  let t ← token
  match t.kind with
  | .ident => Expr.ident <$> ident
  | .int => Expr.int <$> integer
  | .string => Expr.str <$> string
  | .trueWord => pure (.bool t true)
  | .falseWord => pure (.bool t false)
  | .bang | .minus => unary (expr .unary)
  | .lparen => grouped (expr .lowest)
  | .ifWord => cond (expr .lowest) block
  | .fnWord => function block n
  | .lbracket => array (expr .lowest) n
  | .lbrace => hash (expr .lowest) n
  | .loopWord => loop block
  | k => fail (.noOperand k)

def binary (expr : Precedence → m Expr) (left : Expr) : m Expr := do
  let t ← token
  advance
  let right ← expr t.kind.precedence
  pure (.binary t left t.literal right)

def call (expr : m Expr) (callee : Expr) (n : Nat) : m Expr := do
  let t ← token
  let es ← items expr .rparen n
  pure (.call t callee es)

def index (expr : m Expr) (left : Expr) : m Expr := do
  let t ← token
  advance
  let i ← expr
  expect .rbracket
  pure (.index t left i)

def extend (expr : Precedence → m Expr) (left : Expr) (n : Nat) : m Expr := do
  let t ← token
  match t.kind with
  | .lparen => call (expr .lowest) left n
  | .lbracket => index (expr .lowest) left
  | _ => binary expr left

/-- Continues an expression with every operator that binds tighter than `p`. The right side of an
operator is read at the operator's own precedence, so equal ones group to the left. -/
def climb (expr : Precedence → m Expr) (p : Precedence) : Nat → Expr → m Expr
  | 0, _ => MonadParse.stuck
  | n + 1, left => do
    let next ← nextKind
    if p < next.precedence then
      advance
      let e ← extend expr left n
      climb expr p n e
    else pure left

def bindStatement (expr : m Expr) : m Stmt := do
  let t ← token
  expect .ident
  let name ← ident
  expect .assign
  advance
  let value ← expr
  skip .semicolon
  pure (.bind t name value)

def returnStatement (expr : m Expr) : m Stmt := do
  let t ← token
  advance
  let value ← expr
  skip .semicolon
  pure (.ret t value)

def importStatement : m Stmt := do
  let t ← token
  expect .string
  let path ← string
  skip .semicolon
  pure (.load t path)

def exitStatement : m Stmt := do
  let t ← token
  expect .int
  let code ← integer
  skip .semicolon
  pure (.exit t code)

def breakStatement : m Stmt := do
  let t ← token
  skip .semicolon
  pure (.brk t)

def expressionStatement (expr : m Expr) : m Stmt := do
  let t ← token
  let e ← expr
  skip .semicolon
  pure (.expr t e)

def statementForm (expr : m Expr) : m Stmt := do
  let t ← token
  match t.kind with
  | .letWord => bindStatement expr
  | .returnWord => returnStatement expr
  | .importWord => importStatement
  | .exitWord => exitStatement
  | .breakWord => breakStatement
  | _ => expressionStatement expr

/-- The statements of a block up to its closing brace. A broken statement is left out; it may have
run into the closing brace itself. -/
def statements (stmt : m Stmt) : Nat → m (List Stmt)
  | 0 => MonadParse.stuck
  | n + 1 => do
    let t ← token
    if t.kind = .rbrace then pure []
    else if t.kind = .eof then fail (.expected .rbrace .eof)
    else
      let s ← MonadParse.attempt stmt
      let ended ← closesBlock
      if s.isNone && ended then pure []
      else
        advance
        let ss ← statements stmt n
        pure (s.toList ++ ss)

mutual

def expression : Nat → Precedence → Parse Expr
  | 0, _ => stuck
  | n + 1, p => do
    let left ← operand (expression n) (block n) n
    climb (expression n) p n left

def statement : Nat → Parse Stmt
  | 0 => recovering stuck
  | n + 1 => recovering (statementForm (expression n .lowest))

def block : Nat → Parse Block
  | 0 => stuck
  | n + 1 => do
    let t ← token
    let ss ← inBlock (do advance; statements (statement n) n)
    pure (.mk t ss)

end

end Parse

/-- Reads statements to the end of the text; `depth` bounds their nesting and their number. -/
def topLevel (depth : Nat) : Nat → Cursor → List Stmt × Cursor
  | 0, c => ([], c)
  | n + 1, c =>
    if c.current.kind = .eof then ([], c)
    else
      match Parse.statement depth c with
      | (s, c) =>
        match topLevel depth n c.advance with
        | (ss, c) => (s.toList ++ ss, c)

structure Parsed where
  program : Program
  errors : List SyntaxError

def parseDepth (ts : List Token) : Nat := 8 * (ts.length + 2)

def parseTokens (ts : List Token) : List Stmt × Cursor :=
  topLevel (parseDepth ts) (parseDepth ts) (.start ts)

def parse (text : String) : Parsed :=
  match parseTokens (tokens text.toList) with
  | (ss, c) => ⟨⟨ss⟩, c.errors⟩

end TernLang
