import TernLang.Syntax.Error

/-!
A position in a list of tokens and the parsers that move it. A parser answers a result or nothing,
and in both cases the cursor it left; a parser that answers nothing has put the reason into the
cursor's errors. Sequencing stops at the first parser that answers nothing.
-/
namespace TernLang

def Kind.braceStep : Kind → Int
  | .lbrace => 1
  | .rbrace => -1
  | _ => 0

structure Cursor where
  current : Token
  ahead : List Token
  /-- Opening less closing braces, up to and including the current token. -/
  braces : Int
  /-- The value of `braces` at the opening brace of each open block, innermost first. -/
  blocks : List Int
  errors : List SyntaxError
  dropped : Nat

namespace Cursor

def peek (c : Cursor) : Token := c.ahead.headD .eof

def start (tokens : List Token) : Cursor :=
  let first := tokens.headD .eof
  ⟨first, tokens.tail, first.kind.braceStep, [], [], 0⟩

def advance (c : Cursor) : Cursor :=
  { c with
    current := c.peek
    ahead := c.ahead.tail
    braces := c.braces + c.peek.kind.braceStep }

def report (c : Cursor) (e : SyntaxError) : Cursor := { c with errors := c.errors ++ [e] }

def enterBlock (c : Cursor) : Cursor := { c with blocks := c.braces :: c.blocks }

def leaveBlock (c : Cursor) : Cursor := { c with blocks := c.blocks.tail }

def closesBlock (c : Cursor) : Bool :=
  match c.blocks with
  | [] => false
  | depth :: _ => c.current.kind = .rbrace && c.braces < depth

def endsBroken (c : Cursor) : Bool :=
  c.closesBlock || c.current.kind = .semicolon || c.current.kind = .eof ||
    c.peek.kind = .rbrace || c.peek.kind = .eof

theorem ahead_ne_nil_of_peek {c : Cursor} (h : c.peek.kind ≠ .eof) : c.ahead ≠ [] := by
  intro none
  exact h (by simp [peek, none, Token.eof])

theorem advance_shorter {c : Cursor} (h : c.peek.kind ≠ .eof) :
    c.advance.ahead.length < c.ahead.length := by
  have some := List.length_pos_iff.mpr (ahead_ne_nil_of_peek h)
  simp only [advance, List.length_tail]
  omega

def skipBroken (c : Cursor) : Cursor :=
  if _h : c.endsBroken then c else c.advance.skipBroken
termination_by c.ahead.length
decreasing_by
  exact advance_shorter (by intro last; simp [endsBroken, last] at _h)

def giveUp (c : Cursor) : Cursor :=
  { c.skipBroken with dropped := c.dropped + 1 }

end Cursor

def Parse (α : Type) := Cursor → Option α × Cursor

namespace Parse

variable {α β : Type}

protected def pure (a : α) : Parse α := fun c => (some a, c)

protected def bind (p : Parse α) (f : α → Parse β) : Parse β := fun c =>
  match p c with
  | (some a, c) => f a c
  | (none, c) => (none, c)

instance : Monad Parse where
  pure := Parse.pure
  bind := Parse.bind

theorem bind_some {p : Parse α} {f : α → Parse β} {c d : Cursor} {a : α}
    (h : p c = (some a, d)) : (p >>= f) c = f a d := by
  simp [Bind.bind, Parse.bind, h]

theorem bind_none {p : Parse α} {f : α → Parse β} {c d : Cursor}
    (h : p c = (none, d)) : (p >>= f) c = (none, d) := by
  simp [Bind.bind, Parse.bind, h]

def fail (e : SyntaxError) : Parse α := fun c => (none, c.report e)

/-- Answers nothing and reports nothing: the end of the fuel, which a parse never reaches. -/
def stuck : Parse α := fun c => (none, c)

def token : Parse Token := fun c => (some c.current, c)

def nextKind : Parse Kind := fun c => (some c.peek.kind, c)

def advance : Parse Unit := fun c => (some (), c.advance)

def expect (k : Kind) : Parse Unit := do
  let next ← nextKind
  if next = k then advance else fail (.expected k next)

def skip (k : Kind) : Parse Unit := do
  let next ← nextKind
  if next = k then advance else pure ()

def attempt (p : Parse α) : Parse (Option α) := fun c =>
  match p c with
  | (r, c) => (some r, c)

def closesBlock : Parse Bool := fun c => (some c.closesBlock, c)

def inBlock (p : Parse α) : Parse α := fun c =>
  match p c.enterBlock with
  | (r, c) => (r, c.leaveBlock)

/-- Gives a statement up when it answers nothing. -/
def recovering (p : Parse α) : Parse α := fun c =>
  match p c with
  | (some a, c) => (some a, c)
  | (none, c) => (none, c.giveUp)

end Parse

/-- Where a text is read: in parsers themselves, or where account is kept of what they do. -/
class MonadParse (m : Type → Type) where
  liftParse {α : Type} : Parse α → m α
  stuck {α : Type} : m α
  attempt {α : Type} : m α → m (Option α)

instance {m : Type → Type} [MonadParse m] : MonadLift Parse m := ⟨MonadParse.liftParse⟩

instance : MonadParse Parse where
  liftParse p := p
  stuck := Parse.stuck
  attempt := Parse.attempt

end TernLang
