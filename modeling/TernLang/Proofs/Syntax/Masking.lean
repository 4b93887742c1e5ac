import TernLang.Syntax.Parser

/-!
Illegal tokens. All that the parser sees of such a token is that it is illegal: its characters get
neither into a tree nor into an error, so texts whose tokens differ in nothing else are read alike.
-/
namespace TernLang

namespace Token

/-- The token without the characters of an illegal one. -/
def masked (t : Token) : Token := if t.kind = .illegal then ⟨.illegal, ""⟩ else t

theorem masked_of_legal {t : Token} (legal : t.kind ≠ .illegal) : t.masked = t := if_neg legal

@[simp] theorem kind_masked (t : Token) : t.masked.kind = t.kind := by
  unfold masked
  split
  · rename_i illegal
    exact illegal.symm
  · rfl

end Token

namespace Cursor

def masked (c : Cursor) : Cursor :=
  { c with current := c.current.masked, ahead := c.ahead.map Token.masked }

variable (c : Cursor)

@[simp] theorem kind_current_masked : c.masked.current.kind = c.current.kind :=
  c.current.kind_masked

@[simp] theorem peek_masked : c.masked.peek = c.peek.masked := by
  unfold peek masked
  cases c.ahead with
  | nil => rfl
  | cons t ts => rfl

theorem advance_masked : c.masked.advance = c.advance.masked := by
  rw [advance, peek_masked, Token.kind_masked]
  simp [advance, masked]

theorem start_masked (ts : List Token) : start (ts.map Token.masked) = (start ts).masked := by
  cases ts with
  | nil => rfl
  | cons t ts => simp [start, masked]

@[simp] theorem closesBlock_masked : c.masked.closesBlock = c.closesBlock := by
  unfold closesBlock
  rw [kind_current_masked]
  rfl

theorem endsBroken_masked : c.masked.endsBroken = c.endsBroken := by
  simp [endsBroken]

theorem skipBroken_masked : c.masked.skipBroken = c.skipBroken.masked := by
  fun_induction skipBroken c with
  | case1 c ends => rw [skipBroken, dif_pos (c.endsBroken_masked.trans ends)]
  | case2 c more ih =>
    rw [skipBroken, dif_neg (by rwa [endsBroken_masked]), advance_masked, ih]

theorem giveUp_masked : c.masked.giveUp = c.giveUp.masked := by
  rw [giveUp, skipBroken_masked]
  rfl

end Cursor

namespace Parse
open Cursor
variable {α β : Type} {p : Parse α} {f : α → Parse β} {c : Cursor} {k : Kind}

/-- Started at `c`, the parser does the same whatever the illegal tokens hold. -/
def Blind (p : Parse α) (c : Cursor) : Prop := p c.masked = ((p c).1, (p c).2.masked)

theorem Blind.bind (first : Blind p c) (next : ∀ a d, p c = (some a, d) → Blind (f a) d) :
    Blind (p >>= f) c := by
  unfold Blind at first ⊢
  rcases run : p c with ⟨_ | a, d⟩
  · rw [run] at first
    rw [bind_none first, bind_none run]
  · rw [run] at first
    rw [bind_some first, bind_some run]
    exact next a d run

theorem Blind.andThen (first : ∀ c, Blind p c) (next : ∀ a c, Blind (f a) c) :
    Blind (p >>= f) c :=
  (first c).bind fun a d _ => next a d

theorem blind_pure (a : α) : Blind (pure a) c := rfl

theorem blind_fail (e : SyntaxError) : Blind (fail e : Parse α) c := rfl

theorem blind_stuck : Blind (stuck : Parse α) c := rfl

theorem blind_token {f : Token → Parse β} (same : f c.current.masked = f c.current)
    (next : Blind (f c.current) c) : Blind (token >>= f) c := by
  change f c.current.masked c.masked = _
  rw [same]
  exact next

theorem blind_legal {f : Token → Parse β} (legal : c.current.kind ≠ .illegal)
    (next : Blind (f c.current) c) : Blind (token >>= f) c :=
  blind_token (congrArg f (Token.masked_of_legal legal)) next

theorem blind_nextKind {f : Kind → Parse β} (next : Blind (f c.peek.kind) c) :
    Blind (nextKind >>= f) c := by
  change f c.masked.peek.kind c.masked = _
  rw [peek_masked, Token.kind_masked]
  exact next

theorem blind_moved : Blind advance c := by
  unfold Blind advance
  rw [advance_masked]

theorem blind_advance {f : Unit → Parse β} (next : Blind (f ()) c.advance) :
    Blind (advance >>= f) c := by
  apply blind_moved.bind
  rintro _ d ⟨⟩
  exact next

theorem expect_some {c d : Cursor} {u : Unit} (h : expect k c = (some u, d)) :
    d.current.kind = k := by
  change (if c.peek.kind = k then advance else fail (.expected k c.peek.kind)) c = _ at h
  split at h
  · rename_i same
    cases h
    exact same
  · cases h

theorem blind_expect {f : Unit → Parse β} (next : ∀ d, d.current.kind = k → Blind (f ()) d) :
    Blind (expect k >>= f) c := by
  have here : Blind (expect k) c := by
    apply blind_nextKind
    split
    · exact blind_moved
    · exact blind_fail _
  exact here.bind fun _ d took => next d (expect_some took)

theorem blind_skip {f : Unit → Parse β} (next : ∀ d, Blind (f ()) d) : Blind (skip k >>= f) c := by
  have here : Blind (skip k) c := by
    apply blind_nextKind
    split
    · exact blind_moved
    · exact blind_pure ()
  exact here.bind fun _ d _ => next d

theorem blind_ident (legal : c.current.kind ≠ .illegal) : Blind ident c :=
  blind_legal legal (blind_pure _)

theorem blind_string (legal : c.current.kind ≠ .illegal) : Blind string c :=
  blind_legal legal (blind_pure _)

theorem blind_integer (legal : c.current.kind ≠ .illegal) : Blind integer c := by
  apply blind_legal legal
  split
  · exact blind_pure _
  · exact blind_fail _

theorem blind_closes {f : Bool → Parse β} (next : Blind (f c.closesBlock) c) :
    Blind (closesBlock >>= f) c := by
  change f c.masked.closesBlock c.masked = _
  rw [closesBlock_masked]
  exact next

theorem blind_attempt (h : Blind p c) : Blind (attempt p) c := by
  unfold Blind attempt
  rw [h]

theorem blind_inBlock (h : Blind p c.enterBlock) : Blind (inBlock p) c := by
  unfold Blind inBlock
  rw [show c.masked.enterBlock = c.enterBlock.masked from rfl, h]
  rfl

theorem blind_recovering (h : Blind p c) : Blind (recovering p) c := by
  unfold Blind recovering
  rw [h]
  rcases p c with ⟨_ | a, d⟩
  · exact congrArg (Prod.mk none) d.giveUp_masked
  · rfl

variable {expr : Parse Expr} {exprs : Precedence → Parse Expr} {block : Parse Block}
  {stmt : Parse Stmt} {n : Nat}

theorem blind_moreItems (reads : ∀ c, Blind expr c) (n : Nat) (c : Cursor) :
    Blind (moreItems expr n) c := by
  induction n generalizing c with
  | zero => exact blind_stuck
  | succ n ih =>
    apply blind_nextKind
    split
    · apply blind_advance
      apply blind_advance
      apply Blind.andThen reads
      intro e d
      exact (ih d).bind fun es f _ => blind_pure _
    · exact blind_pure _

theorem blind_items (reads : ∀ c, Blind expr c) (close : Kind) (n : Nat) (c : Cursor) :
    Blind (items expr close n) c := by
  apply blind_nextKind
  split
  · exact blind_advance (blind_pure _)
  · apply blind_advance
    apply Blind.andThen reads
    intro e d
    apply (blind_moreItems reads n d).bind
    intro es f _
    exact blind_expect fun g _ => blind_pure _

theorem blind_moreParameters (n : Nat) (c : Cursor) : Blind (moreParameters n) c := by
  induction n generalizing c with
  | zero => exact blind_stuck
  | succ n ih =>
    apply blind_nextKind
    split
    · apply blind_advance
      apply blind_expect
      intro d name
      apply (blind_ident (by simp [name])).bind
      intro i e _
      exact (ih e).bind fun is f _ => blind_pure _
    · exact blind_pure _

theorem blind_parameters (n : Nat) (c : Cursor) : Blind (parameters n) c := by
  apply blind_nextKind
  split
  · exact blind_advance (blind_pure _)
  · apply blind_expect
    intro d name
    apply (blind_ident (by simp [name])).bind
    intro i e _
    apply (blind_moreParameters n e).bind
    intro is f _
    exact blind_expect fun g _ => blind_pure _

theorem blind_pairs (reads : ∀ c, Blind expr c) (n : Nat) (c : Cursor) :
    Blind (pairs expr n) c := by
  induction n generalizing c with
  | zero => exact blind_stuck
  | succ n ih =>
    apply blind_nextKind
    split
    · exact blind_pure _
    · apply blind_advance
      apply Blind.andThen reads
      intro key d
      apply blind_expect
      intro e _
      apply blind_advance
      apply Blind.andThen reads
      intro value f
      apply blind_nextKind
      split
      · exact blind_pure _
      · apply blind_expect
        intro g _
        exact (ih g).bind fun ps h _ => blind_pure _

theorem blind_grouped (reads : ∀ c, Blind expr c) (c : Cursor) : Blind (grouped expr) c := by
  apply blind_advance
  apply Blind.andThen reads
  intro e d
  exact blind_expect fun g _ => blind_pure _

def BlindBlock (block : Parse Block) : Prop := ∀ c, c.current.kind = .lbrace → Blind block c

theorem blind_alternative (blocks : BlindBlock block) (c : Cursor) :
    Blind (alternative block) c := by
  apply blind_nextKind
  split
  · apply blind_advance
    apply blind_expect
    intro d brace
    exact (blocks d brace).bind fun b e _ => blind_pure _
  · exact blind_pure _

section
variable (legal : c.current.kind ≠ .illegal)
include legal

theorem blind_unary (reads : ∀ c, Blind expr c) : Blind (unary expr) c := by
  apply blind_legal legal
  apply blind_advance
  exact Blind.andThen reads fun r d => blind_pure _

theorem blind_array (reads : ∀ c, Blind expr c) : Blind (array expr n) c := by
  apply blind_legal legal
  exact (blind_items reads .rbracket n c).bind fun es d _ => blind_pure _

theorem blind_hash (reads : ∀ c, Blind expr c) : Blind (hash expr n) c := by
  apply blind_legal legal
  apply (blind_pairs reads n c).bind
  intro ps d _
  exact blind_expect fun e _ => blind_pure _

theorem blind_cond (reads : ∀ c, Blind expr c) (blocks : BlindBlock block) :
    Blind (cond expr block) c := by
  apply blind_legal legal
  apply blind_expect
  intro d _
  apply blind_advance
  apply Blind.andThen reads
  intro condition e
  apply blind_expect
  intro f _
  apply blind_expect
  intro g brace
  apply (blocks g brace).bind
  intro b h _
  exact (blind_alternative blocks h).bind fun a i _ => blind_pure _

theorem blind_function (blocks : BlindBlock block) : Blind (function block n) c := by
  apply blind_legal legal
  apply blind_expect
  intro d _
  apply (blind_parameters n d).bind
  intro is e _
  apply blind_expect
  intro f brace
  exact (blocks f brace).bind fun b g _ => blind_pure _

theorem blind_loop (blocks : BlindBlock block) : Blind (loop block) c := by
  apply blind_legal legal
  apply blind_expect
  intro d brace
  exact (blocks d brace).bind fun b e _ => blind_pure _

theorem blind_binary (reads : ∀ p c, Blind (exprs p) c) (left : Expr) :
    Blind (binary exprs left) c := by
  apply blind_legal legal
  apply blind_advance
  exact Blind.andThen (reads _) fun r d => blind_pure _

theorem blind_call (reads : ∀ c, Blind expr c) (callee : Expr) : Blind (call expr callee n) c := by
  apply blind_legal legal
  exact (blind_items reads .rparen n c).bind fun es d _ => blind_pure _

theorem blind_index (reads : ∀ c, Blind expr c) (left : Expr) : Blind (index expr left) c := by
  apply blind_legal legal
  apply blind_advance
  apply Blind.andThen reads
  intro i d
  exact blind_expect fun e _ => blind_pure _

theorem blind_extend (reads : ∀ p c, Blind (exprs p) c) (left : Expr) :
    Blind (extend exprs left n) c := by
  apply blind_legal legal
  split
  · exact blind_call legal (reads .lowest) left
  · exact blind_index legal (reads .lowest) left
  · exact blind_binary legal reads left

end

theorem operand_illegal (illegal : c.current.kind = .illegal) :
    operand exprs block n c = (none, c.report (.noOperand .illegal)) := by
  unfold operand
  simp [Bind.bind, Parse.bind, token, illegal, fail]

theorem blind_operand (reads : ∀ p c, Blind (exprs p) c) (blocks : BlindBlock block) (n : Nat)
    (c : Cursor) : Blind (operand exprs block n) c := by
  by_cases illegal : c.current.kind = .illegal
  · have masked : c.masked.current.kind = .illegal := c.kind_current_masked.trans illegal
    unfold Blind
    rw [operand_illegal illegal, operand_illegal masked]
    rfl
  · apply blind_legal illegal
    split
    · exact (blind_ident illegal).bind fun i d _ => blind_pure _
    · exact (blind_integer illegal).bind fun i d _ => blind_pure _
    · exact (blind_string illegal).bind fun s d _ => blind_pure _
    · exact blind_pure _
    · exact blind_pure _
    · exact blind_unary illegal (reads .unary)
    · exact blind_unary illegal (reads .unary)
    · exact blind_grouped (reads .lowest) c
    · exact blind_cond illegal (reads .lowest) blocks
    · exact blind_function illegal blocks
    · exact blind_array illegal (reads .lowest)
    · exact blind_hash illegal (reads .lowest)
    · exact blind_loop illegal blocks
    · exact blind_fail _

theorem blind_climb (reads : ∀ p c, Blind (exprs p) c) (p : Precedence) (n : Nat) (left : Expr)
    (c : Cursor) : Blind (climb exprs p n left) c := by
  induction n generalizing left c with
  | zero => exact blind_stuck
  | succ n ih =>
    apply blind_nextKind
    split
    · rename_i tighter
      have legal : c.advance.current.kind ≠ .illegal := by
        intro illegal
        rw [show c.peek.kind = .illegal from illegal] at tighter
        exact absurd tighter (Nat.not_lt_zero _)
      apply blind_advance
      apply (blind_extend legal reads left).bind
      intro e d _
      exact ih e d
    · exact blind_pure _

def Refuses (p : Parse α) : Prop := ∀ c : Cursor, c.current.kind = .illegal → (p c).1 = none

section
variable (legal : c.current.kind ≠ .illegal)
include legal

theorem blind_bindStatement (reads : ∀ c, Blind expr c) : Blind (bindStatement expr) c := by
  apply blind_legal legal
  apply blind_expect
  intro d name
  apply (blind_ident (by simp [name])).bind
  intro i e _
  apply blind_expect
  intro f _
  apply blind_advance
  apply Blind.andThen reads
  intro value g
  exact blind_skip fun h => blind_pure _

theorem blind_returnStatement (reads : ∀ c, Blind expr c) : Blind (returnStatement expr) c := by
  apply blind_legal legal
  apply blind_advance
  apply Blind.andThen reads
  intro value d
  exact blind_skip fun e => blind_pure _

theorem blind_importStatement : Blind importStatement c := by
  apply blind_legal legal
  apply blind_expect
  intro d string
  apply (blind_string (by simp [string])).bind
  intro path e _
  exact blind_skip fun f => blind_pure _

theorem blind_exitStatement : Blind exitStatement c := by
  apply blind_legal legal
  apply blind_expect
  intro d number
  apply (blind_integer (by simp [number])).bind
  intro code e _
  exact blind_skip fun f => blind_pure _

theorem blind_breakStatement : Blind breakStatement c := by
  apply blind_legal legal
  exact blind_skip fun d => blind_pure _

end

theorem expressionStatement_none {d : Cursor} (h : expr c = (none, d)) :
    expressionStatement expr c = (none, d) := by
  change (expr >>= fun e => do skip .semicolon; pure (Stmt.expr c.current e)) c = _
  exact bind_none h

theorem blind_expressionStatement (reads : ∀ c, Blind expr c) (refuses : Refuses expr)
    (c : Cursor) : Blind (expressionStatement expr) c := by
  -- At an illegal token there is no expression, so none is kept as the statement's own token.
  by_cases illegal : c.current.kind = .illegal
  · have run : expr c = (none, (expr c).2) := Prod.ext (refuses c illegal) rfl
    have masked := reads c
    unfold Blind at masked ⊢
    rw [run] at masked
    rw [expressionStatement_none run, expressionStatement_none masked]
  · apply blind_legal illegal
    apply Blind.andThen reads
    intro e d
    exact blind_skip fun f => blind_pure _

theorem blind_statementForm (reads : ∀ c, Blind expr c) (refuses : Refuses expr) (c : Cursor) :
    Blind (statementForm expr) c := by
  apply blind_token (by simp only [Token.kind_masked])
  split
  · rename_i kind
    exact blind_bindStatement (by simp [kind]) reads
  · rename_i kind
    exact blind_returnStatement (by simp [kind]) reads
  · rename_i kind
    exact blind_importStatement (by simp [kind])
  · rename_i kind
    exact blind_exitStatement (by simp [kind])
  · rename_i kind
    exact blind_breakStatement (by simp [kind])
  · exact blind_expressionStatement reads refuses c

theorem blind_statements (reads : ∀ c, Blind stmt c) (n : Nat) (c : Cursor) :
    Blind (statements stmt n) c := by
  induction n generalizing c with
  | zero => exact blind_stuck
  | succ n ih =>
    apply blind_token (by simp only [Token.kind_masked])
    split
    · exact blind_pure _
    · split
      · exact blind_fail _
      · apply (blind_attempt (reads c)).bind
        intro s d _
        apply blind_closes
        split
        · exact blind_pure _
        · apply blind_advance
          exact (ih _).bind fun ss e _ => blind_pure _

theorem blind_all (n : Nat) :
    (∀ p c, Blind (expression n p) c) ∧ (∀ p, Refuses (expression n p)) ∧
      BlindBlock (Parse.block n) ∧ ∀ c, Blind (statement n) c := by
  induction n with
  | zero =>
    exact ⟨fun _ _ => blind_stuck, fun _ _ _ => rfl, fun _ _ => blind_stuck,
      fun _ => blind_recovering blind_stuck⟩
  | succ n ih =>
    obtain ⟨exprs, refuses, blocks, stmts⟩ := ih
    refine ⟨?_, ?_, ?_, ?_⟩
    · intro p c
      apply (blind_operand exprs blocks n c).bind
      intro left d _
      exact blind_climb exprs p n left d
    · intro p c illegal
      exact congrArg Prod.fst (bind_none (operand_illegal illegal))
    · intro c brace
      apply blind_legal (by simp [brace])
      have body : Blind (do advance; statements (statement n) n : Parse (List Stmt)) c.enterBlock :=
        blind_advance (blind_statements stmts n _)
      exact (blind_inBlock body).bind fun ss d _ => blind_pure _
    · intro c
      exact blind_recovering (blind_statementForm (exprs .lowest) (refuses .lowest) c)

end Parse

theorem topLevel_masked (depth n : Nat) (c : Cursor) :
    topLevel depth n c.masked = ((topLevel depth n c).1, (topLevel depth n c).2.masked) := by
  induction n generalizing c with
  | zero => rfl
  | succ n ih =>
    rw [topLevel, topLevel, c.kind_current_masked]
    split
    · rfl
    · have read : Parse.Blind (Parse.statement depth) c := (Parse.blind_all depth).2.2.2 c
      unfold Parse.Blind at read
      rcases run : Parse.statement depth c with ⟨s, d⟩
      rw [run] at read
      simp only [read, Cursor.advance_masked, ih]

theorem parseTokens_masked (ts : List Token) :
    parseTokens (ts.map Token.masked) = ((parseTokens ts).1, (parseTokens ts).2.masked) := by
  unfold parseTokens
  rw [Cursor.start_masked, ← topLevel_masked]
  simp [parseDepth]

/-- Tokens that differ in what illegal ones hold, and in nothing else, are read as the same
statements with the same errors. -/
theorem parseTokens_of_masked {ts us : List Token}
    (same : ts.map Token.masked = us.map Token.masked) :
    (parseTokens ts).1 = (parseTokens us).1 ∧
      (parseTokens ts).2.errors = (parseTokens us).2.errors := by
  have run := parseTokens_masked ts
  rw [same, parseTokens_masked] at run
  obtain ⟨statements, cursor⟩ := Prod.mk.inj run
  exact ⟨statements.symm, (congrArg Cursor.errors cursor).symm⟩

end TernLang
