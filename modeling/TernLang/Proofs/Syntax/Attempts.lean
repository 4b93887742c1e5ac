import TernLang.Proofs.Syntax.Tracing

/-!
Attempts and trees. Unless a statement was given up, the statements that a parser attempted are those
that are written in what it answers, one for one and in the order in which they end.
-/
namespace TernLang

mutual

/-- The statements that are written in an expression, function bodies included, each behind those
that are written in it. -/
def Expr.sentences : Expr → List Stmt
  | .ident _ | .int _ | .str _ | .bool _ _ | .stray _ => []
  | .array _ es => sentencesOfExprs es
  | .hash _ ps => sentencesOfPairs ps
  | .unary _ _ r => r.sentences
  | .binary _ l _ r => l.sentences ++ r.sentences
  | .cond _ c b none => c.sentences ++ b.sentences
  | .cond _ c b (some a) => c.sentences ++ b.sentences ++ a.sentences
  | .fn _ _ b => b.sentences
  | .call _ f es => f.sentences ++ sentencesOfExprs es
  | .index _ l i => l.sentences ++ i.sentences
  | .loop _ b => b.sentences

def Stmt.nested : Stmt → List Stmt
  | .bind _ _ e | .ret _ e | .expr _ e => e.sentences
  | .block b => b.sentences
  | .load _ _ | .exit _ _ | .brk _ | .stray _ => []

def Block.sentences : Block → List Stmt
  | .mk _ ss => sentencesOfStmts ss

def sentencesOfExprs : List Expr → List Stmt
  | [] => []
  | e :: es => e.sentences ++ sentencesOfExprs es

def sentencesOfPairs : List (Expr × Expr) → List Stmt
  | [] => []
  | (k, v) :: ps => k.sentences ++ v.sentences ++ sentencesOfPairs ps

def sentencesOfStmts : List Stmt → List Stmt
  | [] => []
  | s :: ss => s.nested ++ [s] ++ sentencesOfStmts ss

end

attribute [simp] Expr.sentences Stmt.nested Block.sentences sentencesOfExprs sentencesOfPairs
  sentencesOfStmts

def Program.sentences (p : Program) : List Stmt := sentencesOfStmts p.statements

/-- A statement was given up, or the attempts answered these statements. -/
def Kept (ss : List Stmt) (l : List (Option Stmt)) : Prop := none ∈ l ∨ l = ss.map some

def KeptAttempt (s : Option Stmt) (l : List (Option Stmt)) : Prop :=
  match s with
  | some s => Kept (s.nested ++ [s]) l
  | none => none ∈ l

variable {ss us : List Stmt} {l k : List (Option Stmt)}

theorem kept_nil : Kept [] [] := .inr rfl

theorem Kept.append (first : Kept ss l) (next : Kept us k) : Kept (ss ++ us) (l ++ k) := by
  rcases first with lost | rfl
  · exact .inl (List.mem_append_left _ lost)
  · rcases next with lost | rfl
    · exact .inl (List.mem_append_right _ lost)
    · exact .inr List.map_append.symm

theorem KeptAttempt.append {s : Option Stmt} (first : KeptAttempt s l)
    (next : Kept (sentencesOfStmts us) k) : Kept (sentencesOfStmts (s.toList ++ us)) (l ++ k) := by
  cases s with
  | some s => exact Kept.append first next
  | none => exact .inl (List.mem_append_left _ first)

namespace Traced
open Parse
variable {α : Type} {n : Nat} {expr : Traced Expr} {expr' : Parse Expr} {block : Traced Block}
  {block' : Parse Block} {exprs : Precedence → Traced Expr} {exprs' : Precedence → Parse Expr}

/-- The parsers do the same, and what is written in the answer is what was attempted. -/
def Records (written : α → List Stmt) (p : Traced α) (q : Parse α) : Prop :=
  Tells p q fun a l => Kept (written a) l

theorem tells_ite {p p' : Traced α} {q q' : Parse α} {P : α → List (Option Stmt) → Prop} {b : Prop}
    [Decidable b] (yes : Tells p q P) (no : Tells p' q' P) :
    Tells (if b then p else p') (if b then q else q') P := by
  split
  · exact yes
  · exact no

theorem records_moreItems (reads : Records Expr.sentences expr expr') (n : Nat) :
    Records sentencesOfExprs (moreItems expr n) (moreItems expr' n) := by
  induction n with
  | zero => exact tells_stuck
  | succ n ih =>
    refine tells_after isStep_nextKind fun next => tells_ite ?_ (tells_pure kept_nil)
    refine tells_after isStep_advance fun _ => tells_after isStep_advance fun _ => ?_
    apply reads.bind
    intro e l first
    apply ih.bind
    intro es k rest
    apply tells_pure
    simpa using first.append rest

theorem records_items (reads : Records Expr.sentences expr expr') (close : Kind) (n : Nat) :
    Records sentencesOfExprs (items expr close n) (items expr' close n) := by
  refine tells_after isStep_nextKind fun next => tells_ite ?_ ?_
  · exact tells_after isStep_advance fun _ => tells_pure kept_nil
  · refine tells_after isStep_advance fun _ => ?_
    apply reads.bind
    intro e l first
    apply (records_moreItems reads n).bind
    intro es k rest
    refine tells_after (isStep_expect close) fun _ => ?_
    apply tells_pure
    simpa using first.append rest

theorem tells_moreParameters (n : Nat) :
    Tells (moreParameters n) (moreParameters n) fun _ l => l = [] := by
  induction n with
  | zero => exact tells_stuck
  | succ n ih =>
    refine tells_after isStep_nextKind fun next => tells_ite ?_ (tells_pure rfl)
    refine tells_after isStep_advance fun _ => tells_after (isStep_expect .ident) fun _ => ?_
    refine tells_after isStep_ident fun i => ?_
    apply ih.bind
    rintro is l rfl
    exact tells_pure rfl

theorem tells_parameters (n : Nat) :
    Tells (parameters n) (parameters n) fun _ l => l = [] := by
  refine tells_after isStep_nextKind fun next => tells_ite ?_ ?_
  · exact tells_after isStep_advance fun _ => tells_pure rfl
  · refine tells_after (isStep_expect .ident) fun _ => tells_after isStep_ident fun i => ?_
    apply (tells_moreParameters n).bind
    rintro is l rfl
    exact tells_after (isStep_expect .rparen) fun _ => tells_pure rfl

theorem records_pairs (reads : Records Expr.sentences expr expr') (n : Nat) :
    Records sentencesOfPairs (pairs expr n) (pairs expr' n) := by
  induction n with
  | zero => exact tells_stuck
  | succ n ih =>
    refine tells_after isStep_nextKind fun next => tells_ite (tells_pure kept_nil) ?_
    refine tells_after isStep_advance fun _ => ?_
    apply reads.bind
    intro key l first
    refine tells_after (isStep_expect .colon) fun _ => tells_after isStep_advance fun _ => ?_
    apply reads.bind
    intro value k second
    refine tells_after isStep_nextKind fun after => tells_ite ?_ ?_
    · apply tells_pure
      simpa using first.append second
    · refine tells_after (isStep_expect .comma) fun _ => ?_
      apply ih.bind
      intro ps j rest
      apply tells_pure
      simpa using (first.append second).append rest

theorem records_grouped (reads : Records Expr.sentences expr expr') :
    Records Expr.sentences (grouped expr) (grouped expr') := by
  refine tells_after isStep_advance fun _ => ?_
  apply reads.bind
  intro e l inner
  refine tells_after (isStep_expect .rparen) fun _ => ?_
  apply tells_pure
  simpa using inner

theorem records_unary (reads : Records Expr.sentences expr expr') :
    Records Expr.sentences (unary expr) (unary expr') := by
  refine tells_after isStep_token fun t => tells_after isStep_advance fun _ => ?_
  apply reads.bind
  intro r l right
  apply tells_pure
  simpa using right

theorem records_array (reads : Records Expr.sentences expr expr') (n : Nat) :
    Records Expr.sentences (array expr n) (array expr' n) := by
  refine tells_after isStep_token fun t => ?_
  apply (records_items reads .rbracket n).bind
  intro es l elements
  apply tells_pure
  simpa using elements

theorem records_hash (reads : Records Expr.sentences expr expr') (n : Nat) :
    Records Expr.sentences (hash expr n) (hash expr' n) := by
  refine tells_after isStep_token fun t => ?_
  apply (records_pairs reads n).bind
  intro ps l pairs
  refine tells_after (isStep_expect .rbrace) fun _ => ?_
  apply tells_pure
  simpa using pairs

theorem records_alternative (blocks : Records Block.sentences block block') :
    Records (fun a => a.toList.flatMap Block.sentences) (alternative block)
      (alternative block') := by
  refine tells_after isStep_nextKind fun next => tells_ite ?_ (tells_pure kept_nil)
  refine tells_after isStep_advance fun _ => tells_after (isStep_expect .lbrace) fun _ => ?_
  apply blocks.bind
  intro b l body
  apply tells_pure
  simpa using body

theorem sentences_cond (t : Token) (c : Expr) (b : Block) (a : Option Block) :
    (Expr.cond t c b a).sentences =
      c.sentences ++ b.sentences ++ a.toList.flatMap Block.sentences := by
  cases a with
  | none => simp
  | some a => simp

theorem records_cond (reads : Records Expr.sentences expr expr')
    (blocks : Records Block.sentences block block') :
    Records Expr.sentences (cond expr block) (cond expr' block') := by
  refine tells_after isStep_token fun t => tells_after (isStep_expect .lparen) fun _ => ?_
  refine tells_after isStep_advance fun _ => ?_
  apply reads.bind
  intro c l condition
  refine tells_after (isStep_expect .rparen) fun _ => ?_
  refine tells_after (isStep_expect .lbrace) fun _ => ?_
  apply blocks.bind
  intro b k consequence
  apply (records_alternative blocks).bind
  intro a j other
  apply tells_pure
  rw [sentences_cond]
  simpa using (condition.append consequence).append other

theorem records_function (blocks : Records Block.sentences block block') (n : Nat) :
    Records Expr.sentences (function block n) (function block' n) := by
  refine tells_after isStep_token fun t => tells_after (isStep_expect .lparen) fun _ => ?_
  apply (tells_parameters n).bind
  rintro is l rfl
  refine tells_after (isStep_expect .lbrace) fun _ => ?_
  apply blocks.bind
  intro b k body
  apply tells_pure
  simpa using body

theorem records_loop (blocks : Records Block.sentences block block') :
    Records Expr.sentences (loop block) (loop block') := by
  refine tells_after isStep_token fun t => tells_after (isStep_expect .lbrace) fun _ => ?_
  apply blocks.bind
  intro b l body
  apply tells_pure
  simpa using body

theorem records_operand (reads : ∀ p, Records Expr.sentences (exprs p) (exprs' p))
    (blocks : Records Block.sentences block block') (n : Nat) :
    Records Expr.sentences (operand exprs block n) (operand exprs' block' n) := by
  refine tells_after isStep_token fun t => ?_
  split
  · exact tells_after isStep_ident fun i => tells_pure kept_nil
  · exact tells_after isStep_integer fun i => tells_pure kept_nil
  · exact tells_after isStep_string fun i => tells_pure kept_nil
  · exact tells_pure kept_nil
  · exact tells_pure kept_nil
  · exact records_unary (reads .unary)
  · exact records_unary (reads .unary)
  · exact records_grouped (reads .lowest)
  · exact records_cond (reads .lowest) blocks
  · exact records_function blocks n
  · exact records_array (reads .lowest) n
  · exact records_hash (reads .lowest) n
  · exact records_loop blocks
  · exact tells_fail _

variable {l : Expr} {k : List (Option Stmt)}

def Continues (k : List (Option Stmt)) (p : Traced Expr) (q : Parse Expr) : Prop :=
  Tells p q fun e j => Kept e.sentences (k ++ j)

theorem continues_binary (reads : ∀ p, Records Expr.sentences (exprs p) (exprs' p))
    (left : Kept l.sentences k) : Continues k (binary exprs l) (binary exprs' l) := by
  refine tells_after isStep_token fun t => tells_after isStep_advance fun _ => ?_
  apply (reads t.kind.precedence).bind
  intro r j right
  apply tells_pure
  simpa using left.append right

theorem continues_call (reads : Records Expr.sentences expr expr') (left : Kept l.sentences k)
    (n : Nat) : Continues k (call expr l n) (call expr' l n) := by
  refine tells_after isStep_token fun t => ?_
  apply (records_items reads .rparen n).bind
  intro es j arguments
  apply tells_pure
  simpa using left.append arguments

theorem continues_index (reads : Records Expr.sentences expr expr') (left : Kept l.sentences k) :
    Continues k (index expr l) (index expr' l) := by
  refine tells_after isStep_token fun t => tells_after isStep_advance fun _ => ?_
  apply reads.bind
  intro i j place
  refine tells_after (isStep_expect .rbracket) fun _ => ?_
  apply tells_pure
  simpa using left.append place

theorem continues_extend (reads : ∀ p, Records Expr.sentences (exprs p) (exprs' p))
    (left : Kept l.sentences k) (n : Nat) :
    Continues k (extend exprs l n) (extend exprs' l n) := by
  refine tells_after isStep_token fun t => ?_
  split
  · exact continues_call (reads .lowest) left n
  · exact continues_index (reads .lowest) left
  · exact continues_binary reads left

theorem continues_climb (reads : ∀ p, Records Expr.sentences (exprs p) (exprs' p))
    (p : Precedence) (n : Nat) (left : Kept l.sentences k) :
    Continues k (climb exprs p n l) (climb exprs' p n l) := by
  induction n generalizing l k with
  | zero => exact tells_stuck
  | succ n ih =>
    refine tells_after isStep_nextKind fun next => tells_ite ?_ (tells_pure (by simpa using left))
    refine tells_after isStep_advance fun _ => ?_
    apply (continues_extend reads left n).bind
    intro e j whole
    exact (ih whole).mono fun e i known => by simpa using known

theorem records_stop {s : Stmt} (h : Kept s.nested k) :
    Tells (do Parse.skip .semicolon; pure s : Traced Stmt) (do Parse.skip .semicolon; pure s)
      fun s j => Kept s.nested (k ++ j) :=
  tells_after (isStep_skip .semicolon) fun _ => tells_pure (by simpa using h)

theorem records_bindStatement (reads : Records Expr.sentences expr expr') :
    Records Stmt.nested (bindStatement expr) (bindStatement expr') := by
  refine tells_after isStep_token fun t => tells_after (isStep_expect .ident) fun _ => ?_
  refine tells_after isStep_ident fun name => tells_after (isStep_expect .assign) fun _ => ?_
  refine tells_after isStep_advance fun _ => ?_
  apply reads.bind
  intro value l known
  exact records_stop known

theorem records_returnStatement (reads : Records Expr.sentences expr expr') :
    Records Stmt.nested (returnStatement expr) (returnStatement expr') := by
  refine tells_after isStep_token fun t => tells_after isStep_advance fun _ => ?_
  apply reads.bind
  intro value l known
  exact records_stop known

theorem records_importStatement : Records Stmt.nested importStatement importStatement := by
  refine tells_after isStep_token fun t => tells_after (isStep_expect .string) fun _ => ?_
  refine tells_after isStep_string fun path => ?_
  exact records_stop (s := .load t path) kept_nil

theorem records_exitStatement : Records Stmt.nested exitStatement exitStatement := by
  refine tells_after isStep_token fun t => tells_after (isStep_expect .int) fun _ => ?_
  refine tells_after isStep_integer fun code => ?_
  exact records_stop (s := .exit t code) kept_nil

theorem records_breakStatement : Records Stmt.nested breakStatement breakStatement :=
  tells_after isStep_token fun t => records_stop (s := .brk t) kept_nil

theorem records_expressionStatement (reads : Records Expr.sentences expr expr') :
    Records Stmt.nested (expressionStatement expr) (expressionStatement expr') := by
  refine tells_after isStep_token fun t => ?_
  apply reads.bind
  intro e l known
  exact records_stop known

theorem records_statementForm (reads : Records Expr.sentences expr expr') :
    Records Stmt.nested (statementForm expr) (statementForm expr') := by
  refine tells_after isStep_token fun t => ?_
  split
  · exact records_bindStatement reads
  · exact records_returnStatement reads
  · exact records_importStatement
  · exact records_exitStatement
  · exact records_breakStatement
  · exact records_expressionStatement reads

def RecordsAttempt (stmt : Traced Stmt) (stmt' : Parse Stmt) : Prop :=
  Tells (attempt stmt) (Parse.attempt stmt') KeptAttempt

theorem records_recovering {p : Traced Stmt} {q : Parse Stmt} (h : Records Stmt.nested p q) :
    RecordsAttempt (recovering p) (Parse.recovering q) := by
  apply (tells_attempt h).mono
  intro s l tried
  cases s with
  | none => exact tried
  | some s =>
    obtain ⟨k, known, rfl⟩ := tried
    exact known.append (.inr rfl)

theorem records_statements {stmt : Traced Stmt} {stmt' : Parse Stmt}
    (reads : RecordsAttempt stmt stmt') (n : Nat) :
    Records sentencesOfStmts (statements stmt n) (statements stmt' n) := by
  induction n with
  | zero => exact tells_stuck
  | succ n ih =>
    refine tells_after isStep_token fun t => tells_ite (tells_pure kept_nil) ?_
    refine tells_ite (tells_fail _) ?_
    apply reads.bind
    intro s l tried
    refine tells_after isStep_closesBlock fun ended => ?_
    by_cases lost : s.isNone && ended
    · rw [if_pos lost, if_pos lost]
      simp only [Bool.and_eq_true, Option.isNone_iff_eq_none] at lost
      obtain ⟨rfl, -⟩ := lost
      exact tells_pure (.inl (List.mem_append_left _ tried))
    · rw [if_neg lost, if_neg lost]
      refine tells_after isStep_advance fun _ => ?_
      apply ih.bind
      intro ss k rest
      exact tells_pure (by simpa using tried.append rest)

theorem records_block {stmt : Traced Stmt} {stmt' : Parse Stmt} (reads : RecordsAttempt stmt stmt')
    (n : Nat) :
    Records Block.sentences
      (do
        let t ← token
        let ss ← inBlock (do advance; statements stmt n)
        pure (.mk t ss))
      (do
        let t ← token
        let ss ← Parse.inBlock (do advance; statements stmt' n)
        pure (.mk t ss)) := by
  refine tells_after isStep_token fun t => ?_
  have body : Records sentencesOfStmts (do advance; statements stmt n : Traced (List Stmt))
      (do advance; statements stmt' n) :=
    tells_after isStep_advance fun _ => records_statements reads n
  apply (tells_inBlock body).bind
  intro ss l known
  apply tells_pure
  simpa using known

theorem records_all (n : Nat) :
    (∀ p, Records Expr.sentences (traceExpression n p) (expression n p)) ∧
      Records Block.sentences (traceBlock n) (Parse.block n) ∧
        RecordsAttempt (traceStatement n) (statement n) := by
  induction n with
  | zero => exact ⟨fun _ => tells_stuck, tells_stuck, records_recovering tells_stuck⟩
  | succ n ih =>
    obtain ⟨exprs, blocks, stmts⟩ := ih
    refine ⟨fun p => ?_, records_block stmts n, ?_⟩
    · apply (records_operand exprs blocks n).bind
      intro l k left
      exact continues_climb exprs p n left
    · exact records_recovering (records_statementForm (exprs .lowest))

end Traced
end TernLang
