import TernLang.Proofs.Syntax.Attempts
import TernLang.Proofs.Syntax.Acceptance

/-!
All parsers of forms at once. Each of them is entered at a token that it reads from, with fuel for
what is left of the text; then it never runs out of fuel, and its errors are accounted for.
-/
namespace TernLang

/-- The parsers of forms, by what they answer. -/
inductive Reader : Type → Type where
  | expression (p : Precedence) : Reader Expr
  | block : Reader Block
  | statement : Reader Stmt
  | bindStatement : Reader Stmt
  | returnStatement : Reader Stmt
  | importStatement : Reader Stmt
  | exitStatement : Reader Stmt
  | breakStatement : Reader Stmt
  | expressionStatement : Reader Stmt
  | ident : Reader Ident
  | integer : Reader IntLit
  | string : Reader StrLit
  | unary : Reader Expr
  | grouped : Reader Expr
  | array : Reader Expr
  | hash : Reader Expr
  | cond : Reader Expr
  | function : Reader Expr
  | loop : Reader Expr
  | binary (left : Expr) : Reader Expr
  | call (callee : Expr) : Reader Expr
  | index (left : Expr) : Reader Expr
  | items (close : Kind) : Reader (List Expr)
  | parameters : Reader (List Ident)

namespace Reader
variable {α : Type}

section
variable {m : Type → Type} [Monad m] [MonadParse m]

def run (expr : Precedence → m Expr) (stmt : m Stmt) (body : m Block) (n : Nat) : Reader α → m α
  | expression p => expr p
  | block => body
  | statement => stmt
  | bindStatement => Parse.bindStatement (expr .lowest)
  | returnStatement => Parse.returnStatement (expr .lowest)
  | importStatement => Parse.importStatement
  | exitStatement => Parse.exitStatement
  | breakStatement => Parse.breakStatement
  | expressionStatement => Parse.expressionStatement (expr .lowest)
  | ident => Parse.ident
  | integer => Parse.integer
  | string => Parse.string
  | unary => Parse.unary (expr .unary)
  | grouped => Parse.grouped (expr .lowest)
  | array => Parse.array (expr .lowest) n
  | hash => Parse.hash (expr .lowest) n
  | cond => Parse.cond (expr .lowest) body
  | function => Parse.function body n
  | loop => Parse.loop body
  | binary l => Parse.binary expr l
  | call f => Parse.call (expr .lowest) f n
  | index l => Parse.index (expr .lowest) l
  | items close => Parse.items (expr .lowest) close n
  | parameters => Parse.parameters n

end

def parse (n : Nat) (r : Reader α) : Parse α :=
  r.run (Parse.expression n) (Parse.statement n) (Parse.block n) n

def trace (n : Nat) (r : Reader α) : Traced α :=
  r.run (traceExpression n) (traceStatement n) (traceBlock n) n

/-- The tokens that the parser is entered at. An expression is asked for at a precedence that no
right side exceeds, and a list up to some token. -/
def StartsAt : Reader α → Kind → Prop
  | expression p, _ => p ≤ .unary
  | block, k | hash, k => k = .lbrace
  | statement, _ | expressionStatement, _ | parameters, _ => True
  | bindStatement, k => k = .letWord
  | returnStatement, k => k = .returnWord
  | importStatement, k => k = .importWord
  | exitStatement, k => k = .exitWord
  | breakStatement, k => k = .breakWord
  | ident, k => k = .ident
  | integer, k => k = .int
  | string, k => k = .string
  | unary, k => k = .bang ∨ k = .minus
  | grouped, k | call _, k => k = .lparen
  | array, k | index _, k => k = .lbracket
  | cond, k => k = .ifWord
  | function, k => k = .fnWord
  | loop, k => k = .loopWord
  | binary _, k => ∃ level, k ∈ Kind.ladder level
  | items close, _ => close ≠ .eof

/-- The refusals that no given up statement stands for. A statement that is not answered was given
up itself. -/
def refusals (a : Option α) : Reader α → Nat
  | statement => 0
  | _ => TernLang.refusals a

open Parse Traced Cursor
variable {r : Reader α} {n : Nat} {c d : Cursor} {ms : List Mark} {a : Option α}

structure Told (r : Reader α) (n : Nat) (c : Cursor) (ms : List Mark) (a : Option α) (d : Cursor) :
    Prop where
  trace : r.trace n c = (ms, a, d)
  parse : r.parse n c = (a, d)
  account : Account c ms (r.refusals a) d
  refused : a = none → r.refusals a = 1 ∨ none ∈ tries ms

theorem told_of_tells {P : α → List (Option Stmt) → Prop}
    (h : Tells (r.trace n) (r.parse n) P) (one : ∀ a, r.refusals a = TernLang.refusals a) :
    ∃ ms a d, r.Told n c ms a d := by
  obtain ⟨ms, a, d, trace, parse, account, -⟩ := h c
  refine ⟨ms, a, d, trace, parse, one a ▸ account, ?_⟩
  rintro rfl
  exact .inl (one none)

theorem told_statement (n : Nat) (c : Cursor) :
    ∃ ms s d, statement.Told n c ms s d ∧ KeptAttempt s (tries ms) := by
  obtain ⟨ms, r, d, trace, parse, account, known⟩ := (records_all n).2.2 c
  rcases traced : traceStatement n c with ⟨ns, s, e⟩
  rcases plain : Parse.statement n c with ⟨t, f⟩
  rw [Traced.attempt, traced] at trace
  rw [Parse.attempt, plain] at parse
  cases trace
  cases parse
  refine ⟨ms, s, d, ⟨traced, plain, account, ?_⟩, known s rfl⟩
  rintro rfl
  exact .inr (known none rfl)

theorem told (r : Reader α) (n : Nat) (c : Cursor) : ∃ ms a d, r.Told n c ms a d := by
  obtain ⟨exprs, blocks, -⟩ := records_all n
  have loosest := exprs .lowest
  cases r with
  | expression p => exact told_of_tells (exprs p) fun _ => rfl
  | block => exact told_of_tells blocks fun _ => rfl
  | statement =>
    obtain ⟨ms, s, d, told, -⟩ := told_statement n c
    exact ⟨ms, s, d, told⟩
  | bindStatement => exact told_of_tells (records_bindStatement loosest) fun _ => rfl
  | returnStatement => exact told_of_tells (records_returnStatement loosest) fun _ => rfl
  | importStatement => exact told_of_tells records_importStatement fun _ => rfl
  | exitStatement => exact told_of_tells records_exitStatement fun _ => rfl
  | breakStatement => exact told_of_tells records_breakStatement fun _ => rfl
  | expressionStatement =>
    exact told_of_tells (records_expressionStatement loosest) fun _ => rfl
  | ident => exact told_of_tells (tells_step isStep_ident) fun _ => rfl
  | integer => exact told_of_tells (tells_step isStep_integer) fun _ => rfl
  | string => exact told_of_tells (tells_step isStep_string) fun _ => rfl
  | unary => exact told_of_tells (records_unary (exprs .unary)) fun _ => rfl
  | grouped => exact told_of_tells (records_grouped loosest) fun _ => rfl
  | array => exact told_of_tells (records_array loosest n) fun _ => rfl
  | hash => exact told_of_tells (records_hash loosest n) fun _ => rfl
  | cond => exact told_of_tells (records_cond loosest blocks) fun _ => rfl
  | function => exact told_of_tells (records_function blocks n) fun _ => rfl
  | loop => exact told_of_tells (records_loop blocks) fun _ => rfl
  | binary l => exact told_of_tells (continues_binary exprs (.inr rfl)) fun _ => rfl
  | call f => exact told_of_tells (continues_call loosest (.inr rfl) n) fun _ => rfl
  | index l => exact told_of_tells (continues_index loosest (.inr rfl)) fun _ => rfl
  | items close => exact told_of_tells (records_items loosest close n) fun _ => rfl
  | parameters => exact told_of_tells (tells_parameters n) fun _ => rfl

def Balanced (r : Reader α) (n : Nat) (c : Cursor) : Prop :=
  ∃ a d, r.parse n c = (a, d) ∧ c.Before d ∧ d.excess = c.excess + r.refusals a

theorem balanced_of_runs {P : α → Cursor → Prop} (h : (r.parse n).Runs c P)
    (one : ∀ a, r.refusals a = TernLang.refusals a) : r.Balanced n c := by
  unfold Runs at h
  rcases run : r.parse n c with ⟨_ | a, d⟩
  · rw [run] at h
    exact ⟨none, d, run, h.1, one none ▸ h.2⟩
  · rw [run] at h
    refine ⟨some a, d, run, h.1, ?_⟩
    rw [one, h.2.1]
    exact (Int.add_zero _).symm

theorem balanced_statement {size : Nat} (h : ReadsStatement (Parse.statement n) size)
    (lex : c.Lexed) (fits : c.rest.length ≤ size) : statement.Balanced n c := by
  have runs := h c lex fits
  unfold Runs Parse.attempt at runs
  rcases run : Parse.statement n c with ⟨s, d⟩
  rw [run] at runs
  obtain ⟨before, level, -⟩ := runs
  exact ⟨s, d, run, before, level.trans (Int.add_zero _).symm⟩

/-- Entered at a token that it reads from, with fuel for the text that is left. -/
structure Enters (r : Reader α) (n : Nat) (c : Cursor) : Prop where
  lexed : c.Lexed
  starts : r.StartsAt c.current.kind
  fuel : 2 * c.rest.length + 3 ≤ n

theorem enters_start {text : String} (starts : r.StartsAt (start (tokens text.toList)).current.kind)
    (fuel : 2 * (tokens text.toList).length + 3 ≤ n) : r.Enters n (start (tokens text.toList)) := by
  have lexed := tokens_lexed text.toList
  refine ⟨start_lexed lexed, starts, ?_⟩
  rwa [length_start_rest lexed]

theorem runs_right {exprs : Precedence → Parse Expr} {size : Nat} (reads : ReadsClimbing exprs size)
    (lex : c.Lexed) (fits : c.ahead.length ≤ size) (low : c.current.kind.precedence ≤ 7) (l : Expr) :
    (Parse.binary exprs l).Runs c fun _ _ => True := by
  apply runs_token
  apply runs_advance lex
  apply (reads _ low _ lex.advance (by rwa [rest_advance lex])).bind
  exact fun r d before _ => runs_pure before.lexed trivial

theorem runs_arguments {expr : Parse Expr} {size : Nat} (reads : ReadsExpr expr size)
    (lex : c.Lexed) (fits : c.ahead.length ≤ size) (fuel : c.ahead.length < n) (f : Expr) :
    (Parse.call expr f n).Runs c fun _ _ => True := by
  apply runs_token
  apply (runs_items reads lex fits fuel (by decide)).bind
  exact fun es d before _ => runs_pure before.lexed trivial

theorem runs_place {expr : Parse Expr} {size : Nat} (reads : ReadsExpr expr size) (lex : c.Lexed)
    (fits : c.ahead.length ≤ size) (l : Expr) : (Parse.index expr l).Runs c fun _ _ => True := by
  apply runs_token
  apply runs_advance lex
  apply (reads _ lex.advance (by rwa [rest_advance lex])).bind
  intro i d before _
  apply runs_expect before.lexed (by decide)
  exact fun e after _ => runs_pure after.lexed trivial

theorem Enters.balanced (h : r.Enters n c) : r.Balanced n c := by
  obtain ⟨lex, starts, fuel⟩ := h
  obtain ⟨exprs, blocks, stmts⟩ := reads_all n
  replace exprs := exprs c.rest.length (by omega)
  replace blocks := blocks c.rest.length (by omega)
  have loosest := exprs.loosest
  have fits := (ahead_suffix_rest lex).length_le
  have enough : c.ahead.length < n := by omega
  have all := Nat.le_refl c.rest.length
  cases r with
  | expression p => exact balanced_of_runs (exprs p starts c lex all) fun _ => rfl
  | block => exact balanced_of_runs (blocks c lex all starts) fun _ => rfl
  | statement => exact balanced_statement (stmts _ fuel) lex all
  | bindStatement => exact balanced_of_runs (runs_bindStatement exprs lex all starts) fun _ => rfl
  | returnStatement =>
    exact balanced_of_runs (runs_returnStatement exprs lex all starts) fun _ => rfl
  | importStatement => exact balanced_of_runs (runs_importStatement lex starts) fun _ => rfl
  | exitStatement => exact balanced_of_runs (runs_exitStatement lex starts) fun _ => rfl
  | breakStatement => exact balanced_of_runs (runs_breakStatement lex starts) fun _ => rfl
  | expressionStatement =>
    exact balanced_of_runs (runs_expressionStatement exprs lex all) fun _ => rfl
  | ident => exact ⟨_, c, rfl, lex.refl, (Int.add_zero _).symm⟩
  | string => exact ⟨_, c, rfl, lex.refl, (Int.add_zero _).symm⟩
  | integer => exact balanced_of_runs (runs_integer lex starts) fun _ => rfl
  | unary => exact balanced_of_runs (runs_unary exprs lex fits starts) fun _ => rfl
  | grouped => exact balanced_of_runs (runs_grouped loosest lex fits starts) fun _ => rfl
  | array => exact balanced_of_runs (runs_array loosest lex fits enough starts) fun _ => rfl
  | hash => exact balanced_of_runs (runs_hash loosest lex fits enough starts) fun _ => rfl
  | cond => exact balanced_of_runs (runs_cond loosest blocks lex fits starts) fun _ => rfl
  | function => exact balanced_of_runs (runs_function blocks lex fits enough starts) fun _ => rfl
  | loop => exact balanced_of_runs (runs_loop blocks lex fits starts) fun _ => rfl
  | binary l =>
    obtain ⟨level, op⟩ := starts
    obtain ⟨low, rank⟩ := Kind.precedence_of_ladder op
    exact balanced_of_runs (runs_right exprs lex fits (by omega) l) fun _ => rfl
  | call f => exact balanced_of_runs (runs_arguments loosest lex fits enough f) fun _ => rfl
  | index l => exact balanced_of_runs (runs_place loosest lex fits l) fun _ => rfl
  | items close =>
    exact balanced_of_runs (runs_items loosest lex fits enough starts) fun _ => rfl
  | parameters => exact balanced_of_runs (runs_parameters lex enough) fun _ => rfl

namespace Told

theorem free (h : r.Told n c ms a d) (enters : r.Enters n c) : stucks ms = 0 := by
  obtain ⟨b, e, run, -, level⟩ := enters.balanced
  rw [h.parse] at run
  cases run
  have refused := h.account.refused
  have dropped := h.account.dropped
  -- What is known of the errors and of the given up statements leaves no room for it.
  simp only [excess] at level
  omega

theorem reported (h : r.Told n c ms none d) (enters : r.Enters n c) :
    c.errors.length < d.errors.length := by
  have free := h.free enters
  have balance := h.account.refused
  rcases h.refused rfl with one | lost
  · omega
  · have given : 0 < (tries ms).countP Option.isNone := List.countP_pos_iff.mpr ⟨none, lost, rfl⟩
    omega

theorem clean {x : α} (h : r.Told n c ms (some x) d) (enters : r.Enters n c)
    (kept : none ∉ tries ms) : d.errors = c.errors := by
  have free := h.free enters
  have balance := h.account.refused
  have none : (tries ms).countP Option.isNone = 0 := by
    apply List.countP_eq_zero.mpr
    intro s member lost
    rw [Option.isNone_iff_eq_none] at lost
    exact kept (lost ▸ member)
  have answered : r.refusals (some x) = 0 := by
    cases r <;> rfl
  exact (h.account.errors.eq_of_length (by omega)).symm

end Told
end Reader

open Cursor Reader
variable {depth n : Nat} {c : Cursor}

theorem account_advance (c : Cursor) : Account c [.stands c.advance] 0 c.advance :=
  ⟨path_advance c, rfl, List.prefix_refl _, rfl, rfl⟩

theorem told_topLevel (lex : c.Lexed) (deep : 2 * c.rest.length + 3 ≤ depth)
    (fuel : c.rest.length < n) :
    ∃ ms ss d, traceTopLevel depth n c = (ms, ss, d) ∧ topLevel depth n c = (ss, d) ∧
      Account c ms 0 d ∧ stucks ms = 0 ∧ Kept (sentencesOfStmts ss) (tries ms) := by
  induction n generalizing c with
  | zero => omega
  | succ n ih =>
    rw [traceTopLevel, topLevel]
    by_cases last : c.current.kind = .eof
    · rw [if_pos last, if_pos last]
      exact ⟨[], [], c, rfl, rfl, account_nil c, rfl, kept_nil⟩
    · rw [if_neg last, if_neg last]
      have enters : statement.Enters depth c := ⟨lex, trivial, deep⟩
      obtain ⟨ms, s, d, told, kept⟩ := told_statement depth c
      obtain ⟨s', d', run, before, -⟩ := enters.balanced
      rw [told.parse] at run
      cases run
      have left := before.ahead_lt last
      have start := rest_advance before.lexed
      obtain ⟨ns, ss, e, trace, parse, account, free, known⟩ :=
        ih before.lexed.advance (by rw [start]; omega) (by rw [start]; omega)
      have first : traceStatement depth c = (ms, s, d) := told.trace
      have plain : Parse.statement depth c = (s, d) := told.parse
      have here : Account c ms 0 d := told.account
      refine ⟨ms ++ ([.stands d.advance] ++ ns), s.toList ++ ss, e, ?_, ?_,
        here.trans ((account_advance d).trans account), ?_, ?_⟩
      · simp only [first, trace, List.cons_append, List.nil_append]
      · simp only [plain, parse]
      · rw [stucks_append, stucks_append, told.free enters, free]
        rfl
      · rw [tries_append, tries_append]
        exact kept.append known

theorem told_text (text : String) :
    ∃ ms ss d, traceTokens (tokens text.toList) = (ms, ss, d) ∧
      parseTokens (tokens text.toList) = (ss, d) ∧ Account (.start (tokens text.toList)) ms 0 d ∧
      stucks ms = 0 ∧ Kept (sentencesOfStmts ss) (tries ms) := by
  have lexed := tokens_lexed text.toList
  have deep := le_parseDepth (tokens text.toList)
  have whole := length_start_rest lexed
  exact told_topLevel (start_lexed lexed) (by omega) (by omega)

end TernLang
