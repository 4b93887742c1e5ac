import TernLang.Proofs.Syntax.ExpressionSoundness

/-!
Climbing precedences gives the grouping of the ladder: what the parser has read is always a whole
expression of the rank of its last operator.
-/
namespace TernLang.Parse
open Cursor
variable {c : Cursor} {size n : Nat} {expr : Parse Expr} {block : Parse Block}

/-- How the parser reads expressions at any precedence: it stops before an operator that does not
bind tighter. Levels of the ladder are counted from zero, precedences from one. -/
def ReadsClimbing (expr : Precedence → Parse Expr) (size : Nat) : Prop :=
  ∀ p : Nat, p ≤ 7 → ∀ c, c.Lexed → c.rest.length ≤ size → (expr p).Runs c fun e d =>
    c.Reads (.expr (min p 6) e) d ∧ d.peek.kind.precedence ≤ p

theorem ReadsClimbing.loosest {expr : Precedence → Parse Expr} (h : ReadsClimbing expr size) :
    ReadsExpr (expr .lowest) size :=
  fun c lex fits => (h 0 (by omega) c lex fits).mono fun _ _ _ read => read.1

theorem runs_unary {expr : Precedence → Parse Expr} (reads : ReadsClimbing expr size)
    (lex : c.Lexed) (fits : c.ahead.length ≤ size)
    (op : c.current.kind = .bang ∨ c.current.kind = .minus) :
    (unary (expr .unary)).Runs c fun e d =>
      c.Reads (.expr 6 e) d ∧ d.peek.kind.precedence ≤ 7 := by
  have some : c.current.kind ≠ .eof := by rcases op with op | op <;> simp [op]
  apply runs_token
  apply runs_advance lex
  apply (reads 7 (by omega) _ lex.advance (by rw [rest_advance lex]; exact fits)).bind
  intro r e before step
  obtain ⟨read, next⟩ := step
  obtain ⟨ts, derived, moved⟩ := read.on lex
  exact runs_pure before.lexed ⟨⟨_, .unary op derived, moved.enters lex some⟩, next⟩

/-- A whole expression whose loosest operator has the precedence `q`; a call and an index count as
operators here, and what has none at all is of the highest rank. -/
def Ranked (q : Nat) (e : Expr) : Phrase := if 8 ≤ q then .applied e else .expr (q - 1) e

theorem Ranked.lower {p q : Nat} {e : Expr} {ts : List Token} (above : min p 6 < q)
    (h : Derives (Ranked q e) ts) : Derives (.expr (min p 6) e) ts := by
  unfold Ranked at h
  split at h
  · exact (Derives.plain h).lower (Nat.min_le_right p 6) (Nat.le_refl 6)
  · exact h.lower (Nat.le_sub_one_of_lt above) (by omega)

def ReadsRanked (c : Cursor) (q : Nat) (e : Expr) (d : Cursor) : Prop :=
  c.Reads (Ranked q e) d ∧ d.peek.kind.precedence ≤ q

theorem ReadsRanked.of_applied {e : Expr} {d : Cursor} (h : c.Reads (.applied e) d) :
    ReadsRanked c 9 e d := ⟨h, Kind.precedence_le_nine _⟩

theorem runs_operand {expr : Precedence → Parse Expr} (reads : ReadsClimbing expr size)
    (blocks : ReadsBlock block size) (lex : c.Lexed) (fits : c.ahead.length ≤ size)
    (fuel : c.ahead.length < n) :
    (operand expr block n).Runs c fun e d => ∃ q, 7 ≤ q ∧ ReadsRanked c q e d := by
  have applied {p : Parse Expr} (h : p.Runs c fun e d => c.Reads (.applied e) d) :
      p.Runs c fun e d => ∃ q, 7 ≤ q ∧ ReadsRanked c q e d :=
    h.mono fun e d _ read => ⟨9, by omega, .of_applied read⟩
  have unary (op : c.current.kind = .bang ∨ c.current.kind = .minus) :
      (unary (expr .unary)).Runs c fun e d => ∃ q, 7 ≤ q ∧ ReadsRanked c q e d :=
    (runs_unary reads lex fits op).mono fun e d _ read => ⟨7, Nat.le_refl 7, read⟩
  apply runs_token
  split
  · rename_i kind
    apply applied
    apply runs_ident
    exact runs_pure lex (reads_current lex (by simp [kind]) (.ident kind))
  · rename_i kind
    apply applied
    apply (runs_integer lex kind).bind
    intro i e _ step
    obtain ⟨⟨m, numeral, rfl⟩, rfl⟩ := step
    exact runs_pure lex (reads_current lex (by simp [kind]) (.int numeral))
  · rename_i kind
    apply applied
    apply runs_string
    exact runs_pure lex (reads_current lex (by simp [kind]) (.str kind))
  · rename_i kind
    exact applied (runs_pure lex (reads_current lex (by simp [kind]) (.yes kind)))
  · rename_i kind
    exact applied (runs_pure lex (reads_current lex (by simp [kind]) (.no kind)))
  · rename_i kind
    exact unary (.inl kind)
  · rename_i kind
    exact unary (.inr kind)
  · rename_i kind
    exact applied (runs_grouped reads.loosest lex fits kind)
  · rename_i kind
    exact applied (runs_cond reads.loosest blocks lex fits kind)
  · rename_i kind
    exact applied (runs_function blocks lex fits fuel kind)
  · rename_i kind
    exact applied (runs_array reads.loosest lex fits fuel kind)
  · rename_i kind
    exact applied (runs_hash reads.loosest lex fits fuel kind)
  · rename_i kind
    exact applied (runs_loop blocks lex fits kind)
  · exact runs_fail lex _

theorem runs_call {d : Cursor} {f : Expr} (reads : ReadsExpr expr size) (lex : d.Lexed)
    (fits : d.ahead.length ≤ size) (fuel : d.ahead.length ≤ n) (opening : d.peek.kind = .lparen)
    (callee : c.Reads (.applied f) d) :
    (call expr f n).Runs d.advance fun e g => c.Reads (.applied e) g := by
  have took := took_advance lex opening (by decide)
  have less := took.shorter (by decide)
  obtain ⟨-, -, opened⟩ := took
  obtain ⟨ts, derived, entered⟩ := callee
  apply runs_token
  apply (runs_items reads lex.advance (by omega) (by omega) (by decide)).bind
  intro es g _ step
  obtain ⟨closing, us, arguments, moved⟩ := step
  refine runs_pure moved.before.lexed ⟨_, .call derived opening arguments closing, ?_⟩
  simpa using entered.trans (opened.trans moved)

theorem runs_index {d : Cursor} {l : Expr} (reads : ReadsExpr expr size) (lex : d.Lexed)
    (fits : d.ahead.length ≤ size) (opening : d.peek.kind = .lbracket)
    (left : c.Reads (.applied l) d) :
    (index expr l).Runs d.advance fun e g => c.Reads (.applied e) g := by
  have took := took_advance lex opening (by decide)
  have less := took.shorter (by decide)
  obtain ⟨-, -, opened⟩ := took
  obtain ⟨ts, derived, entered⟩ := left
  apply runs_token
  apply runs_advance lex.advance
  apply (reads _ lex.advance.advance (by rw [rest_advance lex.advance]; omega)).bind
  intro i f before read
  obtain ⟨us, place, moved⟩ := read.on lex.advance
  apply runs_expect before.lexed (by decide)
  intro g _ step
  obtain ⟨-, closing, closed⟩ := step
  refine runs_pure closed.before.lexed ⟨_, .index derived opening place closing, ?_⟩
  simpa using entered.trans (opened.trans (moved.trans closed))

theorem runs_binary {expr : Precedence → Parse Expr} {d : Cursor} {l : Expr} {level : Nat}
    (reads : ReadsClimbing expr size) (lex : d.Lexed) (fits : d.ahead.length ≤ size)
    (op : d.peek.kind ∈ Kind.ladder level) (left : c.Reads (.expr level l) d) :
    (binary expr l).Runs d.advance fun e g =>
      c.Reads (.expr level e) g ∧ g.peek.kind.precedence ≤ level + 1 := by
  have rank := Kind.precedence_of_ladder op
  have some : d.peek.kind ≠ .eof := by
    intro last
    rw [last] at rank
    exact absurd rank.2 (by simp [Kind.precedence, Precedence.lowest])
  have took := took_advance lex rfl some
  have less := took.shorter some
  obtain ⟨-, -, opened⟩ := took
  obtain ⟨ts, derived, entered⟩ := left
  apply runs_token
  apply runs_advance lex.advance
  have same : d.advance.current.kind.precedence = level + 1 := rank.2
  rw [same]
  refine (reads (level + 1) (by omega) _ lex.advance.advance
    (by rw [rest_advance lex.advance]; omega)).bind ?_
  intro r g before step
  obtain ⟨read, next⟩ := step
  obtain ⟨us, right, moved⟩ := read.on lex.advance
  rw [Nat.min_eq_left (by omega)] at right
  refine runs_pure before.lexed ⟨⟨_, .binary derived op right, ?_⟩, next⟩
  simpa using entered.trans (opened.trans moved)

theorem runs_extend {expr : Precedence → Parse Expr} {d : Cursor} {l : Expr} {p q : Nat}
    (reads : ReadsClimbing expr size) (lex : d.Lexed) (fits : d.ahead.length ≤ size)
    (fuel : d.ahead.length ≤ n) (left : ReadsRanked c q l d) (above : p < d.peek.kind.precedence) :
    (extend expr l n).Runs d.advance fun e g => ∃ q, p < q ∧ ReadsRanked c q e g := by
  -- Operators come from the tightest to the loosest, because a right side takes all that bind
  -- tighter than the operator before it.
  obtain ⟨read, bound⟩ := left
  have applied (high : 8 ≤ d.peek.kind.precedence) : c.Reads (.applied l) d := by
    have top : 8 ≤ q := by omega
    simpa [Ranked, top] using read
  have nine {e : Expr} {g : Cursor} (kind : 8 ≤ d.peek.kind.precedence)
      (h : c.Reads (.applied e) g) : ∃ q, p < q ∧ ReadsRanked c q e g := by
    have := Kind.precedence_le_nine d.peek.kind
    exact ⟨9, by omega, .of_applied h⟩
  apply runs_token
  split
  · rename_i kind
    have opening : d.peek.kind = .lparen := kind
    have high : 8 ≤ d.peek.kind.precedence := by rw [opening]; decide
    exact (runs_call reads.loosest lex fits fuel opening (applied high)).mono fun e g _ => nine high
  · rename_i kind
    have opening : d.peek.kind = .lbracket := kind
    have high : 8 ≤ d.peek.kind.precedence := by rw [opening]; decide
    exact (runs_index reads.loosest lex fits opening (applied high)).mono fun e g _ => nine high
  · rename_i call index
    obtain ⟨op, low⟩ := Kind.ladder_of_precedence call index (k := d.peek.kind) (by omega)
    obtain ⟨ts, derived, entered⟩ := read
    have lower := Ranked.lower (p := d.peek.kind.precedence - 1) (by omega) derived
    rw [Nat.min_eq_left (by omega)] at lower
    refine (runs_binary reads lex fits op ⟨ts, lower, entered⟩).mono ?_
    intro e g _ step
    obtain ⟨read, next⟩ := step
    refine ⟨d.peek.kind.precedence, above, ?_, by omega⟩
    simpa [Ranked, show ¬ 8 ≤ d.peek.kind.precedence by omega] using read

theorem runs_climb {expr : Precedence → Parse Expr} {d : Cursor} {l : Expr} {p q : Nat}
    (reads : ReadsClimbing expr size) (fits : d.ahead.length ≤ size) (fuel : d.ahead.length < n)
    (above : min p 6 < q) (left : ReadsRanked c q l d) (lex : d.Lexed) :
    (climb expr p n l).Runs d fun e g =>
      c.Reads (.expr (min p 6) e) g ∧ g.peek.kind.precedence ≤ p := by
  induction n generalizing d l q with
  | zero => omega
  | succ n ih =>
    apply runs_nextKind
    split
    · rename_i tighter
      have tighter : p < d.peek.kind.precedence := tighter
      have some : d.peek.kind ≠ .eof := by
        intro last
        rw [last] at tighter
        exact absurd tighter (by simp [Kind.precedence, Precedence.lowest])
      have less := advance_shorter some
      apply runs_advance lex
      apply (runs_extend reads lex fits (by omega) left tighter).bind
      intro e f before step
      obtain ⟨q, above, read⟩ := step
      have bound := before.ahead_lt some
      rw [rest_advance lex] at bound
      exact ih (by omega) (by omega) (by omega) read before.lexed
    · rename_i loose
      have loose : ¬ p < d.peek.kind.precedence := loose
      obtain ⟨⟨ts, derived, entered⟩, -⟩ := left
      exact runs_pure lex ⟨⟨ts, Ranked.lower above derived, entered⟩, by omega⟩

end TernLang.Parse
