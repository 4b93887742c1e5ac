import TernLang.Proofs.Syntax.Phrases
import TernLang.Proofs.Syntax.Reading

/-!
What the parsers of primary expressions answer can be derived from the tokens they passed over,
given that the parsers of their parts do so. `Parse.Runs` asks for an error with every refusal, so
it is part of this that none of them runs out of fuel.
-/
namespace TernLang

namespace Cursor

/-- From `c`, whose current token is the first, to `d` the phrase was read. -/
def Reads (c : Cursor) (ph : Phrase) (d : Cursor) : Prop := ∃ ts, Derives ph ts ∧ c.Enters ts d

def ReadsOn (c : Cursor) (ph : Phrase) (d : Cursor) : Prop := ∃ ts, Derives ph ts ∧ c.Moves ts d

variable {c d e : Cursor}

theorem Reads.on {ph : Phrase} (lex : c.Lexed) (h : c.advance.Reads ph d) : c.ReadsOn ph d := by
  obtain ⟨ts, derived, entered⟩ := h
  exact ⟨ts, derived, entered.moves lex⟩

theorem Before.ahead_lt (h : c.Before d) (some : c.current.kind ≠ .eof) :
    d.ahead.length < c.rest.length := by
  have le := h.rest_le
  rcases h.lexed.current with lexed | ⟨_, none⟩
  · rw [rest_of_kind rfl lexed.kind_ne_eof, List.length_cons] at le
    exact le
  · rw [none, rest_of_kind rfl some]
    simp

theorem Before.ahead_le (h : c.Before d) : d.ahead.length ≤ c.rest.length :=
  Nat.le_trans (ahead_suffix_rest h.lexed).length_le h.rest_le

end Cursor

namespace Parse
open Cursor
variable {c : Cursor} {size n : Nat} {expr : Parse Expr} {block : Parse Block}

theorem Took.shorter {k : Kind} {d : Cursor} (h : Took k c d) (some : k ≠ .eof) :
    d.ahead.length < c.ahead.length := by
  obtain ⟨rfl, kind, _⟩ := h
  exact advance_shorter (by rw [← kind] at some; exact some)

def ReadsExpr (expr : Parse Expr) (size : Nat) : Prop :=
  ∀ c, c.Lexed → c.rest.length ≤ size → expr.Runs c fun e d => c.Reads (.expr 0 e) d

def ReadsBlock (block : Parse Block) (size : Nat) : Prop :=
  ∀ c, c.Lexed → c.rest.length ≤ size → c.current.kind = .lbrace →
    block.Runs c fun b d => c.Reads (.block b) d

theorem runs_moreItems (reads : ReadsExpr expr size) (lex : c.Lexed) (fits : c.ahead.length ≤ size)
    (fuel : c.ahead.length < n) :
    (moreItems expr n).Runs c fun es d => c.ReadsOn (.moreItems es) d := by
  induction n generalizing c with
  | zero => omega
  | succ n ih =>
    apply runs_nextKind
    split
    · rename_i comma
      have took := took_advance lex comma (by decide)
      have less := took.shorter (by decide)
      obtain ⟨-, kind, moved⟩ := took
      apply runs_advance lex
      apply runs_advance lex.advance
      have start := rest_advance lex.advance
      apply (reads _ lex.advance.advance (by rw [start]; omega)).bind
      intro e d before read
      obtain ⟨ts, derived, first⟩ := read.on lex.advance
      have left := before.ahead_le
      rw [start] at left
      apply (ih before.lexed (by omega) (by omega)).bind
      intro es f _ step
      obtain ⟨us, rest, later⟩ := step
      exact runs_pure later.before.lexed ⟨_, .nextItem kind derived rest,
        moved.trans (first.trans later)⟩
    · exact runs_pure lex ⟨_, .lastItem, lex.moves⟩

theorem runs_items {close : Kind} (reads : ReadsExpr expr size) (lex : c.Lexed)
    (fits : c.ahead.length ≤ size) (fuel : c.ahead.length < n) (some : close ≠ .eof) :
    (items expr close n).Runs c fun es d =>
      d.current.kind = close ∧
        ∃ ts, Derives (.items es) ts ∧ c.Moves (ts ++ [d.current]) d := by
  apply runs_nextKind
  split
  · rename_i closing
    obtain ⟨-, kind, moved⟩ := took_advance lex closing some
    apply runs_advance lex
    exact runs_pure lex.advance ⟨kind, [], .noItems, moved⟩
  · apply runs_advance lex
    have start := rest_advance lex
    apply (reads _ lex.advance (by rw [start]; exact fits)).bind
    intro e d before read
    obtain ⟨ts, derived, first⟩ := read.on lex
    have left := before.ahead_le
    rw [start] at left
    apply (runs_moreItems reads before.lexed (by omega) (by omega)).bind
    intro es d _ step
    obtain ⟨us, rest, more⟩ := step
    apply runs_expect more.before.lexed some
    intro f _ step
    obtain ⟨-, kind, closing⟩ := step
    exact runs_pure closing.before.lexed ⟨kind, _, .someItems derived rest,
      (first.trans more).trans closing⟩

theorem runs_moreParameters (lex : c.Lexed) (fuel : c.ahead.length < n) :
    (moreParameters (m := Parse) n).Runs c fun is d => c.ReadsOn (.moreNames is) d := by
  induction n generalizing c with
  | zero => omega
  | succ n ih =>
    apply runs_nextKind
    split
    · rename_i comma
      have took := took_advance lex comma (by decide)
      have less := took.shorter (by decide)
      obtain ⟨-, kind, moved⟩ := took
      apply runs_advance lex
      apply runs_expect lex.advance (by decide)
      intro d before took
      have lesser := took.shorter (by decide)
      obtain ⟨-, word, named⟩ := took
      apply runs_ident
      apply (ih before.lexed (by omega)).bind
      intro is f _ step
      obtain ⟨ts, rest, later⟩ := step
      exact runs_pure later.before.lexed ⟨_, .nextName kind word rest,
        moved.trans (named.trans later)⟩
    · exact runs_pure lex ⟨_, .lastName, lex.moves⟩

theorem runs_parameters (lex : c.Lexed) (fuel : c.ahead.length < n) :
    (parameters (m := Parse) n).Runs c fun is d =>
      d.current.kind = .rparen ∧
        ∃ ts, Derives (.names is) ts ∧ c.Moves (ts ++ [d.current]) d := by
  apply runs_nextKind
  split
  · rename_i closing
    obtain ⟨-, kind, moved⟩ := took_advance lex closing (by decide)
    apply runs_advance lex
    exact runs_pure lex.advance ⟨kind, [], .noNames, moved⟩
  · apply runs_expect lex (by decide)
    intro d before took
    have less := took.shorter (by decide)
    obtain ⟨-, word, named⟩ := took
    apply runs_ident
    apply (runs_moreParameters before.lexed (by omega)).bind
    intro is d _ step
    obtain ⟨ts, rest, more⟩ := step
    apply runs_expect more.before.lexed (by decide)
    intro f _ step
    obtain ⟨-, kind, closing⟩ := step
    exact runs_pure closing.before.lexed ⟨kind, _, .someNames word rest,
      (named.trans more).trans closing⟩

theorem runs_pairs (reads : ReadsExpr expr size) (lex : c.Lexed) (fits : c.ahead.length ≤ size)
    (fuel : c.ahead.length < n) :
    (pairs expr n).Runs c fun ps d => c.ReadsOn (.pairs ps) d := by
  induction n generalizing c with
  | zero => omega
  | succ n ih =>
    apply runs_nextKind
    split
    · exact runs_pure lex ⟨_, .noPairs, lex.moves⟩
    · apply runs_advance lex
      have start := rest_advance lex
      apply (reads _ lex.advance (by rw [start]; exact fits)).bind
      intro key d keyBefore read
      obtain ⟨ts, keyDerived, first⟩ := read.on lex
      have keyLeft := keyBefore.ahead_le
      rw [start] at keyLeft
      apply runs_expect keyBefore.lexed (by decide)
      intro e before took
      have less := took.shorter (by decide)
      obtain ⟨-, colon, separated⟩ := took
      apply runs_advance before.lexed
      have valueStart := rest_advance before.lexed
      apply (reads _ before.lexed.advance (by rw [valueStart]; omega)).bind
      intro value f valueBefore read
      obtain ⟨us, valueDerived, second⟩ := read.on before.lexed
      have valueLeft := valueBefore.ahead_le
      rw [valueStart] at valueLeft
      apply runs_nextKind
      split
      · exact runs_pure valueBefore.lexed ⟨_, .lastPair keyDerived colon valueDerived,
          first.trans (separated.trans second)⟩
      · apply runs_expect valueBefore.lexed (by decide)
        intro g gBefore took
        have lesser := took.shorter (by decide)
        obtain ⟨-, comma, ended⟩ := took
        apply (ih gBefore.lexed (by omega) (by omega)).bind
        intro ps h _ step
        obtain ⟨vs, rest, third⟩ := step
        exact runs_pure third.before.lexed ⟨_, .nextPair keyDerived colon valueDerived comma rest,
          (first.trans (separated.trans second)).trans (ended.trans third)⟩

theorem runs_grouped (reads : ReadsExpr expr size) (lex : c.Lexed) (fits : c.ahead.length ≤ size)
    (opening : c.current.kind = .lparen) :
    (grouped expr).Runs c fun e d => c.Reads (.applied e) d := by
  apply runs_advance lex
  apply (reads _ lex.advance (by rw [rest_advance lex]; exact fits)).bind
  intro e d before read
  obtain ⟨ts, derived, inner⟩ := read.on lex
  apply runs_expect before.lexed (by decide)
  intro f _ step
  obtain ⟨-, closing, took⟩ := step
  exact runs_pure took.before.lexed ⟨_, .atom (.grouped opening derived closing),
    (inner.trans took).enters lex (by simp [opening])⟩

theorem runs_array (reads : ReadsExpr expr size) (lex : c.Lexed) (fits : c.ahead.length ≤ size)
    (fuel : c.ahead.length < n) (opening : c.current.kind = .lbracket) :
    (array expr n).Runs c fun e d => c.Reads (.applied e) d := by
  apply runs_token
  apply (runs_items reads lex fits fuel (by decide)).bind
  intro es d _ step
  obtain ⟨closing, ts, derived, moved⟩ := step
  exact runs_pure moved.before.lexed ⟨_, .atom (.array opening derived closing),
    moved.enters lex (by simp [opening])⟩

theorem runs_hash (reads : ReadsExpr expr size) (lex : c.Lexed) (fits : c.ahead.length ≤ size)
    (fuel : c.ahead.length < n) (opening : c.current.kind = .lbrace) :
    (hash expr n).Runs c fun e d => c.Reads (.applied e) d := by
  apply runs_token
  apply (runs_pairs reads lex fits fuel).bind
  intro ps d _ step
  obtain ⟨ts, derived, moved⟩ := step
  apply runs_expect moved.before.lexed (by decide)
  intro f _ step
  obtain ⟨-, closing, took⟩ := step
  exact runs_pure took.before.lexed ⟨_, .atom (.hash opening derived closing),
    (moved.trans took).enters lex (by simp [opening])⟩

theorem runs_expectBlock (reads : ReadsBlock block size) (lex : c.Lexed)
    (fits : c.ahead.length ≤ size) {α : Type} {f : Block → Parse α} {P : α → Cursor → Prop}
    (next : ∀ b d, c.ReadsOn (.block b) d → (f b).Runs d P) :
    (do expect .lbrace; let b ← block; f b : Parse α).Runs c P := by
  apply runs_expect lex (by decide)
  intro d before step
  obtain ⟨rfl, opening, -⟩ := step
  apply (reads _ before.lexed (by rw [rest_advance lex]; exact fits) opening).bind
  exact fun b d _ read => next b d (read.on lex)

theorem runs_loop (reads : ReadsBlock block size) (lex : c.Lexed) (fits : c.ahead.length ≤ size)
    (word : c.current.kind = .loopWord) :
    (loop block).Runs c fun e d => c.Reads (.applied e) d := by
  apply runs_token
  refine runs_expectBlock reads lex fits ?_
  intro b d step
  obtain ⟨ts, derived, moved⟩ := step
  exact runs_pure moved.before.lexed ⟨_, .atom (.loop word derived),
    moved.enters lex (by simp [word])⟩

theorem runs_function (reads : ReadsBlock block size) (lex : c.Lexed) (fits : c.ahead.length ≤ size)
    (fuel : c.ahead.length < n) (word : c.current.kind = .fnWord) :
    (function block n).Runs c fun e d => c.Reads (.applied e) d := by
  apply runs_token
  apply runs_expect lex (by decide)
  intro d before took
  have less := took.shorter (by decide)
  obtain ⟨-, opening, opened⟩ := took
  apply (runs_parameters before.lexed (by omega)).bind
  intro is e after step
  obtain ⟨closing, ts, names, listed⟩ := step
  have left := (opened.trans listed).before.ahead_lt (by simp [word])
  have whole := rest_of_kind word (by decide)
  refine runs_expectBlock reads after.lexed (by rw [whole, List.length_cons] at left; omega) ?_
  intro b f step
  obtain ⟨us, body, moved⟩ := step
  refine runs_pure moved.before.lexed ⟨_, .atom (.fn word opening names closing body), ?_⟩
  simpa using (opened.trans (listed.trans moved)).enters lex (by simp [word])

theorem runs_alternative (reads : ReadsBlock block size) (lex : c.Lexed)
    (fits : c.ahead.length ≤ size) :
    (alternative block).Runs c fun a d => none = a ∧ c = d ∨
      ∃ b t ts, a = some b ∧ t.kind = .elseWord ∧ Derives (.block b) ts ∧ c.Moves (t :: ts) d := by
  apply runs_nextKind
  split
  · rename_i other
    have took := took_advance lex other (by decide)
    have less := took.shorter (by decide)
    obtain ⟨-, kind, moved⟩ := took
    apply runs_advance lex
    refine runs_expectBlock reads lex.advance (by omega) ?_
    intro b d step
    obtain ⟨ts, derived, later⟩ := step
    exact runs_pure later.before.lexed (.inr ⟨b, _, ts, rfl, kind, derived, moved.trans later⟩)
  · exact runs_pure lex (.inl ⟨rfl, rfl⟩)

theorem runs_cond (reads : ReadsExpr expr size) (blocks : ReadsBlock block size) (lex : c.Lexed)
    (fits : c.ahead.length ≤ size) (word : c.current.kind = .ifWord) :
    (cond expr block).Runs c fun e d => c.Reads (.applied e) d := by
  have whole := rest_of_kind word (by decide)
  apply runs_token
  apply runs_expect lex (by decide)
  intro o before took
  have less := took.shorter (by decide)
  obtain ⟨-, opening, opened⟩ := took
  apply runs_advance before.lexed
  have start := rest_advance before.lexed
  apply (reads _ before.lexed.advance (by rw [start]; omega)).bind
  intro e d before' read
  obtain ⟨ts, condition, tested⟩ := read.on before.lexed
  apply runs_expect before'.lexed (by decide)
  intro p before'' step
  obtain ⟨-, closing, closed⟩ := step
  have read := opened.trans (tested.trans closed)
  have left := read.before.ahead_lt (by simp [word])
  rw [whole, List.length_cons] at left
  refine runs_expectBlock blocks before''.lexed (by omega) ?_
  intro b f step
  obtain ⟨us, consequence, first⟩ := step
  have left := (read.trans first).before.ahead_lt (by simp [word])
  rw [whole, List.length_cons] at left
  apply (runs_alternative blocks first.before.lexed (by omega)).bind
  intro a g after step
  rcases step with ⟨rfl, rfl⟩ | ⟨b', w, vs, rfl, other, alternative, second⟩
  · refine runs_pure first.before.lexed
      ⟨_, .atom (.cond word opening condition closing consequence), ?_⟩
    simpa using (read.trans first).enters lex (by simp [word])
  · refine runs_pure second.before.lexed
      ⟨_, .atom (.condElse word opening condition closing consequence other alternative), ?_⟩
    simpa using (read.trans (first.trans second)).enters lex (by simp [word])

theorem integerOf?_numeral {t : Token} {m : Nat} (kind : t.kind = .int)
    (h : integerOf? t.literal = some m) : IsNumeral t m := by
  unfold integerOf? at h
  split at h
  · rename_i small
    simp only [Option.some.injEq] at h
    exact ⟨kind, small.1, h, h ▸ small.2⟩
  · simp at h

theorem runs_integer (lex : c.Lexed) (kind : c.current.kind = .int) :
    integer.Runs c fun i d => (∃ m : Nat, IsNumeral c.current m ∧ ⟨c.current, m⟩ = i) ∧ c = d := by
  apply runs_token
  split
  · rename_i m value
    exact runs_pure lex ⟨⟨m, integerOf?_numeral kind value, rfl⟩, rfl⟩
  · exact runs_fail lex _

theorem reads_current {e : Expr} (lex : c.Lexed) (some : c.current.kind ≠ .eof)
    (derived : Derives (.primary e) [c.current]) : c.Reads (.applied e) c :=
  ⟨_, .atom derived, lex.moves.enters lex some⟩

end Parse
end TernLang
