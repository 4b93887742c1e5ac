import TernLang.Proofs.Syntax.ClimbingSoundness

/-!
What the parsers of statements answer can be derived. If nothing was refused it is derived from the
very tokens that were passed over; otherwise from those that would be left without the broken
statements.
-/
namespace TernLang
namespace Parse
open Cursor
variable {c : Cursor} {size n : Nat}

def ReadsSentence (c : Cursor) (s : Stmt) (d : Cursor) : Prop :=
  ∃ ts, Derives (.sentence s) ts ∧
    ((∃ t, t.kind = .semicolon ∧ c.Enters (ts ++ [t]) d) ∨
      c.Enters ts d ∧ (s.EndsInExpr → ¬ d.peek.kind.Continues))

theorem runs_stop {d : Cursor} {s : Stmt} {ts : List Token} (derived : Derives (.sentence s) ts)
    (entered : c.Enters ts d) (apart : s.EndsInExpr → d.peek.kind.precedence ≤ 0) :
    (do skip .semicolon; pure s : Parse Stmt).Runs d fun s e => ReadsSentence c s e := by
  apply runs_skip entered.before.lexed (by decide)
  · intro e took
    obtain ⟨-, stop, moved⟩ := took
    exact runs_pure moved.before.lexed ⟨ts, derived, .inl ⟨_, stop, entered.trans moved⟩⟩
  · intro _
    refine runs_pure entered.before.lexed ⟨ts, derived, .inr ⟨entered, fun ends more => ?_⟩⟩
    have := (Kind.continues_iff _).mp more
    have := apart ends
    omega

theorem runs_bindStatement {expr : Precedence → Parse Expr} (reads : ReadsClimbing expr size)
    (lex : c.Lexed) (fits : c.rest.length ≤ size) (word : c.current.kind = .letWord) :
    (bindStatement (expr .lowest)).Runs c fun s d => ReadsSentence c s d := by
  have whole := rest_of_kind word (by decide)
  rw [whole, List.length_cons] at fits
  apply runs_token
  apply runs_expect lex (by decide)
  intro i before took
  have less := took.shorter (by decide)
  obtain ⟨-, name, named⟩ := took
  apply runs_ident
  apply runs_expect before.lexed (by decide)
  intro a before' took
  have lesser := took.shorter (by decide)
  obtain ⟨-, assign, assigned⟩ := took
  apply runs_advance before'.lexed
  refine (reads 0 (by omega) _ before'.lexed.advance
    (by rw [rest_advance before'.lexed]; omega)).bind ?_
  intro e f _ step
  obtain ⟨read, next⟩ := step
  obtain ⟨ts, value, moved⟩ := read.on before'.lexed
  exact runs_stop (.bind word name assign value)
    ((named.trans (assigned.trans moved)).enters lex (by simp [word])) fun _ => next

theorem runs_returnStatement {expr : Precedence → Parse Expr} (reads : ReadsClimbing expr size)
    (lex : c.Lexed) (fits : c.rest.length ≤ size) (word : c.current.kind = .returnWord) :
    (returnStatement (expr .lowest)).Runs c fun s d => ReadsSentence c s d := by
  apply runs_token
  apply runs_advance lex
  refine (reads 0 (by omega) _ lex.advance
    (Nat.le_trans (before_advance lex).rest_le fits)).bind ?_
  intro e f _ step
  obtain ⟨read, next⟩ := step
  obtain ⟨ts, value, moved⟩ := read.on lex
  exact runs_stop (.ret word value) (moved.enters lex (by simp [word])) fun _ => next

theorem runs_importStatement (lex : c.Lexed) (word : c.current.kind = .importWord) :
    (importStatement (m := Parse)).Runs c fun s d => ReadsSentence c s d := by
  apply runs_token
  apply runs_expect lex (by decide)
  intro p before step
  obtain ⟨-, path, moved⟩ := step
  apply runs_string
  exact runs_stop (.load word path) (moved.enters lex (by simp [word])) False.elim

theorem runs_exitStatement (lex : c.Lexed) (word : c.current.kind = .exitWord) :
    (exitStatement (m := Parse)).Runs c fun s d => ReadsSentence c s d := by
  apply runs_token
  apply runs_expect lex (by decide)
  intro p before step
  obtain ⟨-, code, moved⟩ := step
  apply (runs_integer before.lexed code).bind
  intro i e _ step
  obtain ⟨⟨m, numeral, rfl⟩, rfl⟩ := step
  exact runs_stop (.exit word numeral) (moved.enters lex (by simp [word])) False.elim

theorem runs_breakStatement (lex : c.Lexed) (word : c.current.kind = .breakWord) :
    (breakStatement (m := Parse)).Runs c fun s d => ReadsSentence c s d := by
  apply runs_token
  exact runs_stop (.brk word) (lex.moves.enters lex (by simp [word])) False.elim

theorem runs_expressionStatement {expr : Precedence → Parse Expr} (reads : ReadsClimbing expr size)
    (lex : c.Lexed) (fits : c.rest.length ≤ size) :
    (expressionStatement (expr .lowest)).Runs c fun s d => ReadsSentence c s d := by
  apply runs_token
  apply (reads 0 (by omega) _ lex fits).bind
  intro e f _ step
  obtain ⟨⟨ts, derived, entered⟩, next⟩ := step
  obtain ⟨us, rfl⟩ := entered.first
  exact runs_stop (.expr derived) entered fun _ => next

theorem runs_statementForm {expr : Precedence → Parse Expr} (reads : ReadsClimbing expr size)
    (lex : c.Lexed) (fits : c.rest.length ≤ size) :
    (statementForm (expr .lowest)).Runs c fun s d => ReadsSentence c s d := by
  apply runs_token
  split
  · rename_i word
    exact runs_bindStatement reads lex fits word
  · rename_i word
    exact runs_returnStatement reads lex fits word
  · rename_i word
    exact runs_importStatement lex word
  · rename_i word
    exact runs_exitStatement lex word
  · rename_i word
    exact runs_breakStatement lex word
  · exact runs_expressionStatement reads lex fits

/-- The parser reads a statement or gives one up, which leaves an error. -/
def ReadsStatement (stmt : Parse Stmt) (size : Nat) : Prop :=
  ∀ c, c.Lexed → c.rest.length ≤ size → (attempt stmt).Runs c fun s d =>
    match s with
    | some s => ReadsSentence c s d
    | none => d.errors ≠ c.errors

theorem excess_giveUp (c : Cursor) : c.giveUp.excess = c.excess - 1 := by
  have same := skipBroken_counts c
  simp only [excess, giveUp, same.1]
  omega

theorem runs_recovering {p : Parse Stmt} {P : Stmt → Cursor → Prop} (h : p.Runs c P) :
    (attempt (recovering p)).Runs c fun s d =>
      match s with
      | some s => P s d
      | none => d.errors ≠ c.errors := by
  unfold Runs at h
  unfold Runs attempt recovering
  rcases run : p c with ⟨_ | s, d⟩
  · rw [run] at h
    obtain ⟨before, level⟩ := h
    have left := before_giveUp before.lexed
    have given := excess_giveUp d
    refine ⟨before.trans left, by omega, fun same => ?_⟩
    have fewer := (before.trans left).dropped
    have more : d.giveUp.dropped = d.dropped + 1 := rfl
    have := before.dropped
    simp only [excess] at level
    have := (before.errors_eq left same).2
    rw [this] at level
    omega
  · rw [run] at h
    exact h

theorem kind_of_closesBlock {d : Cursor} (h : d.closesBlock = true) : d.current.kind = .rbrace := by
  unfold Cursor.closesBlock at h
  split at h
  · simp at h
  · simp only [Bool.and_eq_true, decide_eq_true_eq] at h
    exact h.1

def ReadsBody (c : Cursor) (ss : List Stmt) (d : Cursor) : Prop :=
  d.current.kind = .rbrace ∧
    ∃ ts, Derives (.statements ss) ts ∧ (∀ t ∈ ts, t.Lexed) ∧
      (d.errors = c.errors → c.rest = ts ++ d.rest)

theorem semicolon_lexed : (Token.symbol .semicolon).Lexed := .single (c := ';') rfl

theorem statements_cons {c d e : Cursor} {s : Stmt} {ss : List Stmt} {us : List Token}
    (after : List Token) (read : ReadsSentence c s d) (rest : Derives (.statements ss) us)
    (lexed : ∀ t ∈ us, t.Lexed)
    (later : d.Before e) (clean : e.errors = d.errors → d.ahead = us ++ after) :
    ∃ ts, Derives (.statements (s :: ss)) ts ∧ (∀ t ∈ ts, t.Lexed) ∧
      (e.errors = c.errors → c.rest = ts ++ after) := by
  obtain ⟨ts, derived, ⟨t, stop, entered⟩ | ⟨entered, apart⟩⟩ := read
  · refine ⟨ts ++ t :: us, .closed derived stop rest, ?_, fun same => ?_⟩
    · intro u member
      rcases List.mem_append.mp (List.append_cons .. ▸ member) with first | second
      · exact entered.lexed u first
      · exact lexed u second
    · obtain ⟨last, first⟩ := entered.before.errors_eq later same
      rw [entered.clean first, clean last]
      simp
  · by_cases same : e.errors = c.errors
    · obtain ⟨last, first⟩ := entered.before.errors_eq later same
      refine ⟨ts ++ us, .joined derived rest fun ends t member => ?_, ?_, fun _ => ?_⟩
      · have next : d.peek = t := by
          obtain ⟨vs, rfl⟩ := List.head?_eq_some_iff.mp member
          simp [peek, clean last]
        exact next ▸ apart ends
      · intro u member
        rcases List.mem_append.mp member with first | second
        · exact entered.lexed u first
        · exact lexed u second
      · rw [entered.clean first, clean last, List.append_assoc]
    · refine ⟨ts ++ Token.symbol .semicolon :: us, .closed derived rfl rest, ?_,
        fun h => absurd h same⟩
      intro u member
      rcases List.mem_append.mp member with first | second
      · exact entered.lexed u first
      · rcases List.mem_cons.mp second with rfl | second
        · exact semicolon_lexed
        · exact lexed u second

theorem runs_statements {stmt : Parse Stmt} (reads : ReadsStatement stmt size) (lex : c.Lexed)
    (fits : c.rest.length ≤ size) (fuel : c.rest.length < n) :
    (statements stmt n).Runs c fun ss d => ReadsBody c ss d := by
  induction n generalizing c with
  | zero => omega
  | succ n ih =>
    apply runs_token
    split
    · rename_i closing
      exact runs_pure lex ⟨closing, [], .noStatements, by simp, fun _ => rfl⟩
    · split
      · exact runs_fail lex _
      · rename_i inner some
        apply (reads _ lex fits).bind
        intro s e before read
        have left := before.ahead_lt some
        refine Runs.bind (P := fun b f => e.closesBlock = b ∧ e = f)
          ⟨before.lexed.refl, rfl, rfl, rfl⟩ ?_
        intro ended f _ step
        obtain ⟨rfl, rfl⟩ := step
        split
        · rename_i lost
          simp only [Bool.and_eq_true, Option.isNone_iff_eq_none] at lost
          obtain ⟨rfl, ended⟩ := lost
          exact runs_pure before.lexed
            ⟨kind_of_closesBlock ended, [], .noStatements, by simp, fun same => absurd same read⟩
        · apply runs_advance before.lexed
          have start := rest_advance before.lexed
          apply (ih before.lexed.advance (by rw [start]; omega) (by rw [start]; omega)).bind
          intro ss g after step
          obtain ⟨closing, us, rest, lexed, clean⟩ := step
          have later := (before_advance before.lexed).trans after
          refine runs_pure after.lexed ⟨closing, ?_⟩
          cases s with
          | some s => exact statements_cons _ read rest lexed later fun same => start ▸ clean same
          | none =>
            refine ⟨us, rest, lexed, fun same => ?_⟩
            exact absurd (before.errors_eq later same).2 read

theorem runs_block {stmt : Parse Stmt} (reads : ReadsStatement stmt size) (lex : c.Lexed)
    (fits : c.ahead.length ≤ size) (fuel : c.ahead.length < n)
    (opening : c.current.kind = .lbrace) :
    (do
      let t ← token
      let ss ← inBlock (do advance; statements stmt n)
      pure (.mk t ss) : Parse Block).Runs c fun b d => c.Reads (.block b) d := by
  have start := rest_advance lex
  have inside : c.enterBlock.Lexed := ⟨lex.ahead, lex.current⟩
  have body : (do advance; statements stmt n : Parse (List Stmt)).Runs c.enterBlock
      fun ss d => ReadsBody c.enterBlock.advance ss d := by
    apply runs_advance inside
    have same : c.enterBlock.advance.rest = c.ahead := rest_advance inside
    exact runs_statements reads inside.advance (by rw [same]; exact fits) (by rw [same]; exact fuel)
  apply runs_token
  apply (runs_inBlock body).bind
  intro ss e before step
  obtain ⟨f, rfl, inner, closing, ts, derived, lexed, clean⟩ := step
  have last : f.rest = f.current :: f.ahead := rest_of_kind closing (by decide)
  refine runs_pure before.lexed ⟨_, .block opening derived closing, before, ?_, ⟨_, rfl⟩, ?_⟩
  · intro u member
    simp only [List.cons_append, List.mem_cons, List.mem_append, List.not_mem_nil,
      or_false] at member
    rcases member with rfl | member | rfl
    · exact lex.current_lexed (by simp [opening])
    · exact lexed u member
    · exact inner.lexed.current_lexed (by simp [closing])
  · intro same
    have read : c.ahead = ts ++ f.rest := (rest_advance inside).symm.trans (clean same)
    rw [rest_of_kind opening (by decide), read, last]
    simp [leaveBlock]

theorem reads_all (n : Nat) :
    (∀ size, 2 * size + 2 ≤ n → ReadsClimbing (expression n) size) ∧
      (∀ size, 2 * size + 2 ≤ n → ReadsBlock (Parse.block n) size) ∧
        ∀ size, 2 * size + 3 ≤ n → ReadsStatement (statement n) size := by
  -- A level of nesting costs at most two of the fuel for every token.
  induction n with
  | zero => exact ⟨fun _ h => by omega, fun _ h => by omega, fun _ h => by omega⟩
  | succ n ih =>
    obtain ⟨exprs, blocks, stmts⟩ := ih
    refine ⟨?_, ?_, ?_⟩
    · intro size enough p low c lex fits
      by_cases last : c.current.kind = .eof
      · refine Runs.bind (P := fun _ _ => False) ?_ fun _ _ _ => False.elim
        apply runs_token
        simp only [last]
        exact runs_fail lex _
      · rw [rest_of_kind rfl last, List.length_cons] at fits
        have inner := exprs c.ahead.length (by omega)
        have bodies := blocks c.ahead.length (by omega)
        apply (runs_operand inner bodies lex (Nat.le_refl _) (by omega)).bind
        intro l d before step
        obtain ⟨q, high, read⟩ := step
        have left := before.ahead_lt last
        rw [rest_of_kind rfl last, List.length_cons] at left
        exact runs_climb inner (by omega) (by omega) (by omega) read before.lexed
    · intro size enough c lex fits opening
      rw [rest_of_kind opening (by decide), List.length_cons] at fits
      exact runs_block (stmts c.ahead.length (by omega)) lex (Nat.le_refl _) (by omega) opening
    · intro size enough c lex fits
      exact runs_recovering (runs_statementForm (exprs size (by omega)) lex fits)

end Parse

open Cursor

/-- At the end of the text the statements can be derived, and there is an error for each that was
given up. -/
theorem topLevel_sound {depth n : Nat} {c d : Cursor} {ss : List Stmt} (lex : c.Lexed)
    (deep : 2 * c.rest.length + 3 ≤ depth) (fuel : c.rest.length < n)
    (run : topLevel depth n c = (ss, d)) :
    c.Before d ∧ d.excess = c.excess ∧ d.current.kind = .eof ∧
      ∃ ts, Derives (.statements ss) ts ∧ (∀ t ∈ ts, t.Lexed) ∧
        (d.errors = c.errors → c.rest = ts) := by
  induction n generalizing c ss d with
  | zero => omega
  | succ n ih =>
    rw [topLevel] at run
    split at run
    · rename_i last
      simp only [Prod.mk.injEq] at run
      obtain ⟨rfl, rfl⟩ := run
      exact ⟨lex.refl, rfl, last, [], .noStatements, by simp, fun _ => by simp [Cursor.rest, last]⟩
    · rename_i some
      have reads := (Parse.reads_all depth).2.2 _ deep c lex (Nat.le_refl _)
      unfold Parse.Runs Parse.attempt at reads
      rcases step : Parse.statement depth c with ⟨s, e⟩
      rcases rest : topLevel depth n e.advance with ⟨ss', f⟩
      rw [step] at reads run
      simp only [rest, Prod.mk.injEq] at run
      obtain ⟨rfl, rfl⟩ := run
      obtain ⟨before, level, read⟩ := reads
      have left := before.ahead_lt some
      have start := rest_advance before.lexed
      obtain ⟨after, level', last, us, derived, lexed, clean⟩ :=
        ih before.lexed.advance (by rw [start]; omega) (by rw [start]; omega) rest
      have later := (before_advance before.lexed).trans after
      refine ⟨before.trans later, ?_, last, ?_⟩
      · rw [level', ← level]
        rfl
      · cases s with
        | some s =>
          have := Parse.statements_cons [] read derived lexed later fun same => by
            rw [← start, clean same, List.append_nil]
          simpa using this
        | none =>
          exact ⟨us, derived, lexed, fun same => absurd (before.errors_eq later same).2 read⟩

end TernLang
