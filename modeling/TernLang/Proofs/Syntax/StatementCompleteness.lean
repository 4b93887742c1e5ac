import TernLang.Proofs.Syntax.ExpressionCompleteness

/-!
Statements that can be derived are read, and nothing is reported. With this there is a lemma for
each rule of the grammar, so every phrase is read by its parser.
-/
namespace TernLang.Parse
open Cursor
variable {α : Type} {a : α}
variable {c : Cursor} {e : Expr} {t u : Token} {ts us after : List Token} {n q level : Nat}
  {k : Kind}

theorem answers_inBlock {p : Parse α} (h : p.Answers c.enterBlock a after) :
    (inBlock p).Answers c a after := by
  obtain ⟨d, run, ahead, same⟩ := h
  refine ⟨d.leaveBlock, ?_, ahead, same⟩
  unfold inBlock
  rw [run]

theorem accepts_block {ss : List Stmt} (h : Accepts (.statements ss) ts)
    (closing : u.kind = .rbrace) : Accepts (.block (.mk t ss)) (t :: ts ++ [u]) := by
  intro n c after fuel here
  simp only [List.length_append, List.length_cons, List.length_nil] at fuel
  simp only [List.cons_append, List.append_assoc, List.nil_append, List.cons.injEq] at here
  obtain ⟨here, ahead⟩ := here
  obtain ⟨n, rfl⟩ := Nat.exists_eq_succ_of_ne_zero (show n ≠ 0 by omega)
  apply answers_token
  rw [here]
  refine (answers_inBlock ?_).bind fun d ahead => answers_pure ahead
  refine answers_go ahead (by simp) fun d here => ?_
  exact h n n d u after (by omega) (by omega) closing here

theorem answers_statement {s : Stmt}
    (h : (statementForm (expression n .lowest)).Answers c s after) :
    (statement (n + 1)).Answers c s after := by
  obtain ⟨d, run, rest⟩ := h
  refine ⟨d, ?_, rest⟩
  rw [statement, recovering, run]

theorem accepts_sentence {s : Stmt} (h : ∀ n c after, 4 * ts.length + 6 ≤ n → c.current = t →
      c.ahead = ts ++ after → Stops 9 after → (s.EndsInExpr → Stops 0 after) →
      (statementForm (expression n .lowest)).Answers c s (afterStop after)) :
    Accepts (.sentence s) (t :: ts) := by
  intro n c after fuel here apart ends
  simp only [List.length_cons] at fuel
  simp only [List.cons_append, List.cons.injEq] at here
  obtain ⟨n, rfl⟩ := Nat.exists_eq_succ_of_ne_zero (show n ≠ 0 by omega)
  exact answers_statement (h n c after (by omega) here.1 here.2 apart ends)

theorem accepts_bind {i o : Token} (word : t.kind = .letWord) (name : i.kind = .ident)
    (assign : o.kind = .assign) (derived : Derives (.expr 0 e) ts)
    (value : Accepts (.expr 0 e) ts) :
    Accepts (.sentence (.bind t ⟨i, i.literal⟩ e)) (t :: i :: o :: ts) := by
  apply accepts_sentence
  intro n c after fuel here ahead _ ends
  simp only [List.length_cons] at fuel
  apply answers_token
  simp only [here, word]
  apply answers_token
  rw [here]
  apply answers_expect ahead name
  intro d here ahead
  apply answers_ident here
  apply answers_expect ahead assign
  intro d _ ahead
  apply answers_enter ahead derived.begins
  intro d here
  exact (accepts_loosest value (by omega) here (ends trivial)).bind
    fun d ahead => answers_stop _ ahead

theorem accepts_ret (word : t.kind = .returnWord) (derived : Derives (.expr 0 e) ts)
    (value : Accepts (.expr 0 e) ts) : Accepts (.sentence (.ret t e)) (t :: ts) := by
  apply accepts_sentence
  intro n c after fuel here ahead _ ends
  apply answers_token
  simp only [here, word]
  apply answers_token
  rw [here]
  apply answers_enter ahead derived.begins
  intro d here
  exact (accepts_loosest value (by omega) here (ends trivial)).bind
    fun d ahead => answers_stop _ ahead

theorem answers_string {f : StrLit → Parse α} {a : α} (here : c.current = t)
    (h : (f ⟨t, t.literal⟩).Answers c a after) : (string >>= f).Answers c a after := by
  subst here
  exact h

theorem accepts_load (word : t.kind = .importWord) (path : u.kind = .string) :
    Accepts (.sentence (.load t ⟨u, u.literal⟩)) [t, u] := by
  apply accepts_sentence
  intro n c after _ here ahead _ _
  apply answers_token
  simp only [here, word]
  apply answers_token
  rw [here]
  apply answers_expect ahead path
  intro d here ahead
  exact answers_string here (answers_stop _ ahead)

theorem accepts_exit {m : Nat} (word : t.kind = .exitWord) (code : IsNumeral u m) :
    Accepts (.sentence (.exit t ⟨u, m⟩)) [t, u] := by
  apply accepts_sentence
  intro n c after _ here ahead _ _
  apply answers_token
  simp only [here, word]
  apply answers_token
  rw [here]
  apply answers_expect ahead code.1
  intro d here ahead
  exact (answers_integer here ahead code).bind fun d ahead => answers_stop _ ahead

theorem accepts_brk (word : t.kind = .breakWord) : Accepts (.sentence (.brk t)) [t] := by
  apply accepts_sentence
  intro n c after _ here ahead _ _
  apply answers_token
  simp only [here, word]
  apply answers_token
  rw [here]
  exact answers_stop _ ahead

theorem accepts_expr (derived : Derives (.expr 0 e) (t :: ts))
    (value : Accepts (.expr 0 e) (t :: ts)) :
    Accepts (.sentence (.expr t e)) (t :: ts) := by
  apply accepts_sentence
  intro n c after fuel here ahead _ ends
  obtain ⟨t', us, same, starts⟩ := derived.begins
  obtain ⟨rfl, rfl⟩ := List.cons.inj same
  have form : (expressionStatement (expression n .lowest)).Answers c (.expr t e)
      (afterStop after) := by
    apply answers_token
    rw [here]
    exact (accepts_loosest value (by simp only [List.length_cons]; omega)
      (by rw [here, ahead]; rfl) (ends trivial)).bind fun d ahead => answers_stop _ ahead
  apply answers_token
  rw [here]
  split <;> first | exact form | (rename_i kind; simp [kind, Kind.StartsExpr] at starts)

theorem stops_statements {ss : List Stmt} (derived : Derives (.statements ss) us)
    (tail : Stops 0 after) : Stops 9 (us ++ after) := by
  have starts := derived.begins
  cases us with
  | nil => exact tail.mono (Nat.zero_le 9)
  | cons t us =>
    refine ⟨Kind.precedence_le_nine _, fun other => ?_⟩
    have first := starts t (by simp)
    simp only [List.cons_append, List.headD_cons] at other
    simp [other, Kind.StartsSentence, Kind.StartsExpr] at first

theorem stops_joined {s : Stmt} {ss : List Stmt} (derived : Derives (.statements ss) us)
    (tail : Stops 0 after) (apart : s.EndsInExpr → ∀ t ∈ us.head?, ¬ t.kind.Continues) :
    s.EndsInExpr → Stops 0 (us ++ after) := by
  intro ends
  have stops := stops_statements derived tail
  cases us with
  | nil => exact tail
  | cons t us =>
    have loose : ¬ 0 < t.kind.precedence := fun some =>
      apart ends t (by simp) ((Kind.continues_iff t.kind).mpr some)
    exact ⟨Nat.le_of_not_lt loose, stops.noElse⟩

theorem afterStop_statements {ss : List Stmt} (derived : Derives (.statements ss) us)
    (tail : afterStop after = after) : afterStop (us ++ after) = us ++ after := by
  have starts := derived.begins
  cases us with
  | nil => exact tail
  | cons t us =>
    have first := starts t (by simp)
    have other : t.kind ≠ .semicolon := fun same => by
      simp [same, Kind.StartsSentence, Kind.StartsExpr] at first
    simp [afterStop, other]

theorem accepts_noStatements : Accepts (.statements []) [] := by
  intro n m c u after _ loops closing here
  simp only [List.nil_append, List.cons.injEq] at here
  obtain ⟨m, rfl⟩ := Nat.exists_eq_succ_of_ne_zero (Nat.pos_iff_ne_zero.mp loops)
  apply answers_token
  rw [here.1, if_pos closing]
  exact answers_pure here.2

theorem answers_statements {m : Nat} {s : Stmt} {ss : List Stmt} {mid : List Token}
    (starts : c.current.kind.StartsSentence) (first : (statement n).Answers c s mid)
    (some : mid ≠ []) (later : ∀ d : Cursor, d.current :: d.ahead = mid →
      (statements (statement n) m).Answers d ss after) :
    (statements (statement n) (m + 1)).Answers c (s :: ss) after := by
  have inner : c.current.kind ≠ .rbrace := fun same => by
    simp [same, Kind.StartsSentence, Kind.StartsExpr] at starts
  have more : c.current.kind ≠ .eof := fun same => by
    simp [same, Kind.StartsSentence, Kind.StartsExpr] at starts
  obtain ⟨d, run, ahead, same⟩ := first
  have tried : (attempt (statement n)).Answers c (.some s) mid :=
    ⟨d, by rw [attempt, run], ahead, same⟩
  apply answers_token
  rw [if_neg inner, if_neg more]
  apply tried.bind
  intro d ahead
  refine Answers.bind (a := d.closesBlock) ⟨d, rfl, ahead, rfl⟩ fun d ahead => ?_
  apply answers_go ahead some
  intro e here
  exact (later e here).bind fun f ahead => answers_pure ahead

theorem accepts_closed {s : Stmt} {ss : List Stmt} (derived : Derives (.sentence s) ts)
    (first : Accepts (.sentence s) ts) (stop : t.kind = .semicolon)
    (rest : Accepts (.statements ss) us) : Accepts (.statements (s :: ss)) (ts ++ t :: us) := by
  intro n m c u after fuel loops closing here
  simp only [List.length_append, List.length_cons] at fuel loops
  obtain ⟨m, rfl⟩ := Nat.exists_eq_succ_of_ne_zero (show m ≠ 0 by omega)
  obtain ⟨t', vs, rfl, starts⟩ := derived.begins
  have stops := stops_at (us ++ u :: after) stop rfl (by decide)
  have read := first n c (t :: us ++ u :: after) (by omega) (by simpa using here)
    (stops.mono (Nat.zero_le 9)) fun _ => stops
  rw [List.cons_append, afterStop, if_pos stop] at read
  simp only [List.cons_append, List.cons.injEq] at here
  apply answers_statements (here.1 ▸ starts) read (by simp)
  intro d here
  exact rest n m d u after (by omega) (by omega) closing here

theorem accepts_joined {s : Stmt} {ss : List Stmt} (derived : Derives (.sentence s) ts)
    (first : Accepts (.sentence s) ts) (derived' : Derives (.statements ss) us)
    (rest : Accepts (.statements ss) us)
    (apart : s.EndsInExpr → ∀ t ∈ us.head?, ¬ t.kind.Continues) :
    Accepts (.statements (s :: ss)) (ts ++ us) := by
  intro n m c u after fuel loops closing here
  simp only [List.length_append] at fuel loops
  obtain ⟨t, vs, rfl, starts⟩ := derived.begins
  simp only [List.length_cons] at fuel loops
  obtain ⟨m, rfl⟩ := Nat.exists_eq_succ_of_ne_zero (show m ≠ 0 by omega)
  have tail := stops_at after closing rfl (by decide)
  have open_ : afterStop (u :: after) = u :: after := by simp [afterStop, closing]
  have read := first n c (us ++ u :: after) (by simp only [List.length_cons]; omega)
    (by simpa using here) (stops_statements derived' tail) (stops_joined derived' tail apart)
  rw [afterStop_statements derived' open_] at read
  simp only [List.cons_append, List.cons.injEq] at here
  apply answers_statements (here.1 ▸ starts) read (by simp)
  intro d here
  exact rest n m d u after (by omega) (by omega) closing here

/-- The parser of every phrase reads what can be derived for it. -/
theorem accepts_of_derives {ph : Phrase} {ts : List Token} (h : Derives ph ts) : Accepts ph ts := by
  induction h with
  | binary _ op right ihLeft ihRight => exact accepts_binary ihLeft op right ihRight
  | tighter _ _ ih => exact accepts_tighter ih
  | unary op right ih => exact accepts_unary op right ih
  | plain _ ih => exact accepts_plain ih
  | atom _ ih => exact accepts_atom ih
  | call _ opening _ closing ihCallee ih => exact accepts_call ihCallee opening ih closing
  | index _ opening place closing ihLeft ih => exact accepts_index ihLeft opening place ih closing
  | ident word => exact accepts_ident word
  | int numeral => exact accepts_int numeral
  | str string => exact accepts_str string
  | yes word => exact accepts_yes word
  | no word => exact accepts_no word
  | grouped opening inner closing ih => exact accepts_grouped opening inner ih closing
  | array opening _ closing ih => exact accepts_array opening ih closing
  | hash opening _ closing ih => exact accepts_hash opening ih closing
  | cond word opening condition closing consequence ih ihBlock =>
    exact accepts_cond word opening condition ih closing consequence ihBlock
  | condElse word opening condition closing consequence other alternative ih ihBlock ihOther =>
    exact accepts_condElse word opening condition ih closing consequence ihBlock other alternative
      ihOther
  | fn word opening _ closing body ihNames ih =>
    exact accepts_fn word opening ihNames closing body ih
  | loop word body ih => exact accepts_loop word body ih
  | noItems => exact accepts_noItems
  | someItems first rest ih ihRest => exact accepts_someItems first ih rest ihRest
  | lastItem => exact accepts_lastItem
  | nextItem comma first rest ih ihRest => exact accepts_nextItem comma first ih rest ihRest
  | noPairs => exact accepts_noPairs
  | lastPair key colon value ihKey ihValue => exact accepts_lastPair key ihKey colon value ihValue
  | nextPair key colon value comma _ ihKey ihValue ihRest =>
    exact accepts_nextPair key ihKey colon value ihValue comma ihRest
  | noNames => exact accepts_noNames
  | someNames word _ ih => exact accepts_someNames word ih
  | lastName => exact accepts_lastName
  | nextName comma word _ ih => exact accepts_nextName comma word ih
  | block _ _ closing ih => exact accepts_block ih closing
  | bind word name assign value ih => exact accepts_bind word name assign value ih
  | ret word value ih => exact accepts_ret word value ih
  | load word path => exact accepts_load word path
  | exit word code => exact accepts_exit word code
  | brk word => exact accepts_brk word
  | expr value ih => exact accepts_expr value ih
  | noStatements => exact accepts_noStatements
  | closed first stop _ ih ihRest => exact accepts_closed first ih stop ihRest
  | joined first rest apart ih ihRest => exact accepts_joined first ih rest ihRest apart

end TernLang.Parse
