import TernLang.Proofs.Syntax.Acceptance
import TernLang.Proofs.Syntax.Printing
import TernLang.Proofs.Syntax.Unmarked

/-!
The text of a program that the parser answers is read as the same program again. The printed text of
every derived phrase spells tokens from which the phrase can be derived: an operator comes with
parentheses around it, so any expression is printed as a primary one with calls behind it.
-/
namespace TernLang

/-- The printed text of the phrase spells tokens from which the same phrase can be derived, up to
the tokens of expression statements. -/
def Reprints : Phrase → Prop
  | .expr _ e | .applied e | .primary e => ∃ q ts, Derives (.applied q) ts ∧
      Spells e.text.toList ts ∧ q.unmarked = e.unmarked
  | .items es => ∃ qs ts, Derives (.items qs) ts ∧
      Spells (", ".intercalate (exprTexts es)).toList ts ∧ unmarkedExprs qs = unmarkedExprs es
  | .moreItems es => ∃ qs ts, Derives (.moreItems qs) ts ∧
      Spells (behindCommas (exprTexts es)) ts ∧ unmarkedExprs qs = unmarkedExprs es
  | .pairs ps => ∃ qs ts, Derives (.pairs qs) ts ∧
      Spells (", ".intercalate (pairTexts ps)).toList ts ∧ unmarkedPairs qs = unmarkedPairs ps
  | .names is => ∃ ts, Derives (.names is) ts ∧
      Spells (", ".intercalate (is.map Ident.text)).toList ts
  | .moreNames is => ∃ ts, Derives (.moreNames is) ts ∧ Spells (behindCommas (is.map Ident.text)) ts
  | .block b => ∃ q ts, Derives (.block q) ts ∧ Spells (braced b.text).toList ts ∧
      q.unmarked = b.unmarked
  | .sentence s => ∃ q ts, Derives (.sentence q) ts ∧ Spells s.text.toList ts ∧
      q.unmarked = s.unmarked
  | .statements ss => ∃ qs ts, Derives (.statements qs) ts ∧
      Spells ("; ".intercalate (stmtTexts ss)).toList ts ∧ unmarkedStmts qs = unmarkedStmts ss

theorem kind_symbol (k : Kind) : (Token.symbol k).kind = k := rfl

theorem Derives.of_applied {level : Nat} {e : Expr} {ts : List Token} (h : Derives (.applied e) ts)
    (bound : level ≤ 6) : Derives (.expr level e) ts :=
  (Derives.plain h).lower bound (Nat.le_refl 6)

theorem Derives.loosest {e : Expr} {ts : List Token} (h : Derives (.applied e) ts) :
    Derives (.expr 0 e) ts :=
  h.of_applied (Nat.zero_le 6)

theorem Derives.parenthesized {level : Nat} {e : Expr} {ts : List Token}
    (h : Derives (.expr level e) ts) (bound : level ≤ 6) :
    Derives (.applied e) (.symbol .lparen :: ts ++ [.symbol .rparen]) :=
  .atom (.grouped rfl (h.lower (Nat.zero_le level) bound) rfl)

section
variable {level : Nat} {e : Expr} {t u : Token}

theorem reprints_binary {l r : Expr} (lex : t.Lexed) (left : Reprints (.expr level l))
    (op : t.kind ∈ Kind.ladder level) (right : Reprints (.expr (level + 1) r)) :
    Reprints (.expr level (.binary t l t.literal r)) := by
  obtain ⟨l', ts, derivedLeft, spellsLeft, sameLeft⟩ := left
  obtain ⟨r', us, derivedRight, spellsRight, sameRight⟩ := right
  obtain ⟨bound, rank⟩ := Kind.precedence_of_ladder op
  have legal : t.kind ≠ .illegal := by
    intro kind
    simp [kind, Kind.precedence, Precedence.lowest] at rank
  have bare : t.kind ≠ .string := by
    intro kind
    simp [kind, Kind.precedence, Precedence.lowest] at rank
  have inner := Derives.binary (derivedLeft.of_applied (by omega)) op
    (derivedRight.of_applied (by omega))
  refine ⟨.binary t l' t.literal r', _, inner.parenthesized (by omega), ?_, ?_⟩
  · have spells := (spellsLeft.blank ((lex.spells_literal legal bare).blank spellsRight)).parens
    simpa [Expr.text] using spells
  · simp only [Expr.unmarked, sameLeft, sameRight]

theorem reprints_unary {r : Expr} (lex : t.Lexed) (op : t.kind = .bang ∨ t.kind = .minus)
    (right : Reprints (.expr 6 r)) : Reprints (.expr 6 (.unary t t.literal r)) := by
  obtain ⟨r', ts, derived, spells, same⟩ := right
  have inner := Derives.unary op (derived.of_applied (Nat.le_refl 6))
  refine ⟨.unary t t.literal r', _, inner.parenthesized (Nat.le_refl 6), ?_, ?_⟩
  · obtain ⟨u, us, rfl, starts⟩ := derived.begins
    have assign : u.kind ≠ .assign := fun kind => by simp [kind, Kind.StartsExpr] at starts
    have eq : u.kind ≠ .eq := fun kind => by simp [kind, Kind.StartsExpr] at starts
    rcases op with kind | kind
    · obtain rfl := lex.eq_symbol kind rfl
      have spells := (spells.prefixed (c := '!') rfl assign eq).parens
      simpa [Expr.text, Token.symbol, Kind.name] using spells
    · obtain rfl := lex.eq_symbol kind rfl
      have spells := (spells.prefixed (c := '-') rfl assign eq).parens
      simpa [Expr.text, Token.symbol, Kind.name] using spells
  · simp only [Expr.unmarked, same]

theorem reprints_call {f : Expr} {es : List Expr} (lex : t.Lexed) (callee : Reprints (.applied f))
    (opening : t.kind = .lparen) (arguments : Reprints (.items es)) :
    Reprints (.applied (.call t f es)) := by
  obtain ⟨f', ts, derived, spells, same⟩ := callee
  obtain ⟨es', us, derivedArguments, spellsArguments, sameArguments⟩ := arguments
  obtain rfl := lex.eq_symbol opening rfl
  refine ⟨.call _ f' es', _, .call derived (kind_symbol _) derivedArguments (kind_symbol _), ?_, ?_⟩
  · have spells := spells.append spellsArguments.parens
      fun rest _ => apart_cons (by decide) (by decide)
    simpa [Expr.text] using spells
  · simp only [Expr.unmarked, same, sameArguments]

theorem reprints_index {l i : Expr} (lex : t.Lexed) (left : Reprints (.applied l))
    (opening : t.kind = .lbracket) (place : Reprints (.expr 0 i)) :
    Reprints (.applied (.index t l i)) := by
  obtain ⟨l', ts, derived, spells, same⟩ := left
  obtain ⟨i', us, derivedPlace, spellsPlace, samePlace⟩ := place
  obtain rfl := lex.eq_symbol opening rfl
  have inner := Derives.index derived (kind_symbol _) derivedPlace.loosest
    (kind_symbol _)
  have whole := inner.loosest
  refine ⟨.index _ l' i', _, whole.parenthesized (Nat.zero_le 6), ?_, ?_⟩
  · have spells := (spells.append spellsPlace.brackets fun rest _ =>
      apart_cons (by decide) (by decide)).parens
    simpa [Expr.text] using spells
  · simp only [Expr.unmarked, same, samePlace]

theorem reprints_ident (lex : t.Lexed) (word : t.kind = .ident) :
    Reprints (.primary (.ident ⟨t, t.literal⟩)) :=
  ⟨_, _, .atom (.ident word), lex.spells_literal (by simp [word]) (by simp [word]), rfl⟩

theorem reprints_int {n : Nat} (lex : t.Lexed) (numeral : IsNumeral t n) :
    Reprints (.primary (.int ⟨t, n⟩)) :=
  ⟨_, _, .atom (.int numeral), lex.spells_literal (by simp [numeral.1]) (by simp [numeral.1]), rfl⟩

theorem spells_quoted (lex : t.Lexed) (string : t.kind = .string) :
    Spells (StrLit.text ⟨t, t.literal⟩).toList [t] := by
  have spells := lex.spells (by simp [string])
  rwa [Token.spelling, if_pos string] at spells

theorem reprints_str (lex : t.Lexed) (string : t.kind = .string) :
    Reprints (.primary (.str ⟨t, t.literal⟩)) :=
  ⟨_, _, .atom (.str string), spells_quoted lex string, rfl⟩

theorem reprints_yes (lex : t.Lexed) (word : t.kind = .trueWord) :
    Reprints (.primary (.bool t true)) :=
  ⟨_, _, .atom (.yes word), lex.spells_literal (by simp [word]) (by simp [word]), rfl⟩

theorem reprints_no (lex : t.Lexed) (word : t.kind = .falseWord) :
    Reprints (.primary (.bool t false)) :=
  ⟨_, _, .atom (.no word), lex.spells_literal (by simp [word]) (by simp [word]), rfl⟩

theorem reprints_array {es : List Expr} (lex : t.Lexed) (opening : t.kind = .lbracket)
    (h : Reprints (.items es)) : Reprints (.primary (.array t es)) := by
  obtain ⟨es', ts, derived, spells, same⟩ := h
  obtain rfl := lex.eq_symbol opening rfl
  refine ⟨.array _ es', _, .atom (.array (kind_symbol _) derived (kind_symbol _)), ?_, ?_⟩
  · simpa [Expr.text] using spells.brackets
  · simp only [Expr.unmarked, same]

theorem reprints_hash {ps : List (Expr × Expr)} (lex : t.Lexed) (opening : t.kind = .lbrace)
    (h : Reprints (.pairs ps)) : Reprints (.primary (.hash t ps)) := by
  obtain ⟨ps', ts, derived, spells, same⟩ := h
  obtain rfl := lex.eq_symbol opening rfl
  refine ⟨.hash _ ps', _, .atom (.hash (kind_symbol _) derived (kind_symbol _)), ?_, ?_⟩
  · simpa [Expr.text, braced] using spells.braces
  · simp only [Expr.unmarked, same]

theorem spells_condition {c : Expr} {b : Block} {ts us : List Token} (lex : t.Lexed)
    (word : t.kind = .ifWord) (condition : Spells c.text.toList ts)
    (consequence : Spells (braced b.text).toList us) :
    Spells (Expr.cond t c b none).text.toList
      (t :: .symbol .lparen :: ts ++ .symbol .rparen :: us) := by
  have spells := (lex.spells_fixed word rfl).blank (condition.parens.blank consequence)
  simpa [Expr.text] using spells

theorem reprints_cond {c : Expr} {b : Block} (lex : t.Lexed) (word : t.kind = .ifWord)
    (condition : Reprints (.expr 0 c)) (consequence : Reprints (.block b)) :
    Reprints (.primary (.cond t c b none)) := by
  obtain ⟨c', ts, derived, spells, same⟩ := condition
  obtain ⟨b', us, derivedBlock, spellsBlock, sameBlock⟩ := consequence
  refine ⟨.cond t c' b' none, _,
    .atom (.cond word rfl derived.loosest rfl derivedBlock),
    spells_condition lex word spells spellsBlock, ?_⟩
  simp only [Expr.unmarked, same, sameBlock]

theorem reprints_condElse {c : Expr} {b a : Block} (lex : t.Lexed) (word : t.kind = .ifWord)
    (condition : Reprints (.expr 0 c)) (consequence : Reprints (.block b)) (lex' : u.Lexed)
    (other : u.kind = .elseWord) (alternative : Reprints (.block a)) :
    Reprints (.primary (.cond t c b (some a))) := by
  obtain ⟨c', ts, derived, spells, same⟩ := condition
  obtain ⟨b', us, derivedBlock, spellsBlock, sameBlock⟩ := consequence
  obtain ⟨a', vs, derivedOther, spellsOther, sameOther⟩ := alternative
  refine ⟨.cond t c' b' (some a'), _, .atom (.condElse word (kind_symbol _)
    derived.loosest (kind_symbol _) derivedBlock other derivedOther), ?_, ?_⟩
  · have spells := (spells_condition lex word spells spellsBlock).blank
      ((lex'.spells_fixed other rfl).blank spellsOther)
    simpa [Expr.text] using spells
  · simp only [Expr.unmarked, same, sameBlock, sameOther]

theorem reprints_fn {is : List Ident} {b : Block} (lex : t.Lexed) (word : t.kind = .fnWord)
    (parameters : Reprints (.names is)) (body : Reprints (.block b)) :
    Reprints (.primary (.fn t is b)) := by
  obtain ⟨ts, names, spellsNames⟩ := parameters
  obtain ⟨b', us, derived, spells, same⟩ := body
  refine ⟨.fn t is b', _, .atom (.fn word (kind_symbol _) names (kind_symbol _) derived), ?_, ?_⟩
  · have spells := (lex.spells_fixed word rfl).append (spellsNames.parens.blank spells)
      fun rest _ => apart_cons (by decide) (by decide)
    simpa [Expr.text] using spells
  · simp only [Expr.unmarked, same]

theorem reprints_loop {b : Block} (lex : t.Lexed) (word : t.kind = .loopWord)
    (body : Reprints (.block b)) : Reprints (.primary (.loop t b)) := by
  obtain ⟨b', us, derived, spells, same⟩ := body
  refine ⟨.loop t b', _, .atom (.loop word derived), ?_, ?_⟩
  · simpa [Expr.text] using (lex.spells_fixed word rfl).blank spells
  · simp only [Expr.unmarked, same]

theorem reprints_someItems {es : List Expr} (first : Reprints (.expr 0 e))
    (rest : Reprints (.moreItems es)) : Reprints (.items (e :: es)) := by
  obtain ⟨e', ts, derived, spells, same⟩ := first
  obtain ⟨es', us, derivedRest, spellsRest, sameRest⟩ := rest
  refine ⟨e' :: es', _, .someItems derived.loosest derivedRest, ?_, ?_⟩
  · rw [exprTexts, intercalate_commas]
    exact spells.append spellsRest fun rest ends => apart_behindCommas _ ends
  · simp only [unmarkedExprs, same, sameRest]

theorem spells_comma {cs : List Char} {ts : List Token} (h : Spells cs ts) :
    Spells (',' :: ' ' :: cs) (.symbol .comma :: ts) :=
  Spells.nil.delimited ⟨rfl, fun _ => rfl⟩ h

theorem reprints_nextItem {es : List Expr} (first : Reprints (.expr 0 e))
    (rest : Reprints (.moreItems es)) : Reprints (.moreItems (e :: es)) := by
  obtain ⟨e', ts, derived, spells, same⟩ := first
  obtain ⟨es', us, derivedRest, spellsRest, sameRest⟩ := rest
  have item := derived.loosest
  refine ⟨e' :: es', _, .nextItem (kind_symbol _) item derivedRest, ?_, ?_⟩
  · exact (spells_comma spells).append spellsRest fun rest ends => apart_behindCommas _ ends
  · simp only [unmarkedExprs, same, sameRest]

theorem spells_pair {k v : String} {ts us : List Token} (key : Spells k.toList ts)
    (value : Spells v.toList us) : Spells (k ++ ": " ++ v).toList (ts ++ .symbol .colon :: us) := by
  have spells := key.delimited (c := ':') ⟨rfl, fun _ => rfl⟩ value
  simpa using spells

theorem reprints_lastPair {k v : Expr} (key : Reprints (.expr 0 k)) (value : Reprints (.expr 0 v)) :
    Reprints (.pairs [(k, v)]) := by
  obtain ⟨k', ts, derivedKey, spellsKey, sameKey⟩ := key
  obtain ⟨v', us, derivedValue, spellsValue, sameValue⟩ := value
  refine ⟨[(k', v')], _, .lastPair derivedKey.loosest (kind_symbol _)
    derivedValue.loosest, ?_, ?_⟩
  · simpa [pairTexts] using spells_pair spellsKey spellsValue
  · simp only [unmarkedPairs, sameKey, sameValue]

theorem reprints_nextPair {k v : Expr} {ps : List (Expr × Expr)} (key : Reprints (.expr 0 k))
    (value : Reprints (.expr 0 v)) (rest : Reprints (.pairs ps)) :
    Reprints (.pairs ((k, v) :: ps)) := by
  -- A comma behind the last pair is not printed.
  cases ps with
  | nil => exact reprints_lastPair key value
  | cons p ps =>
    obtain ⟨k', ts, derivedKey, spellsKey, sameKey⟩ := key
    obtain ⟨v', us, derivedValue, spellsValue, sameValue⟩ := value
    obtain ⟨ps', vs, derivedRest, spellsRest, sameRest⟩ := rest
    refine ⟨(k', v') :: ps', _, .nextPair derivedKey.loosest (kind_symbol _)
      derivedValue.loosest (kind_symbol _) derivedRest, ?_, ?_⟩
    · have spells := (spells_pair spellsKey spellsValue).delimited (c := ',')
        ⟨rfl, fun _ => rfl⟩ spellsRest
      simpa [pairTexts, String.intercalate_cons_cons] using spells
    · rw [unmarkedPairs, unmarkedPairs, sameKey, sameValue, sameRest]

theorem reprints_someNames {is : List Ident} (lex : t.Lexed) (word : t.kind = .ident)
    (rest : Reprints (.moreNames is)) : Reprints (.names (⟨t, t.literal⟩ :: is)) := by
  obtain ⟨ts, derived, spells⟩ := rest
  refine ⟨_, .someNames word derived, ?_⟩
  rw [List.map_cons, intercalate_commas]
  exact (lex.spells_literal (by simp [word]) (by simp [word])).append spells
    fun rest ends => apart_behindCommas _ ends

theorem reprints_nextName {is : List Ident} (lex : t.Lexed) (word : t.kind = .ident)
    (rest : Reprints (.moreNames is)) : Reprints (.moreNames (⟨t, t.literal⟩ :: is)) := by
  obtain ⟨ts, derived, spells⟩ := rest
  refine ⟨_, .nextName (kind_symbol _) word derived, ?_⟩
  exact (spells_comma (lex.spells_literal (by simp [word]) (by simp [word]))).append spells
    fun rest ends => apart_behindCommas _ ends

theorem reprints_block {ss : List Stmt} (lex : t.Lexed) (opening : t.kind = .lbrace)
    (h : Reprints (.statements ss)) : Reprints (.block (.mk t ss)) := by
  obtain ⟨ss', ts, derived, spells, same⟩ := h
  obtain rfl := lex.eq_symbol opening rfl
  refine ⟨.mk _ ss', _, .block (kind_symbol _) derived (kind_symbol _), ?_, ?_⟩
  · simpa [Block.text, braced] using spells.braces
  · simp only [Block.unmarked, same]

theorem reprints_bind {i a : Token} (lex : t.Lexed) (word : t.kind = .letWord) (lexName : i.Lexed)
    (name : i.kind = .ident) (lexAssign : a.Lexed) (assign : a.kind = .assign)
    (value : Reprints (.expr 0 e)) : Reprints (.sentence (.bind t ⟨i, i.literal⟩ e)) := by
  obtain ⟨e', ts, derived, spells, same⟩ := value
  refine ⟨.bind t _ e', _, .bind word name assign derived.loosest, ?_, ?_⟩
  · have named := lexName.spells_literal (by simp [name]) (by simp [name])
    have spells := (lex.spells_fixed word rfl).blank
      (named.blank ((lexAssign.spells_fixed assign rfl).blank spells))
    simpa [Stmt.text, Ident.text, Kind.name] using spells
  · simp only [Stmt.unmarked, same]

theorem reprints_ret (lex : t.Lexed) (word : t.kind = .returnWord) (value : Reprints (.expr 0 e)) :
    Reprints (.sentence (.ret t e)) := by
  obtain ⟨e', ts, derived, spells, same⟩ := value
  refine ⟨.ret t e', _, .ret word derived.loosest, ?_, ?_⟩
  · simpa [Stmt.text] using (lex.spells_fixed word rfl).blank spells
  · simp only [Stmt.unmarked, same]

theorem reprints_load (lex : t.Lexed) (word : t.kind = .importWord) (lexPath : u.Lexed)
    (path : u.kind = .string) : Reprints (.sentence (.load t ⟨u, u.literal⟩)) := by
  refine ⟨_, _, .load word path, ?_, rfl⟩
  simpa [Stmt.text] using (lex.spells_fixed word rfl).blank (spells_quoted lexPath path)

theorem reprints_exit {n : Nat} (lex : t.Lexed) (word : t.kind = .exitWord) (lexCode : u.Lexed)
    (code : IsNumeral u n) : Reprints (.sentence (.exit t ⟨u, n⟩)) := by
  refine ⟨_, _, .exit word code, ?_, rfl⟩
  have digits := lexCode.spells_literal (by simp [code.1]) (by simp [code.1])
  simpa [Stmt.text, IntLit.text] using (lex.spells_fixed word rfl).blank digits

theorem reprints_brk (lex : t.Lexed) (word : t.kind = .breakWord) :
    Reprints (.sentence (.brk t)) :=
  ⟨_, _, .brk word, lex.spells_fixed word rfl, rfl⟩

theorem reprints_expr (value : Reprints (.expr 0 e)) : Reprints (.sentence (.expr t e)) := by
  obtain ⟨e', ts, derived, spells, same⟩ := value
  obtain ⟨u, us, rfl, -⟩ := derived.begins
  refine ⟨.expr u e', _, .expr derived.loosest, spells, ?_⟩
  simp only [Stmt.unmarked, same]

theorem reprints_statement {s : Stmt} {ss : List Stmt} (first : Reprints (.sentence s))
    (rest : Reprints (.statements ss)) : Reprints (.statements (s :: ss)) := by
  obtain ⟨s', ts, derived, spells, same⟩ := first
  cases ss with
  | nil =>
    refine ⟨[s'], _, .joined derived .noStatements (by simp), ?_, ?_⟩
    · simpa [stmtTexts] using spells
    · simp only [unmarkedStmts, same]
  | cons r rs =>
    obtain ⟨ss', us, derivedRest, spellsRest, sameRest⟩ := rest
    refine ⟨s' :: ss', _, .closed derived (kind_symbol _) derivedRest, ?_, ?_⟩
    · have spells := spells.delimited (c := ';') ⟨rfl, fun _ => rfl⟩ spellsRest
      simpa [stmtTexts, String.intercalate_cons_cons] using spells
    · rw [unmarkedStmts, unmarkedStmts, same, sameRest]

end

/-- What can be derived from tokens of the lexer can be derived again from its printed text. -/
theorem Derives.reprints {ph : Phrase} {ts : List Token} (h : Derives ph ts)
    (lexed : ∀ t ∈ ts, t.Lexed) : Reprints ph := by
  induction h with
  | binary _ op _ left right =>
    simp only [List.forall_mem_append, List.forall_mem_cons] at lexed
    exact reprints_binary lexed.2.1 (left lexed.1) op (right lexed.2.2)
  | tighter _ _ inner => exact inner lexed
  | unary op _ right =>
    simp only [List.forall_mem_cons] at lexed
    exact reprints_unary lexed.1 op (right lexed.2)
  | plain _ inner => exact inner lexed
  | atom _ inner => exact inner lexed
  | call _ opening _ _ callee arguments =>
    simp only [List.forall_mem_append, List.forall_mem_cons] at lexed
    exact reprints_call lexed.1.2.1 (callee lexed.1.1) opening (arguments lexed.1.2.2)
  | index _ opening _ _ left place =>
    simp only [List.forall_mem_append, List.forall_mem_cons] at lexed
    exact reprints_index lexed.1.2.1 (left lexed.1.1) opening (place lexed.1.2.2)
  | ident word => exact reprints_ident (lexed _ (by simp)) word
  | int numeral => exact reprints_int (lexed _ (by simp)) numeral
  | str string => exact reprints_str (lexed _ (by simp)) string
  | yes word => exact reprints_yes (lexed _ (by simp)) word
  | no word => exact reprints_no (lexed _ (by simp)) word
  | grouped _ _ _ inner =>
    simp only [List.forall_mem_append, List.forall_mem_cons] at lexed
    exact inner lexed.1.2
  | array opening _ _ items =>
    simp only [List.forall_mem_append, List.forall_mem_cons] at lexed
    exact reprints_array lexed.1.1 opening (items lexed.1.2)
  | hash opening _ _ pairs =>
    simp only [List.forall_mem_append, List.forall_mem_cons] at lexed
    exact reprints_hash lexed.1.1 opening (pairs lexed.1.2)
  | cond word _ _ _ _ condition consequence =>
    simp only [List.forall_mem_append, List.forall_mem_cons] at lexed
    exact reprints_cond lexed.1.1 word (condition lexed.1.2.2) (consequence lexed.2.2)
  | condElse word _ _ _ _ other _ condition consequence alternative =>
    simp only [List.forall_mem_append, List.forall_mem_cons] at lexed
    obtain ⟨⟨head, -, block⟩, lexOther, last⟩ := lexed
    exact reprints_condElse head.1 word (condition head.2.2) (consequence block) lexOther other
      (alternative last)
  | fn word _ _ _ _ parameters body =>
    simp only [List.forall_mem_append, List.forall_mem_cons] at lexed
    exact reprints_fn lexed.1.1 word (parameters lexed.1.2.2) (body lexed.2.2)
  | loop word _ body =>
    simp only [List.forall_mem_cons] at lexed
    exact reprints_loop lexed.1 word (body lexed.2)
  | noItems | lastItem | noPairs => exact ⟨[], [], by constructor, .nil, rfl⟩
  | noNames | lastName => exact ⟨[], by constructor, .nil⟩
  | someItems _ _ first rest =>
    simp only [List.forall_mem_append] at lexed
    exact reprints_someItems (first lexed.1) (rest lexed.2)
  | nextItem _ _ _ first rest =>
    simp only [List.forall_mem_append, List.forall_mem_cons] at lexed
    exact reprints_nextItem (first lexed.1.2) (rest lexed.2)
  | lastPair _ _ _ key value =>
    simp only [List.forall_mem_append, List.forall_mem_cons] at lexed
    exact reprints_lastPair (key lexed.1) (value lexed.2.2)
  | nextPair _ _ _ _ _ key value rest =>
    simp only [List.forall_mem_append, List.forall_mem_cons] at lexed
    exact reprints_nextPair (key lexed.1.1) (value lexed.1.2.2) (rest lexed.2.2)
  | someNames word _ rest =>
    simp only [List.forall_mem_cons] at lexed
    exact reprints_someNames lexed.1 word (rest lexed.2)
  | nextName _ word _ rest =>
    simp only [List.forall_mem_cons] at lexed
    exact reprints_nextName lexed.2.1 word (rest lexed.2.2)
  | block opening _ _ inner =>
    simp only [List.forall_mem_append, List.forall_mem_cons] at lexed
    exact reprints_block lexed.1.1 opening (inner lexed.1.2)
  | bind word name assign _ value =>
    simp only [List.forall_mem_cons] at lexed
    exact reprints_bind lexed.1 word lexed.2.1 name lexed.2.2.1 assign (value lexed.2.2.2)
  | ret word _ value =>
    simp only [List.forall_mem_cons] at lexed
    exact reprints_ret lexed.1 word (value lexed.2)
  | load word path => exact reprints_load (lexed _ (by simp)) word (lexed _ (by simp)) path
  | exit word code => exact reprints_exit (lexed _ (by simp)) word (lexed _ (by simp)) code
  | brk word => exact reprints_brk (lexed _ (by simp)) word
  | expr _ value => exact reprints_expr (value lexed)
  | noStatements => exact ⟨[], [], .noStatements, .nil, rfl⟩
  | closed _ _ _ first rest =>
    simp only [List.forall_mem_append, List.forall_mem_cons] at lexed
    exact reprints_statement (first lexed.1) (rest lexed.2.2)
  | joined _ _ _ first rest =>
    simp only [List.forall_mem_append] at lexed
    exact reprints_statement (first lexed.1) (rest lexed.2)

/-- The printed text of a program that the parser answers is accepted, and its program is the same
up to the tokens of expression statements, whatever was wrong with the first text. -/
theorem parse_printed_text (text : String) :
    (parse (parse text).program.text).errors = [] ∧
      (parse (parse text).program.text).program.unmarked = (parse text).program.unmarked ∧
        (parse (parse text).program.text).program.text = (parse text).program.text := by
  obtain ⟨ts, derived, lexed, -⟩ := parse_sound text
  obtain ⟨ss, us, again, spells, same⟩ := derived.reprints lexed
  have read : tokens (parse text).program.text.toList = us := by
    have whole := spells [] apart_nil
    have none : tokens [] = [] := by simp [tokens, Token.next?]
    rwa [List.append_nil, none, List.append_nil] at whole
  obtain ⟨clean, program⟩ := parse_complete (p := ⟨ss⟩) (read ▸ again)
  have unmarked : (parse (parse text).program.text).program.unmarked =
      (parse text).program.unmarked := by
    rw [program]
    exact congrArg Program.mk same
  refine ⟨clean, unmarked, ?_⟩
  rw [← Program.text_unmarked, unmarked, Program.text_unmarked]

end TernLang
