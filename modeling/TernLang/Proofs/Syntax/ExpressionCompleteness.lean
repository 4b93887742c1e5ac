import TernLang.Proofs.Syntax.Answering

/-!
Expressions that can be derived are read, and nothing is reported: one lemma for each rule of the
grammar.
-/
namespace TernLang.Parse
open Cursor
variable {α : Type} {a : α}
variable {c : Cursor} {e : Expr} {t u : Token} {ts us after : List Token} {n q level : Nat}
  {k : Kind}

theorem accepts_loosest (h : Accepts (.expr 0 e) ts) (fuel : 4 * ts.length + 2 ≤ n)
    (here : c.current :: c.ahead = ts ++ after) (apart : Stops 0 after) :
    (expression n .lowest).Answers c e after := by
  obtain ⟨n, rfl⟩ := Nat.exists_eq_succ_of_ne_zero (show n ≠ 0 by omega)
  have climbs := h n 0 c after (by omega) (by omega) (.inl (Nat.le_refl 0)) here
    (apart.mono (Nat.zero_le _))
  exact climbs.answers (by omega) apart.loose

theorem answers_operand {r : Expr} (derived : Derives (.expr level r) us)
    (right : Accepts (.expr level r) us) (fuel : 4 * us.length + 2 ≤ n) (low : q ≤ 7)
    (at_level : q ≤ level ∨ 6 ≤ level) (ahead : c.ahead = us ++ after)
    (apart : Stops q after) (bound : q ≤ level + 1) {f : Expr → Expr} :
    (do advance; let r ← expression n q; pure (f r) : Parse Expr).Answers c (f r) after := by
  obtain ⟨n, rfl⟩ := Nat.exists_eq_succ_of_ne_zero (show n ≠ 0 by omega)
  apply answers_enter ahead derived.begins
  intro d here
  exact ((right n q d after (by omega) low at_level here (apart.mono bound)).answers (by omega)
    apart.loose).bind
    fun e ahead => answers_pure ahead

theorem accepts_binary {l r : Expr} (left : Accepts (.expr level l) ts)
    (op : t.kind ∈ Kind.ladder level) (derived : Derives (.expr (level + 1) r) us)
    (right : Accepts (.expr (level + 1) r) us) :
    Accepts (.expr level (.binary t l t.literal r)) (ts ++ t :: us) := by
  intro n q c after fuel low at_level here apart
  obtain ⟨bound, rank⟩ := Kind.precedence_of_ladder op
  simp only [List.length_append, List.length_cons] at fuel
  obtain ⟨m, d, enough, run, ahead, same⟩ := left n q c (t :: us ++ after) (by omega) low at_level
    (by simpa using here) (rank ▸ stops_operator _ (by omega))
  have next : d.peek = t := by simp [Cursor.peek, ahead]
  obtain ⟨m, rfl⟩ := Nat.exists_eq_succ_of_ne_zero (show m ≠ 0 by omega)
  have extended : (extend (expression n) l m).Answers d.advance
      (.binary t l t.literal r) after := by
    apply answers_token
    have here : d.advance.current = t := next
    rw [here]
    split
    · rename_i kind
      simp [kind, Kind.precedence] at rank
      omega
    · rename_i kind
      simp [kind, Kind.precedence] at rank
      omega
    · apply answers_token
      rw [here, rank]
      exact answers_operand (f := .binary t l t.literal) derived right (by omega) (by omega)
        (.inl (Nat.le_refl _)) (by simp [Cursor.advance, ahead]) apart (by omega)
  obtain ⟨f, extended, ahead', same'⟩ := extended
  refine ⟨m, f, ?_, ?_, ahead', same'.trans same⟩
  · simp only [List.length_append, List.length_cons]
    omega
  · rw [run, climb_step (by rw [next, rank]; omega) extended]

theorem accepts_tighter (h : Accepts (.expr (level + 1) e) ts) : Accepts (.expr level e) ts := by
  intro n q c after fuel low at_level here apart
  exact h n q c after fuel low (by omega) here (apart.mono (by omega))

theorem climbs_of_operand {n : Nat}
    (h : (operand (expression n) (block n) n).Answers c e after) : Climbs n q c e ts after := by
  obtain ⟨d, run, ahead, same⟩ := h
  refine ⟨n, d, Nat.le_add_right _ _, ?_, ahead, same⟩
  rw [expression, bind_some run]

theorem accepts_unary {r : Expr} (op : t.kind = .bang ∨ t.kind = .minus)
    (derived : Derives (.expr 6 r) ts) (right : Accepts (.expr 6 r) ts) :
    Accepts (.expr 6 (.unary t t.literal r)) (t :: ts) := by
  intro n q c after fuel low at_level here apart
  simp only [List.length_cons] at fuel
  simp only [List.cons_append, List.cons.injEq] at here
  obtain ⟨here, ahead⟩ := here
  refine climbs_of_operand (answers_token ?_)
  rw [here]
  have read : (unary (expression n .unary)).Answers c (.unary t t.literal r) after := by
    apply answers_token
    rw [here]
    exact answers_operand (f := .unary t t.literal) derived right (by omega) (Nat.le_refl 7)
      (.inr (Nat.le_refl 6)) ahead apart (Nat.le_refl 7)
  rcases op with op | op <;> simpa only [op] using read

theorem accepts_plain (h : Accepts (.applied e) ts) : Accepts (.expr 6 e) ts := by
  intro n q c after fuel low _ here apart
  exact h n q c after fuel low here (apart.mono (by omega))

theorem accepts_atom (h : Accepts (.primary e) ts) : Accepts (.applied e) ts := by
  intro n q c after fuel low here apart
  exact climbs_of_operand (h n c after fuel here apart)

theorem accepts_call {f : Expr} {es : List Expr} (callee : Accepts (.applied f) ts)
    (opening : t.kind = .lparen) (arguments : Accepts (.items es) us) (closing : u.kind = .rparen) :
    Accepts (.applied (.call t f es)) (ts ++ t :: us ++ [u]) := by
  intro n q c after fuel low here _
  simp only [List.length_append, List.length_cons, List.length_nil] at fuel
  have rank := stops_operator (us ++ u :: after)
    (show 0 < t.kind.precedence by rw [opening]; decide)
  obtain ⟨m, d, enough, run, ahead, same⟩ := callee n q c (t :: us ++ u :: after) (by omega) low
    (by simpa using here) (rank.mono (Kind.precedence_le_nine _))
  have next : d.peek = t := by simp [Cursor.peek, ahead]
  obtain ⟨m, rfl⟩ := Nat.exists_eq_succ_of_ne_zero (show m ≠ 0 by omega)
  have extended : (extend (expression n) f m).Answers d.advance (.call t f es) after := by
    have here : d.advance.current = t := next
    apply answers_token
    rw [here]
    simp only [opening]
    apply answers_token
    rw [here, ← closing]
    exact (arguments n m d.advance u after (by omega) (by omega) (.inl closing)
      (by simp [Cursor.advance, ahead])).bind fun d ahead => answers_pure ahead
  obtain ⟨g, extended, ahead', same'⟩ := extended
  refine ⟨m, g, ?_, ?_, ahead', same'.trans same⟩
  · simp only [List.length_append, List.length_cons, List.length_nil]
    omega
  · rw [run, climb_step (by rw [next, opening]; simp [Kind.precedence]; omega) extended]

theorem accepts_index {l i : Expr} (left : Accepts (.applied l) ts) (opening : t.kind = .lbracket)
    (derived : Derives (.expr 0 i) us) (place : Accepts (.expr 0 i) us)
    (closing : u.kind = .rbracket) : Accepts (.applied (.index t l i)) (ts ++ t :: us ++ [u]) := by
  intro n q c after fuel low here _
  simp only [List.length_append, List.length_cons, List.length_nil] at fuel
  have rank := stops_operator (us ++ u :: after)
    (show 0 < t.kind.precedence by rw [opening]; decide)
  obtain ⟨m, d, enough, run, ahead, same⟩ := left n q c (t :: us ++ u :: after) (by omega) low
    (by simpa using here) (rank.mono (Kind.precedence_le_nine _))
  have next : d.peek = t := by simp [Cursor.peek, ahead]
  obtain ⟨m, rfl⟩ := Nat.exists_eq_succ_of_ne_zero (show m ≠ 0 by omega)
  have extended : (extend (expression n) l m).Answers d.advance (.index t l i) after := by
    have here : d.advance.current = t := next
    apply answers_token
    rw [here]
    simp only [opening]
    apply answers_token
    rw [here]
    apply answers_enter (show _ = us ++ u :: after by simp [Cursor.advance, ahead]) derived.begins
    intro e here
    apply (accepts_loosest place (by omega) here (stops_at _ closing rfl (by decide))).bind
    intro g ahead
    exact answers_expect ahead closing fun h _ ahead => answers_pure ahead
  obtain ⟨g, extended, ahead', same'⟩ := extended
  refine ⟨m, g, ?_, ?_, ahead', same'.trans same⟩
  · simp only [List.length_append, List.length_cons, List.length_nil]
    omega
  · rw [run, climb_step (by rw [next, opening]; simp [Kind.precedence]; omega) extended]

theorem integerOf?_of_numeral {m : Nat} (h : IsNumeral t m) : integerOf? t.literal = some m := by
  obtain ⟨-, short, value, small⟩ := h
  unfold integerOf?
  rw [if_pos ⟨short, by rw [value]; exact small⟩, value]

theorem answers_integer {m : Nat} (here : c.current = t) (ahead : c.ahead = after)
    (h : IsNumeral t m) : integer.Answers c ⟨t, m⟩ after := by
  apply answers_token
  rw [here, integerOf?_of_numeral h]
  exact answers_pure ahead

theorem accepts_token (h : ∀ n c after, c.current = t → c.ahead = after →
    (operand (expression n) (block n) n).Answers c e after) : Accepts (.primary e) [t] := by
  intro n c after _ here _
  simp only [List.cons_append, List.nil_append, List.cons.injEq] at here
  exact h n c after here.1 here.2

theorem accepts_ident (kind : t.kind = .ident) :
    Accepts (.primary (.ident ⟨t, t.literal⟩)) [t] := by
  refine accepts_token fun n c after here ahead => answers_token ?_
  simp only [here, kind]
  exact ⟨c, by rw [← here]; rfl, ahead, rfl⟩

theorem accepts_str (kind : t.kind = .string) : Accepts (.primary (.str ⟨t, t.literal⟩)) [t] := by
  refine accepts_token fun n c after here ahead => answers_token ?_
  simp only [here, kind]
  exact ⟨c, by rw [← here]; rfl, ahead, rfl⟩

theorem accepts_int {m : Nat} (h : IsNumeral t m) : Accepts (.primary (.int ⟨t, m⟩)) [t] := by
  refine accepts_token fun n c after here ahead => answers_token ?_
  simp only [here, h.1]
  change (integer >>= fun i => pure (Expr.int i)).Answers c _ after
  exact (answers_integer here ahead h).bind fun d ahead => answers_pure ahead

theorem accepts_yes (kind : t.kind = .trueWord) : Accepts (.primary (.bool t true)) [t] := by
  refine accepts_token fun n c after here ahead => answers_token ?_
  simp only [here, kind]
  exact answers_pure ahead

theorem accepts_no (kind : t.kind = .falseWord) : Accepts (.primary (.bool t false)) [t] := by
  refine accepts_token fun n c after here ahead => answers_token ?_
  simp only [here, kind]
  exact answers_pure ahead

theorem accepts_grouped (opening : t.kind = .lparen) (derived : Derives (.expr 0 e) ts)
    (h : Accepts (.expr 0 e) ts) (closing : u.kind = .rparen) :
    Accepts (.primary e) (t :: ts ++ [u]) := by
  intro n c after fuel here _
  simp only [List.length_append, List.length_cons, List.length_nil] at fuel
  simp only [List.cons_append, List.append_assoc, List.nil_append, List.cons.injEq] at here
  obtain ⟨here, ahead⟩ := here
  apply answers_token
  simp only [here, opening]
  apply answers_enter ahead derived.begins
  intro d here
  apply (accepts_loosest h (by omega) here (stops_at _ closing rfl (by decide))).bind
  intro g ahead
  exact answers_expect ahead closing fun h _ ahead => answers_pure ahead

theorem accepts_array {es : List Expr} (opening : t.kind = .lbracket) (h : Accepts (.items es) ts)
    (closing : u.kind = .rbracket) : Accepts (.primary (.array t es)) (t :: ts ++ [u]) := by
  intro n c after fuel here _
  simp only [List.length_append, List.length_cons, List.length_nil] at fuel
  simp only [List.cons_append, List.append_assoc, List.nil_append, List.cons.injEq] at here
  obtain ⟨here, ahead⟩ := here
  apply answers_token
  simp only [here, opening]
  apply answers_token
  rw [here, ← closing]
  exact (h n n c u after (by omega) (by omega) (.inr closing) ahead).bind
    fun d ahead => answers_pure ahead

theorem accepts_hash {ps : List (Expr × Expr)} (opening : t.kind = .lbrace)
    (h : Accepts (.pairs ps) ts) (closing : u.kind = .rbrace) :
    Accepts (.primary (.hash t ps)) (t :: ts ++ [u]) := by
  intro n c after fuel here _
  simp only [List.length_append, List.length_cons, List.length_nil] at fuel
  simp only [List.cons_append, List.append_assoc, List.nil_append, List.cons.injEq] at here
  obtain ⟨here, ahead⟩ := here
  apply answers_token
  simp only [here, opening]
  apply answers_token
  rw [here]
  apply (h n n c u after (by omega) (by omega) closing ahead).bind
  intro d ahead
  exact answers_expect ahead closing fun e _ ahead => answers_pure ahead

theorem answers_block {α : Type} {b : Block} {a : α} {f : Block → Parse α} {mid : List Token}
    (derived : Derives (.block b) ts) (h : Accepts (.block b) ts) (fuel : 4 * ts.length ≤ n)
    (ahead : c.ahead = ts ++ mid) (later : ∀ d : Cursor, d.ahead = mid → (f b).Answers d a after) :
    (do expect .lbrace; let b ← block n; f b : Parse α).Answers c a after := by
  obtain ⟨t, us, rfl, opening⟩ := derived.begins
  apply answers_expect ahead opening
  intro d here ahead
  exact (h n d mid fuel (by rw [here, ahead]; rfl)).bind later

theorem accepts_loop {b : Block} (word : t.kind = .loopWord) (derived : Derives (.block b) ts)
    (h : Accepts (.block b) ts) : Accepts (.primary (.loop t b)) (t :: ts) := by
  intro n c after fuel here _
  simp only [List.length_cons] at fuel
  simp only [List.cons_append, List.cons.injEq] at here
  obtain ⟨here, ahead⟩ := here
  apply answers_token
  simp only [here, word]
  apply answers_token
  rw [here]
  exact answers_block derived h (by omega) ahead fun d ahead => answers_pure ahead

theorem accepts_fn {o p : Token} {is : List Ident} {b : Block} (word : t.kind = .fnWord)
    (opening : o.kind = .lparen) (parameters : Accepts (.names is) ts) (closing : p.kind = .rparen)
    (derived : Derives (.block b) us) (body : Accepts (.block b) us) :
    Accepts (.primary (.fn t is b)) (t :: o :: ts ++ p :: us) := by
  intro n c after fuel here _
  simp only [List.length_append, List.length_cons] at fuel
  simp only [List.cons_append, List.append_assoc, List.cons.injEq] at here
  obtain ⟨here, ahead⟩ := here
  apply answers_token
  simp only [here, word]
  apply answers_token
  rw [here]
  apply answers_expect ahead opening
  intro d _ ahead
  apply (parameters n d p (us ++ after) (by omega) closing ahead).bind
  intro e ahead
  exact answers_block derived body (by omega) ahead fun d ahead => answers_pure ahead

theorem answers_condition {α : Type} {a : α} {f : Expr → Parse α} {o p : Token} {mid : List Token}
    (opening : o.kind = .lparen) (derived : Derives (.expr 0 e) ts) (h : Accepts (.expr 0 e) ts)
    (closing : p.kind = .rparen) (fuel : 4 * ts.length + 2 ≤ n)
    (ahead : c.ahead = o :: (ts ++ p :: mid))
    (later : ∀ d : Cursor, d.ahead = mid → (f e).Answers d a after) :
    (do expect .lparen; advance; let e ← expression n .lowest; expect .rparen; f e :
      Parse α).Answers c a after := by
  apply answers_expect ahead opening
  intro d _ ahead
  apply answers_enter ahead derived.begins
  intro d here
  apply (accepts_loosest h fuel here (stops_at _ closing rfl (by decide))).bind
  intro d ahead
  exact answers_expect ahead closing fun d _ ahead => later d ahead

theorem answers_noAlternative {p : Parse Block} (ahead : c.ahead = after)
    (other : (after.headD .eof).kind ≠ .elseWord) : (alternative p).Answers c none after := by
  have next : c.peek.kind ≠ .elseWord := by simpa [Cursor.peek, ahead] using other
  change (if c.peek.kind = .elseWord then _ else pure none :
    Parse (Option Block)).Answers c none after
  rw [if_neg next]
  exact answers_pure ahead

theorem answers_alternative {b : Block} (ahead : c.ahead = t :: (ts ++ after))
    (other : t.kind = .elseWord) (derived : Derives (.block b) ts) (h : Accepts (.block b) ts)
    (fuel : 4 * ts.length ≤ n) : (alternative (block n)).Answers c (some b) after := by
  apply answers_nextKind ahead
  rw [if_pos other]
  apply answers_advance ahead
  intro d _ ahead
  exact answers_block derived h fuel ahead fun d ahead => answers_pure ahead

theorem accepts_cond {o p : Token} {b : Block} (word : t.kind = .ifWord)
    (opening : o.kind = .lparen)
    (derived : Derives (.expr 0 e) ts) (condition : Accepts (.expr 0 e) ts)
    (closing : p.kind = .rparen) (derived' : Derives (.block b) us)
    (consequence : Accepts (.block b) us) :
    Accepts (.primary (.cond t e b none)) (t :: o :: ts ++ p :: us) := by
  intro n c after fuel here apart
  simp only [List.length_append, List.length_cons] at fuel
  simp only [List.cons_append, List.append_assoc, List.cons.injEq] at here
  obtain ⟨here, ahead⟩ := here
  apply answers_token
  simp only [here, word]
  apply answers_token
  rw [here]
  apply answers_condition opening derived condition closing (by omega) ahead
  intro d ahead
  apply answers_block derived' consequence (by omega) ahead
  intro d ahead
  exact (answers_noAlternative ahead apart.noElse).bind fun d ahead => answers_pure ahead

theorem accepts_condElse {o p w : Token} {b a : Block} {vs : List Token} (word : t.kind = .ifWord)
    (opening : o.kind = .lparen) (derived : Derives (.expr 0 e) ts)
    (condition : Accepts (.expr 0 e) ts) (closing : p.kind = .rparen)
    (derived' : Derives (.block b) us) (consequence : Accepts (.block b) us)
    (other : w.kind = .elseWord) (derived'' : Derives (.block a) vs)
    (alternative : Accepts (.block a) vs) :
    Accepts (.primary (.cond t e b (some a))) (t :: o :: ts ++ p :: us ++ w :: vs) := by
  intro n c after fuel here _
  simp only [List.length_append, List.length_cons] at fuel
  simp only [List.cons_append, List.append_assoc, List.cons.injEq] at here
  obtain ⟨here, ahead⟩ := here
  apply answers_token
  simp only [here, word]
  apply answers_token
  rw [here]
  apply answers_condition opening derived condition closing (by omega) ahead
  intro d ahead
  apply answers_block derived' consequence (by omega) ahead
  intro d ahead
  exact (answers_alternative ahead other derived'' alternative (by omega)).bind
    fun d ahead => answers_pure ahead

theorem not_starts_close (closing : u.kind = .rparen ∨ u.kind = .rbracket) :
    ¬ u.kind.StartsExpr := by
  rcases closing with kind | kind <;> simp [kind, Kind.StartsExpr]

theorem stops_close (closing : u.kind = .rparen ∨ u.kind = .rbracket) : Stops 0 (u :: after) := by
  rcases closing with kind | kind <;> exact stops_at _ kind rfl (by decide)

theorem accepts_noItems : Accepts (.items []) [] := by
  intro n m c u after _ _ closing ahead
  apply answers_nextKind ahead
  rw [if_pos rfl]
  exact answers_advance ahead fun d _ ahead => answers_pure ahead

theorem stops_moreItems {es : List Expr} (derived : Derives (.moreItems es) us)
    (closing : u.kind = .rparen ∨ u.kind = .rbracket) : Stops 0 (us ++ u :: after) := by
  cases derived with
  | lastItem => exact stops_close closing
  | nextItem comma _ _ => exact stops_at _ comma rfl (by decide)

theorem accepts_someItems {es : List Expr} (derived : Derives (.expr 0 e) ts)
    (first : Accepts (.expr 0 e) ts) (derived' : Derives (.moreItems es) us)
    (rest : Accepts (.moreItems es) us) : Accepts (.items (e :: es)) (ts ++ us) := by
  intro n m c u after fuel loops closing ahead
  simp only [List.length_append] at fuel loops
  rw [List.append_assoc] at ahead
  obtain ⟨t, vs, rfl, starts⟩ := derived.begins
  have open_ : t.kind ≠ u.kind := fun same => not_starts_close closing (same ▸ starts)
  apply answers_nextKind ahead
  rw [if_neg open_]
  apply answers_enter ahead derived.begins
  intro d here
  apply (accepts_loosest first (by omega) here (stops_moreItems derived' closing)).bind
  intro d ahead
  apply (rest n m d u after (by omega) (by omega) closing ahead).bind
  intro d ahead
  exact answers_expect ahead rfl fun e _ ahead => answers_pure ahead

theorem accepts_lastItem : Accepts (.moreItems []) [] := by
  intro n m c u after _ loops closing ahead
  obtain ⟨m, rfl⟩ := Nat.exists_eq_succ_of_ne_zero (Nat.pos_iff_ne_zero.mp loops)
  have other : u.kind ≠ .comma := by rcases closing with kind | kind <;> simp [kind]
  apply answers_nextKind ahead
  rw [if_neg other]
  exact answers_pure ahead

theorem accepts_nextItem {es : List Expr} (comma : t.kind = .comma)
    (derived : Derives (.expr 0 e) ts)
    (first : Accepts (.expr 0 e) ts) (derived' : Derives (.moreItems es) us)
    (rest : Accepts (.moreItems es) us) : Accepts (.moreItems (e :: es)) (t :: ts ++ us) := by
  intro n m c u after fuel loops closing ahead
  simp only [List.length_append, List.length_cons] at fuel loops
  simp only [List.cons_append, List.append_assoc] at ahead
  obtain ⟨m, rfl⟩ := Nat.exists_eq_succ_of_ne_zero (show m ≠ 0 by omega)
  apply answers_nextKind ahead
  rw [if_pos comma]
  apply answers_advance ahead
  intro d _ ahead
  apply answers_enter ahead derived.begins
  intro d here
  apply (accepts_loosest first (by omega) here (stops_moreItems derived' closing)).bind
  intro d ahead
  exact (rest n m d u after (by omega) (by omega) closing ahead).bind
    fun d ahead => answers_pure ahead

theorem accepts_noPairs : Accepts (.pairs []) [] := by
  intro n m c u after _ loops closing ahead
  obtain ⟨m, rfl⟩ := Nat.exists_eq_succ_of_ne_zero (Nat.pos_iff_ne_zero.mp loops)
  apply answers_nextKind ahead
  rw [if_pos closing]
  exact answers_pure ahead

theorem answers_pair {m : Nat} {o : Token} {k v : Expr} {ks vs : List Token}
    {ps : List (Expr × Expr)} (rest : List Token) (key : Derives (.expr 0 k) ks)
    (keyRead : Accepts (.expr 0 k) ks)
    (colon : o.kind = .colon) (value : Derives (.expr 0 v) vs) (valueRead : Accepts (.expr 0 v) vs)
    (keyFuel : 4 * ks.length + 2 ≤ n) (valueFuel : 4 * vs.length + 2 ≤ n)
    (ahead : c.ahead = ks ++ o :: (vs ++ rest)) (apart : Stops 0 rest)
    (later : ∀ d : Cursor, d.ahead = rest →
      (do
        let next ← nextKind
        if next = .rbrace then pure [(k, v)]
        else
          expect .comma
          let ps ← pairs (expression n .lowest) m
          pure ((k, v) :: ps) : Parse (List (Expr × Expr))).Answers d ps after) :
    (pairs (expression n .lowest) (m + 1)).Answers c ps after := by
  obtain ⟨t, us, rfl, starts⟩ := key.begins
  have open_ : t.kind ≠ .rbrace := fun same => by simp [same, Kind.StartsExpr] at starts
  apply answers_nextKind ahead
  rw [if_neg open_]
  apply answers_enter ahead key.begins
  intro d here
  apply (accepts_loosest keyRead keyFuel here (stops_at _ colon rfl (by decide))).bind
  intro d ahead
  apply answers_expect ahead colon
  intro d _ ahead
  apply answers_enter ahead value.begins
  intro d here
  exact (accepts_loosest valueRead valueFuel here apart).bind later

theorem accepts_lastPair {o : Token} {k v : Expr} (key : Derives (.expr 0 k) ts)
    (keyRead : Accepts (.expr 0 k) ts) (colon : o.kind = .colon) (value : Derives (.expr 0 v) us)
    (valueRead : Accepts (.expr 0 v) us) : Accepts (.pairs [(k, v)]) (ts ++ o :: us) := by
  intro n m c u after fuel loops closing ahead
  simp only [List.length_append, List.length_cons] at fuel loops
  obtain ⟨m, rfl⟩ := Nat.exists_eq_succ_of_ne_zero (show m ≠ 0 by omega)
  refine answers_pair (u :: after) key keyRead colon value valueRead (by omega) (by omega)
    (by simpa using ahead) (stops_at _ closing rfl (by decide)) fun d ahead => ?_
  apply answers_nextKind ahead
  rw [if_pos closing]
  exact answers_pure ahead

theorem accepts_nextPair {o p : Token} {k v : Expr} {ps : List (Expr × Expr)} {vs : List Token}
    (key : Derives (.expr 0 k) ts) (keyRead : Accepts (.expr 0 k) ts) (colon : o.kind = .colon)
    (value : Derives (.expr 0 v) us) (valueRead : Accepts (.expr 0 v) us) (comma : p.kind = .comma)
    (rest : Accepts (.pairs ps) vs) :
    Accepts (.pairs ((k, v) :: ps)) (ts ++ o :: us ++ p :: vs) := by
  intro n m c u after fuel loops closing ahead
  simp only [List.length_append, List.length_cons] at fuel loops
  obtain ⟨m, rfl⟩ := Nat.exists_eq_succ_of_ne_zero (show m ≠ 0 by omega)
  refine answers_pair (p :: (vs ++ u :: after)) key keyRead colon value valueRead (by omega)
    (by omega) (by simpa using ahead) (stops_at _ comma rfl (by decide)) fun d ahead => ?_
  apply answers_nextKind ahead
  rw [if_neg (by simp [comma])]
  apply answers_expect ahead comma
  intro d _ ahead
  exact (rest n m d u after (by omega) (by omega) closing ahead).bind
    fun d ahead => answers_pure ahead

theorem accepts_noNames : Accepts (.names []) [] := by
  intro n c u after _ closing ahead
  apply answers_nextKind ahead
  rw [if_pos closing]
  exact answers_advance ahead fun d _ ahead => answers_pure ahead

theorem answers_ident {α : Type} {a : α} {f : Ident → Parse α} (here : c.current = t)
    (h : (f ⟨t, t.literal⟩).Answers c a after) : (ident >>= f).Answers c a after := by
  subst here
  exact h

theorem accepts_someNames {is : List Ident} (word : t.kind = .ident)
    (rest : Accepts (.moreNames is) ts) : Accepts (.names (⟨t, t.literal⟩ :: is)) (t :: ts) := by
  intro n c u after fuel closing ahead
  simp only [List.length_cons] at fuel
  apply answers_nextKind ahead
  rw [if_neg (by simp [word])]
  apply answers_expect ahead word
  intro d here ahead
  apply answers_ident here
  apply (rest n d u after (by omega) closing ahead).bind
  intro d ahead
  exact answers_expect ahead closing fun e _ ahead => answers_pure ahead

theorem accepts_lastName : Accepts (.moreNames []) [] := by
  intro n c u after fuel closing ahead
  obtain ⟨n, rfl⟩ := Nat.exists_eq_succ_of_ne_zero (Nat.pos_iff_ne_zero.mp fuel)
  apply answers_nextKind ahead
  rw [if_neg (by simp [closing])]
  exact answers_pure ahead

theorem accepts_nextName {is : List Ident} {p : Token} (comma : p.kind = .comma)
    (word : t.kind = .ident) (rest : Accepts (.moreNames is) ts) :
    Accepts (.moreNames (⟨t, t.literal⟩ :: is)) (p :: t :: ts) := by
  intro n c u after fuel closing ahead
  simp only [List.length_cons] at fuel
  obtain ⟨n, rfl⟩ := Nat.exists_eq_succ_of_ne_zero (show n ≠ 0 by omega)
  apply answers_nextKind ahead
  rw [if_pos comma]
  apply answers_advance ahead
  intro d _ ahead
  apply answers_expect ahead word
  intro d here ahead
  apply answers_ident here
  exact (rest n d u after (by omega) closing ahead).bind fun d ahead => answers_pure ahead

end TernLang.Parse
