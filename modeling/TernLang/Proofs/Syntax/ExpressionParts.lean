import TernLang.Proofs.Syntax.Parts

/-!
Expressions are read within a whole text as in the part they stand in, given that those inside them
are. An expression ends before the last token of the part: no semicolon ends an expression, and the
brace that closes what the part stands in closes nothing that was opened in the expression.
-/
namespace TernLang.Parse
open Cursor
variable {a : Around} {c : Cursor} {L : Int} {size n m : Nat} {expr expr' : Parse Expr}
  {block block' : Parse Block}

/-- The parsers agree on expressions where at most that many tokens are left. -/
def MirrorsExpr (a : Around) (expr expr' : Parse Expr) (size : Nat) : Prop :=
  ∀ L c, c.Held a L → c.rest.length ≤ size → MirrorsPast a L expr expr' c

def MirrorsBlock (a : Around) (block block' : Parse Block) (size : Nat) : Prop :=
  ∀ L c, c.Held a L → c.rest.length ≤ size → c.current.kind = .lbrace →
    MirrorsPast a L block block' c

theorem mirrors_advance_expr {α : Type} {f g : Expr → Parse α} {P : α → Cursor → Prop}
    (exprs : MirrorsExpr a expr expr' size) (past : c.Past a L) (fits : c.ahead.length ≤ size)
    (next : ∀ e d, c.Before d → d.ahead.length ≤ c.ahead.length → d.Past a L →
      Mirrors a (f e) (g e) d P (Held a L)) :
    Mirrors a (do advance; let e ← expr; f e) (do advance; let e ← expr'; g e) c P (Held a L) := by
  apply mirrors_advance past
  intro held
  have start := rest_advance past.lexed
  apply (exprs L _ held (by rw [start]; exact fits)).bind
  intro e d before past'
  have left := before.ahead_le
  rw [start] at left
  exact next e d ((before_advance past.lexed).trans before) left past'

theorem mirrors_moreItems (exprs : MirrorsExpr a expr expr' size) (past : c.Past a L)
    (fits : c.ahead.length ≤ size) (fuel : c.ahead.length < n) (fuel' : c.ahead.length < m) :
    MirrorsPast a L (moreItems expr n) (moreItems expr' m) c := by
  induction n generalizing c m with
  | zero => omega
  | succ n ih =>
    obtain ⟨m, rfl⟩ := Nat.exists_eq_succ_of_ne_zero (Nat.ne_zero_of_lt fuel')
    apply mirrors_nextKind past.sees
    split
    · rename_i comma
      have took := took_advance past.lexed comma (by decide)
      have less := took.shorter (by decide)
      apply mirrors_advance past
      intro held
      refine mirrors_advance_expr exprs (held.past took.2.1 (by decide)) (by omega) ?_
      intro e d _ left past
      apply (ih past (by omega) (by omega) (by omega)).bind
      exact fun es f _ past => mirrors_answer past
    · exact mirrors_answer past

theorem mirrors_items {close : Kind} (exprs : MirrorsExpr a expr expr' size) (past : c.Past a L)
    (fits : c.ahead.length ≤ size) (fuel : c.ahead.length < n) (fuel' : c.ahead.length < m)
    (plain : close.Plain) : MirrorsPast a L (items expr close n) (items expr' close m) c := by
  apply mirrors_nextKind past.sees
  split
  · rename_i closing
    apply mirrors_advance past
    exact fun held => mirrors_answer (held.past closing plain)
  · refine mirrors_advance_expr exprs past fits ?_
    intro e d _ left past
    apply (mirrors_moreItems exprs past (by omega) (by omega) (by omega)).bind
    intro es f _ past
    apply mirrors_expect past plain
    exact fun g _ past => mirrors_answer past

theorem mirrors_moreParameters (past : c.Past a L) (fuel : c.ahead.length < n)
    (fuel' : c.ahead.length < m) : MirrorsPast a L (moreParameters n) (moreParameters m) c := by
  induction n generalizing c m with
  | zero => omega
  | succ n ih =>
    obtain ⟨m, rfl⟩ := Nat.exists_eq_succ_of_ne_zero (Nat.ne_zero_of_lt fuel')
    apply mirrors_nextKind past.sees
    split
    · rename_i comma
      have took := took_advance past.lexed comma (by decide)
      have less := took.shorter (by decide)
      apply mirrors_advance past
      intro held
      apply mirrors_expect (held.past took.2.1 (by decide)) (by decide)
      intro d took past
      have lesser := took.shorter (by decide)
      apply mirrors_ident
      apply (ih past (by omega) (by omega)).bind
      exact fun is e _ past => mirrors_answer past
    · exact mirrors_answer past

theorem mirrors_parameters (past : c.Past a L) (fuel : c.ahead.length < n)
    (fuel' : c.ahead.length < m) : MirrorsPast a L (parameters n) (parameters m) c := by
  apply mirrors_nextKind past.sees
  split
  · rename_i closing
    apply mirrors_advance past
    exact fun held => mirrors_answer (held.past closing (by decide))
  · apply mirrors_expect past (by decide)
    intro d took past
    have less := took.shorter (by decide)
    apply mirrors_ident
    apply (mirrors_moreParameters past (by omega) (by omega)).bind
    intro is e _ past
    apply mirrors_expect past (by decide)
    exact fun f _ past => mirrors_answer past

theorem mirrors_pairs {M : Int} (exprs : MirrorsExpr a expr expr' size) (past : c.Past a L)
    (le : L ≤ M) (deep : M ≤ c.braces) (fits : c.ahead.length ≤ size) (fuel : c.ahead.length < n)
    (fuel' : c.ahead.length < m) :
    Mirrors a (pairs expr n) (pairs expr' m) c (fun _ d => d.Past a L ∧ M ≤ d.braces)
      (Held a L) := by
  -- `M` counts the brace of the hash, too, which stays open until the pairs end.
  induction n generalizing c m L with
  | zero => omega
  | succ n ih =>
    obtain ⟨m, rfl⟩ := Nat.exists_eq_succ_of_ne_zero (Nat.ne_zero_of_lt fuel')
    apply mirrors_nextKind past.sees
    split
    · exact mirrors_pure past.lexed ⟨past, deep⟩
    · have start := rest_advance past.lexed
      have under := past.under
      apply Mirrors.mono (P := fun _ d => d.Past a M) (F := Held a M)
      · apply mirrors_step past.lexed past.sees
        apply (exprs M _ (past.advance le deep) (by rw [start]; exact fits)).bind
        intro key d before past
        have keyLeft := before.ahead_le
        rw [start] at keyLeft
        apply mirrors_expect past (by decide)
        intro e took past
        have less := took.shorter (by decide)
        refine mirrors_advance_expr exprs past (by omega) ?_
        intro value f _ left past
        apply mirrors_nextKind past.sees
        split
        · exact mirrors_answer past
        · apply mirrors_expect past (by decide)
          intro g took past
          have lesser := took.shorter (by decide)
          apply ((ih past (Int.le_refl M) past.braces (by omega) (by omega) (by omega)).mono
            (fun _ _ known => known.1) fun _ held => held).bind
          exact fun ps h _ past => mirrors_answer past
      · exact fun _ d past => ⟨past.lower under le, past.braces⟩
      · exact fun d held => held.lower under le

theorem mirrors_grouped (exprs : MirrorsExpr a expr expr' size) (past : c.Past a L)
    (fits : c.ahead.length ≤ size) : MirrorsPast a L (grouped expr) (grouped expr') c := by
  refine mirrors_advance_expr exprs past fits ?_
  intro e d _ _ past
  apply mirrors_expect past (by decide)
  exact fun f _ past => mirrors_answer past

theorem mirrors_unary (exprs : MirrorsExpr a expr expr' size) (past : c.Past a L)
    (fits : c.ahead.length ≤ size) : MirrorsPast a L (unary expr) (unary expr') c := by
  apply mirrors_token
  refine mirrors_advance_expr exprs past fits ?_
  exact fun r d _ _ past => mirrors_answer past

theorem mirrors_array (exprs : MirrorsExpr a expr expr' size) (past : c.Past a L)
    (fits : c.ahead.length ≤ size) (fuel : c.ahead.length < n) (fuel' : c.ahead.length < m) :
    MirrorsPast a L (array expr n) (array expr' m) c := by
  apply mirrors_token
  apply (mirrors_items exprs past fits fuel fuel' (by decide)).bind
  exact fun es d _ past => mirrors_answer past

theorem mirrors_hash (exprs : MirrorsExpr a expr expr' size) (past : c.Past a L)
    (opening : c.current.kind = .lbrace) (fits : c.ahead.length ≤ size)
    (fuel : c.ahead.length < n) (fuel' : c.ahead.length < m) :
    MirrorsPast a L (hash expr n) (hash expr' m) c := by
  have deep : L + 1 ≤ c.braces := by
    have level := past.level
    rw [Cursor.level, opening, Kind.braceStep] at level
    omega
  apply mirrors_token
  apply (mirrors_pairs exprs past (by omega) deep fits fuel fuel').bind
  intro ps d _ step
  obtain ⟨past, deep⟩ := step
  apply (mirrors_took past (by decide)).bind
  exact fun _ e _ took => mirrors_answer (took.closes past deep)

theorem mirrors_expectBlock {α : Type} {f g : Block → Parse α} {P : α → Cursor → Prop}
    (blocks : MirrorsBlock a block block' size) (past : c.Past a L) (fits : c.ahead.length ≤ size)
    (next : ∀ b d, c.Before d → d.Past a L → Mirrors a (f b) (g b) d P (Held a L)) :
    Mirrors a (do expect .lbrace; let b ← block; f b) (do expect .lbrace; let b ← block'; g b) c P
      (Held a L) := by
  apply mirrors_expect past (by decide)
  intro d took past'
  obtain ⟨rfl, opening, moved⟩ := took
  apply (blocks L _ past'.toHeld (by rw [rest_advance past.lexed]; exact fits) opening).bind
  exact fun b d before past => next b d (moved.before.trans before) past

theorem mirrors_loop (blocks : MirrorsBlock a block block' size) (past : c.Past a L)
    (fits : c.ahead.length ≤ size) : MirrorsPast a L (loop block) (loop block') c := by
  apply mirrors_token
  refine mirrors_expectBlock blocks past fits ?_
  exact fun b d _ past => mirrors_answer past

theorem mirrors_function (blocks : MirrorsBlock a block block' size) (past : c.Past a L)
    (some : c.current.kind ≠ .eof) (fits : c.ahead.length ≤ size) (fuel : c.ahead.length < n)
    (fuel' : c.ahead.length < m) : MirrorsPast a L (function block n) (function block' m) c := by
  apply mirrors_token
  apply mirrors_expect past (by decide)
  intro d took past
  have less := took.shorter (by decide)
  obtain ⟨-, -, moved⟩ := took
  apply (mirrors_parameters past (by omega) (by omega)).bind
  intro is e before past
  have left := (moved.before.trans before).ahead_lt some
  rw [rest_of_kind rfl some, List.length_cons] at left
  refine mirrors_expectBlock blocks past (by omega) ?_
  exact fun b f _ past => mirrors_answer past

theorem mirrors_alternative (blocks : MirrorsBlock a block block' size) (past : c.Past a L)
    (fits : c.ahead.length ≤ size) :
    MirrorsPast a L (alternative block) (alternative block') c := by
  apply mirrors_nextKind past.sees
  split
  · rename_i other
    have took := took_advance past.lexed other (by decide)
    have less := took.shorter (by decide)
    apply mirrors_advance past
    intro held
    refine mirrors_expectBlock blocks (held.past took.2.1 (by decide)) (by omega) ?_
    exact fun b d _ past => mirrors_answer past
  · exact mirrors_answer past

theorem mirrors_cond (exprs : MirrorsExpr a expr expr' size)
    (blocks : MirrorsBlock a block block' size) (past : c.Past a L) (some : c.current.kind ≠ .eof)
    (fits : c.ahead.length ≤ size) : MirrorsPast a L (cond expr block) (cond expr' block') c := by
  have whole := rest_of_kind rfl some
  apply mirrors_token
  apply mirrors_expect past (by decide)
  intro o took past
  have less := took.shorter (by decide)
  obtain ⟨-, -, opened⟩ := took
  refine mirrors_advance_expr exprs past (by omega) ?_
  intro e d tested _ past
  apply mirrors_expect past (by decide)
  intro p took past
  obtain ⟨-, -, closed⟩ := took
  have read := (opened.before.trans tested).trans closed.before
  have left := read.ahead_lt some
  rw [whole, List.length_cons] at left
  refine mirrors_expectBlock blocks past (by omega) ?_
  intro b f before past
  have left := (read.trans before).ahead_lt some
  rw [whole, List.length_cons] at left
  apply (mirrors_alternative blocks past (by omega)).bind
  exact fun b' g _ past => mirrors_answer past

theorem mirrors_integer (held : c.Held a L) (kind : c.current.kind = .int) :
    MirrorsPast a L integer integer c := by
  apply mirrors_token
  split
  · exact mirrors_answer (held.past kind (by decide))
  · exact mirrors_fail held _

section
variable {expr expr' : Precedence → Parse Expr}

theorem mirrors_operand (exprs : ∀ p, MirrorsExpr a (expr p) (expr' p) size)
    (blocks : MirrorsBlock a block block' size) (held : c.Held a L) (fits : c.ahead.length ≤ size)
    (fuel : c.ahead.length < n) (fuel' : c.ahead.length < m) :
    MirrorsPast a L (operand expr block n) (operand expr' block' m) c := by
  apply mirrors_token
  split
  · rename_i kind
    exact mirrors_answer (held.past kind (by decide))
  · rename_i kind
    apply (mirrors_integer held kind).bind
    exact fun i d _ past => mirrors_answer past
  · rename_i kind
    exact mirrors_answer (held.past kind (by decide))
  · rename_i kind
    exact mirrors_answer (held.past kind (by decide))
  · rename_i kind
    exact mirrors_answer (held.past kind (by decide))
  · rename_i kind
    exact mirrors_unary (exprs _) (held.past kind (by decide)) fits
  · rename_i kind
    exact mirrors_unary (exprs _) (held.past kind (by decide)) fits
  · rename_i kind
    exact mirrors_grouped (exprs _) (held.past kind (by decide)) fits
  · rename_i kind
    exact mirrors_cond (exprs _) blocks (held.past kind (by decide)) (by simp [kind]) fits
  · rename_i kind
    exact mirrors_function blocks (held.past kind (by decide)) (by simp [kind]) fits fuel fuel'
  · rename_i kind
    exact mirrors_array (exprs _) (held.past kind (by decide)) fits fuel fuel'
  · rename_i kind
    exact mirrors_hash (exprs _) (held.past kind (by decide)) kind fits fuel fuel'
  · rename_i kind
    exact mirrors_loop blocks (held.past kind (by decide)) fits
  · exact mirrors_fail held _

theorem mirrors_extend (exprs : ∀ p, MirrorsExpr a (expr p) (expr' p) size) (past : c.Past a L)
    (fits : c.ahead.length ≤ size) (fuel : c.ahead.length < n) (fuel' : c.ahead.length < m)
    (left : Expr) : MirrorsPast a L (extend expr left n) (extend expr' left m) c := by
  apply mirrors_token
  split
  · apply mirrors_token
    apply (mirrors_items (exprs _) past fits fuel fuel' (by decide)).bind
    exact fun es d _ past => mirrors_answer past
  · apply mirrors_token
    refine mirrors_advance_expr (exprs _) past fits ?_
    intro i d _ _ past
    apply mirrors_expect past (by decide)
    exact fun e _ past => mirrors_answer past
  · apply mirrors_token
    refine mirrors_advance_expr (exprs _) past fits ?_
    exact fun r d _ _ past => mirrors_answer past

theorem mirrors_climb (exprs : ∀ p, MirrorsExpr a (expr p) (expr' p) size) (past : c.Past a L)
    (fits : c.ahead.length ≤ size) (fuel : c.ahead.length < n) (fuel' : c.ahead.length < m)
    (p : Precedence) (left : Expr) :
    MirrorsPast a L (climb expr p n left) (climb expr' p m left) c := by
  induction n generalizing c m left with
  | zero => omega
  | succ n ih =>
    obtain ⟨m, rfl⟩ := Nat.exists_eq_succ_of_ne_zero (Nat.ne_zero_of_lt fuel')
    apply mirrors_nextKind past.sees
    split
    · rename_i tighter
      have plain : c.peek.kind.Plain := Kind.plain_of_precedence (Nat.zero_lt_of_lt tighter)
      have less := advance_shorter plain.1
      apply mirrors_advance past
      intro held
      have operator : c.advance.Past a L := held.past rfl plain
      apply (mirrors_extend exprs operator (by omega) (by omega) (by omega) left).bind
      intro e d before past'
      have bound := before.ahead_lt plain.1
      rw [rest_advance past.lexed] at bound
      exact ih past' (by omega) (by omega) (by omega) e
    · exact mirrors_answer past

end

end TernLang.Parse
