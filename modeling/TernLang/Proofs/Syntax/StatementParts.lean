import TernLang.Proofs.Syntax.ExpressionParts
import TernLang.Proofs.Syntax.StatementSoundness

/-!
Statements are read, and broken ones skipped, within a whole text as in the part they stand in. A
block may end too early, at a brace that closes something else, but never runs on beyond the part:
as long as it is open, so is a brace, and the last token of the part is outside it or closes it.
-/
namespace TernLang.Parse
open Cursor
variable {a : Around} {c d : Cursor} {L : Int} {size n m : Nat} {expr expr' : Parse Expr}
  {stmt stmt' : Parse Stmt}

abbrev MirrorsStands (a : Around) (L : Int) (p q : Parse Stmt) (c : Cursor) : Prop :=
  Mirrors a p q c (fun _ d => d.Stands a L) (Held a L)

theorem mirrors_stop (past : c.Past a L) (s : Stmt) :
    MirrorsStands a L (do skip .semicolon; pure s) (do skip .semicolon; pure s) c := by
  have skipped : Mirrors a (skip .semicolon) (skip .semicolon) c (fun _ d => d.Stands a L)
      (Held a L) := by
    apply mirrors_nextKind past.sees
    split
    · rename_i stop
      apply (mirrors_moved past.lexed past.sees).mono
      · rintro _ d rfl
        have kind : c.advance.current.kind = .semicolon := stop
        exact (past.advance (Int.le_refl L) past.braces).stands (by simp [kind])
      · exact fun _ held => held
    · exact mirrors_pure past.lexed past.toStands
  apply skipped.bind
  exact fun _ d _ stands => mirrors_pure stands.lexed stands

theorem mirrors_bindStatement (exprs : MirrorsExpr a expr expr' size) (past : c.Past a L)
    (fits : c.ahead.length ≤ size) :
    MirrorsStands a L (bindStatement expr) (bindStatement expr') c := by
  apply mirrors_token
  apply mirrors_expect past (by decide)
  intro i took past
  have less := took.shorter (by decide)
  apply mirrors_ident
  apply mirrors_expect past (by decide)
  intro b took past
  have lesser := took.shorter (by decide)
  refine mirrors_advance_expr exprs past (by omega) ?_
  exact fun e d _ _ past => mirrors_stop past _

theorem mirrors_returnStatement (exprs : MirrorsExpr a expr expr' size) (past : c.Past a L)
    (fits : c.ahead.length ≤ size) :
    MirrorsStands a L (returnStatement expr) (returnStatement expr') c := by
  apply mirrors_token
  refine mirrors_advance_expr exprs past fits ?_
  exact fun e d _ _ past => mirrors_stop past _

theorem mirrors_importStatement (past : c.Past a L) :
    MirrorsStands a L importStatement importStatement c := by
  apply mirrors_token
  apply mirrors_expect past (by decide)
  intro d _ past
  apply mirrors_string
  exact mirrors_stop past _

theorem mirrors_exitStatement (past : c.Past a L) :
    MirrorsStands a L exitStatement exitStatement c := by
  apply mirrors_token
  apply mirrors_expect past (by decide)
  intro d took past
  apply (mirrors_integer past.toHeld took.2.1).bind
  exact fun i e _ past => mirrors_stop past _

theorem mirrors_expressionStatement (exprs : MirrorsExpr a expr expr' size) (held : c.Held a L)
    (fits : c.rest.length ≤ size) :
    MirrorsStands a L (expressionStatement expr) (expressionStatement expr') c := by
  apply mirrors_token
  apply (exprs L c held fits).bind
  exact fun e d _ past => mirrors_stop past _

theorem mirrors_statementForm (exprs : MirrorsExpr a expr expr' size) (held : c.Held a L)
    (fits : c.rest.length ≤ size) :
    MirrorsStands a L (statementForm expr) (statementForm expr') c := by
  have left := Nat.le_trans (ahead_suffix_rest held.lexed).length_le fits
  apply mirrors_token
  split
  · rename_i word
    exact mirrors_bindStatement exprs (held.past word (by decide)) left
  · rename_i word
    exact mirrors_returnStatement exprs (held.past word (by decide)) left
  · rename_i word
    exact mirrors_importStatement (held.past word (by decide))
  · rename_i word
    exact mirrors_exitStatement (held.past word (by decide))
  · rename_i word
    exact mirrors_stop (held.past word (by decide)) _
  · exact mirrors_expressionStatement exprs held fits

theorem closes_or_deep {b : Int} {bs : List Int} (inner : c.blocks = b :: bs) (deep : b ≤ c.level) :
    c.closesBlock = true ∨ b ≤ c.braces := by
  by_cases closing : c.current.kind = .rbrace
  · by_cases low : c.braces < b
    · exact .inl (by simp [Cursor.closesBlock, inner, closing, low])
    · exact .inr (Int.not_lt.mp low)
  · have step := Kind.braceStep_nonneg closing
    rw [Cursor.level] at deep
    exact .inr (by omega)

theorem level_skipBroken {b : Int} {bs : List Int} (inner : c.blocks = b :: bs)
    (deep : b ≤ c.level) : b ≤ c.skipBroken.level := by
  fun_induction skipBroken c with
  | case1 c ends => exact deep
  | case2 c more ih =>
    apply ih inner
    rw [level_advance]
    rcases closes_or_deep inner deep with closes | braces
    · exact absurd (by simp [endsBroken, closes]) more
    · exact braces

/-- Where a statement leaves the cursor. Inside a block no brace is closed that was open in it,
unless the statement is given up at the brace that closes the block. -/
structure Rests (a : Around) (c : Cursor) (s : Option Stmt) (d : Cursor) : Prop where
  fits : d.Fits a
  level : ∀ b bs, c.blocks = b :: bs → b ≤ c.level → b ≤ d.level
  braces : ∀ b bs, c.blocks = b :: bs → b ≤ c.level →
    s = none ∧ d.closesBlock = true ∨ b ≤ d.braces

def MirrorsStatement (a : Around) (stmt stmt' : Parse Stmt) (size : Nat) : Prop :=
  ∀ c, c.Lexed → c.Fits a → c.Stops a → c.rest.length ≤ size →
    Mirrors a (attempt stmt) (attempt stmt') c (Rests a c) fun _ => False

theorem rests_giveUp (before : c.Before d) (held : d.Held a c.level) (stops : d.Stops a) :
    Rests a c none d.giveUp := by
  refine ⟨(giveUp_within held.fits stops).2, ?_, ?_⟩
  · intro b bs inner deep
    exact level_skipBroken (before.blocks.trans inner) (Int.le_trans deep held.level)
  · intro b bs inner deep
    have inner := before.blocks.trans inner
    have level := level_skipBroken inner (Int.le_trans deep held.level)
    have kept := (before_skipBroken held.lexed).blocks.trans inner
    exact (closes_or_deep kept level).imp (fun closes => ⟨rfl, closes⟩) id

theorem mirrors_recovering {p q : Parse Stmt} (h : MirrorsStands a c.level p q c)
    (stops : c.Stops a) :
    Mirrors a (attempt (recovering p)) (attempt (recovering q)) c (Rests a c) fun _ => False := by
  unfold MirrorsStands Mirrors at h
  unfold Mirrors attempt recovering
  rcases run : p c with ⟨_ | s, d⟩
  · rw [run] at h
    obtain ⟨same, before, held⟩ := h
    have stops := stops.same before.blocks
    simp only [same, (giveUp_within held.fits stops).1]
    exact ⟨trivial, before.trans (before_giveUp held.lexed), rests_giveUp before held stops⟩
  · rw [run] at h
    obtain ⟨same, before, stands⟩ := h
    simp only [same]
    refine ⟨trivial, before, stands.fits, ?_, ?_⟩
    · exact fun b bs _ deep => Int.le_trans deep stands.level
    · exact fun b bs _ deep => .inr (Int.le_trans deep stands.braces)

theorem Rests.goes_on {b : Int} {bs : List Int} {s : Option Stmt} (rests : Rests a c s d)
    (lex : d.Lexed) (held : c.Held a b) (inner : c.blocks = b :: bs)
    (deep : a.later = [] ∨ a.floor + a.stop.braceStep < b)
    (more : ¬ (s.isNone && d.closesBlock) = true) : d.Sees a ∧ d.advance.Held a b := by
  have braces : b ≤ d.braces := by
    rcases rests.braces b bs inner held.level with ⟨rfl, closes⟩ | braces
    · simp [closes] at more
    · exact braces
  have sees : d.Sees a :=
    rests.fits.sees_of_braces (deep.imp id fun less => Int.lt_of_lt_of_le less braces)
  refine ⟨sees, lex.advance, rests.fits.advance sees, held.under, ?_⟩
  rw [level_advance]
  exact braces

theorem mirrors_statements {b : Int} {bs : List Int} (stmts : MirrorsStatement a stmt stmt' size)
    (held : c.Held a b) (inner : c.blocks = b :: bs)
    (deep : a.later = [] ∨ a.floor + a.stop.braceStep < b) (fits : c.rest.length ≤ size)
    (fuel : c.rest.length < n) (fuel' : c.rest.length < m) :
    Mirrors a (statements stmt n) (statements stmt' m) c
      (fun _ d => d.Held a b ∧ d.current.kind = .rbrace)
      (fun d => d.Held a b ∧ d.current.kind = .eof) := by
  have stops : c.Stops a := held.under.imp id fun low => .inr ⟨b, bs, inner, low⟩
  induction n generalizing c m with
  | zero => omega
  | succ n ih =>
    obtain ⟨m, rfl⟩ := Nat.exists_eq_succ_of_ne_zero (Nat.ne_zero_of_lt fuel')
    apply mirrors_token
    split
    · rename_i closing
      exact mirrors_pure held.lexed ⟨held, closing⟩
    · split
      · rename_i last
        exact mirrors_refusal held.lexed ⟨held.same rfl rfl rfl, last⟩
      · rename_i some
        apply ((stmts c held.lexed held.fits stops fits).mono (fun _ _ => id)
          (fun _ => False.elim)).bind
        intro s d before rests
        have level := rests.level b bs inner held.level
        have left := before.ahead_lt some
        have ended : Mirrors a closesBlock closesBlock d (fun r e => d.closesBlock = r ∧ d = e)
            (fun d => d.Held a b ∧ d.current.kind = .eof) := ⟨rfl, before.lexed.refl, rfl, rfl⟩
        apply ended.bind
        rintro _ _ _ ⟨rfl, rfl⟩
        split
        · rename_i lost
          simp only [Bool.and_eq_true] at lost
          exact mirrors_pure before.lexed
            ⟨⟨before.lexed, rests.fits, held.under, level⟩, kind_of_closesBlock lost.2⟩
        · rename_i more
          obtain ⟨sees, next⟩ := rests.goes_on before.lexed held inner deep more
          apply mirrors_step before.lexed sees
          have start := rest_advance before.lexed
          apply (ih next (before.blocks.trans inner) (by rw [start]; omega) (by rw [start]; omega)
            (by rw [start]; omega) (stops.same before.blocks)).bind
          exact fun ss e _ known => mirrors_pure known.1.lexed known

theorem mirrors_inBlock {α : Type} {p q : Parse α} {P R : α → Cursor → Prop}
    {F G : Cursor → Prop} (h : Mirrors a p q c.enterBlock P F)
    (answer : ∀ r d, P r d → R r d.leaveBlock) (refusal : ∀ d, F d → G d.leaveBlock) :
    Mirrors a (inBlock p) (inBlock q) c R G := by
  unfold Mirrors at h
  unfold Mirrors inBlock
  have same : (c.within a).enterBlock = c.enterBlock.within a := rfl
  rw [same]
  rcases run : p c.enterBlock with ⟨_ | r, d⟩
  · rw [run] at h
    simp only [h.1]
    exact ⟨rfl, before_inBlock h.2.1, refusal d h.2.2⟩
  · rw [run] at h
    simp only [h.1]
    exact ⟨rfl, before_inBlock h.2.1, answer r d h.2.2⟩

theorem mirrors_body (stmts : MirrorsStatement a stmt stmt' size) (lex : c.Lexed)
    (entered : c.advance.Held a c.braces) (sees : c.Sees a)
    (deep : a.later = [] ∨ a.floor + a.stop.braceStep < c.braces) (fits : c.ahead.length ≤ size)
    (fuel : c.ahead.length < n) (fuel' : c.ahead.length < m) :
    Mirrors a
      (do
        let t ← token
        let ss ← inBlock (do advance; statements stmt n)
        pure (.mk t ss) : Parse Block)
      (do
        let t ← token
        let ss ← inBlock (do advance; statements stmt' m)
        pure (.mk t ss)) c (fun _ d => d.Held a c.braces ∧ d.current.kind = .rbrace)
      (fun d => d.Held a c.braces ∧ d.current.kind = .eof) := by
  have inside : c.enterBlock.Lexed := ⟨lex.ahead, lex.current⟩
  have start : c.enterBlock.advance.rest = c.ahead := rest_advance inside
  have next : c.enterBlock.advance.Held a c.braces := entered.same rfl rfl rfl
  have body : Mirrors a (do advance; statements stmt n) (do advance; statements stmt' m)
      c.enterBlock (fun _ d => d.Held a c.braces ∧ d.current.kind = .rbrace)
      (fun d => d.Held a c.braces ∧ d.current.kind = .eof) := by
    apply mirrors_step inside sees
    exact mirrors_statements stmts next rfl deep (by rw [start]; exact fits)
      (by rw [start]; exact fuel) (by rw [start]; exact fuel')
  have bodies : Mirrors a (inBlock (do advance; statements stmt n))
      (inBlock (do advance; statements stmt' m)) c
      (fun _ d => d.Held a c.braces ∧ d.current.kind = .rbrace)
      (fun d => d.Held a c.braces ∧ d.current.kind = .eof) := by
    apply mirrors_inBlock body
    · exact fun _ d known => ⟨known.1.same rfl rfl rfl, known.2⟩
    · exact fun d known => ⟨known.1.same rfl rfl rfl, known.2⟩
  apply mirrors_token
  apply bodies.bind
  exact fun ss d _ known => mirrors_pure known.1.lexed known

theorem mirrors_block (stmts : MirrorsStatement a stmt stmt' size) (held : c.Held a L)
    (opening : c.current.kind = .lbrace) (fits : c.ahead.length ≤ size)
    (fuel : c.ahead.length < n) (fuel' : c.ahead.length < m) :
    MirrorsPast a L
      (do
        let t ← token
        let ss ← inBlock (do advance; statements stmt n)
        pure (.mk t ss) : Parse Block)
      (do
        let t ← token
        let ss ← inBlock (do advance; statements stmt' m)
        pure (.mk t ss)) c := by
  have level := held.level
  rw [Cursor.level, opening, Kind.braceStep] at level
  have past : c.Past a L := held.past opening (by decide)
  have deep : a.later = [] ∨ a.floor + a.stop.braceStep < c.braces := by
    refine held.under.imp id fun low => ?_
    have step := a.braceStep_stop
    omega
  apply (mirrors_body stmts held.lexed (past.advance (by omega) (Int.le_refl c.braces)) past.sees
    deep fits fuel fuel').mono
  · rintro _ d ⟨inside, closing⟩
    have level := inside.level
    rw [Cursor.level, closing, Kind.braceStep] at level
    exact ⟨⟨inside.lower held.under (by omega), by omega⟩, by simp [closing]⟩
  · exact fun d known => known.1.lower held.under (by omega)

theorem mirrors_all (a : Around) (n m : Nat) :
    (∀ size, 2 * size + 2 ≤ n → 2 * size + 2 ≤ m →
      ∀ p, MirrorsExpr a (expression n p) (expression m p) size) ∧
      (∀ size, 2 * size + 2 ≤ n → 2 * size + 2 ≤ m →
        MirrorsBlock a (Parse.block n) (Parse.block m) size) ∧
        ∀ size, 2 * size + 3 ≤ n → 2 * size + 3 ≤ m →
          MirrorsStatement a (statement n) (statement m) size := by
  -- Fuel of twice the tokens that are left and a little more is enough, on both sides.
  induction n generalizing m with
  | zero => exact ⟨fun _ h => by omega, fun _ h => by omega, fun _ h => by omega⟩
  | succ n ih =>
    cases m with
    | zero => exact ⟨fun _ _ h => by omega, fun _ _ h => by omega, fun _ _ h => by omega⟩
    | succ m =>
      obtain ⟨exprs, blocks, stmts⟩ := ih m
      refine ⟨?_, ?_, ?_⟩
      · intro size enough enough' p L c held fits
        by_cases last : c.current.kind = .eof
        · refine Mirrors.bind (P := fun _ _ => False) ?_ fun _ _ _ => False.elim
          apply mirrors_token
          simp only [last]
          exact mirrors_fail held _
        · rw [rest_of_kind rfl last, List.length_cons] at fits
          have inner := exprs c.ahead.length (by omega) (by omega)
          have bodies := blocks c.ahead.length (by omega) (by omega)
          apply (mirrors_operand inner bodies held (Nat.le_refl _) (by omega) (by omega)).bind
          intro l d before past
          have left := before.ahead_lt last
          rw [rest_of_kind rfl last, List.length_cons] at left
          exact mirrors_climb inner past (by omega) (by omega) (by omega) p l
      · intro size enough enough' L c held fits opening
        rw [rest_of_kind opening (by decide), List.length_cons] at fits
        exact mirrors_block (stmts c.ahead.length (by omega) (by omega)) held opening
          (Nat.le_refl _) (by omega) (by omega)
      · intro size enough enough' c lex fitting stops fits
        have held : c.Held a c.level := ⟨lex, fitting, fitting.under, Int.le_refl _⟩
        exact mirrors_recovering
          (mirrors_statementForm (exprs size (by omega) (by omega) .lowest) held fits) stops

end TernLang.Parse
