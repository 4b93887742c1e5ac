import TernLang.Proofs.Syntax.Phrases
import TernLang.Syntax.Parser

/-!
What the parser of a phrase does in front of tokens that the phrase can be derived from: it
answers the tree of the phrase, reports nothing and leaves the tokens behind the phrase ahead of
the cursor.
-/
namespace TernLang.Parse
open Cursor
variable {α β : Type} {p : Parse α} {f : α → Parse β} {c d : Cursor} {a : α} {b : β} {k : Kind}
  {t u : Token} {mid after : List Token}

/-- At `c` the parser answers `a`, reports nothing and leaves `after` ahead of the cursor. -/
def Answers (p : Parse α) (c : Cursor) (a : α) (after : List Token) : Prop :=
  ∃ d, p c = (some a, d) ∧ d.ahead = after ∧ d.errors = c.errors

theorem Answers.bind (first : p.Answers c a mid)
    (next : ∀ d : Cursor, d.ahead = mid → (f a).Answers d b after) :
    (p >>= f).Answers c b after := by
  obtain ⟨d, run, ahead, same⟩ := first
  obtain ⟨e, later, last, same'⟩ := next d ahead
  exact ⟨e, by rw [bind_some run, later], last, same'.trans same⟩

theorem answers_pure (h : c.ahead = after) : (pure a : Parse α).Answers c a after :=
  ⟨c, rfl, h, rfl⟩

theorem answers_token {f : Token → Parse β} (h : (f c.current).Answers c b after) :
    (token >>= f).Answers c b after := h

theorem answers_nextKind {f : Kind → Parse β} (next : c.ahead = t :: mid)
    (h : (f t.kind).Answers c b after) : (nextKind >>= f).Answers c b after := by
  have same : c.peek = t := by simp [peek, next]
  change (f c.peek.kind).Answers c b after
  rw [same]
  exact h

theorem answers_advance {f : Unit → Parse β} (next : c.ahead = t :: mid)
    (later : ∀ d : Cursor, d.current = t → d.ahead = mid → (f ()).Answers d b after) :
    (advance >>= f).Answers c b after :=
  later c.advance (by simp [Cursor.advance, peek, next]) (by simp [Cursor.advance, next])

theorem answers_expect {f : Unit → Parse β} (next : c.ahead = t :: mid) (kind : t.kind = k)
    (later : ∀ d : Cursor, d.current = t → d.ahead = mid → (f ()).Answers d b after) :
    (expect k >>= f).Answers c b after := by
  have run : expect k c = (some (), c.advance) := by
    have same : c.peek.kind = k := by simp [peek, next, kind]
    change (if c.peek.kind = k then advance else fail (.expected k c.peek.kind)) c = _
    rw [if_pos same]
    rfl
  obtain ⟨e, last⟩ := later c.advance (by simp [Cursor.advance, peek, next])
    (by simp [Cursor.advance, next])
  exact ⟨e, by rw [bind_some run, last.1], last.2⟩

theorem answers_go {f : Unit → Parse β} (next : c.ahead = mid) (some : mid ≠ [])
    (later : ∀ d : Cursor, d.current :: d.ahead = mid → (f ()).Answers d b after) :
    (advance >>= f).Answers c b after := by
  cases mid with
  | nil => contradiction
  | cons t ts => exact answers_advance next fun d here ahead => later d (by rw [here, ahead])

theorem answers_enter {f : Unit → Parse β} {ts : List Token} {P : Kind → Prop}
    (next : c.ahead = ts ++ mid) (some : ∃ t us, ts = t :: us ∧ P t.kind)
    (later : ∀ d : Cursor, d.current :: d.ahead = ts ++ mid → (f ()).Answers d b after) :
    (advance >>= f).Answers c b after := by
  obtain ⟨t, us, rfl, -⟩ := some
  exact answers_go next (List.cons_ne_nil _ _) later

/-- What an expression whose operators bind tighter than `q` ends before. -/
structure Stops (q : Nat) (after : List Token) : Prop where
  loose : (after.headD .eof).kind.precedence ≤ q
  noElse : (after.headD .eof).kind ≠ .elseWord

theorem Stops.mono {q r : Nat} (h : Stops q after) (le : q ≤ r) : Stops r after :=
  ⟨Nat.le_trans h.loose le, h.noElse⟩

theorem stops_at (ts : List Token) (kind : t.kind = k) (loose : k.precedence = 0)
    (other : k ≠ .elseWord) : Stops 0 (t :: ts) :=
  ⟨Nat.le_of_eq (by rw [List.headD_cons, kind, loose]), by rw [List.headD_cons, kind]; exact other⟩

theorem stops_operator (ts : List Token) (op : 0 < t.kind.precedence) :
    Stops t.kind.precedence (t :: ts) := by
  refine ⟨Nat.le_refl _, fun other => ?_⟩
  rw [List.headD_cons] at other
  rw [other] at op
  exact absurd op (by decide)

def afterStop : List Token → List Token
  | [] => []
  | t :: ts => if t.kind = .semicolon then ts else t :: ts

theorem skip_run (c : Cursor) :
    skip k c = (some (), if c.peek.kind = k then c.advance else c) := by
  change (if c.peek.kind = k then advance else pure ()) c = _
  split <;> rfl

theorem answers_stop (a : α) (h : c.ahead = mid) :
    (do skip .semicolon; pure a : Parse α).Answers c a (afterStop mid) := by
  subst h
  refine ⟨_, by rw [bind_some (skip_run c)]; rfl, ?_, ?_⟩
  · cases ahead : c.ahead with
    | nil => simp [afterStop, peek, ahead, Token.eof]
    | cons t ts =>
      simp only [afterStop, peek, ahead, List.headD_cons]
      split
      · simp [Cursor.advance, ahead]
      · exact ahead
  · split <;> rfl

theorem climb_stop {expr : Precedence → Parse Expr} {q m : Nat} {e : Expr} (some : 0 < m)
    (loose : c.peek.kind.precedence ≤ q) : climb expr q m e c = (.some e, c) := by
  obtain ⟨m, rfl⟩ := Nat.exists_eq_succ_of_ne_zero (Nat.pos_iff_ne_zero.mp some)
  change (if q < c.peek.kind.precedence then _ else _ : Parse Expr) c = _
  rw [if_neg (Nat.not_lt.mpr loose)]
  rfl

theorem climb_step {expr : Precedence → Parse Expr} {q m : Nat} {l e : Expr} {d : Cursor}
    (tight : q < c.peek.kind.precedence) (run : extend expr l m c.advance = (.some e, d)) :
    climb expr q (m + 1) l c = climb expr q m e d := by
  change (if q < c.peek.kind.precedence then (do advance; let e ← extend expr l m; climb expr q m e)
    else _ : Parse Expr) c = _
  rw [if_pos tight]
  change (extend expr l m >>= climb expr q m) c.advance = _
  rw [bind_some run]

/-- The parser gets to where it looks for operators behind `e`, with fuel for as many as the tokens
that are not yet read. -/
def Climbs (n q : Nat) (c : Cursor) (e : Expr) (ts after : List Token) : Prop :=
  ∃ m d, n ≤ m + ts.length ∧ expression (n + 1) q c = climb (expression n) q m e d ∧
    d.ahead = after ∧ d.errors = c.errors

theorem Climbs.answers {n q : Nat} {e : Expr} {ts : List Token} (h : Climbs n q c e ts after)
    (fuel : ts.length < n) (loose : (after.headD .eof).kind.precedence ≤ q) :
    (expression (n + 1) q).Answers c e after := by
  obtain ⟨m, d, left, run, ahead, same⟩ := h
  refine ⟨d, ?_, ahead, same⟩
  rw [run, climb_stop (by omega)]
  simpa [peek, ahead] using loose

def Accepts : Phrase → List Token → Prop
  | .expr level e, ts => ∀ n q : Nat, ∀ c after, 4 * ts.length ≤ n → q ≤ 7 →
    (q ≤ level ∨ 6 ≤ level) →
      c.current :: c.ahead = ts ++ after → Stops (level + 1) after → Climbs n q c e ts after
  | .applied e, ts => ∀ n q : Nat, ∀ c after, 4 * ts.length ≤ n → q ≤ 7 →
      c.current :: c.ahead = ts ++ after → Stops 9 after → Climbs n q c e ts after
  | .primary e, ts => ∀ n c after, 4 * ts.length ≤ n → c.current :: c.ahead = ts ++ after →
      Stops 9 after → (operand (expression n) (block n) n).Answers c e after
  | .items es, ts => ∀ n m c u after, 4 * ts.length + 2 ≤ n → ts.length < m →
      (u.kind = .rparen ∨ u.kind = .rbracket) → c.ahead = ts ++ u :: after →
      (items (expression n .lowest) u.kind m).Answers c es after
  | .moreItems es, ts => ∀ n m c u after, 4 * ts.length + 2 ≤ n → ts.length < m →
      (u.kind = .rparen ∨ u.kind = .rbracket) → c.ahead = ts ++ u :: after →
      (moreItems (expression n .lowest) m).Answers c es (u :: after)
  | .pairs ps, ts => ∀ n m c u after, 4 * ts.length + 2 ≤ n → ts.length < m → u.kind = .rbrace →
      c.ahead = ts ++ u :: after → (pairs (expression n .lowest) m).Answers c ps (u :: after)
  | .names is, ts => ∀ n c u after, ts.length < n → u.kind = .rparen → c.ahead = ts ++ u :: after →
      (parameters (m := Parse) n).Answers c is after
  | .moreNames is, ts => ∀ n c u after, ts.length < n → u.kind = .rparen →
      c.ahead = ts ++ u :: after → (moreParameters (m := Parse) n).Answers c is (u :: after)
  | .block b, ts => ∀ n c after, 4 * ts.length ≤ n → c.current :: c.ahead = ts ++ after →
      (block n).Answers c b after
  | .sentence s, ts => ∀ n c after, 4 * ts.length + 3 ≤ n → c.current :: c.ahead = ts ++ after →
      Stops 9 after → (s.EndsInExpr → Stops 0 after) →
      (statement n).Answers c s (afterStop after)
  | .statements ss, ts => ∀ n m c u after, 4 * ts.length + 3 ≤ n → ts.length < m →
      u.kind = .rbrace → c.current :: c.ahead = ts ++ u :: after →
      (statements (statement n) m).Answers c ss after

end TernLang.Parse
