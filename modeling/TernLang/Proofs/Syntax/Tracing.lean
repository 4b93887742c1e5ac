import TernLang.Proofs.Syntax.Reading

/-!
Traced parses. A traced parse also tells what happens on the way: where the cursor comes to stand,
how each attempt to read a statement ends, and where fuel runs out. Parsers that are traced do what
parsers do, and `Traced.Tells` adds to this what their trace is worth, with one rule for each way of
building parsers.
-/
namespace TernLang

inductive Mark where
  | stands (c : Cursor)
  | tried (s : Option Stmt)
  | stuck

namespace Mark

def cursor? : Mark → Option Cursor
  | stands c => some c
  | _ => none

def answer? : Mark → Option (Option Stmt)
  | tried s => some s
  | _ => none

def isStuck : Mark → Bool
  | stuck => true
  | _ => false

end Mark

def stood (ms : List Mark) : List Cursor := ms.filterMap Mark.cursor?

def tries (ms : List Mark) : List (Option Stmt) := ms.filterMap Mark.answer?

def stucks (ms : List Mark) : Nat := ms.countP Mark.isStuck

section
variable (ms ns : List Mark)

@[simp] theorem stood_append : stood (ms ++ ns) = stood ms ++ stood ns := List.filterMap_append

@[simp] theorem tries_append : tries (ms ++ ns) = tries ms ++ tries ns := List.filterMap_append

@[simp] theorem stucks_append : stucks (ms ++ ns) = stucks ms + stucks ns := List.countP_append

end

@[simp] theorem stood_stands (cs : List Cursor) : stood (cs.map .stands) = cs := by
  induction cs with
  | nil => rfl
  | cons c cs ih => exact congrArg (c :: ·) ih

@[simp] theorem tries_stands (cs : List Cursor) : tries (cs.map .stands) = [] := by
  induction cs with
  | nil => rfl
  | cons c cs ih => exact ih

@[simp] theorem stucks_stands (cs : List Cursor) : stucks (cs.map .stands) = 0 := by
  induction cs with
  | nil => rfl
  | cons c cs ih => exact ih

theorem not_stuck_mem {ms : List Mark} (h : stucks ms = 0) : Mark.stuck ∉ ms := by
  intro found
  exact List.countP_eq_zero.mp h _ found rfl

def Cursor.skipped (c : Cursor) : List Cursor :=
  if _h : c.endsBroken then [] else c.advance :: c.advance.skipped
termination_by c.ahead.length
decreasing_by
  exact advance_shorter (by intro last; simp [endsBroken, last] at _h)

def Traced (α : Type) := Cursor → List Mark × Option α × Cursor

namespace Traced
variable {α β : Type}

protected def pure (a : α) : Traced α := fun c => ([], some a, c)

protected def bind (p : Traced α) (f : α → Traced β) : Traced β := fun c =>
  match p c with
  | (ms, some a, d) =>
    match f a d with
    | (ns, end_) => (ms ++ ns, end_)
  | (ms, none, d) => (ms, none, d)

instance : Monad Traced where
  pure := Traced.pure
  bind := Traced.bind

def step (p : Parse α) : Traced α := fun c => ([.stands (p c).2], p c)

def stuck : Traced α := fun c => ([.stuck], none, c)

def attempt (p : Traced α) : Traced (Option α) := fun c =>
  match p c with
  | (ms, r, d) => (ms, some r, d)

instance : MonadParse Traced where
  liftParse := step
  stuck := stuck
  attempt := attempt

def inBlock (p : Traced α) : Traced α := fun c =>
  match p c.enterBlock with
  | (ms, r, d) => (ms, r, d.leaveBlock)

def recovering (p : Traced Stmt) : Traced Stmt := fun c =>
  match p c with
  | (ms, some s, d) => (ms ++ [.tried (some s)], some s, d)
  | (ms, none, d) => (ms ++ (d.skipped.map .stands ++ [.tried none]), none, d.giveUp)

end Traced

mutual

def traceExpression : Nat → Precedence → Traced Expr
  | 0, _ => Traced.stuck
  | n + 1, p => do
    let left ← Parse.operand (traceExpression n) (traceBlock n) n
    Parse.climb (traceExpression n) p n left

def traceStatement : Nat → Traced Stmt
  | 0 => Traced.recovering Traced.stuck
  | n + 1 => Traced.recovering (Parse.statementForm (traceExpression n .lowest))

def traceBlock : Nat → Traced Block
  | 0 => Traced.stuck
  | n + 1 => do
    let t ← Parse.token
    let ss ← Traced.inBlock (do Parse.advance; Parse.statements (traceStatement n) n)
    pure (.mk t ss)

end

def traceTopLevel (depth : Nat) : Nat → Cursor → List Mark × List Stmt × Cursor
  | 0, c => ([.stuck], [], c)
  | n + 1, c =>
    if c.current.kind = .eof then ([], [], c)
    else
      match traceStatement depth c with
      | (ms, s, d) =>
        match traceTopLevel depth n d.advance with
        | (ns, ss, e) => (ms ++ .stands d.advance :: ns, s.toList ++ ss, e)

def traceTokens (ts : List Token) : List Mark × List Stmt × Cursor :=
  traceTopLevel (parseDepth ts) (parseDepth ts) (.start ts)

namespace Cursor
variable {c d e : Cursor} {cs ds : List Cursor}

structure SamePlace (c d : Cursor) : Prop where
  current : d.current = c.current
  ahead : d.ahead = c.ahead
  braces : d.braces = c.braces

theorem SamePlace.refl (c : Cursor) : c.SamePlace c := ⟨rfl, rfl, rfl⟩

theorem SamePlace.trans (first : c.SamePlace d) (next : d.SamePlace e) : c.SamePlace e :=
  ⟨next.current.trans first.current, next.ahead.trans first.ahead, next.braces.trans first.braces⟩

theorem SamePlace.advance (h : c.SamePlace d) : c.advance.SamePlace d.advance := by
  constructor <;> simp [Cursor.advance, peek, h.ahead, h.braces]

def Next (c d : Cursor) : Prop := c.SamePlace d ∨ c.advance.SamePlace d

theorem SamePlace.next (first : c.SamePlace d) (h : d.Next e) : c.Next e :=
  h.imp first.trans first.advance.trans

/-- From `c` to `d` the cursor stands at `cs` one after the other. -/
def Path (c : Cursor) : List Cursor → Cursor → Prop
  | [], d => c.SamePlace d
  | e :: cs, d => c.Next e ∧ e.Path cs d

theorem path_nil (c : Cursor) : c.Path [] c := .refl c

theorem SamePlace.path (first : c.SamePlace d) (h : d.Path cs e) : c.Path cs e := by
  cases cs with
  | nil => exact first.trans h
  | cons f cs => exact ⟨first.next h.1, h.2⟩

theorem Path.trans (first : c.Path cs d) (next : d.Path ds e) : c.Path (cs ++ ds) e := by
  induction cs generalizing c with
  | nil => exact SamePlace.path first next
  | cons f cs ih => exact ⟨first.1, ih first.2⟩

theorem Path.same (h : c.Path cs d) (same : d.SamePlace e) : c.Path cs e := by
  have ends : c.Path (cs ++ []) e := h.trans same
  rwa [List.append_nil] at ends

theorem path_advance (c : Cursor) : c.Path [c.advance] c.advance :=
  ⟨.inr (.refl _), .refl _⟩

theorem path_skipBroken (c : Cursor) : c.Path c.skipped c.skipBroken := by
  fun_induction skipBroken c with
  | case1 c ends =>
    rw [skipped, dif_pos ends]
    exact path_nil c
  | case2 c more ih =>
    rw [skipped, dif_neg more]
    exact ⟨.inr (.refl _), ih⟩

theorem path_giveUp (c : Cursor) : c.Path c.skipped c.giveUp :=
  (path_skipBroken c).same ⟨rfl, rfl, rfl⟩

theorem blocks_skipBroken (c : Cursor) : c.skipBroken.blocks = c.blocks := by
  fun_induction skipBroken c with
  | case1 c ends => rfl
  | case2 c more ih => exact ih

end Cursor

def refusals {α : Type} (a : Option α) : Nat := if a.isNone then 1 else 0

/-- What a trace is worth that leads from `c` to `d`. A refusal, unless fuel ran out, puts one error
into the list; there is one for each statement that was given up, and there are `k` others. -/
structure Account (c : Cursor) (ms : List Mark) (k : Nat) (d : Cursor) : Prop where
  path : c.Path (stood ms) d
  blocks : d.blocks = c.blocks
  errors : c.errors <+: d.errors
  refused : d.errors.length + stucks ms = c.errors.length + (tries ms).countP Option.isNone + k
  dropped : d.dropped = c.dropped + (tries ms).countP Option.isNone

theorem account_nil (c : Cursor) : Account c [] 0 c where
  path := Cursor.path_nil c
  blocks := rfl
  errors := List.prefix_refl _
  refused := rfl
  dropped := rfl

theorem Account.trans {c d e : Cursor} {ms ns : List Mark} {k : Nat} (first : Account c ms 0 d)
    (next : Account d ns k e) : Account c (ms ++ ns) k e where
  path := stood_append ms ns ▸ first.path.trans next.path
  blocks := next.blocks.trans first.blocks
  errors := first.errors.trans next.errors
  refused := by
    have sooner := first.refused
    have later := next.refused
    rw [stucks_append, tries_append, List.countP_append]
    omega
  dropped := by
    have sooner := first.dropped
    have later := next.dropped
    rw [tries_append, List.countP_append]
    omega

def Parse.IsStep {α : Type} (p : Parse α) : Prop :=
  ∀ c, match p c with
    | (some _, d) => d = c ∨ d = c.advance
    | (none, d) => ∃ e, d = c.report e

namespace Parse

theorem isStep_token : token.IsStep := fun _ => .inl rfl

theorem isStep_nextKind : nextKind.IsStep := fun _ => .inl rfl

theorem isStep_closesBlock : closesBlock.IsStep := fun _ => .inl rfl

theorem isStep_advance : advance.IsStep := fun _ => .inr rfl

theorem isStep_ident : ident.IsStep := fun _ => .inl rfl

theorem isStep_string : string.IsStep := fun _ => .inl rfl

theorem isStep_fail {α : Type} (e : SyntaxError) : (fail e : Parse α).IsStep := fun _ => ⟨e, rfl⟩

theorem isStep_integer : integer.IsStep := by
  intro c
  rw [integer, bind_some (show token c = (some c.current, c) from rfl)]
  cases integerOf? c.current.literal with
  | some n => exact .inl rfl
  | none => exact ⟨.badInteger c.current.literal, rfl⟩

theorem isStep_expect (k : Kind) : (expect k).IsStep := by
  intro c
  rw [expect, bind_some (show nextKind c = (some c.peek.kind, c) from rfl)]
  by_cases same : c.peek.kind = k
  · rw [if_pos same]
    exact isStep_advance c
  · rw [if_neg same]
    exact isStep_fail (α := Unit) _ c

theorem isStep_skip (k : Kind) : (skip k).IsStep := by
  intro c
  rw [skip, bind_some (show nextKind c = (some c.peek.kind, c) from rfl)]
  by_cases same : c.peek.kind = k
  · rw [if_pos same]
    exact isStep_advance c
  · rw [if_neg same]
    exact .inl rfl

end Parse

namespace Traced
open Cursor
variable {α β : Type} {c d : Cursor} {ms : List Mark} {p : Traced α} {q : Parse α}
  {f : α → Traced β} {g : α → Parse β} {P R : α → List (Option Stmt) → Prop}
  {Q : β → List (Option Stmt) → Prop}

/-- The traced parser does what the parser does, its account is right, and `P` holds of what it
answers and the attempts it made. -/
def Tells (p : Traced α) (q : Parse α) (P : α → List (Option Stmt) → Prop) : Prop :=
  ∀ c, ∃ ms a d, p c = (ms, a, d) ∧ q c = (a, d) ∧ Account c ms (refusals a) d ∧
    ∀ x ∈ a, P x (tries ms)

theorem bind_some {a : α} (h : p c = (ms, some a, d)) :
    (p >>= f) c = (ms ++ (f a d).1, (f a d).2) := by
  simp [Bind.bind, Traced.bind, h]

theorem bind_none (h : p c = (ms, none, d)) : (p >>= f) c = (ms, none, d) := by
  simp [Bind.bind, Traced.bind, h]

theorem tells_pure {a : α} (h : P a []) : Tells (pure a) (pure a) P := by
  intro c
  refine ⟨[], some a, c, rfl, rfl, account_nil c, ?_⟩
  intro x same
  cases same
  exact h

theorem Tells.bind (first : Tells p q P)
    (next : ∀ a l, P a l → Tells (f a) (g a) fun b k => Q b (l ++ k)) :
    Tells (p >>= f) (q >>= g) Q := by
  intro c
  obtain ⟨ms, a, d, run, plain, account, known⟩ := first c
  cases a with
  | none =>
    refine ⟨ms, none, d, bind_none run, Parse.bind_none plain, account, ?_⟩
    intro x same
    cases same
  | some a =>
    obtain ⟨ns, b, e, run', plain', account', known'⟩ := next a _ (known a rfl) d
    refine ⟨ms ++ ns, b, e, ?_, ?_, account.trans account', ?_⟩
    · rw [bind_some run, run']
    · rw [Parse.bind_some plain, plain']
    · intro x same
      rw [tries_append]
      exact known' x same

theorem Tells.mono (h : Tells p q P) (weaker : ∀ a l, P a l → R a l) : Tells p q R := by
  intro c
  obtain ⟨ms, a, d, run, plain, account, known⟩ := h c
  exact ⟨ms, a, d, run, plain, account, fun x same => weaker _ _ (known x same)⟩

theorem tells_step (moves : q.IsStep) : Tells (step q) q fun _ l => l = [] := by
  intro c
  refine ⟨[.stands (q c).2], (q c).1, (q c).2, rfl, rfl, ?_, fun _ _ => rfl⟩
  have moved := moves c
  rcases run : q c with ⟨_ | a, d⟩
  · rw [run] at moved
    obtain ⟨e, rfl⟩ := moved
    exact ⟨⟨.inl ⟨rfl, rfl, rfl⟩, .refl _⟩, rfl, List.prefix_append _ _,
      by simp [Cursor.report, stucks, tries, refusals, Mark.isStuck, Mark.answer?], rfl⟩
  · rw [run] at moved
    rcases moved with rfl | rfl
    · exact ⟨⟨.inl (.refl _), .refl _⟩, rfl, List.prefix_refl _, rfl, rfl⟩
    · exact ⟨path_advance c, rfl, List.prefix_refl _, rfl, rfl⟩

theorem tells_after (moves : q.IsStep) (next : ∀ a, Tells (f a) (g a) Q) :
    Tells (step q >>= f) (q >>= g) Q := by
  apply (tells_step moves).bind
  rintro a l rfl
  exact next a

theorem tells_stuck : Tells (stuck : Traced α) Parse.stuck P := by
  intro c
  refine ⟨[.stuck], none, c, rfl, rfl, ?_, fun x same => by cases same⟩
  exact ⟨path_nil c, rfl, List.prefix_refl _, rfl, rfl⟩

theorem tells_fail (e : SyntaxError) : Tells (step (Parse.fail e)) (Parse.fail e) P := by
  intro c
  obtain ⟨ms, a, d, run, plain, account, -⟩ := tells_step (Parse.isStep_fail e) c
  refine ⟨ms, a, d, run, plain, account, fun x same => ?_⟩
  cases plain
  cases same

theorem tells_inBlock (h : Tells p q P) : Tells (inBlock p) (Parse.inBlock q) P := by
  intro c
  obtain ⟨ms, a, d, run, plain, account, known⟩ := h c.enterBlock
  refine ⟨ms, a, d.leaveBlock, by rw [inBlock, run], by rw [Parse.inBlock, plain], ?_, known⟩
  refine ⟨?_, ?_, account.errors, account.refused, account.dropped⟩
  · have inside : c.SamePlace c.enterBlock := ⟨rfl, rfl, rfl⟩
    exact inside.path (account.path.same ⟨rfl, rfl, rfl⟩)
  · simp [leaveBlock, account.blocks, enterBlock]

def Tried (P : Stmt → List (Option Stmt) → Prop) (s : Option Stmt) (l : List (Option Stmt)) :
    Prop :=
  match s with
  | some s => ∃ k, P s k ∧ l = k ++ [some s]
  | none => none ∈ l

theorem tells_attempt {p : Traced Stmt} {q : Parse Stmt} {P : Stmt → List (Option Stmt) → Prop}
    (h : Tells p q P) :
    Tells (attempt (recovering p)) (Parse.attempt (Parse.recovering q)) (Tried P) := by
  intro c
  obtain ⟨ms, a, d, run, plain, account, known⟩ := h c
  cases a with
  | some s =>
    refine ⟨ms ++ [.tried (some s)], some (some s), d, by rw [attempt, recovering, run],
      by rw [Parse.attempt, Parse.recovering, plain], ?_, ?_⟩
    · refine ⟨?_, account.blocks, account.errors, ?_, ?_⟩
      · have same : stood (ms ++ [.tried (some s)]) = stood ms := by simp [stood, Mark.cursor?]
        rw [same]
        exact account.path
      · have balance := account.refused
        simpa [stucks, tries, Mark.isStuck, Mark.answer?, refusals] using balance
      · have balance := account.dropped
        simpa [tries, Mark.answer?] using balance
    · rintro x ⟨rfl⟩
      exact ⟨tries ms, known s rfl, by simp [tries, Mark.answer?]⟩
  | none =>
    obtain ⟨errors, dropped⟩ := skipBroken_counts d
    refine ⟨ms ++ (d.skipped.map .stands ++ [.tried none]), some none, d.giveUp,
      by rw [attempt, recovering, run], by rw [Parse.attempt, Parse.recovering, plain], ?_, ?_⟩
    · refine ⟨?_, (blocks_skipBroken d).trans account.blocks, ?_, ?_, ?_⟩
      · have same : stood (ms ++ (d.skipped.map .stands ++ [.tried none])) =
            stood ms ++ d.skipped := by
          rw [stood_append, stood_append, stood_stands]
          exact congrArg _ (List.append_nil _)
        rw [same]
        exact account.path.trans (path_giveUp d)
      · exact errors.symm ▸ account.errors
      · have balance := account.refused
        have here : d.giveUp.errors = d.errors := errors
        rw [here, tries_append, tries_append, tries_stands, stucks_append, stucks_append,
          stucks_stands, List.countP_append]
        exact balance
      · have balance := account.dropped
        simp only [giveUp, tries_append, List.countP_append, tries_stands, balance]
        rfl
    · rintro x ⟨rfl⟩
      simp [Tried, tries, Mark.answer?]

end Traced
end TernLang
