import TernLang.Proofs.Eval.Clean
import TernLang.Proofs.Syntax.Throughout

/-!
Control flow is lexical. A node answers a break only if a `break` is written in it outside loops and
function bodies, and a return only if a `return` is written in it outside function bodies: calls and
modules that run on the way hand up neither.
-/
namespace TernLang

namespace Node

def IsFunction : Node → Prop
  | .expr (.fn _ _ _) => True
  | _ => False

def IsLoop : Node → Prop
  | .expr (.loop _ _) => True
  | _ => False

def Plain (n : Node) : Prop := ¬ n.IsFunction ∧ ¬ n.IsLoop

/-- A node that is written in another, with none of the walls around it there. -/
inductive Within (wall : Node → Prop) : Node → Node → Prop where
  | self (n : Node) : Within wall n n
  | part {n p q : Node} (free : ¬ wall n) (inside : p ∈ n.parts) (rest : Within wall p q) :
    Within wall n q

/-- A `break` is written in the node outside loops and function bodies. -/
def Breaks (n : Node) : Prop :=
  ∃ t, n.Within (fun wall => wall.IsFunction ∨ wall.IsLoop) (.stmt (.brk t))

/-- A `return` is written in the node outside function bodies. -/
def Returns (n : Node) : Prop := ∃ t e, n.Within IsFunction (.stmt (.ret t e))

/-- What a node may answer for what is written in it. -/
inductive Answers (n : Node) : Value → Prop where
  | outcome {v : Value} (h : v.Outcome) : Answers n v
  | ret {v : Value} (data : v.Data) (written : n.Returns) : Answers n (.ret v)
  | brk (written : n.Breaks) : Answers n .brk

def Gives : Node → Value → Prop
  | .program _ => Value.Outcome
  | n => n.Answers

variable {n p : Node} {v : Value}

theorem Returns.part (plain : ¬ n.IsFunction) (inside : p ∈ n.parts) (h : p.Returns) :
    n.Returns := by
  obtain ⟨t, e, path⟩ := h
  exact ⟨t, e, .part plain inside path⟩

theorem Breaks.part (plain : n.Plain) (inside : p ∈ n.parts) (h : p.Breaks) : n.Breaks := by
  obtain ⟨t, path⟩ := h
  exact ⟨t, .part (not_or.mpr plain) inside path⟩

theorem Answers.part (plain : n.Plain) (inside : p ∈ n.parts) (h : p.Answers v) :
    n.Answers v := by
  cases h with
  | outcome h => exact .outcome h
  | ret data written => exact .ret data (written.part plain.1 inside)
  | brk written => exact .brk (written.part plain inside)

theorem Answers.answer (h : n.Answers v) : v.Answer := by
  cases h with
  | outcome h => exact .outcome h
  | ret data => exact .ret data
  | brk => exact .brk

theorem Gives.answers (h : n.Gives v) : n.Answers v := by
  cases n with
  | program => exact .outcome h
  | block | stmt | expr => exact h

theorem Answers.breaks (h : n.Answers .brk) : n.Breaks := by
  cases h with
  | outcome h =>
    cases h with
    | data h => cases h
  | brk written => exact written

theorem Answers.returns (h : n.Answers (.ret v)) : n.Returns := by
  cases h with
  | outcome h =>
    cases h with
    | data h => cases h
  | ret _ written => exact written

theorem Within.eq_of_wall {wall : Node → Prop} {q : Node} (h : n.Within wall q) (closed : wall n) :
    q = n := by
  cases h with
  | self => rfl
  | part free => exact absurd closed free

theorem loop_not_breaks (t : Token) (b : Block) : ¬ (Node.expr (.loop t b)).Breaks := by
  rintro ⟨_, path⟩
  cases path.eq_of_wall (.inr trivial)

theorem load_not_breaks (t : Token) (p : StrLit) : ¬ (Node.stmt (.load t p)).Breaks := by
  rintro ⟨_, path⟩
  cases path with
  | part _ inside => cases inside

theorem load_not_returns (t : Token) (p : StrLit) : ¬ (Node.stmt (.load t p)).Returns := by
  rintro ⟨_, _, path⟩
  cases path with
  | part _ inside => cases inside

end Node

theorem Value.Outcome.lands {v : Value} (h : v.Outcome) : v ≠ .brk ∧ ∀ u, v ≠ .ret u := by
  constructor
  · rintro rfl
    cases h with
    | data h => cases h
  · rintro u rfl
    cases h with
    | data h => cases h

def Evaluator.Lexical (rec : Evaluator) : Prop := ∀ node i, (rec node i).Clean node.Gives

section
variable {rec : Evaluator} {i : FrameId} {n : Node}

theorem Evaluator.Lexical.clean (h : rec.Lexical) : rec.Clean :=
  fun node i => (h node i).mono (fun _ known => known.answers.answer) fun _ => id

theorem Evaluator.Lexical.part (h : rec.Lexical) (plain : n.Plain) {p : Node}
    (inside : p ∈ n.parts) : (rec p i).Clean n.Answers :=
  (h p i).mono (fun _ known => known.answers.part plain inside) fun _ => id

theorem lexical_outcome {r : Run Value} (h : r.Clean Value.Outcome) : r.Clean n.Answers :=
  h.mono (fun _ => .outcome) fun _ => id

theorem lexical_data {v : Value} (h : v.Data) : (pure v : Run Value).Clean n.Answers :=
  Run.keeps_pure (.outcome (.data h))

theorem lexical_fail (f : Failure) : (pure (.fail f) : Run Value).Clean n.Answers :=
  Run.keeps_pure (.outcome (.fail f))

theorem lexical_onData {r : Run Value} {k : Value → Run Value} (h : r.Clean n.Answers)
    (data : ∀ v : Value, v.Data → (k v).Clean n.Answers) : (onData r k).Clean n.Answers :=
  (Run.keeps_rules _ _).onData h (fun _ known _ => known) fun v known free =>
    data v (known.answer.data free)

namespace Eval

theorem onAll_lexical (h : rec.Lexical) (plain : n.Plain) {es : List Expr}
    {k : List Value → Run Value} (inside : ∀ e ∈ es, .expr e ∈ n.parts)
    (data : ∀ vs : List Value, (∀ v ∈ vs, v.Data) → (k vs).Clean n.Answers) :
    (onAll rec i es k).Clean n.Answers := by
  apply (Run.keeps_rules _ _).onAll (P := n.Answers)
  · exact fun e member => h.part plain (inside e member)
  · exact fun _ known _ => known
  · exact fun vs known => data vs fun v member => (known v member).1.answer.data (known v member).2

theorem pairs_lexical (h : rec.Lexical) (plain : n.Plain)
    {done : List (Key × Value)} (ready : ∀ p ∈ done, p.2.Data) (ps : List (Expr × Expr))
    (inside : ∀ p ∈ ps, .expr p.1 ∈ n.parts ∧ .expr p.2 ∈ n.parts) :
    (pairs rec i done ps).Clean n.Answers := by
  induction ps generalizing done with
  | nil => exact lexical_data (.hash ready)
  | cons p ps ih =>
    obtain ⟨⟨key, value⟩, others⟩ := List.forall_mem_cons.mp inside
    apply lexical_onData (h.part plain key)
    intro k _
    cases hashable : k.isKey with
    | false => exact lexical_fail _
    | true =>
      apply lexical_onData (h.part plain value)
      intro v data
      obtain ⟨key, found⟩ := key_of_isKey hashable
      rw [found]
      apply Run.Keeps.bind (P := fun _ => True)
      · exact Run.keeps_pure trivial
      · exact fun l _ => ih (forall_putPair data ready) others

theorem block_lexical (h : rec.Lexical) (plain : n.Plain) {ss : List Stmt}
    (inside : ∀ s ∈ ss, .stmt s ∈ n.parts) : (block rec i .null ss).Clean n.Answers := by
  apply (Run.keeps_rules _ _).block
  · exact .outcome (.data .null)
  · exact fun s member => h.part plain (inside s member)

theorem cond_lexical (h : rec.Lexical) (t : Token) (c : Expr) (b : Block) (a : Option Block) :
    (cond rec i c b a).Clean (Node.expr (.cond t c b a)).Answers := by
  have plain : (Node.expr (.cond t c b a)).Plain := ⟨id, id⟩
  apply lexical_onData (h.part plain (by simp [Node.parts, Expr.parts]))
  intro v _
  cases v.holds with
  | true => exact h.part plain (by simp [Node.parts, Expr.parts])
  | false =>
    cases a with
    | some a => exact h.part plain (by simp [Node.parts, Expr.parts])
    | none => exact lexical_data .null

theorem loop_lexical (h : rec.Lexical) (t : Token) (b : Block) (rounds : Nat) :
    (loop rec b i rounds).Clean (Node.expr (.loop t b)).Answers := by
  have body : (rec (.block b) i).Clean (Node.block b).Answers := h (.block b) i
  apply (Run.keeps_rules _ _).loop body
  · exact id
  · exact .outcome (.data .null)
  · intro v known
    have returned : (Node.expr (.loop t b)).Returns :=
      known.returns.part id (List.mem_singleton_self _)
    cases known with
    | outcome h =>
      cases h with
      | data h => cases h
    | ret data => exact .ret data returned
  · exact fun m _ => .outcome (.err m)

theorem expr_lexical (h : rec.Lexical) (rounds : Nat) (e : Expr) :
    (expr rounds rec i e).Clean (Node.expr e).Answers := by
  cases e with
  | ident x => exact lexical_outcome (ident_clean x.name i)
  | int n => exact lexical_data (.int n.value)
  | str s => exact lexical_data (.str s.value)
  | bool t b => exact lexical_data (.bool b)
  | array t es =>
    apply onAll_lexical h ⟨id, id⟩
    · exact fun e => List.mem_map_of_mem
    · exact fun vs data => lexical_data (.array data)
  | hash t ps =>
    apply pairs_lexical h ⟨id, id⟩ (by simp)
    intro p member
    constructor
    · exact List.mem_flatMap.mpr ⟨p, member, by simp⟩
    · exact List.mem_flatMap.mpr ⟨p, member, by simp⟩
  | unary t op r =>
    apply lexical_onData (h.part ⟨id, id⟩ (List.mem_singleton_self _))
    exact fun v _ => lexical_outcome (Run.keeps_pure (Operator.unary_outcome op v))
  | binary t l op r =>
    apply lexical_onData (h.part ⟨id, id⟩ (List.mem_cons_self ..))
    intro v _
    apply lexical_onData (h.part ⟨id, id⟩ (List.mem_cons_of_mem _ (by simp)))
    exact fun w _ => lexical_outcome (Run.keeps_pure (Operator.binary_outcome op v w))
  | cond t c b a => exact cond_lexical h t c b a
  | fn t ps b => exact lexical_data (.fn ps b i)
  | call t f es =>
    apply lexical_onData (h.part ⟨id, id⟩ (List.mem_cons_self ..))
    intro v _
    apply onAll_lexical h ⟨id, id⟩
    · exact fun e member => List.mem_cons_of_mem _ (List.mem_map_of_mem member)
    · exact fun vs data => lexical_outcome (apply_clean h.clean v data)
  | index t l n =>
    apply lexical_onData (h.part ⟨id, id⟩ (List.mem_cons_self ..))
    intro v data
    apply lexical_onData (h.part ⟨id, id⟩ (List.mem_cons_of_mem _ (by simp)))
    exact fun w _ => lexical_outcome (Run.keeps_pure (element_outcome data))
  | loop t b => exact loop_lexical h t b rounds
  | stray form => exact lexical_fail _

theorem load_lexical (h : rec.Lexical) (host : Host) (name : String) :
    (load host rec i name).Clean Value.Outcome := by
  unfold load
  -- A module's program has used up its breaks and returns before the import goes on.
  apply Run.Keeps.bind (P := Value.Outcome)
  · exact (Run.keeps_rules _ _).loadModule (fun _ => h (.program _) i) .fail fun _ other => other
  · intro v known
    cases failed : v.isError with
    | true => exact Run.keeps_pure known
    | false => exact Run.keeps_pure (.data .null)

theorem stmt_lexical (h : rec.Lexical) (host : Host) (s : Stmt) :
    (stmt host rec i s).Clean (Node.stmt s).Answers := by
  cases s with
  | bind t x e =>
    apply lexical_onData (h.part ⟨id, id⟩ (List.mem_singleton_self _))
    intro v data
    exact (clean_assign data).bind fun _ _ => lexical_data .null
  | ret t e =>
    apply lexical_onData (h.part ⟨id, id⟩ (List.mem_singleton_self _))
    exact fun v data => Run.keeps_pure (.ret data ⟨t, e, .self _⟩)
  | expr t e => exact h.part ⟨id, id⟩ (List.mem_singleton_self _)
  | block b =>
    apply block_lexical h ⟨id, id⟩
    exact fun s => List.mem_map_of_mem
  | load t p => exact lexical_outcome (load_lexical h host p.value)
  | exit t n => exact (Run.keeps_note _).bind fun _ _ => Run.keeps_halt id
  | brk t => exact Run.keeps_pure (.brk ⟨t, .self _⟩)
  | stray form => exact lexical_fail _

end Eval

theorem evalStep_lexical (cx : Context) (h : rec.Lexical) :
    (evalStep cx rec n i).Clean n.Gives := by
  cases n with
  | program p =>
    have body : (Eval.block rec i .null p.statements).Clean (Node.program p).Answers :=
      Eval.block_lexical h ⟨id, id⟩ fun s => List.mem_map_of_mem
    exact body.bind fun v known => Run.keeps_pure known.answer.landed
  | block b => exact Eval.block_lexical h ⟨id, id⟩ fun s => List.mem_map_of_mem
  | stmt s => exact Eval.stmt_lexical h cx.host s
  | expr e => exact Eval.expr_lexical h cx.rounds e

end

theorem eval_lexical (cx : Context) (depth : Nat) : Evaluator.Lexical (eval cx depth) := by
  induction depth with
  | zero => exact fun node i => Run.keeps_halt id
  | succ depth ih => exact fun node i => evalStep_lexical cx ih

/-- In a store of data, a node that answers a break has a `break` written in it outside loops and
function bodies, and one that answers a return has a `return` written in it outside function bodies.
A loop answers no break; an import, a program and a call answer neither. -/
theorem control_flow_lexical (m : Machine) (w : World) (clean : w.store.Data) :
    (∀ node i, ((m.evaluate node i w).1 = .ok .brk → node.Breaks) ∧
        ∀ v, (m.evaluate node i w).1 = .ok (.ret v) → node.Returns) ∧
      (∀ t b i, (m.evaluate (.expr (.loop t b)) i w).1 ≠ .ok .brk) ∧
        (∀ t p i v, (m.evaluate (.stmt (.load t p)) i w).1 = .ok v →
          v ≠ .brk ∧ ∀ u, v ≠ .ret u) ∧
          (∀ p i v, (m.evaluate (.program p) i w).1 = .ok v → v ≠ .brk ∧ ∀ u, v ≠ .ret u) ∧
            ∀ f args, (∀ v ∈ args, v.Data) → ∀ v, (m.apply f args w).1 = .ok v →
              v ≠ .brk ∧ ∀ u, v ≠ .ret u := by
  have answers : ∀ node i, (m.evaluate node i).EndsClean w node.Gives :=
    fun node i => (eval_lexical m.context m.depth node i).endsClean clean
  refine ⟨?_, ?_, ?_, ?_, ?_⟩
  · intro node i
    constructor
    · exact fun answered => ((answers node i).answer _ answered).answers.breaks
    · exact fun v answered => ((answers node i).answer _ answered).answers.returns
  · intro t b i answered
    exact Node.loop_not_breaks t b ((answers _ i).answer _ answered).answers.breaks
  · intro t p i v answered
    have known := ((answers _ i).answer _ answered).answers
    constructor
    · rintro rfl
      exact Node.load_not_breaks t p known.breaks
    · rintro u rfl
      exact Node.load_not_returns t p known.returns
  · intro p i v answered
    have known : v.Outcome := (answers (.program p) i).answer v answered
    exact known.lands
  · intro f args data v answered
    have called := (Eval.apply_clean (eval_lexical m.context m.depth).clean f data).endsClean clean
    exact (called.answer v answered).lands

theorem control_flow_lexical_break :
    World.start.store.Data ∧
      (Node.block (.mk ⟨.lbrace, "\x7b"⟩ [.brk ⟨.breakWord, "break"⟩])).Breaks := by
  have clean : World.start.store.Data := start_each
  refine ⟨clean, ?_⟩
  have lexical := control_flow_lexical (Machine.ofHost default 5000) World.start clean
  apply (lexical.1 (.block (.mk ⟨.lbrace, "\x7b"⟩ [.brk ⟨.breakWord, "break"⟩])) globalFrame).1
  rfl

end TernLang
