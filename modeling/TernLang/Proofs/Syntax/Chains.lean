import TernLang.Proofs.Syntax.Sentences
import TernLang.Proofs.Syntax.Written

/-!
Chains of binary operators. The parser groups operands with operators between them as an algorithm
with two stacks does, which reads them from left to right and groups what binds at least as tightly
as the operator that comes next.
-/
namespace TernLang

def Kind.IsBinary (k : Kind) : Prop := 0 < k.precedence ∧ k ≠ .lparen ∧ k ≠ .lbracket

instance (k : Kind) : Decidable k.IsBinary := inferInstanceAs (Decidable (_ ∧ _))

section
variable {α β : Type}

/-- Groups the last two operands around the last operator as long as that binds at least as tightly
as the given precedence. Both stacks have their last entry first. -/
def reduceWhile (group : α → Kind → α → α) (p : Precedence) :
    List Kind → List α → List Kind × List α
  | op :: ops, right :: left :: out =>
    if p ≤ op.precedence then reduceWhile group p ops (group left op right :: out)
    else (op :: ops, right :: left :: out)
  | ops, out => (ops, out)

def shunt (group : α → Kind → α → α) : List (Kind × α) → List Kind → List α → List α
  | [], ops, out => (reduceWhile group Precedence.lowest ops out).2
  | (op, x) :: links, ops, out =>
    match reduceWhile group op.precedence ops out with
    | (ops, out) => shunt group links (op :: ops) (x :: out)

/-- The first operand, and the others with an operator before each. -/
def shuntingYard (group : α → Kind → α → α) (first : α) (links : List (Kind × α)) : Option α :=
  (shunt group links [] [first]).getLast?

theorem reduceWhile_map {group : α → Kind → α → α} {group' : β → Kind → β → β} {f : α → β}
    (same : ∀ l op r, f (group l op r) = group' (f l) op (f r)) (p : Precedence) (ops : List Kind)
    (out : List α) : reduceWhile group' p ops (out.map f) =
      ((reduceWhile group p ops out).1, (reduceWhile group p ops out).2.map f) := by
  fun_induction reduceWhile group p ops out with
  | case1 op ops right left out tight ih =>
    rw [← ih, List.map_cons, List.map_cons, reduceWhile, if_pos tight, ← same, List.map_cons]
  | case2 op ops right left out loose =>
    rw [List.map_cons, List.map_cons, reduceWhile, if_neg loose]
  | case3 ops out other =>
    cases ops with
    | nil => rfl
    | cons op ops =>
      match out, other with
      | [], _ => rfl
      | [_], _ => rfl
      | right :: left :: out, other => exact absurd rfl (other op ops right left out rfl)

end

def grouping (left : String) (op : Kind) (right : String) : String :=
  "(" ++ left ++ " " ++ op.name ++ " " ++ right ++ ")"

def chainText (first : String) (links : List (Kind × String)) : String :=
  links.foldl (fun text link => text ++ " " ++ link.1.name ++ " " ++ link.2) first

/-- The printed text of an expression that can be read. -/
def Canonical (x : String) : Prop := ∃ e : Expr, (Node.expr e).Readable ∧ e.text = x

def Node.Reprinted : Node → Prop
  | .expr e => Reprints (.applied e)
  | _ => True

theorem Derives.reprinted {ph : Phrase} {ts : List Token} (h : Derives ph ts)
    (lexed : ∀ t ∈ ts, t.Lexed) : ph.Here Node.Reprinted := by
  cases ph with
  | expr level e => exact h.reprints lexed
  | applied e => exact h.reprints lexed
  | primary e => exact h.reprints lexed
  | _ => trivial

theorem Canonical.reads {x : String} (h : Canonical x) :
    ∃ q ts, Derives (.applied q) ts ∧ Spells x.toList ts ∧ q.text = x := by
  obtain ⟨e, readable, rfl⟩ := h
  have reprinted : Reprints (.applied e) := readable.has Derives.reprinted fun _ => trivial
  obtain ⟨q, ts, derived, spells, same⟩ := reprinted
  refine ⟨q, ts, derived, spells, ?_⟩
  rw [← Expr.text_unmarked, same, Expr.text_unmarked]

theorem Kind.symbol_lexed {k : Kind} (h : k.IsBinary) : (Token.symbol k).Lexed := by
  cases k with
  | plus => exact .single (c := '+') rfl
  | minus => exact .single (c := '-') rfl
  | asterisk => exact .single (c := '*') rfl
  | slash => exact .single (c := '/') rfl
  | percent => exact .single (c := '%') rfl
  | lt => exact .single (c := '<') rfl
  | gt => exact .single (c := '>') rfl
  | ltEq => exact .pair (c := '<') (d := '=') rfl
  | gtEq => exact .pair (c := '>') (d := '=') rfl
  | eq => exact .pair (c := '=') (d := '=') rfl
  | notEq => exact .pair (c := '!') (d := '=') rfl
  | and => exact .pair (c := '&') (d := '&') rfl
  | or => exact .pair (c := '|') (d := '|') rfl
  | _ => exact absurd h (by decide)

theorem Kind.spells_name {k : Kind} (h : k.IsBinary) : Spells k.name.toList [.symbol k] := by
  apply (Kind.symbol_lexed h).spells_literal
  · rintro rfl
    exact absurd h (by decide)
  · rintro rfl
    exact absurd h (by decide)

def Expr.grouped (left : Expr) (op : Kind) (right : Expr) : Expr :=
  .binary (.symbol op) left op.name right

theorem Expr.text_grouped (left : Expr) (op : Kind) (right : Expr) :
    (left.grouped op right).text = grouping left.text op right.text := by
  rw [Expr.grouped, Expr.text, grouping]

/-- The stacks of the algorithm when it has read these tokens. Each operator binds tighter than the
one below it, and each operand is an expression of a level that the operators next to it can take:
on the left of an operator it binds at least as tightly, on the right tighter. -/
inductive Shunted : List Kind → List Expr → Nat → List Token → Prop where
  | one {e level ts} (top : Derives (.expr level e) ts) (bound : level ≤ 6) :
      Shunted [] [e] level ts
  | more {ops op l out r low level ts us} (below : Shunted ops (l :: out) low ts)
      (tighter : ∀ o ∈ ops.head?, o.precedence < op.precedence) (binary : op.IsBinary)
      (left : op.precedence ≤ low + 1) (right : op.precedence ≤ level)
      (top : Derives (.expr level r) us) (bound : level ≤ 6) :
      Shunted (op :: ops) (r :: l :: out) level (ts ++ .symbol op :: us)

namespace Shunted
variable {ops : List Kind} {op : Kind} {out : List Expr} {l r : Expr} {level : Nat}
  {ts us : List Token}

theorem reduce (h : Shunted (op :: ops) (r :: l :: out) level ts) :
    Shunted ops (l.grouped op r :: out) (op.precedence - 1) ts := by
  cases h with
  | @more _ _ _ _ _ low _ ts us below tighter binary left right top bound =>
    obtain ⟨pos, call, index⟩ := binary
    obtain ⟨rank, high⟩ := Kind.ladder_of_precedence call index pos
    have taken : Derives (.expr (op.precedence - 1 + 1) r) us := top.lower (by omega) bound
    have fits : op.precedence - 1 ≤ low := by omega
    have small : op.precedence - 1 ≤ 6 := by omega
    cases below with
    | one first bound' => exact .one (.binary (first.lower fits bound') rank taken) small
    | more below' tighter' binary' left' right' top' bound' =>
      have less := Nat.le_sub_one_of_lt (tighter _ rfl)
      rw [List.append_assoc, List.cons_append]
      exact .more below' tighter' binary' left' less
        (.binary (top'.lower fits bound') rank taken) small

theorem reduces (h : Shunted ops out level ts) {p : Nat} (high : p ≤ level + 1) :
    ∃ ops' out' level', reduceWhile Expr.grouped p ops out = (ops', out') ∧
      Shunted ops' out' level' ts ∧ p ≤ level' + 1 ∧ ∀ o ∈ ops'.head?, o.precedence < p := by
  -- Grouping the last operator leaves the stacks in order, and its operand at least as tight as the
  -- operator that comes next asks for.
  induction ops generalizing out level with
  | nil =>
    cases h with
    | one top bound => exact ⟨[], _, level, rfl, .one top bound, high, by simp⟩
  | cons op ops ih =>
    rcases out with _ | ⟨r, _ | ⟨l, out⟩⟩
    · cases h
    · cases h
    · by_cases tight : p ≤ op.precedence
      · have next : p ≤ op.precedence - 1 + 1 := by omega
        rw [reduceWhile, if_pos tight]
        exact ih h.reduce next
      · rw [reduceWhile, if_neg tight]
        refine ⟨op :: ops, r :: l :: out, level, rfl, h, high, ?_⟩
        rintro o ⟨rfl⟩
        exact Nat.lt_of_not_le tight

theorem push {q : Expr} (h : Shunted ops out level ts)
    (tighter : ∀ o ∈ ops.head?, o.precedence < op.precedence) (binary : op.IsBinary)
    (left : op.precedence ≤ level + 1) (derived : Derives (.applied q) us) :
    Shunted (op :: ops) (q :: out) 6 (ts ++ .symbol op :: us) := by
  have high := (Kind.ladder_of_precedence binary.2.1 binary.2.2 binary.1).2
  cases out with
  | nil => cases h
  | cons l out => exact .more h tighter binary left high (.plain derived) (Nat.le_refl 6)

end Shunted

theorem shunt_derives {links : List (Kind × String)}
    (valid : ∀ link ∈ links, link.1.IsBinary ∧ Canonical link.2) {text : String} {ops : List Kind}
    {out : List Expr} {ts : List Token} (state : Shunted ops out 6 ts)
    (spells : Spells text.toList ts) :
    ∃ e us, Derives (.expr 0 e) us ∧ Spells (chainText text links).toList us ∧
      shunt grouping links ops (out.map Expr.text) = [e.text] := by
  -- The trees of the operands go through the stacks as their texts do. One is left, derived from
  -- all the tokens.
  induction links generalizing text ops out ts with
  | nil =>
    obtain ⟨ops', out', level, run, state', -, below⟩ := state.reduces (Nat.zero_le 7)
    cases state' with
    | one top bound =>
      refine ⟨_, ts, top.lower (Nat.zero_le level) bound, spells, ?_⟩
      rw [shunt, reduceWhile_map Expr.text_grouped, Precedence.lowest, run]
      rfl
    | more => exact absurd (below _ rfl) (Nat.not_lt_zero _)
  | cons link links ih =>
    obtain ⟨op, x⟩ := link
    obtain ⟨here, others⟩ := List.forall_mem_cons.mp valid
    have binary : op.IsBinary := here.1
    obtain ⟨q, us, derived, spelled, same⟩ := here.2.reads
    have high := (Kind.ladder_of_precedence binary.2.1 binary.2.2 binary.1).2
    obtain ⟨ops', out', level, run, state', left, below⟩ :=
      state.reduces (show op.precedence ≤ 6 + 1 by omega)
    have longer : Spells (text ++ " " ++ op.name ++ " " ++ x).toList (ts ++ .symbol op :: us) := by
      simpa [String.toList_append] using (spells.blank (Kind.spells_name binary)).blank spelled
    obtain ⟨e, vs, whole, read, grouped⟩ :=
      ih others (state'.push below binary left derived) longer
    refine ⟨e, vs, whole, read, ?_⟩
    rw [shunt, reduceWhile_map Expr.text_grouped, run, ← grouped, List.map_cons, same]

/-- A chain of expressions in their printed form with binary operators between them is read without
errors, as one statement of an expression. Its text is what grouping the operands' texts with two
stacks gives. -/
theorem chain_groups (first : String) (links : List (Kind × String)) (operand : Canonical first)
    (valid : ∀ link ∈ links, link.1.IsBinary ∧ Canonical link.2) :
    (parse (chainText first links)).errors = [] ∧
      ∃ t e, (parse (chainText first links)).program.statements = [.expr t e] ∧
        shuntingYard grouping first links = some (Stmt.expr t e).text := by
  obtain ⟨q, ts, derived, spells, same⟩ := operand.reads
  obtain ⟨e, us, whole, read, grouped⟩ :=
    shunt_derives valid (.one (.plain derived) (Nat.le_refl 6)) spells
  obtain ⟨t, vs, rfl, -⟩ := whole.begins
  have program : Program.DerivedFrom ⟨[.expr t e]⟩ (tokens (chainText first links).toList) := by
    rw [read.tokens_eq, ← List.append_nil (t :: vs)]
    exact .joined (.expr whole) .noStatements (by simp)
  obtain ⟨clean, parsed⟩ := parse_complete program
  refine ⟨clean, t, e, by rw [parsed], ?_⟩
  rw [List.map_cons, List.map_nil, same] at grouped
  rw [shuntingYard, grouped]
  rfl

theorem chain_groups_product :
    chainText "a" [(.plus, "a"), (.asterisk, "a")] = "a + a * a" ∧
      (parse "a + a * a").errors = [] ∧
      ∃ t e, (parse "a + a * a").program.statements = [.expr t e] ∧
        (Stmt.expr t e).text = "(a + (a * a))" := by
  have read : tokens "a".toList = [⟨.ident, "a"⟩] := by
    decide +kernel
  have program : (parse "a").program.statements =
      [.expr ⟨.ident, "a"⟩ (.ident ⟨⟨.ident, "a"⟩, "a"⟩)] := by
    rw [parse, parseTokens, read]
    rfl
  have operand : Canonical "a" := by
    refine ⟨.ident ⟨⟨.ident, "a"⟩, "a"⟩, ⟨"a", ?_⟩, by rw [Expr.text, Ident.text]⟩
    refine .part (p := .stmt (.expr ⟨.ident, "a"⟩ (.ident ⟨⟨.ident, "a"⟩, "a"⟩))) ?_ ?_
    · simp [Node.parts, program]
    · exact .part List.mem_cons_self .here
  have text : chainText "a" [(.plus, "a"), (.asterisk, "a")] = "a + a * a" := by
    decide +kernel
  have valid : ∀ link ∈ [(Kind.plus, "a"), (Kind.asterisk, "a")],
      link.1.IsBinary ∧ Canonical link.2 :=
    List.forall_mem_cons.mpr ⟨⟨by decide, operand⟩,
      List.forall_mem_singleton.mpr ⟨by decide, operand⟩⟩
  obtain ⟨clean, t, e, single, grouped⟩ :=
    chain_groups "a" [(.plus, "a"), (.asterisk, "a")] operand valid
  rw [text] at clean single
  refine ⟨text, clean, t, e, single, ?_⟩
  have yard : shuntingYard grouping "a" [(.plus, "a"), (.asterisk, "a")] = some "(a + (a * a))" := by
    decide +kernel
  exact Option.some.inj (grouped.symm.trans yard)

end TernLang
