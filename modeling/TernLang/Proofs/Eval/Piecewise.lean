import TernLang.Proofs.Eval.Importing
import TernLang.Proofs.Eval.Mirroring
import TernLang.Proofs.Syntax.Sentences

/-!
A program in pieces. Running the statements of a program one after the other, each from its printed
text, is running the program whole, as long as every statement answers data. Nothing that evaluation
does depends on the tokens in which a statement differs when it is read again.
-/
namespace TernLang

def Node.unmarked : Node → Node
  | .program p => .program p.unmarked
  | .block b => .block b.unmarked
  | .stmt s => .stmt s.unmarked
  | .expr e => .expr e.unmarked

theorem forall₂_of_map_eq {α β : Type} {f : α → β} {as bs : List α} (h : as.map f = bs.map f) :
    List.Forall₂ (fun a b => f a = f b) as bs := by
  rwa [← List.forall₂_eq_eq_eq, List.forall₂_map_left_iff, List.forall₂_map_right_iff] at h

theorem unmarkedExprs_eq (es : List Expr) : unmarkedExprs es = es.map Expr.unmarked := by
  induction es with
  | nil => rfl
  | cons e es ih => rw [unmarkedExprs, ih, List.map_cons]

theorem unmarkedPairs_eq (ps : List (Expr × Expr)) :
    unmarkedPairs ps = ps.map fun p => (p.1.unmarked, p.2.unmarked) := by
  induction ps with
  | nil => rfl
  | cons p ps ih => rw [unmarkedPairs, ih, List.map_cons]

theorem unmarkedStmts_eq (ss : List Stmt) : unmarkedStmts ss = ss.map Stmt.unmarked := by
  induction ss with
  | nil => rfl
  | cons s ss ih => rw [unmarkedStmts, ih, List.map_cons]

/-- The tokens of expression statements are overlooked. -/
def Likeness.unmarked : Likeness := ⟨fun n o => n.unmarked = o.unmarked, 0, 0, False⟩

namespace Likeness

theorem place_unmarked (i : FrameId) : unmarked.place i = i := place_of_moved_eq_zero rfl i

theorem nodes_expr {e d : Expr} (h : e.unmarked = d.unmarked) :
    unmarked.nodes (.expr e) (.expr d) :=
  congrArg Node.expr h

theorem nodes_block {b c : Block} (h : b.unmarked = c.unmarked) :
    unmarked.nodes (.block b) (.block c) :=
  congrArg Node.block h

theorem nodes_exprs {es ds : List Expr} (h : unmarkedExprs es = unmarkedExprs ds) :
    List.Forall₂ (fun e d => unmarked.nodes (.expr e) (.expr d)) es ds := by
  rw [unmarkedExprs_eq, unmarkedExprs_eq] at h
  exact (forall₂_of_map_eq h).imp fun _ _ => nodes_expr

theorem nodes_pairs {ps qs : List (Expr × Expr)} (h : unmarkedPairs ps = unmarkedPairs qs) :
    List.Forall₂ (fun p q => unmarked.nodes (.expr p.1) (.expr q.1) ∧
      unmarked.nodes (.expr p.2) (.expr q.2)) ps qs := by
  rw [unmarkedPairs_eq, unmarkedPairs_eq] at h
  apply (forall₂_of_map_eq h).imp
  intro p q same
  obtain ⟨key, value⟩ := Prod.mk.inj same
  exact ⟨nodes_expr key, nodes_expr value⟩

theorem nodes_stmts {ss ts : List Stmt} (h : unmarkedStmts ss = unmarkedStmts ts) :
    List.Forall₂ (fun s t => unmarked.nodes (.stmt s) (.stmt t)) ss ts := by
  rw [unmarkedStmts_eq, unmarkedStmts_eq] at h
  exact (forall₂_of_map_eq h).imp fun _ _ => congrArg Node.stmt

theorem nodes_alternative {a b : Option Block} (h : a.map Block.unmarked = b.map Block.unmarked) :
    Option.Rel (fun b c => unmarked.nodes (.block b) (.block c)) a b := by
  cases a <;> cases b <;> simp only [Option.map_none, Option.map_some, reduceCtorEq] at h
  case none.none => exact .none
  case some.some => exact .some (nodes_block (Option.some.inj h))

theorem unmarked_cond (t : Token) (c : Expr) (b : Block) (a : Option Block) :
    (Expr.cond t c b a).unmarked = .cond t c.unmarked b.unmarked (a.map Block.unmarked) := by
  cases a with
  | some a => rfl
  | none => rfl

theorem form_expr {e d : Expr} (h : e.unmarked = d.unmarked) :
    (Node.expr e).SameForm unmarked.nodes (.expr d) := by
  cases e <;> cases d <;> simp only [Expr.unmarked, unmarked_cond, reduceCtorEq] at h
  case ident.ident =>
    cases h
    exact .ident rfl
  case int.int =>
    cases h
    exact .int rfl
  case str.str =>
    cases h
    exact .str rfl
  case bool.bool =>
    cases h
    exact .bool
  case array.array =>
    obtain ⟨-, elements⟩ := Expr.array.inj h
    exact .array (nodes_exprs elements)
  case hash.hash =>
    obtain ⟨-, pairs⟩ := Expr.hash.inj h
    exact .hash (nodes_pairs pairs)
  case unary.unary =>
    obtain ⟨-, rfl, right⟩ := Expr.unary.inj h
    exact .unary (nodes_expr right)
  case binary.binary =>
    obtain ⟨-, left, rfl, right⟩ := Expr.binary.inj h
    exact .binary (nodes_expr left) (nodes_expr right)
  case cond.cond =>
    obtain ⟨-, condition, consequence, alternative⟩ := Expr.cond.inj h
    exact .cond (nodes_expr condition) (nodes_block consequence) (nodes_alternative alternative)
  case fn.fn =>
    obtain ⟨-, rfl, body⟩ := Expr.fn.inj h
    exact .fn rfl (nodes_block body)
  case call.call =>
    obtain ⟨-, callee, arguments⟩ := Expr.call.inj h
    exact .call (nodes_expr callee) (nodes_exprs arguments)
  case index.index =>
    obtain ⟨-, left, index⟩ := Expr.index.inj h
    exact .index (nodes_expr left) (nodes_expr index)
  case loop.loop =>
    obtain ⟨-, body⟩ := Expr.loop.inj h
    exact .loop (nodes_block body)
  case stray.stray =>
    cases h
    exact .strayExpr

theorem statements_of_unmarked {b c : Block} (h : b.unmarked = c.unmarked) :
    List.Forall₂ (fun s t => unmarked.nodes (.stmt s) (.stmt t)) b.statements c.statements := by
  cases b
  cases c
  obtain ⟨-, statements⟩ := Block.mk.inj h
  exact nodes_stmts statements

theorem form_stmt {s t : Stmt} (h : s.unmarked = t.unmarked) :
    (Node.stmt s).SameForm unmarked.nodes (.stmt t) := by
  cases s <;> cases t <;> simp only [Stmt.unmarked, reduceCtorEq] at h
  case bind.bind =>
    obtain ⟨-, rfl, value⟩ := Stmt.bind.inj h
    exact .bind rfl (nodes_expr value)
  case ret.ret =>
    obtain ⟨-, value⟩ := Stmt.ret.inj h
    exact .returns (nodes_expr value)
  case expr.expr =>
    obtain ⟨-, value⟩ := Stmt.expr.inj h
    exact .simple (nodes_expr value)
  case block.block => exact .braces (statements_of_unmarked (Stmt.block.inj h))
  case load.load =>
    cases h
    exact .load rfl
  case exit.exit =>
    cases h
    exact .exit rfl
  case brk.brk => exact .brk
  case stray.stray =>
    cases h
    exact .strayStmt

theorem unmarked_sound : unmarked.Sound where
  form {n o} same := by
    cases n with
    | program p =>
      cases o with
      | program q =>
        exact .program (nodes_stmts (congrArg Program.statements (Node.program.inj same)))
      | block | stmt | expr => cases same
    | block b =>
      cases o with
      | block c => exact .block (statements_of_unmarked (Node.block.inj same))
      | program | stmt | expr => cases same
    | stmt s =>
      cases o with
      | stmt t => exact form_stmt (Node.stmt.inj same)
      | program | block | expr => cases same
    | expr e =>
      cases o with
      | expr d => exact form_expr (Node.expr.inj same)
      | program | block | stmt => cases same
  text {b c} same := by
    rw [← b.text_unmarked, Node.block.inj same, c.text_unmarked]
  programs _ _ := rfl

end Likeness

namespace Machine
variable (m : Machine) (i : FrameId)

/-- The statements of a program, which are one level deeper than it, answer data one after the
other. -/
def Through : List Stmt → World → Prop
  | [], _ => True
  | s :: ss, w => ∃ v x, eval m.context (m.depth - 1) (.stmt s) i w = (.ok v, x) ∧
    v.isControl = false ∧ Through ss x

/-- Texts run one after the other in a frame, up to the first that halts. The last of them gives the
answer. -/
def evalTexts : Value → List String → Run Value
  | last, [] => pure last
  | _, text :: texts => do
    let v ← m.evalText i text
    evalTexts v texts

variable {m i} {w x : World} {s : Stmt} {v : Value}

theorem program_clean {text : String} (clean : (parse text).errors = []) (w : World) :
    program text w = (.ok (parse text).program, w) := by
  obtain ⟨x, read, same⟩ := Run.parse_answers text w
  have none : (parse text).errors.isEmpty = true := by rw [clean]; rfl
  obtain rfl := same none
  unfold program
  rw [Run.bind_ok read, if_pos none]
  rfl

theorem evalText_clean_eq {text : String} (clean : (parse text).errors = []) (i : FrameId)
    (w : World) : m.evalText i text w = m.evaluate (.program (parse text).program) i w := by
  unfold evalText
  rw [Run.bind_ok (program_clean clean w)]

theorem depth_pos {node : Node} (h : eval m.context (m.depth - 1) node i w = (.ok v, x)) :
    m.depth = m.depth - 1 + 1 := by
  cases left : m.depth with
  | zero =>
    rw [left] at h
    cases h
  | succ depth => rfl

theorem landed_of_data (data : v.isControl = false) : v.landed = v := by
  cases v with
  | ret | brk => cases data
  | int | bool | str | null | array | hash | fn | builtin | err => rfl

theorem evalText_clean_run {text : String} (clean : (parse text).errors = [])
    (level : m.depth = m.depth - 1 + 1)
    (run : Eval.block (eval m.context (m.depth - 1)) i .null (parse text).program.statements w =
      (.ok v, x)) (data : v.isControl = false) : m.evalText i text w = (.ok v, x) := by
  rw [evalText_clean_eq clean]
  unfold evaluate
  rw [level, eval, evalStep, Run.bind_ok run, landed_of_data data]
  rfl

/-- A statement and its printed text do the same, in worlds that look alike. -/
theorem evalText_statement {before : String × String} (again : s.Rereads)
    (worlds : Likeness.unmarked.Worlds Likeness.unmarked.Frames before w x) {y : World}
    (run : eval m.context (m.depth - 1) (.stmt s) i w = (.ok v, y)) (data : v.isControl = false) :
    ∃ u z, m.evalText i s.text x = (.ok u, z) ∧ Likeness.unmarked.Alike y.store.next v u ∧
      Likeness.unmarked.Worlds Likeness.unmarked.Frames before y z := by
  obtain ⟨clean, q, read, same⟩ := again
  have ended := Likeness.eval_like Likeness.unmarked_sound (Likeness.stores_frames _) m.context
    (m.depth - 1) (.stmt s) (.stmt q) i 0 (congrArg Node.stmt same.symm) (fun none => none.elim)
    w x worlds (Nat.zero_le _)
  rw [Likeness.place_unmarked, run] at ended
  rcases other : eval m.context (m.depth - 1) (.stmt q) i x with ⟨b, z⟩
  rw [other] at ended
  cases ended with
  | @ok _ u _ _ worlds grown alike =>
    have free : u.isControl = false := alike.isControl.trans data
    refine ⟨u, z, ?_, alike, worlds⟩
    apply evalText_clean_run clean (depth_pos run) _ free
    rw [read, Eval.block, onData_run other free]
    rfl

theorem block_in_pieces {before : String × String} {ss : List Stmt} (through : m.Through i ss w)
    (again : ∀ s ∈ ss, s.Rereads)
    (worlds : Likeness.unmarked.Worlds Likeness.unmarked.Frames before w x) {u : Value}
    (last : Likeness.unmarked.Alike w.store.next v u) (data : v.isControl = false) :
    ∃ a y b z, Eval.block (eval m.context (m.depth - 1)) i v ss w = (.ok a, y) ∧
      a.isControl = false ∧ m.evalTexts i u (ss.map Stmt.text) x = (.ok b, z) ∧
        Likeness.unmarked.Alike y.store.next a b ∧
          Likeness.unmarked.Worlds Likeness.unmarked.Frames before y z := by
  -- Both ways keep worlds that look alike.
  induction ss generalizing w x v u with
  | nil => exact ⟨v, w, u, x, rfl, data, rfl, last, worlds⟩
  | cons s ss ih =>
    obtain ⟨c, y, run, free, later⟩ := through
    obtain ⟨here, others⟩ := List.forall_mem_cons.mp again
    obtain ⟨d, z, piece, alike, reached⟩ := evalText_statement here worlds run free
    obtain ⟨a, y', b, z', whole, still, pieces, same, ended⟩ := ih later others reached alike free
    refine ⟨a, y', b, z', ?_, still, ?_, same, ended⟩
    · rw [Eval.block, onData_run run free, whole]
    · rw [List.map_cons, evalTexts, Run.bind_ok piece, pieces]

end Machine

theorem worlds_start : Likeness.unmarked.Worlds Likeness.unmarked.Frames ("", "") World.start
    World.start where
  store := by
    refine ⟨Nat.zero_le _, (Likeness.place_unmarked _).symm, ?_⟩
    intro i
    rw [Likeness.place_unmarked]
    cases found : World.start.store.frame? i with
    | none => exact .none
    | some f =>
      obtain rfl := start_frame found
      exact .some ⟨.nil, rfl, fun _ none => nomatch none⟩
  output := ⟨"", rfl, rfl⟩
  loading _ := rfl

/-- If the statements of a text all answer data, their printed texts run one after the other in a
fresh session do what the text does: all are accepted, the last answer is the same, and so is what
is written and what is bound in each frame, up to the tokens of expression statements in function
bodies. -/
theorem program_in_pieces (m : Machine) (text : String) (clean : (parse text).errors = [])
    (nonempty : (parse text).program.statements ≠ [])
    (through : m.Through globalFrame (parse text).program.statements World.start) :
    (∀ s ∈ (parse text).program.statements, (parse s.text).errors = []) ∧
      ∃ v w u x, m.evalText globalFrame text World.start = (.ok v, w) ∧
        m.evalTexts globalFrame .null ((parse text).program.statements.map Stmt.text) World.start =
          (.ok u, x) ∧ Likeness.unmarked.Alike w.store.next v u ∧ x.output = w.output ∧
            Likeness.unmarked.Frames w.store x.store := by
  have again : ∀ s ∈ (parse text).program.statements, s.Rereads :=
    fun s => parse_statement_rereads text
  refine ⟨fun s member => (again s member).clean, ?_⟩
  obtain ⟨v, w, u, x, whole, data, pieces, alike, worlds⟩ :=
    Machine.block_in_pieces through again worlds_start .null rfl
  have level : m.depth = m.depth - 1 + 1 := by
    obtain ⟨s, ss, statements⟩ := List.exists_cons_of_ne_nil nonempty
    rw [statements] at through
    obtain ⟨_, _, run, -, -⟩ := through
    exact Machine.depth_pos run
  refine ⟨v, w, u, x, Machine.evalText_clean_run clean level whole data, pieces, alike, ?_,
    worlds.store⟩
  obtain ⟨o, left, right⟩ := worlds.output
  rw [left, right]

def addAndWrite : List Stmt :=
  [.bind ⟨.letWord, "let"⟩ ⟨⟨.ident, "f"⟩, "f"⟩
      (.fn ⟨.fnWord, "fn"⟩ [⟨⟨.ident, "x"⟩, "x"⟩] (.mk (.symbol .lbrace)
        [.expr ⟨.ident, "x"⟩ (.binary (.symbol .plus) (.ident ⟨⟨.ident, "x"⟩, "x"⟩) "+"
          (.int ⟨⟨.int, "1"⟩, 1⟩))])),
    .expr ⟨.ident, "puts"⟩ (.call (.symbol .lparen) (.ident ⟨⟨.ident, "puts"⟩, "puts"⟩)
      [.call (.symbol .lparen) (.ident ⟨⟨.ident, "f"⟩, "f"⟩) [.int ⟨⟨.int, "2"⟩, 2⟩]])]

/-- The second text calls the function that the first has bound, whose body starts at another token
than in the whole text. -/
theorem program_in_pieces_function :
    ∃ v w u x, (Machine.mk ⟨default, 1⟩ 9).evalText globalFrame
        "let f = fn(x) \x7bx + 1\x7d; puts(f(2))" World.start = (.ok v, w) ∧
      (Machine.mk ⟨default, 1⟩ 9).evalTexts globalFrame .null
        ["let f = fn(x) \x7b(x + 1)\x7d", "puts(f(2))"] World.start = (.ok u, x) ∧
      Likeness.unmarked.Alike w.store.next v u ∧ w.output = "3\n" ∧ x.output = "3\n" := by
  have read : tokens "let f = fn(x) \x7bx + 1\x7d; puts(f(2))".toList = [⟨.letWord, "let"⟩,
      ⟨.ident, "f"⟩, .symbol .assign, ⟨.fnWord, "fn"⟩, .symbol .lparen, ⟨.ident, "x"⟩,
      .symbol .rparen, .symbol .lbrace, ⟨.ident, "x"⟩, .symbol .plus, ⟨.int, "1"⟩, .symbol .rbrace,
      .symbol .semicolon, ⟨.ident, "puts"⟩, .symbol .lparen, ⟨.ident, "f"⟩, .symbol .lparen,
      ⟨.int, "2"⟩, .symbol .rparen, .symbol .rparen] := by
    decide +kernel
  have parsed : parse "let f = fn(x) \x7bx + 1\x7d; puts(f(2))" = ⟨⟨addAndWrite⟩, []⟩ := by
    unfold parse
    rw [read]
    rfl
  have clean : (parse "let f = fn(x) \x7bx + 1\x7d; puts(f(2))").errors = [] := by rw [parsed]
  have printed : addAndWrite.map Stmt.text = ["let f = fn(x) \x7b(x + 1)\x7d", "puts(f(2))"] := by
    decide +kernel
  have through : (Machine.mk ⟨default, 1⟩ 9).Through globalFrame addAndWrite World.start := by
    refine ⟨.null, _, by with_unfolding_all rfl, rfl, ?_⟩
    exact ⟨.null, _, by with_unfolding_all rfl, rfl, trivial⟩
  have pieces := program_in_pieces (.mk ⟨default, 1⟩ 9) _ clean
    (by rw [parsed]; exact List.cons_ne_nil _ _) (by rw [parsed]; exact through)
  obtain ⟨-, v, w, u, x, whole, session, alike, output, -⟩ := pieces
  rw [parsed, printed] at session
  have written : w.output = "3\n" := by
    have ran := congrArg (fun r => r.2.output) whole
    rw [Machine.evalText_clean_eq clean, parsed] at ran
    rw [← ran]
    with_unfolding_all rfl
  exact ⟨v, w, u, x, whole, session, alike, written, output.trans written⟩

end TernLang
