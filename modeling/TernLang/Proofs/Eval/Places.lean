import TernLang.Machine

/-!
Evaluation in two places. A relation between what is done in one place and in another that all ways
of putting runs together respect holds of a node if it holds of its parts. How modules are loaded is
left to the relation, since it is all that touches the list of files that are being loaded; so is
how often a loop goes round.
-/
namespace TernLang

namespace Run
variable {α β : Type}

def LoadsNothing (r : Run α) : Prop := ∀ w, (r w).2.loading = w.loading

def Appends (r : Run α) : Prop := ∀ w, ∃ written, (r w).2.output = w.output ++ written

/-- What every run does with the files that are being loaded and with what has been written. -/
structure Bare (r : Run α) : Prop where
  loading : r.LoadsNothing
  output : r.Appends

theorem Bare.bind {r : Run α} {f : α → Run β} (first : r.Bare) (next : ∀ a, (f a).Bare) :
    (r >>= f).Bare := by
  constructor
  · intro w
    have here := first.loading w
    rcases run : r w with ⟨h | a, x⟩
    · rw [run] at here
      rw [bind_error run]
      exact here
    · rw [run] at here
      rw [bind_ok run]
      exact ((next a).loading x).trans here
  · intro w
    obtain ⟨written, here⟩ := first.output w
    rcases run : r w with ⟨h | a, x⟩
    · rw [run] at here
      rw [bind_error run]
      exact ⟨written, here⟩
    · rw [run] at here
      obtain ⟨more, rest⟩ := (next a).output x
      rw [bind_ok run, rest, here, String.append_assoc]
      exact ⟨written ++ more, rfl⟩

theorem bare_of_same {r : Run α} (loading : r.LoadsNothing)
    (output : ∀ w, (r w).2.output = w.output) : r.Bare where
  loading := loading
  output w := ⟨"", by rw [output, String.append_empty]⟩

theorem bare_pure (a : α) : (Pure.pure a : Run α).Bare := bare_of_same (fun _ => rfl) fun _ => rfl

theorem bare_halt (h : Halt) : (halt h : Run α).Bare := bare_of_same (fun _ => rfl) fun _ => rfl

theorem bare_ofExcept (e : Except Halt α) : (ofExcept e).Bare :=
  bare_of_same (fun _ => rfl) fun _ => rfl

theorem bare_store : store.Bare := bare_of_same (fun _ => rfl) fun _ => rfl

theorem bare_loading : loading.Bare := bare_of_same (fun _ => rfl) fun _ => rfl

theorem bare_write (s : String) : (write s).Bare where
  loading _ := rfl
  output _ := ⟨s, rfl⟩

theorem bare_note (e : LogEvent) : (note e).Bare := bare_of_same (fun _ => rfl) fun _ => rfl

theorem bare_newFrame (outer : Option FrameId) : (newFrame outer).Bare :=
  bare_of_same (fun _ => rfl) fun _ => rfl

theorem bare_assign (i : FrameId) (name : String) (v : Value) : (assign i name v).Bare := by
  apply bare_of_same
  all_goals
    intro w
    unfold assign
    split
    · rfl
    · rfl

theorem Bare.whileLoading {r : Run α} (p : Path) (h : r.Bare) : (whileLoading p r).Bare where
  loading w := congrArg List.tail (h.loading { w with loading := p :: w.loading })
  output w := h.output { w with loading := p :: w.loading }

theorem bare_parse (text : String) : (Run.parse text).Bare := by
  unfold Run.parse
  by_cases clean : (TernLang.parse text).errors.isEmpty
  · simp only [clean, if_true]
    exact bare_pure _
  · simp only [clean]
    exact (bare_note _).bind fun _ => bare_pure _

theorem bare_module? (host : Host) (name : String) :
    (Run.module? host name).Bare :=
  bare_loading.bind fun _ => bare_ofExcept _

end Run

namespace Eval

theorem ident_bare (name : String) (i : FrameId) : (ident name i).Bare := by
  unfold ident
  apply Run.bare_store.bind
  intro s
  split
  · exact Run.bare_pure _
  · split
    · exact Run.bare_pure _
    · exact Run.bare_pure _

theorem bindAll_bare (i : FrameId) (ps : List Ident) (args : List Value) :
    (bindAll i ps args).Bare := by
  induction ps generalizing args with
  | nil => exact Run.bare_pure _
  | cons p ps ih =>
    cases args with
    | nil => exact Run.bare_pure _
    | cons v vs => exact (Run.bare_assign i p.name v).bind fun _ => ih vs

theorem callFrame_bare (ps : List Ident) (home : FrameId) (args : List Value) :
    (callFrame ps home args).Bare := by
  apply (Run.bare_newFrame _).bind
  intro i
  exact (bindAll_bare i ps args).bind fun _ => Run.bare_pure i

theorem exit_bare (code : Int) : (exit code).Bare :=
  (Run.bare_note _).bind fun _ => Run.bare_halt _

end Eval

variable {m n : Type → Type} [Monad m] [MonadRun m] [Monad n] [MonadRun n]

/-- The relation is respected by all that evaluation is put together from, loading apart. -/
structure Respected (R : (α : Type) → m α → n α → Prop) : Prop where
  pure {α : Type} (a : α) : R _ (Pure.pure a) (Pure.pure a)
  bind {α β : Type} {r : m α} {s : n α} {f : α → m β} {g : α → n β} (first : R _ r s)
    (next : ∀ a, R _ (f a) (g a)) : R _ (r >>= f) (s >>= g)
  lift {α : Type} {r : Run α} (bare : r.Bare) : R _ (liftM r) (liftM r)
  answer (v : Value) : R _ (MonadRun.answer v) (MonadRun.answer v)

namespace Respected
variable {R : (α : Type) → m α → n α → Prop} {rec : EvaluatorIn m} {sec : EvaluatorIn n}
  {i : FrameId}

theorem onData (h : Respected R) {r : m Value} {s : n Value} {k : Value → m Value}
    {l : Value → n Value} (first : R _ r s) (next : ∀ v, R _ (k v) (l v)) :
    R _ (TernLang.onData r k) (TernLang.onData s l) := by
  apply h.bind first
  intro v
  split
  · exact h.pure v
  · exact next v

theorem all (h : Respected R) (parts : ∀ node i, R _ (rec node i) (sec node i)) (es : List Expr) :
    R _ (Eval.all rec i es) (Eval.all sec i es) := by
  induction es with
  | nil => exact h.pure _
  | cons e es ih =>
    apply h.bind (parts (.expr e) i)
    intro v
    split
    · exact h.pure _
    · apply h.bind ih
      intro rest
      cases rest with
      | ok vs => exact h.pure _
      | error c => exact h.pure _

theorem onAll (h : Respected R) (parts : ∀ node i, R _ (rec node i) (sec node i)) {es : List Expr}
    {k : List Value → m Value} {l : List Value → n Value} (next : ∀ vs, R _ (k vs) (l vs)) :
    R _ (Eval.onAll rec i es k) (Eval.onAll sec i es l) := by
  apply h.bind (h.all parts es)
  intro vs
  cases vs with
  | ok vs => exact next vs
  | error c => exact h.pure c

theorem pairs (h : Respected R) (parts : ∀ node i, R _ (rec node i) (sec node i))
    (done : List (Key × Value)) (ps : List (Expr × Expr)) :
    R _ (Eval.pairs rec i done ps) (Eval.pairs sec i done ps) := by
  induction ps generalizing done with
  | nil => exact h.pure _
  | cons p ps ih =>
    apply h.onData (parts (.expr p.1) i)
    intro k
    split
    · apply h.onData (parts (.expr p.2) i)
      intro v
      apply h.bind (h.lift (Run.bare_ofExcept _))
      exact fun l => ih _
    · exact h.pure _

theorem builtin (h : Respected R) (b : Builtin) (args : List Value) :
    R _ (b.apply args) (b.apply args) := by
  apply h.bind (h.lift (Run.bare_write _))
  exact fun _ => h.answer _

theorem apply (h : Respected R) (parts : ∀ node i, R _ (rec node i) (sec node i)) (f : Value)
    (args : List Value) : R _ (Eval.apply rec f args) (Eval.apply sec f args) := by
  unfold Eval.apply
  split
  · rename_i ps b home
    split
    · apply h.bind (h.lift (Eval.callFrame_bare ps home args))
      intro j
      exact h.bind (parts (.block b) j) fun v => h.pure _
    · exact h.pure _
  · exact h.builtin _ args
  · exact h.pure _

theorem loops (h : Respected R) (parts : ∀ node i, R _ (rec node i) (sec node i)) (b : Block)
    {rounds turns : Nat} (le : rounds ≤ turns)
    (out : R _ (Eval.loop rec b i 0) (Eval.loop sec b i (turns - rounds))) :
    R _ (Eval.loop rec b i rounds) (Eval.loop sec b i turns) := by
  induction rounds generalizing turns with
  | zero => exact out
  | succ rounds ih =>
    obtain ⟨turns, rfl⟩ : ∃ n, turns = n + 1 := Nat.exists_eq_add_one.mpr (by omega)
    rw [Nat.add_sub_add_right] at out
    apply h.bind (parts (.block b) i)
    intro v
    cases v with
    | brk | ret | err => exact h.pure _
    | int | bool | str | null | array | hash | fn | builtin => exact ih (by omega) out

theorem loop (h : Respected R) (parts : ∀ node i, R _ (rec node i) (sec node i)) (b : Block)
    (rounds : Nat) : R _ (Eval.loop rec b i rounds) (Eval.loop sec b i rounds) := by
  apply h.loops parts b (Nat.le_refl rounds)
  rw [Nat.sub_self]
  exact h.lift (Run.bare_halt _)

theorem block (h : Respected R) (parts : ∀ node i, R _ (rec node i) (sec node i)) (last : Value)
    (ss : List Stmt) : R _ (Eval.block rec i last ss) (Eval.block sec i last ss) := by
  induction ss generalizing last with
  | nil => exact h.pure last
  | cons s ss ih => exact h.onData (parts (.stmt s) i) fun v => ih v

theorem cond (h : Respected R) (parts : ∀ node i, R _ (rec node i) (sec node i)) (c : Expr)
    (b : Block) (a : Option Block) : R _ (Eval.cond rec i c b a) (Eval.cond sec i c b a) := by
  apply h.onData (parts (.expr c) i)
  intro v
  split
  · exact parts (.block b) i
  · cases a with
    | some a => exact parts (.block a) i
    | none => exact h.pure _

theorem expr (h : Respected R) (parts : ∀ node i, R _ (rec node i) (sec node i)) {rounds turns : Nat}
    (loop : ∀ b, R _ (Eval.loop rec b i rounds) (Eval.loop sec b i turns)) (e : Expr) :
    R _ (Eval.expr rounds rec i e) (Eval.expr turns sec i e) := by
  cases e with
  | ident x => exact h.lift (Eval.ident_bare x.name i)
  | int | str | bool | fn | stray => exact h.pure _
  | array t es => exact h.onAll parts fun vs => h.pure _
  | hash t ps => exact h.pairs parts [] ps
  | unary t op r => exact h.onData (parts (.expr r) i) fun v => h.answer _
  | binary t l op r =>
    exact h.onData (parts (.expr l) i) fun v => h.onData (parts (.expr r) i) fun w => h.answer _
  | cond t c b a => exact h.cond parts c b a
  | call t f es =>
    exact h.onData (parts (.expr f) i) fun v => h.onAll parts fun vs => h.apply parts v vs
  | index t l x =>
    exact h.onData (parts (.expr l) i) fun v => h.onData (parts (.expr x) i) fun w => h.pure _
  | loop t b => exact loop b

theorem loadModule (h : Respected R)
    (whileLoading : ∀ p {r : m Value} {s : n Value}, R _ r s →
      R _ (MonadRun.whileLoading p r) (MonadRun.whileLoading p s))
    {evaluate : Program → m Value} {others : Program → n Value}
    (programs : ∀ p, R _ (evaluate p) (others p)) (host : Host) (name : String) :
    R _ (Run.loadModule host evaluate name) (Run.loadModule host others name) := by
  apply h.bind (h.lift (Run.bare_module? host name))
  intro found
  cases found with
  | none => exact h.pure _
  | some path =>
    apply h.bind (h.lift Run.bare_loading)
    intro files
    split
    · exact h.pure _
    · apply h.bind (h.lift (Run.bare_note _))
      intro _
      split
      · exact h.pure _
      · exact h.lift (Run.bare_halt _)
      · apply h.bind (h.lift (Run.bare_parse _))
        intro parsed
        split
        · exact whileLoading path (programs parsed.program)
        · exact h.pure _

theorem stmt (h : Respected R) (parts : ∀ node i, R _ (rec node i) (sec node i))
    {host other : Host} (load : ∀ name, R _ (Run.loadModule host (fun p => rec (.program p) i) name)
      (Run.loadModule other (fun p => sec (.program p) i) name)) (s : Stmt) :
    R _ (Eval.stmt host rec i s) (Eval.stmt other sec i s) := by
  cases s with
  | bind t x e =>
    apply h.onData (parts (.expr e) i)
    exact fun v => h.bind (h.lift (Run.bare_assign i x.name v)) fun _ => h.pure _
  | ret t e => exact h.onData (parts (.expr e) i) fun v => h.pure _
  | expr t e => exact parts (.expr e) i
  | block b => exact h.block parts .null b.statements
  | load t p =>
    apply h.bind (load p.value)
    intro v
    split
    · exact h.pure _
    · exact h.pure _
  | exit t c => exact h.lift (Eval.exit_bare c.value)
  | brk | stray => exact h.pure _

theorem evalStep (h : Respected R) (parts : ∀ node i, R _ (rec node i) (sec node i))
    {cx cy : Context} (loop : ∀ b i, R _ (Eval.loop rec b i cx.rounds) (Eval.loop sec b i cy.rounds))
    (load : ∀ name i, R _ (Run.loadModule cx.host (fun p => rec (.program p) i) name)
      (Run.loadModule cy.host (fun p => sec (.program p) i) name)) (node : Node) (i : FrameId) :
    R _ (evalStep cx rec node i) (evalStep cy sec node i) := by
  cases node with
  | program p => exact h.bind (h.block parts .null p.statements) fun v => h.pure _
  | block b => exact h.block parts .null b.statements
  | stmt s => exact h.stmt parts (fun name => load name i) s
  | expr e => exact h.expr parts (fun b => loop b i) e

end Respected

theorem respected_bare : Respected fun α (r : Run α) (_ : Run α) => r.Bare where
  pure := Run.bare_pure
  bind := Run.Bare.bind
  lift bare := bare
  answer := Run.bare_pure

section
variable {rec : Evaluator} (parts : ∀ node i, (rec node i).Bare)
include parts

theorem apply_bare (f : Value) (args : List Value) : (Eval.apply rec f args).Bare :=
  @Respected.apply Run Run _ _ _ _ _ rec rec respected_bare parts f args

theorem loop_bare (b : Block) (i : FrameId) (rounds : Nat) : (Eval.loop rec b i rounds).Bare :=
  @Respected.loop Run Run _ _ _ _ _ rec rec i respected_bare parts b rounds

theorem loadModule_bare (host : Host) (name : String) (i : FrameId) :
    (Run.loadModule host (fun p => rec (.program p) i) name).Bare :=
  @Respected.loadModule Run Run _ _ _ _ _ respected_bare (fun p _ _ bare => bare.whileLoading p)
    (fun p => rec (.program p) i) (fun p => rec (.program p) i) (fun p => parts (.program p) i)
    host name

theorem evalStep_bare (cx : Context) (node : Node) (i : FrameId) :
    (evalStep cx rec node i).Bare :=
  @Respected.evalStep Run Run _ _ _ _ _ rec rec respected_bare parts cx cx
    (fun b i => loop_bare parts b i cx.rounds) (loadModule_bare parts cx.host) node i

end

theorem eval_bare (cx : Context) (depth : Nat) (node : Node) (i : FrameId) :
    (eval cx depth node i).Bare := by
  induction depth generalizing node i with
  | zero => exact Run.bare_halt _
  | succ depth ih => exact evalStep_bare ih cx node i

/-- Evaluation leaves the files that are being loaded as it found them, however it ends. -/
theorem eval_loadsNothing (cx : Context) (depth : Nat) (node : Node) (i : FrameId) :
    (eval cx depth node i).LoadsNothing := (eval_bare cx depth node i).loading

end TernLang
