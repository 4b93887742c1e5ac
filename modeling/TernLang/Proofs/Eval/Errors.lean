import TernLang.Proofs.Eval.Watching

/-!
Errors are never swallowed. From the first moment at which an error is answered, all that still
answers answers this error and nothing else is done: whatever was waiting for the answer hands it
up at once.
-/
namespace TernLang

def Value.error? : Value → Option String
  | .err e => some e
  | _ => none

theorem Value.eq_err {v : Value} {e : String} (h : v.error? = some e) : v = .err e := by
  cases v with
  | err m =>
    cases h
    rfl
  | int | bool | str | null | array | hash | fn | builtin | ret | brk => cases h

/-- The same has been bound, written and noted in both, though other files may be on their way. -/
structure World.Alike (w x : World) : Prop where
  store : w.store = x.store
  output : w.output = x.output
  log : w.log = x.log

theorem World.Alike.refl (w : World) : w.Alike w := ⟨rfl, rfl, rfl⟩

theorem World.Alike.symm {w x : World} (h : w.Alike x) : x.Alike w :=
  ⟨h.store.symm, h.output.symm, h.log.symm⟩

theorem World.Alike.trans {w x y : World} (first : w.Alike x) (next : x.Alike y) : w.Alike y :=
  ⟨first.store.trans next.store, first.output.trans next.output, first.log.trans next.log⟩

namespace Moment

def Quiet (m : Moment) : Prop := ∀ e, m.event ≠ .answers (.err e)

/-- The error is answered, and nothing has to be done any more to come to this world. -/
structure Raises (e : String) (x : World) (m : Moment) : Prop where
  event : m.event = .answers (.err e)
  world : m.world.Alike x

end Moment

/-- How a run may go of which an answer stands for the error that `message?` says. -/
inductive Heeded {α : Type} (message? : α → Option String) :
    List Moment → Except Halt α → World → Prop where
  | calm {ms : List Moment} {answer : Except Halt α} {x : World} (quiet : ∀ m ∈ ms, m.Quiet) :
    Heeded message? ms answer x
  | raised {before after : List Moment} {a : α} {x : World} {e : String}
    (quiet : ∀ m ∈ before, m.Quiet) (raises : ∀ m ∈ after, m.Raises e x)
    (error : message? a = some e) : Heeded message? (before ++ after) (.ok a) x

section
variable {α β : Type} {message? : α → Option String} {other? : β → Option String}
  {ms ns : List Moment} {answer : Except Halt α} {a : α} {b : β} {x : World}

theorem Heeded.prepend (quiet : ∀ m ∈ ms, m.Quiet) (h : Heeded message? ns answer x) :
    Heeded message? (ms ++ ns) answer x := by
  cases h with
  | calm later => exact .calm (List.forall_mem_append.mpr ⟨quiet, later⟩)
  | raised later raises error =>
    rw [← List.append_assoc]
    exact .raised (List.forall_mem_append.mpr ⟨quiet, later⟩) raises error

theorem Heeded.quiet (h : Heeded message? ms (.ok a) x) (none : message? a = none) :
    ∀ m ∈ ms, m.Quiet := by
  cases h with
  | calm quiet => exact quiet
  | raised quiet raises error =>
    rw [none] at error
    cases error

theorem Heeded.alike {y : World} (h : Heeded message? ms answer x) (same : x.Alike y) :
    Heeded message? ms answer y := by
  cases h with
  | calm quiet => exact .calm quiet
  | raised quiet raises error =>
    apply Heeded.raised quiet _ error
    intro m member
    exact ⟨(raises m member).event, (raises m member).world.trans same⟩

theorem Heeded.instead (h : Heeded message? ms (.ok a) x)
    (same : ∀ e, message? a = some e → other? b = some e) : Heeded other? ms (.ok b) x := by
  cases h with
  | calm quiet => exact .calm quiet
  | raised quiet raises error => exact .raised quiet raises (same _ error)

/-- Once an error is answered in the run, nothing else happens and the run answers it. -/
def Watched.Heeds (message? : α → Option String) (r : Watched α) : Prop :=
  ∀ w, Heeded message? (r w).1 (r w).2.1 (r w).2.2

theorem heeds_pure (a : α) : (pure a : Watched α).Heeds message? := by
  intro w
  apply Heeded.calm
  intro m member
  cases member

theorem heeds_lift (r : Run α) : (liftM r : Watched α).Heeds message? := by
  intro w
  apply Heeded.calm
  intro m member
  cases member

theorem Watched.Heeds.bind {r : Watched α} {f : α → Watched β} (first : r.Heeds message?)
    (next : ∀ a, message? a = none → (f a).Heeds other?)
    (hands : ∀ a e, message? a = some e → ∃ b, f a = pure b ∧ other? b = some e) :
    (r >>= f).Heeds other? := by
  intro w
  have here := first w
  rcases run : r w with ⟨ms, h | a, x⟩
  · rw [run] at here
    rw [bind_error run]
    cases here with
    | calm quiet => exact .calm quiet
  · rw [run] at here
    rw [bind_ok run]
    cases said : message? a with
    | none => exact (next a said x).prepend (here.quiet said)
    | some e =>
      obtain ⟨b, up, same⟩ := hands a e said
      rw [up]
      change Heeded other? (ms ++ []) (.ok b) x
      rw [List.append_nil]
      apply here.instead
      intro e' said'
      rw [said] at said'
      cases said'
      exact same

theorem heeds_after {r : Run α} {f : α → Watched β} (next : ∀ a, (f a).Heeds other?) :
    ((liftM r : Watched α) >>= f).Heeds other? := by
  have silent : (liftM r : Watched α).Heeds fun _ => none := heeds_lift r
  apply silent.bind
  · exact fun a _ => next a
  · intro a e said
    cases said

theorem heeds_answer (v : Value) : (Watched.answer v).Heeds Value.error? := by
  intro w
  cases v with
  | err e =>
    change Heeded Value.error? ([] ++ [⟨.answers (.err e), w⟩]) (.ok (.err e)) w
    apply Heeded.raised (e := e)
    · intro m member
      cases member
    · intro m member
      obtain rfl := List.mem_singleton.mp member
      exact ⟨rfl, .refl w⟩
    · rfl
  | int | bool | str | null | array | hash | fn | builtin | ret | brk =>
    apply Heeded.calm
    intro m member
    obtain rfl := List.mem_singleton.mp member
    intro e same
    cases same

theorem Watched.Heeds.answered {r : Watched Value} (h : r.Heeds Value.error?) :
    (r >>= Watched.answer).Heeds Value.error? := by
  intro w
  have here := h w
  rcases run : r w with ⟨ms, halt | v, x⟩
  · rw [run] at here
    rw [bind_error run]
    exact here
  · rw [run] at here
    rw [bind_ok run]
    cases here with
    | calm quiet => exact (heeds_answer v x).prepend quiet
    | @raised before after _ _ e quiet raises error =>
      obtain rfl := Value.eq_err error
      change Heeded Value.error? ((before ++ after) ++ [⟨.answers (.err e), x⟩]) (.ok (.err e)) x
      rw [List.append_assoc]
      apply Heeded.raised quiet _ error
      intro m member
      rcases List.mem_append.mp member with sooner | last
      · exact raises m sooner
      · obtain rfl := List.mem_singleton.mp last
        exact ⟨rfl, .refl x⟩

theorem heeds_whileLoading {r : Watched α} (p : Path) (h : r.Heeds message?) :
    (MonadRun.whileLoading p r : Watched α).Heeds message? := by
  change (Watched.whileLoading p r).Heeds message?
  intro w
  have here := h { w with loading := p :: w.loading }
  rcases run : r { w with loading := p :: w.loading } with ⟨ms, answer, x⟩
  rw [run] at here
  rw [Watched.whileLoading_run run]
  exact here.alike ⟨rfl, rfl, rfl⟩

theorem heeds_onData {r : Watched Value} {k : Value → Watched Value} (h : r.Heeds Value.error?)
    (data : ∀ v, (k v).Heeds Value.error?) : (onData r k).Heeds Value.error? := by
  apply h.bind
  · intro v _
    split
    · exact heeds_pure v
    · exact data v
  · intro v e said
    obtain rfl := Value.eq_err said
    exact ⟨.err e, rfl, rfl⟩

end

def listError? : Except Value (List Value) → Option String
  | .ok _ => none
  | .error c => c.error?

def Heeding (rec : EvaluatorIn Watched) : Prop := ∀ node i, (rec node i).Heeds Value.error?

namespace Eval
variable {rec : EvaluatorIn Watched} {i : FrameId}

theorem all_heeds (h : Heeding rec) (es : List Expr) : (all rec i es).Heeds listError? := by
  induction es with
  | nil => exact heeds_pure _
  | cons e es ih =>
    apply (h (.expr e) i).bind
    · intro v _
      split
      · exact heeds_pure _
      · apply ih.bind
        · intro rest _
          cases rest with
          | ok vs => exact heeds_pure _
          | error c => exact heeds_pure _
        · intro rest e said
          cases rest with
          | ok vs => cases said
          | error c => exact ⟨.error c, rfl, said⟩
    · intro v e said
      obtain rfl := Value.eq_err said
      exact ⟨.error (.err e), rfl, rfl⟩

theorem onAll_heeds (h : Heeding rec) {es : List Expr} {k : List Value → Watched Value}
    (data : ∀ vs, (k vs).Heeds Value.error?) : (onAll rec i es k).Heeds Value.error? := by
  apply (all_heeds h es).bind
  · intro vs _
    cases vs with
    | ok vs => exact data vs
    | error c => exact heeds_pure c
  · intro vs e said
    cases vs with
    | ok vs => cases said
    | error c => exact ⟨c, rfl, said⟩

theorem pairs_heeds (h : Heeding rec) (done : List (Key × Value)) (ps : List (Expr × Expr)) :
    (pairs rec i done ps).Heeds Value.error? := by
  induction ps generalizing done with
  | nil => exact heeds_pure _
  | cons p ps ih =>
    apply heeds_onData (h (.expr p.1) i)
    intro k
    split
    · apply heeds_onData (h (.expr p.2) i)
      intro v
      exact heeds_after fun l => ih _
    · exact heeds_pure _

theorem apply_heeds (h : Heeding rec) (f : Value) (args : List Value) :
    (apply rec f args).Heeds Value.error? := by
  unfold apply
  split
  · rename_i ps b home
    split
    · apply heeds_after
      intro j
      apply (h (.block b) j).bind
      · exact fun v _ => heeds_pure _
      · intro v e said
        obtain rfl := Value.eq_err said
        exact ⟨.err e, rfl, rfl⟩
    · exact heeds_pure _
  · exact heeds_after fun _ => heeds_answer _
  · exact heeds_pure _

theorem loop_heeds (h : Heeding rec) (b : Block) (rounds : Nat) :
    (loop rec b i rounds).Heeds Value.error? := by
  induction rounds with
  | zero => exact heeds_lift _
  | succ rounds ih =>
    apply (h (.block b) i).bind
    · intro v _
      cases v with
      | brk | ret | err => exact heeds_pure _
      | int | bool | str | null | array | hash | fn | builtin => exact ih
    · intro v e said
      obtain rfl := Value.eq_err said
      exact ⟨.err e, rfl, rfl⟩

theorem block_heeds (h : Heeding rec) (last : Value) (ss : List Stmt) :
    (block rec i last ss).Heeds Value.error? := by
  induction ss generalizing last with
  | nil => exact heeds_pure last
  | cons s ss ih => exact heeds_onData (h (.stmt s) i) fun v => ih v

theorem cond_heeds (h : Heeding rec) (c : Expr) (b : Block) (a : Option Block) :
    (cond rec i c b a).Heeds Value.error? := by
  apply heeds_onData (h (.expr c) i)
  intro v
  split
  · exact h (.block b) i
  · cases a with
    | some a => exact h (.block a) i
    | none => exact heeds_pure _

theorem expr_heeds (h : Heeding rec) (rounds : Nat) (e : Expr) :
    (expr rounds rec i e).Heeds Value.error? := by
  cases e with
  | ident x => exact heeds_lift _
  | int | str | bool | fn | stray => exact heeds_pure _
  | array t es => exact onAll_heeds h fun vs => heeds_pure _
  | hash t ps => exact pairs_heeds h [] ps
  | unary t op r => exact heeds_onData (h (.expr r) i) fun v => heeds_answer _
  | binary t l op r =>
    apply heeds_onData (h (.expr l) i)
    intro v
    exact heeds_onData (h (.expr r) i) fun w => heeds_answer _
  | cond t c b a => exact cond_heeds h c b a
  | call t f es =>
    apply heeds_onData (h (.expr f) i)
    intro v
    exact onAll_heeds h fun vs => apply_heeds h v vs
  | index t l n =>
    apply heeds_onData (h (.expr l) i)
    intro v
    exact heeds_onData (h (.expr n) i) fun w => heeds_pure _
  | loop t b => exact loop_heeds h b rounds

theorem loadModule_heeds {evaluate : Program → Watched Value}
    (programs : ∀ p, (evaluate p).Heeds Value.error?) (host : Host) (name : String) :
    (Run.loadModule host evaluate name).Heeds Value.error? := by
  apply heeds_after
  intro found
  cases found with
  | none => exact heeds_pure _
  | some path =>
    apply heeds_after
    intro files
    split
    · exact heeds_pure _
    · apply heeds_after
      intro _
      split
      · exact heeds_pure _
      · exact heeds_lift _
      · apply heeds_after
        intro parsed
        split
        · exact heeds_whileLoading path (programs parsed.program)
        · exact heeds_pure _

theorem load_heeds (h : Heeding rec) (host : Host) (name : String) :
    (load host rec i name).Heeds Value.error? := by
  apply (loadModule_heeds (fun p => h (.program p) i) host name).bind
  · intro v _
    split
    · exact heeds_pure _
    · exact heeds_pure _
  · intro v e said
    obtain rfl := Value.eq_err said
    exact ⟨.err e, rfl, rfl⟩

theorem stmt_heeds (h : Heeding rec) (host : Host) (s : Stmt) :
    (stmt host rec i s).Heeds Value.error? := by
  cases s with
  | bind t x e =>
    apply heeds_onData (h (.expr e) i)
    intro v
    exact heeds_after fun _ => heeds_pure _
  | ret t e => exact heeds_onData (h (.expr e) i) fun v => heeds_pure _
  | expr t e => exact h (.expr e) i
  | block b => exact block_heeds h .null b.statements
  | load t p => exact load_heeds h host p.value
  | exit t c => exact heeds_lift _
  | brk | stray => exact heeds_pure _

end Eval

theorem evalStep_heeds {rec : EvaluatorIn Watched} (h : Heeding rec) (cx : Context) (node : Node)
    (i : FrameId) : (evalStep cx rec node i).Heeds Value.error? := by
  cases node with
  | program p =>
    apply (Eval.block_heeds h .null p.statements).bind
    · exact fun v _ => heeds_pure _
    · intro v e said
      obtain rfl := Value.eq_err said
      exact ⟨.err e, rfl, rfl⟩
  | block b => exact Eval.block_heeds h .null b.statements
  | stmt s => exact Eval.stmt_heeds h cx.host s
  | expr e => exact Eval.expr_heeds h cx.rounds e

theorem heeds_starts {r : Watched Value} (node : Node) (i : FrameId) (h : r.Heeds Value.error?) :
    (Watched.moment (.starts node i) >>= fun _ => r).Heeds Value.error? := by
  intro w
  have quiet : ∀ m ∈ [(⟨.starts node i, w⟩ : Moment)], m.Quiet := by
    intro m member
    obtain rfl := List.mem_singleton.mp member
    intro e same
    cases same
  exact (h w).prepend quiet

theorem watch_heeds (cx : Context) (depth : Nat) : Heeding (watch cx depth) := by
  induction depth with
  | zero => exact fun node i => heeds_starts node i (heeds_lift _)
  | succ depth ih => exact fun node i => heeds_starts node i (evalStep_heeds ih cx node i).answered

/-- From an error on, there is nothing but this error. -/
theorem Heeded.from_error {α : Type} {message? : α → Option String} {answer : Except Halt α}
    {ms before after : List Moment} {m : Moment} {x : World} (h : Heeded message? ms answer x)
    (split : ms = before ++ m :: after) (loud : ¬ m.Quiet) :
    ∃ a e, answer = .ok a ∧ message? a = some e ∧ ∀ n ∈ m :: after, n.Raises e x := by
  cases h with
  | calm quiet => exact absurd (quiet m (by simp [split])) loud
  | @raised sooner later a _ e quiet raises error =>
    refine ⟨a, e, rfl, error, ?_⟩
    rcases List.append_eq_append_iff.mp split with ⟨between, -, rest⟩ | ⟨between, start, rest⟩
    · intro n member
      exact raises n (rest ▸ List.mem_append_right between member)
    · cases between with
      | nil =>
        rw [rest]
        exact raises
      | cons n ns =>
        obtain ⟨rfl, -⟩ := List.cons.inj rest
        exact absurd (quiet m (by simp [start])) loud

/-- Whatever answers an error in the course of a program, an evaluation at any depth, an operator or
a function that every program has: the program answers this error, and from that moment on the
error is handed up and nothing is bound, written, noted or evaluated any more. -/
theorem error_ends_program (m : Machine) (p : Program) (i : FrameId) (w : World) :
    (m.watch (.program p) i w).2 = m.evaluate (.program p) i w ∧
      ∀ before e x after,
        (m.watch (.program p) i w).1 = before ++ ⟨.answers (.err e), x⟩ :: after →
          (m.evaluate (.program p) i w).1 = .ok (.err e) ∧
            (m.evaluate (.program p) i w).2.Alike x ∧
              ∀ n ∈ after, n.event = .answers (.err e) ∧ n.world.Alike x := by
  have shown : (m.watch (.program p) i w).2 = m.evaluate (.program p) i w :=
    watch_shows m.context m.depth (.program p) i w
  refine ⟨shown, ?_⟩
  intro before e x after moments
  have heeded := watch_heeds m.context m.depth (.program p) i w
  obtain ⟨v, e', answered, error, raises⟩ := heeded.from_error moments fun quiet => quiet e rfl
  have here := raises _ (List.mem_cons_self ..)
  obtain rfl : e = e' := by simpa using here.event
  obtain rfl := Value.eq_err error
  rw [← shown]
  refine ⟨answered, here.world.symm, ?_⟩
  intro n member
  have later := raises n (List.mem_cons_of_mem _ member)
  exact ⟨later.event, later.world.trans here.world.symm⟩

/-- `1 + true; break`, where the operator answers an error. -/
def mismatch : Program :=
  ⟨[.expr ⟨.int, "1"⟩ (.binary ⟨.plus, "+"⟩ (.int ⟨⟨.int, "1"⟩, 1⟩) "+"
    (.bool ⟨.trueWord, "true"⟩ true)), .brk ⟨.breakWord, "break"⟩]⟩

theorem error_ends_program_mismatch :
    ∃ before after,
      ((Machine.mk ⟨default, 1⟩ 9).watch (.program mismatch) globalFrame World.start).1 =
        before ++ ⟨.answers (.fail (.typeMismatch .integer "+" .boolean)), World.start⟩ :: after ∧
      ((Machine.mk ⟨default, 1⟩ 9).evaluate (.program mismatch) globalFrame World.start).1 =
        .ok (.fail (.typeMismatch .integer "+" .boolean)) := by
  have split :
      ((Machine.mk ⟨default, 1⟩ 9).watch (.program mismatch) globalFrame World.start).1 =
        (((Machine.mk ⟨default, 1⟩ 9).watch (.program mismatch) globalFrame World.start).1.take 7) ++
          ⟨.answers (.fail (.typeMismatch .integer "+" .boolean)), World.start⟩ ::
            ((Machine.mk ⟨default, 1⟩ 9).watch (.program mismatch) globalFrame World.start).1.drop 8 :=
    rfl
  have ended := error_ends_program (.mk ⟨default, 1⟩ 9) mismatch globalFrame World.start
  exact ⟨_, _, split, (ended.2 _ _ _ _ split).1⟩

end TernLang
