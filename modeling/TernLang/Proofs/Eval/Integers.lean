import TernLang.Proofs.Eval.Loading
import TernLang.Proofs.Eval.Relying
import TernLang.Proofs.Value.Integers

/-!
All integers stay within 64 bits. Literals are short, operators wrap, and whatever moves a value
keeps it as it is, so no integer out of range is ever answered or bound; only the length of a
sequence could be one, if a sequence were that long.
-/
namespace TernLang

open Watched

def Value.Counted (v : Value) : Prop := v.InRange ∧ v.Small

theorem Value.counted_fail (f : Failure) : (Value.fail f).Counted := ⟨inRange_fail f, trivial⟩

/-- If all answers can be counted, the run answers only what is in range and binds nothing else. -/
abbrev Watched.Ranged {α : Type} (P : α → Prop) (r : Watched α) : Prop :=
  Relies Store.InRange Value.Small Value.InRange α P r

theorem ranged_rules :
    Rules Store.InRange (fun _ => True) (Relies Store.InRange Value.Small Value.InRange) :=
  relies_rules _ _ _

theorem ranged_answer {v : Value} (h : v.InRange) : (Watched.answer v).Ranged Value.InRange :=
  (relies_answer h).mono fun _ known => known.1

theorem ranged_fail (f : Failure) : (Pure.pure (.fail f) : Watched Value).Ranged Value.InRange :=
  relies_pure (Value.inRange_fail f)

theorem ranged_onData {r : Watched Value} {k : Value → Watched Value} (h : r.Ranged Value.Counted)
    (data : ∀ v : Value, v.Counted → (k v).Ranged Value.InRange) :
    (onData r k).Ranged Value.InRange :=
  ranged_rules.onData h (fun _ known _ => known.1) fun v known _ => data v known

theorem keeps_assign_inRange {i : FrameId} {name : String} {v : Value} (value : v.InRange) :
    (Run.assign i name v).Keeps Store.InRange (fun _ => True) fun _ => True := by
  apply Run.keeps_assign
  · exact fun _ s holds => Store.Each.bind holds i name value
  · exact fun _ => trivial

section
variable {rec : EvaluatorIn Watched} {i : FrameId}
  (parts : ∀ node i, node.Throughout Node.ShortLiteral → (rec node i).Ranged Value.Counted)
include parts

theorem onAll_ranged {es : List Expr} {k : List Value → Watched Value}
    (written : ∀ e ∈ es, (Node.expr e).Throughout Node.ShortLiteral)
    (data : ∀ vs : List Value, (∀ v ∈ vs, v.Counted) → (k vs).Ranged Value.InRange) :
    (Eval.onAll rec i es k).Ranged Value.InRange := by
  apply ranged_rules.onAll (P := Value.Counted)
  · exact fun e member => parts (.expr e) i (written e member)
  · exact fun _ known _ => known.1
  · exact fun vs known => data vs fun v member => (known v member).1

theorem pairs_ranged {done : List (Key × Value)}
    (ready : ∀ p ∈ done, p.1.value.InRange ∧ p.2.InRange) {ps : List (Expr × Expr)}
    (written : ∀ p ∈ ps, (Node.expr p.1).Throughout Node.ShortLiteral ∧
      (Node.expr p.2).Throughout Node.ShortLiteral) :
    (Eval.pairs rec i done ps).Ranged Value.InRange := by
  induction ps generalizing done with
  | nil => exact relies_pure (Value.inRange_hash ready)
  | cons p ps ih =>
    obtain ⟨⟨key, value⟩, others⟩ := List.forall_mem_cons.mp written
    apply ranged_onData (parts _ i key)
    intro k known
    split
    · apply ranged_onData (parts _ i value)
      intro v stored
      apply Relies.bind (P := fun l => k.key = .ok l)
      · apply relies_lift
        apply Run.keeps_ofExcept
        · exact fun _ found => found
        · exact fun _ _ => trivial
      · exact fun l found => ih (forall_putPair ⟨known.1.key found, stored.1⟩ ready) others
    · exact ranged_fail _

theorem apply_ranged {f : Value} (callee : f.InRange) {args : List Value}
    (values : ∀ v ∈ args, v.Counted) : (Eval.apply rec f args).Ranged Value.InRange := by
  unfold Eval.apply
  split
  · rename_i ps b home
    split
    · apply Relies.bind (P := fun _ => True)
      · apply relies_lift
        apply Eval.keeps_callFrame
        · exact Run.keeps_newFrame fun s holds => Store.Each.newFrame holds _
        · exact fun v member _ _ => keeps_assign_inRange (values v member).1
      · intro j _
        -- That its body has short literals is known of a function wherever it has been stored.
        apply (parts (.block b) j callee.here).bind
        exact fun v known => relies_pure known.1.landed
    · exact ranged_fail _
  · rename_i b
    apply (relies_lift (Run.keeps_write _)).bind
    intro _ _
    apply ranged_answer
    apply b.result_inRange
    · exact fun v member => (values v member).1
    · exact fun v member => (values v member).2
  · exact ranged_fail _

theorem block_ranged {ss : List Stmt}
    (written : ∀ s ∈ ss, (Node.stmt s).Throughout Node.ShortLiteral) :
    (Eval.block rec i .null ss).Ranged Value.InRange := by
  apply Relies.mono
  · apply ranged_rules.block (P := Value.Counted)
    · exact ⟨Value.inRange_null, trivial⟩
    · exact fun s member => parts (.stmt s) i (written s member)
  · exact fun _ known => known.1

theorem cond_ranged {c : Expr} {b : Block} {a : Option Block} {t : Token}
    (written : (Node.expr (.cond t c b a)).Throughout Node.ShortLiteral) :
    (Eval.cond rec i c b a).Ranged Value.InRange := by
  apply ranged_onData (parts (.expr c) i (written.part List.mem_cons_self))
  intro v _
  split
  · exact (parts (.block b) i (written.part (by simp [Node.parts, Expr.parts]))).mono
      fun _ known => known.1
  · cases a with
    | none => exact relies_pure Value.inRange_null
    | some a =>
      exact (parts (.block a) i (written.part (by simp [Node.parts, Expr.parts]))).mono
        fun _ known => known.1

theorem expr_ranged (rounds : Nat) {e : Expr}
    (written : (Node.expr e).Throughout Node.ShortLiteral) :
    (Eval.expr rounds rec i e).Ranged Value.InRange := by
  cases e with
  | ident x =>
    apply relies_lift
    apply Eval.keeps_ident
    · exact fun s v holds found => Store.Each.get holds found
    · exact Value.inRange_builtin
    · exact Value.inRange_fail
  | int n => exact relies_pure (Value.inRange_int (fits_of_short written.here))
  | str s => exact relies_pure (Value.inRange_str s.value)
  | bool t b => exact relies_pure (Value.inRange_bool b)
  | array t es =>
    apply onAll_ranged parts
    · exact fun e member => written.part (List.mem_map_of_mem member)
    · exact fun vs known => relies_pure (Value.inRange_array fun v member => (known v member).1)
  | hash t ps =>
    apply pairs_ranged parts (List.forall_mem_nil _)
    intro p member
    have inside : ∀ n ∈ [Node.expr p.1, .expr p.2], n.Throughout Node.ShortLiteral :=
      fun n among => written.part (List.mem_flatMap.mpr ⟨p, member, among⟩)
    exact ⟨inside _ List.mem_cons_self, inside _ (List.mem_cons_of_mem _ List.mem_cons_self)⟩
  | unary t op r =>
    apply ranged_onData (parts (.expr r) i (written.part List.mem_cons_self))
    exact fun v _ => ranged_answer (Operator.unary_inRange op v)
  | binary t l op r =>
    apply ranged_onData (parts (.expr l) i (written.part List.mem_cons_self))
    intro v _
    apply ranged_onData (parts (.expr r) i
      (written.part (List.mem_cons_of_mem _ List.mem_cons_self)))
    exact fun w _ => ranged_answer (Operator.binary_inRange op v w)
  | cond t c b a => exact cond_ranged parts written
  | fn t ps b => exact relies_pure (Value.inRange_fn (written.part List.mem_cons_self))
  | call t f es =>
    apply ranged_onData (parts (.expr f) i (written.part List.mem_cons_self))
    intro v callee
    apply onAll_ranged parts
    · exact fun e member =>
        written.part (List.mem_cons_of_mem _ (List.mem_map_of_mem member))
    · exact fun vs known => apply_ranged parts callee.1 known
  | index t l n =>
    apply ranged_onData (parts (.expr l) i (written.part List.mem_cons_self))
    intro v known
    apply ranged_onData (parts (.expr n) i
      (written.part (List.mem_cons_of_mem _ List.mem_cons_self)))
    exact fun w _ => relies_pure (element_inRange known.1)
  | loop t b =>
    apply ranged_rules.loop (parts (.block b) i (written.part List.mem_cons_self))
    · exact trivial
    · exact Value.inRange_null
    · exact fun _ known => known.1
    · exact fun _ known => known.1
  | stray form => exact ranged_fail _

theorem loadModule_ranged (host : Host) (name : String) :
    (Run.loadModule host (fun p => rec (.program p) i) name).Ranged Value.Counted := by
  apply ranged_rules.loadModule
  · -- The program of a module has been read, so its literals are short.
    exact fun text => parts _ i (parse_short text)
  · exact Value.counted_fail
  · exact fun _ _ => trivial

theorem stmt_ranged (host : Host) {s : Stmt}
    (written : (Node.stmt s).Throughout Node.ShortLiteral) :
    (Eval.stmt host rec i s).Ranged Value.InRange := by
  cases s with
  | bind t x e =>
    apply ranged_onData (parts (.expr e) i (written.part List.mem_cons_self))
    intro v known
    apply (relies_lift (keeps_assign_inRange known.1)).bind
    exact fun _ _ => relies_pure Value.inRange_null
  | ret t e =>
    apply ranged_onData (parts (.expr e) i (written.part List.mem_cons_self))
    exact fun v known => relies_pure (Value.inRange_ret known.1)
  | expr t e =>
    exact (parts (.expr e) i (written.part List.mem_cons_self)).mono fun _ known => known.1
  | block b =>
    exact block_ranged parts fun s member => written.part (List.mem_map_of_mem member)
  | load t p =>
    apply (loadModule_ranged parts host p.value).bind
    intro v known
    split
    · exact relies_pure known.1
    · exact relies_pure Value.inRange_null
  | exit t n =>
    apply relies_lift
    exact (Run.keeps_note _).bind fun _ _ => Run.keeps_halt trivial
  | brk t => exact relies_pure Value.inRange_brk
  | stray form => exact ranged_fail _

theorem evalStep_ranged (cx : Context) (node : Node) (i : FrameId)
    (written : node.Throughout Node.ShortLiteral) :
    (evalStep cx rec node i).Ranged Value.InRange := by
  cases node with
  | program p =>
    apply Relies.bind (P := Value.InRange)
    · exact block_ranged parts fun s member => written.part (List.mem_map_of_mem member)
    · exact fun v known => relies_pure known.landed
  | block b => exact block_ranged parts fun s member => written.part (List.mem_map_of_mem member)
  | stmt s => exact stmt_ranged parts cx.host written
  | expr e => exact expr_ranged parts cx.rounds written

end

theorem watch_ranged (cx : Context) (depth : Nat) (node : Node) (i : FrameId)
    (written : node.Throughout Node.ShortLiteral) :
    (watch cx depth node i).Ranged Value.Counted :=
  watch_relies (fun _ parts => evalStep_ranged parts cx) depth node i written

theorem keeps_program (text : String) :
    (Machine.program text).Keeps Store.InRange ((parse text).program = ·) fun _ => True := by
  apply (Run.keeps_parse text).bind
  rintro parsed rfl
  split
  · exact Run.keeps_pure rfl
  · exact Run.keeps_halt trivial

theorem step_ranged (m : Machine) (i : FrameId) (s : Step) :
    (s.watch m i).Ranged Value.Counted := by
  have program : ∀ text, (m.watch (.program (parse text).program) i).Ranged Value.Counted :=
    fun text => watch_ranged m.context m.depth _ i (parse_short text)
  cases s with
  | text source =>
    apply (relies_lift (keeps_program source)).bind
    rintro p rfl
    exact program source
  | file path =>
    rw [Step.watch]
    split
    · exact relies_lift (Run.keeps_halt trivial)
    · apply (relies_lift (Run.keeps_note _)).bind
      intro _ _
      apply Relies.bind (P := fun _ => True)
      · apply relies_lift
        exact Run.keeps_ofExcept (fun _ _ => trivial) fun _ _ => trivial
      · intro text _
        apply (relies_lift (keeps_program text)).bind
        rintro p rfl
        exact (program text).whileLoading _
  | load name =>
    exact loadModule_ranged (fun node i => watch_ranged m.context m.depth node i) m.host name

namespace Machine

def moments (m : Machine) (i : FrameId) : World → List Step → List Moment
  | _, [] => []
  | w, s :: steps => (s.watch m i w).1 ++ m.moments i (s.run m i w).2 steps

def ends (m : Machine) (i : FrameId) : World → List Step → List (Except Halt Value × World)
  | _, [] => []
  | w, s :: steps => s.run m i w :: m.ends i (s.run m i w).2 steps

theorem session_ranged (m : Machine) (i : FrameId) {w : World} (start : w.store.InRange)
    {steps : List Step} (counted : ∀ n ∈ m.moments i w steps, n.Answers Value.Small) :
    (∀ n ∈ m.moments i w steps, n.Grants Store.InRange Value.InRange) ∧
      ∀ e ∈ m.ends i w steps, e.2.store.InRange ∧ ∀ v, e.1 = .ok v → v.InRange := by
  -- A step that halts leaves bindings in range too, so the steps behind it start well.
  induction steps generalizing w with
  | nil => exact ⟨List.forall_mem_nil _, List.forall_mem_nil _⟩
  | cons s steps ih =>
    obtain ⟨first, later⟩ := List.forall_mem_append.mp counted
    obtain ⟨moments, store, answer⟩ := step_ranged m i s w start first
    rw [s.watch_shows] at store answer
    obtain ⟨others, ends⟩ := ih store later
    constructor
    · exact List.forall_mem_append.mpr ⟨moments, others⟩
    · exact List.forall_mem_cons.mpr ⟨⟨store, fun v answered => (answer v answered).1⟩, ends⟩

end Machine

/-- All integers stay within 64 bits. If no string and no array that is answered in a session is too
long to be counted with 63 bits, then all that is answered at any moment of it, to an operator, an
index, a function or in the end, and all that is bound then or after any step is in range. The
literals and the exit codes of every program that is read have 63 bits. -/
theorem integers_stay_in_range (m : Machine) (i : FrameId) (w : World) (start : w.store.InRange)
    (steps : List Step) (counted : ∀ n ∈ m.moments i w steps, n.Answers Value.Small) :
    (∀ n ∈ m.moments i w steps, n.Grants Store.InRange Value.InRange) ∧
      (∀ e ∈ m.ends i w steps, e.2.store.InRange ∧ ∀ v, e.1 = .ok v → v.InRange) ∧
        ∀ text, (Node.program (parse text).program).Throughout Node.ShortLiteral := by
  obtain ⟨moments, ends⟩ := m.session_ranged i start counted
  exact ⟨moments, ends, parse_short⟩

def Moment.answer? (n : Moment) : Option Value :=
  match n.event with
  | .starts _ _ => none
  | .answers v => some v

theorem integers_stay_in_range_difference :
    World.start.store.InRange ∧
      (∀ n ∈ Machine.moments ⟨⟨default, 1⟩, 6⟩ globalFrame World.start [.text "[7][0] - 9"],
        n.Answers Value.Small) ∧
      (Step.run ⟨⟨default, 1⟩, 6⟩ globalFrame (.text "[7][0] - 9") World.start).1 =
        .ok (.int (-2)) ∧ (Value.int (-2)).InRange := by
  have start : World.start.store.InRange := start_each
  have read : tokens "[7][0] - 9".toList = [.symbol .lbracket, ⟨.int, "7"⟩, .symbol .rbracket,
      .symbol .lbracket, ⟨.int, "0"⟩, .symbol .rbracket, .symbol .minus, ⟨.int, "9"⟩] := by
    decide +kernel
  have parsed : parse "[7][0] - 9" = ⟨⟨[.expr (.symbol .lbracket) (.binary (.symbol .minus)
      (.index (.symbol .lbracket) (.array (.symbol .lbracket) [.int ⟨⟨.int, "7"⟩, 7⟩])
        (.int ⟨⟨.int, "0"⟩, 0⟩)) "-" (.int ⟨⟨.int, "9"⟩, 9⟩))]⟩, []⟩ := by
    unfold parse
    rw [read]
    rfl
  have answered : (Machine.moments ⟨⟨default, 1⟩, 6⟩ globalFrame World.start
      [.text "[7][0] - 9"]).filterMap Moment.answer? = [.int 7, .array [.int 7], .int 0, .int 7,
        .int 9, .int (-2), .int (-2), .int (-2), .int (-2)] := by
    simp only [Machine.moments, Step.watch, Machine.program, Run.parse, parsed]
    rfl
  have counted : ∀ n ∈ Machine.moments ⟨⟨default, 1⟩, 6⟩ globalFrame World.start
      [.text "[7][0] - 9"], n.Answers Value.Small := by
    intro n member v same
    have listed : v ∈ (Machine.moments ⟨⟨default, 1⟩, 6⟩ globalFrame World.start
        [.text "[7][0] - 9"]).filterMap Moment.answer? :=
      List.mem_filterMap.mpr ⟨n, member, by rw [Moment.answer?, same]⟩
    rw [answered] at listed
    simp only [List.mem_cons, List.not_mem_nil, or_false] at listed
    rcases listed with rfl | rfl | rfl | rfl | rfl | rfl | rfl | rfl | rfl
    all_goals simp [Value.Small]
  have run : (Step.run ⟨⟨default, 1⟩, 6⟩ globalFrame (.text "[7][0] - 9") World.start).1 =
      .ok (.int (-2)) := by
    simp only [Step.run, Machine.evalText, Machine.program, Run.parse, parsed]
    rfl
  have ranged := (integers_stay_in_range _ globalFrame World.start start _ counted).2.1
  exact ⟨start, counted, run, (ranged _ List.mem_cons_self).2 _ run⟩

end TernLang
