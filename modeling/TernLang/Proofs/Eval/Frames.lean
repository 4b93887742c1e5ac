import TernLang.Proofs.Eval.Keeps
import TernLang.Proofs.Store.Lookup

/-!
Evaluation changes no frame but its own, and there only what its `let` statements and its imports
bind. A call has a frame of its own, so it changes none that was there before.
-/
namespace TernLang

mutual

/-- The statements in an expression that run in its own frame: those outside function bodies. -/
def Expr.stmts : Expr → List Stmt
  | .ident _ | .int _ | .str _ | .bool _ _ | .fn _ _ _ | .stray _ => []
  | .array _ es => stmtsOfExprs es
  | .hash _ ps => stmtsOfPairs ps
  | .unary _ _ r => r.stmts
  | .binary _ l _ r => l.stmts ++ r.stmts
  | .cond _ c b none => c.stmts ++ b.stmts
  | .cond _ c b (some a) => c.stmts ++ b.stmts ++ a.stmts
  | .call _ f es => f.stmts ++ stmtsOfExprs es
  | .index _ l i => l.stmts ++ i.stmts
  | .loop _ b => b.stmts

def Stmt.stmts : Stmt → List Stmt
  | .bind t x e => .bind t x e :: e.stmts
  | .ret t e => .ret t e :: e.stmts
  | .expr t e => .expr t e :: e.stmts
  | .block b => .block b :: b.stmts
  | .load t p => [.load t p]
  | .exit t n => [.exit t n]
  | .brk t => [.brk t]
  | .stray s => [.stray s]

def Block.stmts : Block → List Stmt
  | .mk _ ss => stmtsOfStmts ss

def stmtsOfExprs : List Expr → List Stmt
  | [] => []
  | e :: es => e.stmts ++ stmtsOfExprs es

def stmtsOfPairs : List (Expr × Expr) → List Stmt
  | [] => []
  | (k, v) :: ps => k.stmts ++ v.stmts ++ stmtsOfPairs ps

def stmtsOfStmts : List Stmt → List Stmt
  | [] => []
  | s :: ss => s.stmts ++ stmtsOfStmts ss

end

def Node.stmts : Node → List Stmt
  | .program p => stmtsOfStmts p.statements
  | .block b => b.stmts
  | .stmt s => s.stmts
  | .expr e => e.stmts

/-- An import runs in the frame of the node. -/
def Node.Imports (node : Node) : Prop := ∃ t p, .load t p ∈ node.stmts

/-- A `let` statement that runs in the frame of the node binds the name. -/
def Node.Binds (node : Node) (name : String) : Prop :=
  ∃ t x e, .bind t x e ∈ node.stmts ∧ x.name = name

def Node.MayBind (node : Node) (name : String) : Prop := node.Imports ∨ node.Binds name

theorem Node.MayBind.mono {part node : Node} (inside : ∀ s ∈ part.stmts, s ∈ node.stmts)
    {name : String} (h : part.MayBind name) : node.MayBind name := by
  rcases h with ⟨t, p, load⟩ | ⟨t, x, e, bind, same⟩
  · exact .inl ⟨t, p, inside _ load⟩
  · exact .inr ⟨t, x, e, inside _ bind, same⟩

theorem stmtsOfExprs_eq (es : List Expr) : stmtsOfExprs es = es.flatMap Expr.stmts := by
  induction es with
  | nil => rfl
  | cons e es ih => rw [stmtsOfExprs, ih, List.flatMap_cons]

theorem stmtsOfPairs_eq (ps : List (Expr × Expr)) :
    stmtsOfPairs ps = ps.flatMap fun p => p.1.stmts ++ p.2.stmts := by
  induction ps with
  | nil => rfl
  | cons p ps ih => rw [stmtsOfPairs, ih, List.flatMap_cons]

theorem stmtsOfStmts_eq (ss : List Stmt) : stmtsOfStmts ss = ss.flatMap Stmt.stmts := by
  induction ss with
  | nil => rfl
  | cons s ss ih => rw [stmtsOfStmts, ih, List.flatMap_cons]

namespace Store

structure Extends (s t : Store) : Prop where
  grows : s.next ≤ t.next
  same : ∀ j < s.next, t.frame? j = s.frame? j

/-- Of the frames that were there, only this one may have changed. It has lost no name and kept the
order of its names, and only names that may be bound are new or have another value. -/
structure ChangesOnly (i : FrameId) (may : String → Prop) (s t : Store) : Prop where
  grows : s.next ≤ t.next
  others : ∀ j < s.next, j ≠ i → t.frame? j = s.frame? j
  names : i < s.next → (s.vars i).map Prod.fst <+: (t.vars i).map Prod.fst
  kept : i < s.next → ∀ name, ¬ may name → lookupVar name (t.vars i) = lookupVar name (s.vars i)

variable {s t u : Store} {i : FrameId} {may : String → Prop}

theorem Extends.refl (s : Store) : s.Extends s := ⟨Nat.le_refl _, fun _ _ => rfl⟩

theorem Extends.trans (first : s.Extends t) (next : t.Extends u) : s.Extends u where
  grows := Nat.le_trans first.grows next.grows
  same j old := (next.same j (Nat.lt_of_lt_of_le old first.grows)).trans (first.same j old)

theorem vars_eq_of_frame {i : FrameId} (h : t.frame? i = s.frame? i) : t.vars i = s.vars i := by
  unfold vars
  rw [h]

theorem Extends.changesOnly (h : s.Extends t) : s.ChangesOnly i may t where
  grows := h.grows
  others j old _ := h.same j old
  names old := by
    have same := vars_eq_of_frame (h.same i old)
    exact same ▸ List.prefix_refl _
  kept old name _ := by rw [vars_eq_of_frame (h.same i old)]

theorem ChangesOnly.refl (s : Store) : s.ChangesOnly i may s := (Extends.refl s).changesOnly

theorem ChangesOnly.trans (first : s.ChangesOnly i may t) (next : t.ChangesOnly i may u) :
    s.ChangesOnly i may u where
  grows := Nat.le_trans first.grows next.grows
  others j old other :=
    (next.others j (Nat.lt_of_lt_of_le old first.grows) other).trans (first.others j old other)
  names old := (first.names old).trans (next.names (Nat.lt_of_lt_of_le old first.grows))
  kept old name free :=
    (next.kept (Nat.lt_of_lt_of_le old first.grows) name free).trans (first.kept old name free)

theorem ChangesOnly.mono {more : String → Prop} (h : s.ChangesOnly i may t)
    (weaker : ∀ name, may name → more name) : s.ChangesOnly i more t where
  grows := h.grows
  others := h.others
  names := h.names
  kept old name free := h.kept old name fun bound => free (weaker name bound)

theorem Extends.changes (h : s.Extends t) (new : s.next ≤ i) (later : t.ChangesOnly i may u) :
    s.Extends u where
  grows := Nat.le_trans h.grows later.grows
  same j old := by
    have other : j ≠ i := Nat.ne_of_lt (Nat.lt_of_lt_of_le old new)
    exact (later.others j (Nat.lt_of_lt_of_le old h.grows) other).trans (h.same j old)

theorem changesOnly_bind (s : Store) (v : Value) {name : String} (bound : may name) :
    s.ChangesOnly i may (s.bind i name v) where
  grows := Nat.le_of_eq (s.next_bind i name v).symm
  others j _ other := by
    simp [frame?, Store.bind, Array.getElem?_modify, other.symm]
  names old := by
    rw [vars_bind old, names_bindVar]
    split
    · exact List.prefix_refl _
    · exact List.prefix_append _ _
  kept old other free := by
    rw [vars_bind old, lookupVar_bindVar, if_neg]
    intro same
    exact free (same ▸ bound)

theorem extends_newFrame (s : Store) (outer : Option FrameId) : s.Extends (s.newFrame outer) where
  grows := by simp [newFrame, push, next]
  same j old := by
    have inside : j < s.frames.size := old
    simp [frame?, newFrame, push, Array.getElem?_push, Nat.ne_of_lt inside]

end Store

abbrev Run.Confined {α : Type} (i : FrameId) (may : String → Prop) (start : Store) (r : Run α) :
    Prop :=
  r.Keeps (start.ChangesOnly i may) (fun _ => True) fun _ => True

abbrev Run.Adds {α : Type} (start : Store) (r : Run α) : Prop :=
  r.Keeps start.Extends (fun _ => True) fun _ => True

section
variable {α : Type} {start : Store} {i : FrameId} {may : String → Prop}

theorem confined_of_steps {r : Run α}
    (h : ∀ w : World, w.store.ChangesOnly i may (r w).2.store) : r.Confined i may start where
  ok {w x a} holds run := by
    have step := h w
    rw [run] at step
    exact ⟨holds.trans step, trivial⟩
  error {w x e} holds run := by
    have step := h w
    rw [run] at step
    exact ⟨holds.trans step, trivial⟩

theorem Run.Adds.confined {r : Run α} (h : ∀ start, r.Adds start) : r.Confined i may start :=
  confined_of_steps fun w => ((h w.store).store (.refl w.store)).changesOnly

theorem confined_pure (v : α) : (pure v : Run α).Confined i may start := Run.keeps_pure trivial

theorem confined_assign {name : String} (v : Value) (bound : may name) :
    (Run.assign i name v).Confined i may start := by
  apply Run.keeps_assign
  · exact fun _ s holds => holds.trans (s.changesOnly_bind v bound)
  · exact fun _ => trivial

theorem confined_onData {r : Run Value} {k : Value → Run Value} (h : r.Confined i may start)
    (data : ∀ v, (k v).Confined i may start) : (onData r k).Confined i may start :=
  (Run.keeps_rules _ _).onData h (fun _ _ _ => trivial) fun v _ _ => data v

end

def Evaluator.Confined (rec : Evaluator) : Prop :=
  ∀ node i (w : World), w.store.ChangesOnly i node.MayBind (rec node i w).2.store

section
variable {rec : Evaluator} {start : Store} {i : FrameId} {node : Node}

theorem Evaluator.Confined.part (h : rec.Confined) {part : Node}
    (inside : ∀ s ∈ part.stmts, s ∈ node.stmts) : (rec part i).Confined i node.MayBind start :=
  confined_of_steps fun w => (h part i w).mono fun _ => Node.MayBind.mono inside

theorem Evaluator.Confined.expr (h : rec.Confined) {e : Expr}
    (inside : ∀ s ∈ e.stmts, s ∈ node.stmts) : (rec (.expr e) i).Confined i node.MayBind start :=
  h.part inside

theorem Evaluator.Confined.block (h : rec.Confined) {b : Block}
    (inside : ∀ s ∈ b.stmts, s ∈ node.stmts) : (rec (.block b) i).Confined i node.MayBind start :=
  h.part inside

theorem Evaluator.Confined.adds (h : rec.Confined) (part : Node) (new : start.next ≤ i) :
    (rec part i).Adds start where
  ok {w x a} holds run := by
    have step := h part i w
    rw [run] at step
    exact ⟨holds.changes new step, trivial⟩
  error {w x e} holds run := by
    have step := h part i w
    rw [run] at step
    exact ⟨holds.changes new step, trivial⟩

namespace Eval

theorem newFrame_adds (start : Store) (outer : Option FrameId) :
    (Run.newFrame outer).Keeps start.Extends (fun j => start.next ≤ j) fun _ => True where
  ok holds run := by
    cases run
    exact ⟨holds.trans (Store.extends_newFrame _ outer), holds.grows⟩
  error _ run := by cases run

theorem bindAll_adds (new : start.next ≤ i) (ps : List Ident) (args : List Value) :
    (bindAll i ps args).Adds start := by
  induction ps generalizing args with
  | nil => exact Run.keeps_pure trivial
  | cons p ps ih =>
    cases args with
    | nil => exact Run.keeps_pure trivial
    | cons v vs =>
      apply Run.Keeps.bind (P := fun _ => True)
      · apply Run.keeps_assign
        · intro _ s holds
          have step : s.ChangesOnly i (fun _ => True) (s.bind i p.name v) :=
            s.changesOnly_bind v trivial
          exact holds.changes new step
        · exact fun _ => trivial
      · exact fun _ _ => ih vs

theorem apply_adds (h : rec.Confined) (start : Store) (f : Value) (args : List Value) :
    (apply rec f args).Adds start := by
  unfold apply
  split
  · split
    · rename_i ps b home _
      apply Run.Keeps.bind (P := fun j => start.next ≤ j)
      · unfold callFrame
        apply (newFrame_adds start (some home)).bind
        intro j new
        exact (bindAll_adds new ps args).bind fun _ _ => Run.keeps_pure new
      · intro j new
        exact (h.adds (.block b) new).bind fun v _ => Run.keeps_pure trivial
    · exact Run.keeps_pure trivial
  · exact (Run.keeps_write _).bind fun _ _ => Run.keeps_pure trivial
  · exact Run.keeps_pure trivial

theorem onAll_confined (h : rec.Confined) {es : List Expr} {k : List Value → Run Value}
    (inside : ∀ s ∈ stmtsOfExprs es, s ∈ node.stmts)
    (data : ∀ vs, (k vs).Confined i node.MayBind start) :
    (onAll rec i es k).Confined i node.MayBind start := by
  rw [stmtsOfExprs_eq] at inside
  apply (Run.keeps_rules _ _).onAll (P := fun _ => True)
  · intro e member
    exact h.expr fun s part => inside s (List.mem_flatMap_of_mem member part)
  · exact fun _ _ _ => trivial
  · exact fun vs _ => data vs

theorem pairs_confined (h : rec.Confined) (done : List (Key × Value)) (ps : List (Expr × Expr))
    (inside : ∀ s ∈ stmtsOfPairs ps, s ∈ node.stmts) :
    (pairs rec i done ps).Confined i node.MayBind start := by
  rw [stmtsOfPairs_eq] at inside
  induction ps generalizing done with
  | nil => exact confined_pure _
  | cons p ps ih =>
    simp only [List.flatMap_cons, List.forall_mem_append] at inside
    obtain ⟨⟨key, value⟩, rest⟩ := inside
    apply confined_onData (h.expr key)
    intro k
    split
    · apply confined_onData (h.expr value)
      intro v
      apply Run.Keeps.bind (P := fun _ => True)
      · exact Run.keeps_ofExcept (fun _ _ => trivial) fun _ _ => trivial
      · exact fun l _ => ih _ rest
    · exact confined_pure _

theorem block_confined (h : rec.Confined) (ss : List Stmt)
    (inside : ∀ s ∈ stmtsOfStmts ss, s ∈ node.stmts) :
    (block rec i .null ss).Confined i node.MayBind start := by
  rw [stmtsOfStmts_eq] at inside
  apply (Run.keeps_rules _ _).block trivial
  intro s member
  exact h.part fun r part => inside r (List.mem_flatMap_of_mem member part)

theorem ident_confined (name : String) : (ident name i).Confined i node.MayBind start := by
  unfold ident
  apply Run.keeps_store.bind
  intro s _
  split
  · exact confined_pure _
  · split
    · exact confined_pure _
    · exact confined_pure _

theorem cond_confined (h : rec.Confined) {c : Expr} {b : Block} {a : Option Block}
    (condition : ∀ s ∈ c.stmts, s ∈ node.stmts) (consequence : ∀ s ∈ b.stmts, s ∈ node.stmts)
    (alternative : ∀ d, a = some d → ∀ s ∈ d.stmts, s ∈ node.stmts) :
    (cond rec i c b a).Confined i node.MayBind start := by
  apply confined_onData (h.expr condition)
  intro v
  split
  · exact h.block consequence
  · split
    · rename_i d
      exact h.block (alternative d rfl)
    · exact confined_pure _

theorem expr_confined (h : rec.Confined) (rounds : Nat) (e : Expr) :
    (expr rounds rec i e).Confined i (Node.expr e).MayBind start := by
  cases e with
  | ident x => exact ident_confined x.name
  | int | str | bool | fn | stray => exact confined_pure _
  | array t es => exact onAll_confined h (fun _ => id) fun _ => confined_pure _
  | hash t ps => exact pairs_confined h [] ps fun _ => id
  | unary t op r => exact confined_onData (h.part fun _ => id) fun _ => confined_pure _
  | binary t l op r =>
    apply confined_onData (h.part fun s => List.mem_append_left _)
    intro v
    exact confined_onData (h.part fun s => List.mem_append_right _) fun _ => confined_pure _
  | cond t c b a =>
    cases a with
    | none =>
      rw [expr]
      apply cond_confined h
      · exact fun s => List.mem_append_left _
      · exact fun s => List.mem_append_right _
      · exact fun d none => by cases none
    | some a =>
      rw [expr]
      apply cond_confined h
      · exact fun s part => List.mem_append_left _ (List.mem_append_left _ part)
      · exact fun s part => List.mem_append_left _ (List.mem_append_right _ part)
      · intro d same
        cases same
        exact fun s => List.mem_append_right _
  | call t f es =>
    apply confined_onData (h.part fun s => List.mem_append_left _)
    intro v
    apply onAll_confined h (fun s => List.mem_append_right _)
    exact fun vs => Run.Adds.confined fun start => apply_adds h start v vs
  | index t l n =>
    apply confined_onData (h.part fun s => List.mem_append_left _)
    intro v
    exact confined_onData (h.part fun s => List.mem_append_right _) fun _ => confined_pure _
  | loop t b =>
    apply (Run.keeps_rules _ _).loop (h.part fun _ => id)
    · exact trivial
    · exact trivial
    · exact fun _ _ => trivial
    · exact fun _ _ => trivial

theorem load_confined (h : rec.Confined) (host : Host) (name : String) (import_ : node.Imports) :
    (load host rec i name).Confined i node.MayBind start := by
  unfold load
  apply Run.Keeps.bind (P := fun _ => True)
  · apply (Run.keeps_rules _ _).loadModule
    -- What a module binds is not known from the node, so any name may be bound.
    · exact fun _ => confined_of_steps fun w => (h (.program _) i w).mono fun _ _ => .inl import_
    · exact fun _ => trivial
    · exact fun _ _ => trivial
  · intro v _
    split
    · exact confined_pure _
    · exact confined_pure _

theorem stmt_confined (h : rec.Confined) (host : Host) (s : Stmt) :
    (stmt host rec i s).Confined i (Node.stmt s).MayBind start := by
  cases s with
  | bind t x e =>
    apply confined_onData (h.expr fun s => List.mem_cons_of_mem _)
    intro v
    have bound : (Node.stmt (.bind t x e)).MayBind x.name :=
      .inr ⟨t, x, e, List.mem_cons_self .., rfl⟩
    exact (confined_assign v bound).bind fun _ _ => confined_pure _
  | ret t e =>
    exact confined_onData (h.expr fun s => List.mem_cons_of_mem _) fun _ => confined_pure _
  | expr t e => exact h.expr fun s => List.mem_cons_of_mem _
  | block b =>
    cases b with
    | mk t ss => exact block_confined h ss fun s => List.mem_cons_of_mem _
  | load t p => exact load_confined h host p.value ⟨t, p, List.mem_cons_self ..⟩
  | exit t n => exact (Run.keeps_note _).bind fun _ _ => Run.keeps_halt trivial
  | brk | stray => exact confined_pure _

end Eval

theorem evalStep_confined (cx : Context) (h : rec.Confined) :
    (evalStep cx rec node i).Confined i node.MayBind start := by
  cases node with
  | program p =>
    exact (Eval.block_confined h p.statements fun _ => id).bind fun v _ => confined_pure _
  | block b =>
    cases b with
    | mk t ss => exact Eval.block_confined h ss fun _ => id
  | stmt s => exact Eval.stmt_confined h cx.host s
  | expr e => exact Eval.expr_confined h cx.rounds e

end

theorem eval_confined (cx : Context) (depth : Nat) : Evaluator.Confined (eval cx depth) := by
  induction depth with
  | zero => exact fun node i w => .refl w.store
  | succ depth ih =>
    intro node i w
    exact (evalStep_confined cx ih).store (.refl w.store)

/-- However evaluation in a frame ends, the other frames that were there are as they were. The
frame itself keeps its names in their order. If no import runs in it, new or other values are only
those of names that a `let` of the node outside function bodies binds. A call changes no frame
that was there, whatever is applied to whatever. -/
theorem evaluation_changes_own_frame (m : Machine) (w : World) (node : Node) (i : FrameId)
    (inside : i < w.store.next) :
    (∀ j < w.store.next, j ≠ i → (m.evaluate node i w).2.store.frame? j = w.store.frame? j) ∧
      (w.store.vars i).map Prod.fst <+: ((m.evaluate node i w).2.store.vars i).map Prod.fst ∧
        (¬ node.Imports → ∀ name, ¬ node.Binds name →
          lookupVar name ((m.evaluate node i w).2.store.vars i) =
            lookupVar name (w.store.vars i)) ∧
          ∀ f args, ∀ j < w.store.next,
            (m.apply f args w).2.store.frame? j = w.store.frame? j := by
  have own := eval_confined m.context m.depth node i w
  refine ⟨own.others, own.names inside, ?_, ?_⟩
  · intro none name free
    exact own.kept inside name fun bound => bound.elim none free
  · intro f args
    have added := Eval.apply_adds (eval_confined m.context m.depth) w.store f args
    exact (added.store (.refl w.store)).same

theorem evaluation_changes_own_frame_let :
    globalFrame < (⟨#[⟨[("y", .int 2)], none⟩]⟩ : Store).next ∧
      lookupVar "y" (((Machine.ofHost default 5000).evaluate
        (.stmt (.bind ⟨.letWord, "let"⟩ ⟨⟨.ident, "x"⟩, "x"⟩ (.int ⟨⟨.int, "1"⟩, 1⟩))) globalFrame
        ⟨⟨#[⟨[("y", .int 2)], none⟩]⟩, "", [], []⟩).2.store.vars globalFrame) = some (.int 2) := by
  have inside : globalFrame < (⟨#[⟨[("y", .int 2)], none⟩]⟩ : Store).next := by decide
  refine ⟨inside, ?_⟩
  have own := evaluation_changes_own_frame (Machine.ofHost default 5000)
    ⟨⟨#[⟨[("y", .int 2)], none⟩]⟩, "", [], []⟩
    (.stmt (.bind ⟨.letWord, "let"⟩ ⟨⟨.ident, "x"⟩, "x"⟩ (.int ⟨⟨.int, "1"⟩, 1⟩))) globalFrame
    inside
  rw [own.2.2.1]
  · rfl
  · rintro ⟨t, p, load⟩
    simp [Node.stmts, Stmt.stmts, Expr.stmts] at load
  · rintro ⟨t, x, e, bind, same⟩
    simp only [Node.stmts, Stmt.stmts, Expr.stmts, List.mem_singleton, Stmt.bind.injEq] at bind
    obtain ⟨-, rfl, -⟩ := bind
    exact absurd same (by decide)

end TernLang
