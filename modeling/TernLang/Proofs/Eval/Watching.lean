import TernLang.Proofs.Eval.Places

/-!
Watched runs. A watched run also tells its moments: where an evaluation starts, and what an
evaluation, an operator or a function that every program has answers, each with the world as it is
then. Evaluation that is watched does what evaluation does.
-/
namespace TernLang

inductive Event where
  | starts (node : Node) (i : FrameId)
  | answers (v : Value)

structure Moment where
  event : Event
  world : World

/-- The moments of a run in their order, and how it ends. -/
def Watched (α : Type) := World → List Moment × Except Halt α × World

namespace Watched
variable {α β : Type}

def pure (a : α) : Watched α := fun w => ([], .ok a, w)

def bind (r : Watched α) (f : α → Watched β) : Watched β := fun w =>
  match r w with
  | (ms, .ok a, w) =>
    match f a w with
    | (ns, end_) => (ms ++ ns, end_)
  | (ms, .error h, w) => (ms, .error h, w)

instance : Monad Watched where
  pure := Watched.pure
  bind := Watched.bind

def moment (e : Event) : Watched Unit := fun w => ([⟨e, w⟩], .ok (), w)

def answer (v : Value) : Watched Value := do
  moment (.answers v)
  Pure.pure v

def whileLoading (p : Path) (r : Watched α) : Watched α := fun w =>
  match r { w with loading := p :: w.loading } with
  | (ms, a, w) => (ms, a, { w with loading := w.loading.tail })

instance : MonadRun Watched where
  liftRun r := fun w => ([], r w)
  whileLoading := whileLoading
  answer := answer

theorem bind_ok {r : Watched α} {f : α → Watched β} {w x : World} {a : α} {ms : List Moment}
    (h : r w = (ms, .ok a, x)) : (r >>= f) w = (ms ++ (f a x).1, (f a x).2) := by
  simp [Bind.bind, Watched.bind, h]

theorem bind_error {r : Watched α} {f : α → Watched β} {w x : World} {e : Halt} {ms : List Moment}
    (h : r w = (ms, .error e, x)) : (r >>= f) w = (ms, .error e, x) := by
  simp [Bind.bind, Watched.bind, h]

theorem whileLoading_run {p : Path} {r : Watched α} {w x : World} {a : Except Halt α}
    {ms : List Moment} (h : r { w with loading := p :: w.loading } = (ms, a, x)) :
    whileLoading p r w = (ms, a, { x with loading := x.loading.tail }) := by
  simp [whileLoading, h]

end Watched

def watch (cx : Context) : Nat → EvaluatorIn Watched
  | 0, node, i => do
    Watched.moment (.starts node i)
    liftM (Run.halt .tooDeep : Run Value)
  | depth + 1, node, i => do
    Watched.moment (.starts node i)
    let v ← evalStep cx (watch cx depth) node i
    Watched.answer v

theorem watch_run (cx : Context) (depth : Nat) (node : Node) (i : FrameId) (w : World) :
    watch cx (depth + 1) node i w =
      (⟨.starts node i, w⟩ :: ((evalStep cx (watch cx depth) node i >>= Watched.answer) w).1,
        ((evalStep cx (watch cx depth) node i >>= Watched.answer) w).2) := rfl

def Machine.watch (m : Machine) : EvaluatorIn Watched := TernLang.watch m.context m.depth

/-- Apart from its moments, the watched run is the run. -/
def Watched.Shows (α : Type) (r : Watched α) (s : Run α) : Prop := ∀ w, (r w).2 = s w

theorem respected_shows : Respected Watched.Shows where
  pure _ _ := rfl
  bind {α β r s f g} first next w := by
    have here := first w
    rcases run : r w with ⟨ms, a | a, x⟩
    · rw [run] at here
      rw [Watched.bind_error run, Run.bind_error here.symm]
    · rw [run] at here
      rw [Watched.bind_ok run, Run.bind_ok here.symm]
      exact next a x
  lift _ _ := rfl
  answer _ _ := rfl

theorem Watched.Shows.whileLoading {α : Type} {r : Watched α} {s : Run α} (p : Path)
    (h : Shows α r s) : Shows α (MonadRun.whileLoading p r) (MonadRun.whileLoading p s) := by
  intro w
  change (Watched.whileLoading p r w).2 = Run.whileLoading p s w
  rw [Run.whileLoading, ← h]
  rfl

theorem loadModule_shows {evaluate : Program → Watched Value} {plain : Program → Run Value}
    (programs : ∀ p, Watched.Shows Value (evaluate p) (plain p)) (host : Host) (name : String) :
    Watched.Shows Value (Run.loadModule host evaluate name) (Run.loadModule host plain name) :=
  respected_shows.loadModule (fun p _ _ shows => shows.whileLoading p) programs host name

theorem watch_shows (cx : Context) (depth : Nat) (node : Node) (i : FrameId) :
    Watched.Shows Value (watch cx depth node i) (eval cx depth node i) := by
  induction depth generalizing node i with
  | zero => exact fun _ => rfl
  | succ depth ih =>
    intro w
    have load := fun name i => loadModule_shows (fun p => ih (.program p) i) cx.host name
    have loop := fun b i => respected_shows.loop (i := i) ih b cx.rounds
    have step := respected_shows.evalStep ih loop load node i w
    rw [eval, ← step, watch_run]
    rcases run : evalStep cx (watch cx depth) node i w with ⟨ms, halt | v, x⟩
    · rw [Watched.bind_error run]
    · rw [Watched.bind_ok run]
      rfl

end TernLang
