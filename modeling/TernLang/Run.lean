import TernLang.Failure
import TernLang.Log
import TernLang.Settings
import TernLang.Store

/-!
Runs. A run changes a world, the bindings and what has been written so far, and either answers or
halts; it keeps the world it has reached in both cases. What it may look at but not change is its
host.
-/
namespace TernLang

structure World where
  store : Store
  output : String
  log : List LogEvent
  /-- The files whose statements are being evaluated, the innermost first. -/
  loading : List Path
  deriving Inhabited

structure Host where
  files : FileSystem
  cwd : List String
  settings : Settings
  deriving Inhabited

def World.start : World := ⟨Store.empty.newFrame none, "", [], []⟩

def globalFrame : FrameId := 0

def Run (α : Type) := World → Except Halt α × World

namespace Run

variable {α β : Type}

def pure (a : α) : Run α := fun w => (.ok a, w)

def bind (r : Run α) (f : α → Run β) : Run β := fun w =>
  match r w with
  | (.ok a, w) => f a w
  | (.error h, w) => (.error h, w)

instance : Monad Run where
  pure := Run.pure
  bind := Run.bind

theorem bind_ok {r : Run α} {f : α → Run β} {w x : World} {a : α}
    (h : r w = (.ok a, x)) : (r >>= f) w = f a x := by
  simp [Bind.bind, Run.bind, h]

theorem bind_error {r : Run α} {f : α → Run β} {w x : World} {e : Halt}
    (h : r w = (.error e, x)) : (r >>= f) w = (.error e, x) := by
  simp [Bind.bind, Run.bind, h]

def halt (h : Halt) : Run α := fun w => (.error h, w)

def ofExcept (r : Except Halt α) : Run α := fun w => (r, w)

def store : Run Store := fun w => (.ok w.store, w)

def loading : Run (List Path) := fun w => (.ok w.loading, w)

def write (s : String) : Run Unit := fun w => (.ok (), { w with output := w.output ++ s })

def note (e : LogEvent) : Run Unit := fun w => (.ok (), { w with log := w.log ++ [e] })

def newFrame (outer : Option FrameId) : Run FrameId := fun w =>
  (.ok w.store.next, { w with store := w.store.newFrame outer })

/-- Binds a name in a frame; a control value cannot be bound. -/
def assign (i : FrameId) (name : String) (v : Value) : Run Unit := fun w =>
  if v.isControl then (.error (.controlBound v.describe name), w)
  else (.ok (), { w with store := w.store.bind i name v })

def whileLoading (p : Path) (r : Run α) : Run α := fun w =>
  match r { w with loading := p :: w.loading } with
  | (a, w) => (a, { w with loading := w.loading.tail })

end Run

/-- Where evaluation takes place: in runs themselves, or where account is kept of what is evaluated
on the way. -/
class MonadRun (m : Type → Type) where
  liftRun {α : Type} : Run α → m α
  whileLoading {α : Type} : Path → m α → m α
  /-- Hands on what an operator or a function that every program has answers. -/
  answer : Value → m Value

instance {m : Type → Type} [MonadRun m] : MonadLift Run m := ⟨MonadRun.liftRun⟩

instance : MonadRun Run where
  liftRun r := r
  whileLoading := Run.whileLoading
  answer := Run.pure

end TernLang
