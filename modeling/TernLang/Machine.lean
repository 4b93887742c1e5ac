import TernLang.Eval.Evaluate

/-!
Sessions: texts and files run one after the other in one frame, so that each sees the bindings of
those before it. A text that is not a program runs no part of itself.
-/
namespace TernLang

structure Machine where
  context : Context
  depth : Nat
  deriving Inhabited

namespace Machine

def maxDepth : Nat := 2500

def maxRounds : Nat := 0x4000000000000000

/-- A level of nesting counts twice against the limit of the settings. -/
def depthFor (recursionLimit : Nat) : Nat := min maxDepth (recursionLimit / 2)

def ofHost (host : Host) (recursionLimit : Nat) : Machine :=
  ⟨⟨host, maxRounds⟩, depthFor recursionLimit⟩

def host (m : Machine) : Host := m.context.host

def evaluate (m : Machine) : Evaluator := eval m.context m.depth

def program (text : String) : Run Program := do
  let parsed ← Run.parse text
  if parsed.errors.isEmpty then pure parsed.program else Run.halt (.malformed parsed.errors)

def evalText (m : Machine) (i : FrameId) (text : String) : Run Value := do
  let p ← program text
  m.evaluate (.program p) i

def runFile (m : Machine) (i : FrameId) (path : String) : Run Value := do
  let given := Path.of path
  if given.hasNul then Run.halt .nulInPath
  else
    let file := given.resolve m.host.cwd
    Run.note (.running file)
    let text ← Run.ofExcept (m.host.readText file)
    let p ← program text
    Run.whileLoading file (m.evaluate (.program p) i)

def load (m : Machine) (i : FrameId) (name : String) : Run Value :=
  Run.loadModule m.host (fun p => m.evaluate (.program p) i) name

def apply (m : Machine) (f : Value) (args : List Value) : Run Value :=
  Eval.apply m.evaluate f args

end Machine
end TernLang
