import TernLang.Machine
import TernLang.Text.Blank

/-!
The interactive shell: each line is a program, and its value is written back.
-/
namespace TernLang.Shell

def greeting : String := "Tern interpreter :: Ctrl-D to quit\n"

def prompt : String := ">> "

def endLine : String := "EOF"

/-- What is written for an answer. Refused text and too deep a nesting end the line and not the
shell; any other halt ends the shell. -/
def reply : Except Halt Value → Except Halt String
  | .ok v => .ok (v.text ++ "\n")
  | .error (.malformed errors) =>
    .ok (String.join (errors.map fun e => "\t" ++ e.message ++ "\n"))
  | .error .tooDeep => .ok ("ERROR: " ++ Halt.tooDeep.message ++ "\n")
  | .error h => .error h

def evaluate (m : Machine) (i : FrameId) (line : String) : Run Unit := fun w =>
  match m.evalText i line w with
  | (answer, w) =>
    match reply answer with
    | .ok text => Run.write text w
    | .error h => (.error h, w)

/-- One line; answers whether the shell stops there. Blanks around the line do not count, and a line
of nothing else does nothing. -/
def onLine (m : Machine) (i : FrameId) (line : String) : Run Bool := do
  let text := Text.trim line
  if text = "" then pure false
  else if text = endLine then do
    Run.write "\n"
    pure true
  else do
    evaluate m i text
    pure false

inductive Ending where
  | endOfInput | interrupt | terminate
  deriving DecidableEq, Repr

def finish (m : Machine) (i : FrameId) : Ending → Run Unit
  | .endOfInput => do
    let _ ← onLine m i endLine
    pure ()
  | .interrupt => Run.write "\n"
  | .terminate => Run.halt (.exit 0)

def session (m : Machine) (i : FrameId) (ending : Ending) : List String → Run Unit
  | [] => do
    Run.write prompt
    finish m i ending
  | line :: lines => do
    Run.write prompt
    let stop ← onLine m i line
    if stop then pure () else session m i ending lines

end TernLang.Shell
