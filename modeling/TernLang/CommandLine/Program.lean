import TernLang.CommandLine.Arguments
import TernLang.Shell

/-!
The program: it runs the file that the command line names, or else the shell. What it writes goes to
two channels; its status is 1 when a file could not be run to a value.
-/
namespace TernLang.CommandLine

def usage : String := "usage: tern [-h] [-v] [file]\n"

def helpText : String :=
  usage ++ "\n" ++
  "positional arguments:\n" ++
  "  file           file to interpret and run (if empty, starts the interactive\n" ++
  "                 shell)\n" ++
  "\n" ++
  "options:\n" ++
  "  -h, --help     show this help message and exit\n" ++
  "  -v, --verbose  log debug output to stderr\n"

structure Report where
  outcome : Except Halt Int
  out : String
  err : String

structure Input where
  lines : List String
  ending : Shell.Ending

/-- Levels of nesting that are in use before a run starts. -/
def startDepth : Nat := 4

def greatestLimit : Nat := 0x7fffffff

def limitOf (s : Settings) : Except Halt Nat :=
  match s.recursionLimit? with
  | none => .error .badLimit
  | some 0 => .error .badLimit
  | some n =>
    if n ≤ startDepth then .error .tooDeep
    else if greatestLimit < n then .error .hugeLimit
    else .ok n

def fileStatus : Except Halt Value → Except Halt Int × String
  | .ok (.err message) => (.ok 1, message ++ "\n")
  | .ok _ => (.ok 0, "")
  | .error (.malformed errors) =>
    (.ok 1, String.join (errors.map fun e => e.message ++ "\n"))
  | .error (.unreadable path why) => (.ok 1, unreadableText path why ++ "\n")
  | .error .tooDeep => (.ok 1, Halt.tooDeep.message ++ "\n")
  | .error h => (.error h, "")

def levelOf (s : Settings) (verbose : Bool) : Nat :=
  if verbose then LogEvent.debugLevel else s.logLevel

def shownLog (level : Nat) (w : World) : String :=
  if level ≤ LogEvent.debugLevel then String.join (w.log.map LogEvent.line) else ""

def runFile (m : Machine) (level : Nat) (path : String) : Report :=
  match (do Run.note (.fileGiven path); m.runFile globalFrame path) World.start with
  | (answer, w) =>
    match fileStatus answer with
    | (outcome, message) => ⟨outcome, w.output, shownLog level w ++ message⟩

def shell (m : Machine) (input : Input) : Run Unit := do
  Run.note .shellStarted
  Run.write Shell.greeting
  Shell.session m globalFrame input.ending input.lines

def runShell (m : Machine) (level : Nat) (input : Input) : Report :=
  match shell m input World.start with
  | (.ok _, w) => ⟨.ok 0, w.output, shownLog level w⟩
  | (.error h, w) => ⟨.error h, w.output, shownLog level w⟩

/-- A command line that cannot be read ends the program with status 2. -/
def run (host : Host) (arguments : List String) (input : Input) : Report :=
  match Request.ofArguments arguments with
  | .error e => ⟨.error (.exit 2), "", usage ++ "tern: error: " ++ e.message ++ "\n"⟩
  | .ok .help => ⟨.error (.exit 0), helpText, ""⟩
  | .ok (.run verbose file) =>
    match limitOf host.settings with
    | .error h => ⟨.error h, "", ""⟩
    | .ok limit =>
      let m := Machine.ofHost host limit
      let level := levelOf host.settings verbose
      match file with
      | some path => runFile m level path
      | none => runShell m level input

end TernLang.CommandLine
