import TernLang.Run
import TernLang.Syntax.Parser

/-!
Module files. A module is named by a path: an absolute one is taken as it is, another is looked for
next to the importing file, in the working directory and in the directories of the settings, in this
order. A name without a suffix also stands for the file with the usual one.
-/
namespace TernLang

def moduleSuffix : String := ".tn"

namespace Host

def spellings (p : Path) : Except Halt (List Path) :=
  if p.hasSuffix then .ok [p]
  else if p.name = "" then .error .emptyName
  else .ok [p, p.withSuffix moduleSuffix]

def bases (host : Host) (importer : Option Path) : List Path :=
  (importer.map Path.parent).toList ++ ⟨.slash, host.cwd⟩ :: host.settings.moduleRoots

def candidates (host : Host) (importer : Option Path) (name : String) : Except Halt (List Path) :=
  match spellings (.of name) with
  | .error h => .error h
  | .ok names =>
    if (Path.of name).isAbsolute then .ok names
    else .ok ((host.bases importer).flatMap fun base => names.map base.under)

/-- The first of the paths that leads to a file, in its resolved form. -/
def firstFile (host : Host) : List Path → Except Halt (Option Path)
  | [] => .ok none
  | p :: ps =>
    if p.hasNul then host.firstFile ps
    else
      match host.files.read host.cwd p with
      | .ok _ => .ok (some (p.resolve host.cwd))
      | .error .nameTooLong => .error .nameTooLong
      | .error _ => host.firstFile ps

def module? (host : Host) (importer : Option Path) (name : String) : Except Halt (Option Path) :=
  match host.candidates importer name with
  | .error h => .error h
  | .ok ps => host.firstFile ps

def readText (host : Host) (p : Path) : Except Halt String :=
  if p.hasNul then .error .nulInPath
  else
    match host.files.read host.cwd p with
    | .error why => .error (.unreadable p why)
    | .ok bytes =>
      match fileText? bytes with
      | none => .error .notUtf8
      | some text => .ok text

end Host

def Run.parse (text : String) : Run Parsed := do
  let parsed := TernLang.parse text
  if parsed.errors.isEmpty then pure parsed
  else
    Run.note (.textRefused parsed.errors.length)
    pure parsed

def Run.module? (host : Host) (name : String) : Run (Option Path) := do
  let files ← Run.loading
  Run.ofExcept (host.module? files.head? name)

/-- Loads a module: `evaluate` runs its program, whose bindings stay where it runs. A module that
cannot be found, read or parsed, or that is being loaded already, is an error value. -/
def Run.loadModule {m : Type → Type} [Monad m] [MonadRun m] (host : Host)
    (evaluate : Program → m Value) (name : String) : m Value := do
  let found ← Run.module? host name
  match found with
  | none => return .fail (.moduleNotFound name)
  | some path =>
    let files ← Run.loading
    if files.contains path then return .fail (.circularImport name)
    else
      Run.note (.moduleLoading name path)
      match host.readText path with
      | .error (.unreadable path why) => return .fail (.moduleUnreadable path why)
      | .error h => Run.halt h
      | .ok text =>
        let parsed ← Run.parse text
        if parsed.errors.isEmpty then MonadRun.whileLoading path (evaluate parsed.program)
        else return .fail (.moduleMalformed name parsed.errors)

end TernLang
