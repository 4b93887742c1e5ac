import TernLang.CommandLine.Program

/-!
The program on a real machine. A run sees a file system that is read before it starts: what a run
may load is named in its text and in the texts of the modules named there, so those files are
looked up first. The shell looks up what a line names before it runs the line.
-/
namespace TernLang.Main

def importNames : List Token → List String
  | t :: u :: ts =>
    if t.kind = .importWord && u.kind = .string then u.literal :: importNames ts
    else importNames (u :: ts)
  | _ => []

/-- What there is at a place. What cannot be read as a file counts as a directory. -/
def probe (place : List String) : IO (Option Entry) := do
  try
    let bytes ← IO.FS.readBinFile ("/" ++ "/".intercalate place)
    pure (some (.file bytes))
  catch
    | .noFileOrDirectory .. => pure none
    | _ => pure (some .directory)

def lookUp (fs : FileSystem) (place : List String) : List String → IO FileSystem
  | [] => pure fs
  | part :: parts => do
    let next := if part = ".." then place.dropLast else place ++ [part]
    let found ← if part = ".." then pure (some Entry.directory) else probe next
    match found with
    | none => pure fs
    | some (.file bytes) => pure (fs.put next (.file bytes))
    | some .directory => lookUp (fs.put next .directory) next parts

def knowing (host : Host) (p : Path) : IO Host := do
  if p.hasNul then pure host
  else
    let files ← lookUp host.files (if p.isAbsolute then [] else host.cwd) p.parts
    pure { host with files }

partial def knowingImports (host : Host) (seen : List Path) (importer : Option Path)
    (text : String) : IO Host := do
  let mut host := host
  for name in importNames (tokens text.toList) do
    match host.candidates importer name with
    | .error _ => pure ()
    | .ok candidates =>
      for p in candidates do
        host ← knowing host p
      match host.module? importer name with
      | .ok (some file) =>
        if !seen.contains file then
          match host.readText file with
          | .ok module => host ← knowingImports host (file :: seen) (some file) module
          | .error _ => pure ()
      | _ => pure ()
  return host

def knowingFile (host : Host) (path : String) : IO Host := do
  let file := (Path.of path).resolve host.cwd
  let host ← knowing host file
  match host.readText file with
  | .ok text => knowingImports host [file] (some file) text
  | .error _ => pure host

def startHost : IO Host := do
  let here ← IO.currentDir
  let roots ← IO.getEnv "TERN_PATH"
  let level ← IO.getEnv "TERN_LOG_LEVEL"
  let limit ← IO.getEnv "TERN_RECURSION_LIMIT"
  let cwd := (Path.of here.toString).parts
  let host : Host := ⟨.empty, cwd, ⟨roots, level, limit⟩⟩
  knowing host ⟨.slash, cwd⟩

def statusOf (code : Int) : UInt32 := UInt32.ofNat (code % 256).toNat

def ended : Except Halt Int → IO UInt32
  | .ok status => pure (statusOf status)
  | .error (.exit code) => pure (statusOf code)
  | .error h => do
    IO.eprintln h.message
    pure 1

def showReport (r : CommandLine.Report) : IO UInt32 := do
  IO.print r.out
  IO.eprint r.err
  ended r.outcome

def flush (level : Nat) (w : World) : IO World := do
  IO.print w.output
  (← IO.getStdout).flush
  IO.eprint (CommandLine.shownLog level w)
  return { w with output := "", log := [] }

partial def lines (host : Host) (limit level : Nat) (input : IO.FS.Stream) (w : World) :
    IO UInt32 := do
  IO.print Shell.prompt
  (← IO.getStdout).flush
  let line ← input.getLine
  let text := if line.isEmpty then Shell.endLine else line
  let host ← knowingImports host [] none text
  match Shell.onLine (Machine.ofHost host limit) globalFrame text w with
  | (.error h, w) => do
    let _ ← flush level w
    ended (.error h)
  | (.ok stop, w) => do
    let w ← flush level w
    if stop then pure 0 else lines host limit level input w

def interact (host : Host) (verbose : Bool) : IO UInt32 := do
  match CommandLine.limitOf host.settings with
  | .error h => ended (.error h)
  | .ok limit =>
    let level := CommandLine.levelOf host.settings verbose
    let (_, w) := Run.note .shellStarted World.start
    let w ← flush level w
    IO.print Shell.greeting
    lines host limit level (← IO.getStdin) w

end TernLang.Main

open TernLang in
def main (arguments : List String) : IO UInt32 := do
  let host ← Main.startHost
  match CommandLine.Request.ofArguments arguments with
  | .ok (.run verbose none) => Main.interact host verbose
  | .ok (.run _ (some path)) => do
    let host ← Main.knowingFile host path
    Main.showReport (CommandLine.run host arguments ⟨[], .endOfInput⟩)
  | _ => Main.showReport (CommandLine.run host arguments ⟨[], .endOfInput⟩)
