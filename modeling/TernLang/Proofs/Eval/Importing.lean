import TernLang.Eval.Evaluate
import TernLang.Proofs.Files.Walking

/-!
What stops an import. Most of what can be wrong with a module is answered as an error. A name
without components, a name that is too long and a file that is no text are not: they halt the run,
as what the statements of the module halt with does.
-/
namespace TernLang

namespace Run
variable {host : Host} {name : String} {path : Path} {w : World} {h : Halt}
  {evaluate : Program → Run Value}

theorem liftM_eq {α : Type} (r : Run α) : (liftM r : Run α) = r := rfl

theorem module?_run (host : Host) (name : String) (w : World) :
    Run.module? host name w = (host.module? w.loading.head? name, w) := rfl

theorem loadModule_refused (refused : host.module? w.loading.head? name = .error h) :
    Run.loadModule host evaluate name w = (.error h, w) := by
  rw [Run.loadModule]
  simp only [liftM_eq]
  rw [bind_error]
  rw [module?_run, refused]

theorem loadModule_missing (missing : host.module? w.loading.head? name = .ok none) :
    Run.loadModule host evaluate name w = (.ok (.fail (.moduleNotFound name)), w) := by
  have looked : Run.module? host name w = (.ok none, w) := by rw [module?_run, missing]
  rw [Run.loadModule]
  simp only [liftM_eq]
  rw [bind_ok looked]
  rfl

theorem loadModule_circular (found : host.module? w.loading.head? name = .ok (some path))
    (busy : path ∈ w.loading) :
    Run.loadModule host evaluate name w = (.ok (.fail (.circularImport name)), w) := by
  have looked : Run.module? host name w = (.ok (some path), w) := by rw [module?_run, found]
  have files : Run.loading w = (.ok w.loading, w) := rfl
  rw [Run.loadModule]
  simp only [liftM_eq]
  rw [bind_ok looked]
  simp only
  rw [bind_ok files, if_pos (List.contains_iff_mem.mpr busy)]
  rfl

def opened (name : String) (path : Path) (w : World) : World :=
  { w with loading := path :: w.loading, log := w.log ++ [.moduleLoading name path] }

theorem parse_answers (text : String) (w : World) :
    ∃ x, Run.parse text w = (.ok (TernLang.parse text), x) ∧
      ((TernLang.parse text).errors.isEmpty → x = w) := by
  unfold Run.parse
  by_cases clean : (TernLang.parse text).errors.isEmpty
  · simp only [clean, if_true]
    exact ⟨w, rfl, fun _ => rfl⟩
  · simp only [clean]
    exact ⟨_, rfl, nofun⟩

def noted (e : LogEvent) (w : World) : World := { w with log := w.log ++ [e] }

theorem parse_refused {text : String} (refused : ¬ (TernLang.parse text).errors.isEmpty)
    (w : World) : Run.parse text w = (.ok (TernLang.parse text),
      noted (.textRefused (TernLang.parse text).errors.length) w) := by
  unfold Run.parse
  simp only [refused]
  rfl

theorem loadModule_found (found : host.module? w.loading.head? name = .ok (some path))
    (fresh : path ∉ w.loading) :
    Run.loadModule host evaluate name w =
      match host.readText path with
      | .error (.unreadable file why) =>
        (.ok (.fail (.moduleUnreadable file why)), noted (.moduleLoading name path) w)
      | .error h => (.error h, noted (.moduleLoading name path) w)
      | .ok text =>
        if (TernLang.parse text).errors.isEmpty then
          whileLoading path (evaluate (TernLang.parse text).program)
            (noted (.moduleLoading name path) w)
        else (.ok (.fail (.moduleMalformed name (TernLang.parse text).errors)),
          noted (.textRefused (TernLang.parse text).errors.length)
            (noted (.moduleLoading name path) w)) := by
  have looked : Run.module? host name w = (.ok (some path), w) := by rw [module?_run, found]
  have files : Run.loading w = (.ok w.loading, w) := rfl
  have told : Run.note (.moduleLoading name path) w =
    (.ok (), noted (.moduleLoading name path) w) := rfl
  rw [Run.loadModule]
  simp only [liftM_eq]
  rw [bind_ok looked]
  simp only
  rw [bind_ok files, if_neg (mt List.contains_iff_mem.mp fresh), bind_ok told]
  rcases host.readText path with e | text
  · cases e with
    | unreadable | exit | tooDeep | unfinished | controlBound | unkeyable | emptyName | nulInPath
    | nameTooLong | notUtf8 | malformed | badLimit | hugeLimit => rfl
  · simp only
    split
    · rename_i clean
      obtain ⟨x, parsed, same⟩ := parse_answers text (noted (.moduleLoading name path) w)
      rw [bind_ok parsed, same clean, if_pos clean]
      rfl
    · rename_i refused
      rw [bind_ok (parse_refused refused _), if_neg refused]
      rfl

theorem loadModule_fresh (found : host.module? w.loading.head? name = .ok (some path))
    (fresh : path ∉ w.loading) :
    (Run.loadModule host evaluate name w).1 =
      match host.readText path with
      | .error (.unreadable path why) => .ok (.fail (.moduleUnreadable path why))
      | .error h => .error h
      | .ok text =>
        if (TernLang.parse text).errors.isEmpty then
          (evaluate (TernLang.parse text).program (opened name path w)).1
        else .ok (.fail (.moduleMalformed name (TernLang.parse text).errors)) := by
  rw [loadModule_found found fresh]
  split
  · rfl
  · rfl
  · split
    · rfl
    · rfl

end Run

/-- What an import can halt with. -/
inductive ImportHalts (host : Host) (evaluate : Program → Run Value) (name : String) (w : World) :
    Halt → Prop where
  | unsought {h : Halt} (unsought : host.Unsought w.loading.head? name h) :
    ImportHalts host evaluate name w h
  | noText {goal : List String} {bytes : ByteArray}
    (found : host.Finds w.loading.head? name goal) (fresh : ⟨.slash, goal⟩ ∉ w.loading)
    (read : host.files.read host.cwd ⟨.slash, goal⟩ = .ok bytes) (broken : fileText? bytes = none) :
    ImportHalts host evaluate name w .notUtf8
  | inside {goal : List String} {text : String} {h : Halt}
    (found : host.Finds w.loading.head? name goal) (fresh : ⟨.slash, goal⟩ ∉ w.loading)
    (read : host.readText ⟨.slash, goal⟩ = .ok text) (clean : (parse text).errors = [])
    (halted : (evaluate (parse text).program (Run.opened name ⟨.slash, goal⟩ w)).1 = .error h) :
    ImportHalts host evaluate name w h

section
variable {host : Host} {evaluate : Program → Run Value} {name : String} {w : World} {h : Halt}

theorem importHalts_of_loadModule (plain : Path.hasNul ⟨.slash, host.cwd⟩ = false)
    (halted : (Run.loadModule host evaluate name w).1 = .error h) :
    ImportHalts host evaluate name w h := by
  rcases looked : host.module? w.loading.head? name with e | _ | path
  · rw [Run.loadModule_refused looked] at halted
    cases halted
    exact .unsought (Host.module?_eq_error_iff.mp looked)
  · rw [Run.loadModule_missing looked] at halted
    cases halted
  · obtain ⟨goal, rfl, finds⟩ := Host.module?_eq_some_iff.mp looked
    by_cases busy : ⟨.slash, goal⟩ ∈ w.loading
    · rw [Run.loadModule_circular looked busy] at halted
      cases halted
    · rw [Run.loadModule_fresh looked busy] at halted
      split at halted
      · cases halted
      · rename_i e other refused
        cases halted
        rcases Host.readText_eq_error_iff.mp refused with ⟨-, nul⟩ | ⟨-, ⟨_, rfl, -⟩ | noText⟩
        · simp [finds.clear plain] at nul
        · exact absurd rfl (other _ _)
        · obtain ⟨rfl, bytes, read, broken⟩ := noText
          exact .noText finds busy read broken
      · rename_i text read
        split at halted
        · rename_i clean
          exact .inside finds busy read (List.isEmpty_iff.mp clean) halted
        · cases halted

theorem ImportHalts.loadModule (plain : Path.hasNul ⟨.slash, host.cwd⟩ = false)
    (halts : ImportHalts host evaluate name w h) :
    (Run.loadModule host evaluate name w).1 = .error h := by
  cases halts with
  | unsought unsought => rw [Run.loadModule_refused (Host.module?_eq_error_iff.mpr unsought)]
  | @noText goal bytes found fresh read broken =>
    have looked := Host.module?_eq_some_iff.mpr ⟨_, rfl, found⟩
    have refused : host.readText ⟨.slash, goal⟩ = .error .notUtf8 :=
      Host.readText_eq_error_iff.mpr (.inr ⟨found.clear plain, .inr ⟨rfl, bytes, read, broken⟩⟩)
    rw [Run.loadModule_fresh looked fresh, refused]
  | inside found fresh read clean halted =>
    have looked := Host.module?_eq_some_iff.mpr ⟨_, rfl, found⟩
    rw [Run.loadModule_fresh looked fresh, read]
    simp only [clean, List.isEmpty_nil, if_true]
    exact halted

end

theorem eval_load_halts (cx : Context) (depth : Nat) (t : Token) (p : StrLit) (i : FrameId)
    (w : World) (h : Halt) :
    (eval cx (depth + 1) (.stmt (.load t p)) i w).1 = .error h ↔
      (Run.loadModule cx.host (fun q => eval cx depth (.program q) i) p.value w).1 = .error h := by
  change ((Run.loadModule cx.host (fun q => eval cx depth (.program q) i) p.value >>= fun v =>
    if v.isError then pure v else pure .null : Run Value) w).1 = .error h ↔ _
  rcases run : Run.loadModule cx.host (fun q => eval cx depth (.program q) i) p.value w with
    ⟨e | v, x⟩
  · rw [Run.bind_error run]
  · rw [Run.bind_ok run]
    constructor
    · split
      · exact nofun
      · exact nofun
    · exact nofun

/-- An import halts when nothing can be looked for by its name, when the module is no text and when
a statement of the module halts; whatever else is wrong with a module is answered. -/
theorem import_halts_iff (cx : Context) (plain : Path.hasNul ⟨.slash, cx.host.cwd⟩ = false)
    (w : World) (h : Halt) :
    (∀ evaluate name, (Run.loadModule cx.host evaluate name w).1 = .error h ↔
      ImportHalts cx.host evaluate name w h) ∧
      ∀ depth t p i, (eval cx (depth + 1) (.stmt (.load t p)) i w).1 = .error h ↔
        ImportHalts cx.host (fun q => eval cx depth (.program q) i) p.value w h := by
  have loads : ∀ evaluate name, (Run.loadModule cx.host evaluate name w).1 = .error h ↔
      ImportHalts cx.host evaluate name w h := by
    intro evaluate name
    exact ⟨importHalts_of_loadModule plain, fun halts => halts.loadModule plain⟩
  refine ⟨loads, ?_⟩
  intro depth t p i
  rw [eval_load_halts]
  exact loads _ p.value

def noTextHost : Host := ⟨⟨[(["b.tn"], .file ⟨#[0xff]⟩)]⟩, [], ⟨none, none, none⟩⟩

theorem import_halts_iff_no_text :
    Path.hasNul ⟨.slash, noTextHost.cwd⟩ = false ∧
      (eval ⟨noTextHost, 1⟩ 1 (.stmt (.load ⟨.importWord, "import"⟩ ⟨⟨.string, "b"⟩, "b"⟩))
        globalFrame World.start).1 = .error .notUtf8 := by
  have looked : noTextHost.module? none "b" = .ok (some ⟨.slash, ["b.tn"]⟩) := rfl
  obtain ⟨goal, same, finds⟩ := Host.module?_eq_some_iff.mp looked
  cases same
  have halts := (import_halts_iff ⟨noTextHost, 1⟩ rfl World.start .notUtf8).2
  exact ⟨rfl, (halts 0 _ ⟨_, "b"⟩ globalFrame).mpr (.noText finds List.not_mem_nil rfl rfl)⟩

/-- An import of nothing does not answer. -/
theorem import_empty_name_halts :
    (eval ⟨default, 1⟩ 1 (.stmt (.load ⟨.importWord, "import"⟩ ⟨⟨.string, ""⟩, ""⟩)) globalFrame
      World.start).1 = .error .emptyName := rfl

end TernLang
