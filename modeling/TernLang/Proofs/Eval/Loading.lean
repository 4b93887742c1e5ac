import TernLang.Proofs.Eval.Importing
import TernLang.Proofs.Eval.Watching
import Mathlib.Data.List.Perm.Subperm

/-!
The files that are being loaded. Evaluation leaves them as it found them however it ends, and no file
is among them twice, because an import of a file that is there already is refused. What is compared
are places of files, so it does not matter how an import is spelled.
-/
namespace TernLang

namespace Watched
variable {α β : Type} {I : List Path → Prop} {w : World}

/-- From this world on, the files that are being loaded have the property at each moment of the run,
and the run leaves them as they were. -/
structure Brackets (I : List Path → Prop) (r : Watched α) (w : World) : Prop where
  moments : ∀ m ∈ (r w).1, I m.world.loading
  restored : (r w).2.2.loading = w.loading

theorem brackets_pure (a : α) : (Pure.pure a : Watched α).Brackets I w where
  moments _ member := nomatch member
  restored := rfl

theorem brackets_lift {r : Run α} (bare : r.Bare) : (liftM r : Watched α).Brackets I w where
  moments _ member := nomatch member
  restored := bare.loading w

theorem brackets_moment (e : Event) (here : I w.loading) : (moment e).Brackets I w where
  moments m member := by
    obtain rfl := List.mem_singleton.mp member
    exact here
  restored := rfl

theorem Brackets.bind {r : Watched α} {f : α → Watched β} (first : r.Brackets I w)
    (next : ∀ a ms x, r w = (ms, .ok a, x) → x.loading = w.loading → (f a).Brackets I x) :
    (r >>= f).Brackets I w := by
  obtain ⟨moments, restored⟩ := first
  rcases run : r w with ⟨ms, h | a, x⟩
  · rw [run] at moments restored
    constructor
    · rw [bind_error run]
      exact moments
    · rw [bind_error run]
      exact restored
  · rw [run] at moments restored
    have rest := next a ms x run restored
    constructor
    · rw [bind_ok run]
      exact List.forall_mem_append.mpr ⟨moments, rest.moments⟩
    · rw [bind_ok run]
      exact rest.restored.trans restored

theorem brackets_answer (v : Value) (here : I w.loading) : (answer v).Brackets I w :=
  (brackets_moment (.answers v) here).bind fun _ _ _ _ _ => brackets_pure v

theorem brackets_after {r : Run α} {f : α → Watched β} (bare : r.Bare)
    (next : ∀ a x, r w = (.ok a, x) → x.loading = w.loading → (f a).Brackets I x) :
    ((liftM r : Watched α) >>= f).Brackets I w := by
  apply (brackets_lift bare).bind
  intro a ms x run same
  exact next a x (congrArg Prod.snd run) same

theorem brackets_whileLoading {p : Path} {r : Watched α}
    (inside : r.Brackets I { w with loading := p :: w.loading }) :
    (MonadRun.whileLoading p r : Watched α).Brackets I w := by
  change (whileLoading p r).Brackets I w
  obtain ⟨moments, restored⟩ := inside
  rcases run : r { w with loading := p :: w.loading } with ⟨ms, a, x⟩
  rw [run] at moments restored
  constructor
  · rw [whileLoading_run run]
    exact moments
  · rw [whileLoading_run run]
    exact congrArg List.tail restored

def Bracketed (I : List Path → Prop) (r : Watched α) : Prop := ∀ w, I w.loading → r.Brackets I w

end Watched

open Watched

theorem respected_bracketed (I : List Path → Prop) :
    Respected fun α (r : Watched α) (_ : Watched α) => r.Bracketed I where
  pure a _ _ := brackets_pure a
  bind first next w here :=
    (first w here).bind fun a _ x _ same => next a x (same.symm ▸ here)
  lift bare _ _ := brackets_lift bare
  answer v _ here := brackets_answer v here

def Host.Admits (host : Host) (I : List Path → Prop) : Prop :=
  ∀ files name path, I files → host.module? files.head? name = .ok (some path) → path ∉ files →
    I (path :: files)

section
variable {I : List Path → Prop} {host : Host}

theorem loadModule_bracketed (admits : host.Admits I) {evaluate : Program → Watched Value}
    (programs : ∀ p, (evaluate p).Bracketed I) (name : String) :
    (Run.loadModule host evaluate name).Bracketed I := by
  intro w here
  apply brackets_after (Run.bare_module? host name)
  intro found x run same
  cases found with
  | none => exact brackets_pure _
  | some path =>
    apply brackets_after Run.bare_loading
    intro files y known kept
    cases known
    split
    · exact brackets_pure _
    · rename_i fresh
      have pushed : I (path :: x.loading) := by
        rw [Run.module?_run] at run
        obtain ⟨looked, -⟩ := Prod.mk.inj run
        rw [same] at fresh ⊢
        exact admits w.loading name path here looked (by simpa using fresh)
      apply brackets_after (Run.bare_note _)
      intro _ y _ still
      split
      · exact brackets_pure _
      · exact brackets_lift (Run.bare_halt _)
      · apply brackets_after (Run.bare_parse _)
        intro parsed z _ again
        split
        · apply brackets_whileLoading
          apply programs
          rw [again, still]
          exact pushed
        · exact brackets_pure _

theorem evalStep_bracketed {rec : EvaluatorIn Watched} {cx : Context} (admits : cx.host.Admits I)
    (parts : ∀ node i, (rec node i).Bracketed I) (node : Node) (i : FrameId) :
    (evalStep cx rec node i).Bracketed I := by
  have respected := respected_bracketed I
  have load := fun name i => loadModule_bracketed admits (fun p => parts (.program p) i) name
  have loop := fun b i =>
    @Respected.loop Watched Watched _ _ _ _ _ rec rec i respected parts b cx.rounds
  exact @Respected.evalStep Watched Watched _ _ _ _ _ rec rec respected parts cx cx loop load node i

theorem watch_bracketed {cx : Context} (admits : cx.host.Admits I) (depth : Nat) (node : Node)
    (i : FrameId) : (watch cx depth node i).Bracketed I := by
  induction depth generalizing node i with
  | zero =>
    intro w here
    apply (brackets_moment (.starts node i) here).bind
    exact fun _ _ _ _ _ => brackets_lift (Run.bare_halt _)
  | succ depth ih =>
    intro w here
    apply (brackets_moment (.starts node i) here).bind
    intro _ _ x _ same
    apply (evalStep_bracketed admits ih node i x (same.symm ▸ here)).bind
    exact fun v _ y _ kept => brackets_answer v (kept.symm ▸ same.symm ▸ here)

end

/-- No file is there twice, and each is a file of the host. -/
structure Host.Stack (host : Host) (files : List Path) : Prop where
  nodup : files.Nodup
  known : files ⊆ host.files.filePaths

namespace Host
variable {host : Host} {files : List Path} {path : Path}

theorem stack_nil : host.Stack [] := ⟨List.nodup_nil, List.nil_subset _⟩

theorem Stack.push (h : host.Stack files) (fresh : path ∉ files)
    (file : path ∈ host.files.filePaths) : host.Stack (path :: files) :=
  ⟨List.nodup_cons.mpr ⟨fresh, h.nodup⟩, List.cons_subset.mpr ⟨file, h.known⟩⟩

theorem Stack.length_le (h : host.Stack files) : files.length ≤ host.files.filePaths.length :=
  (List.subperm_of_subset h.nodup h.known).length_le

theorem admits_stack (host : Host) : host.Admits host.Stack := by
  intro files name path stack found fresh
  obtain ⟨goal, rfl, finds⟩ := module?_eq_some_iff.mp found
  exact stack.push fresh finds.mem_filePaths

end Host

inductive Step where
  | text (source : String)
  | file (path : String)
  | load (name : String)

namespace Step
variable {m : Machine} {i : FrameId} {w : World}

def run (m : Machine) (i : FrameId) : Step → Run Value
  | text source => m.evalText i source
  | file path => m.runFile i path
  | load name => m.load i name

def watch (m : Machine) (i : FrameId) : Step → Watched Value
  | text source => do
    let p ← Machine.program source
    m.watch (.program p) i
  | file path => do
    let given := Path.of path
    if given.hasNul then liftM (Run.halt .nulInPath : Run Value)
    else
      let file := given.resolve m.host.cwd
      Run.note (.running file)
      let text ← Run.ofExcept (m.host.readText file)
      let p ← Machine.program text
      MonadRun.whileLoading file (m.watch (.program p) i)
  | load name => Run.loadModule m.host (fun p => m.watch (.program p) i) name

theorem shows_lift {α : Type} (r : Run α) : Watched.Shows α (liftM r) r := fun _ => rfl

theorem watch_shows (m : Machine) (i : FrameId) (s : Step) :
    Watched.Shows Value (s.watch m i) (s.run m i) := by
  have respected := respected_shows
  have program := fun p => TernLang.watch_shows m.context m.depth (.program p) i
  cases s with
  | text source => exact respected.bind (shows_lift _) program
  | file path =>
    rw [watch, run, Machine.runFile]
    split
    · exact shows_lift _
    · apply respected.bind (shows_lift _)
      intro _
      apply respected.bind (shows_lift _)
      intro text
      exact respected.bind (shows_lift _) fun p => (program p).whileLoading _
  | load name => exact loadModule_shows program m.host name

theorem program_bare (text : String) : (Machine.program text).Bare := by
  apply (Run.bare_parse text).bind
  intro parsed
  split
  · exact Run.bare_pure _
  · exact Run.bare_halt _

theorem watch_brackets (placed : ".." ∉ m.host.cwd) (idle : w.loading = []) (s : Step) :
    (s.watch m i).Brackets m.host.Stack w := by
  have program : ∀ p, (m.watch (.program p) i).Bracketed m.host.Stack :=
    fun p => watch_bracketed m.host.admits_stack m.depth (.program p) i
  have here : m.host.Stack w.loading := idle ▸ Host.stack_nil
  cases s with
  | text source =>
    apply brackets_after (program_bare source)
    intro p x _ same
    exact program p x (same.symm ▸ here)
  | file path =>
    -- A file is run without asking whether it is being loaded. Here none is.
    rw [watch]
    split
    · exact brackets_lift (Run.bare_halt _)
    · apply brackets_after (Run.bare_note _)
      intro _ x _ same
      apply brackets_after (Run.bare_ofExcept _)
      intro text y read again
      apply brackets_after (program_bare text)
      intro p z _ still
      apply brackets_whileLoading
      apply program
      have none : z.loading = [] := still.trans (again.trans (same.trans idle))
      have file := Host.resolve_mem_filePaths placed (congrArg Prod.fst read)
      rw [none]
      exact Host.stack_nil.push List.not_mem_nil file
  | load name => exact loadModule_bracketed m.host.admits_stack program name w here

end Step

namespace Machine
variable {m : Machine} {i : FrameId} {w : World}

/-- The world after the steps of a session, each of which may end in any way. -/
def session (m : Machine) (i : FrameId) (w : World) (steps : List Step) : World :=
  steps.foldl (fun w s => (s.run m i w).2) w

theorem session_idle (placed : ".." ∉ m.host.cwd) (idle : w.loading = []) (steps : List Step) :
    (m.session i w steps).loading = [] := by
  induction steps generalizing w with
  | nil => exact idle
  | cons s steps ih =>
    apply ih
    change (s.run m i w).2.loading = []
    rw [← s.watch_shows m i w, (s.watch_brackets placed idle).restored, idle]

end Machine

theorem eval_load_circular {cx : Context} {depth : Nat} {t : Token} {p : StrLit} {i : FrameId}
    {w : World} {goal : List String} (found : cx.host.Finds w.loading.head? p.value goal)
    (busy : ⟨.slash, goal⟩ ∈ w.loading) :
    eval cx (depth + 1) (.stmt (.load t p)) i w =
      (.ok (.err ("circular import: " ++ p.value)), w) := by
  have looked := Host.module?_eq_some_iff.mpr ⟨goal, rfl, found⟩
  exact Run.bind_ok (Run.loadModule_circular looked busy)

/-- In a session that starts while no file is being loaded, none is being loaded after any step,
and at each moment of a step those that are being loaded are files of the host, none of them twice.
Evaluation leaves them as it found them. The import of a file that is being loaded answers an error,
whichever spelling leads to the file. -/
theorem loading_bracketed (m : Machine) (placed : ".." ∉ m.host.cwd) (i : FrameId) (w : World)
    (idle : w.loading = []) :
    (∀ steps, (m.session i w steps).loading = [] ∧
      ∀ s : Step, (s.watch m i (m.session i w steps)).2 = s.run m i (m.session i w steps) ∧
        ∀ n ∈ (s.watch m i (m.session i w steps)).1, n.world.loading.Nodup ∧
          n.world.loading.length ≤ m.host.files.filePaths.length) ∧
      (∀ depth node j x, (eval m.context depth node j x).2.loading = x.loading) ∧
        ∀ depth t p j x goal, m.host.Finds x.loading.head? p.value goal →
          ⟨.slash, goal⟩ ∈ x.loading →
            eval m.context (depth + 1) (.stmt (.load t p)) j x =
              (.ok (.err ("circular import: " ++ p.value)), x) := by
  refine ⟨?_, ?_, ?_⟩
  · intro steps
    have still := m.session_idle (i := i) placed idle steps
    refine ⟨still, ?_⟩
    intro s
    refine ⟨s.watch_shows m i _, ?_⟩
    intro n member
    have stack := (s.watch_brackets placed still).moments n member
    exact ⟨stack.nodup, stack.length_le⟩
  · exact fun depth node j x => eval_loadsNothing m.context depth node j x
  · exact fun depth t p j x goal found busy => eval_load_circular found busy

def selfImport : Host :=
  ⟨⟨[(["a.tn"], .file "import \".//a\"".toUTF8)]⟩, [], ⟨none, none, none⟩⟩

theorem loading_bracketed_self_import :
    ((Machine.ofHost selfImport 5000).session globalFrame World.start [.load "a"]).loading = [] ∧
      (eval (Machine.ofHost selfImport 5000).context 1
        (.stmt (.load ⟨.importWord, "import"⟩ ⟨⟨.string, ".//a"⟩, ".//a"⟩)) globalFrame
        { World.start with loading := [⟨.slash, ["a.tn"]⟩] }).1 =
          .ok (.err "circular import: .//a") := by
  have placed : ".." ∉ (Machine.ofHost selfImport 5000).host.cwd := List.not_mem_nil
  have bracketed := loading_bracketed (.ofHost selfImport 5000) placed globalFrame World.start rfl
  refine ⟨(bracketed.1 [.load "a"]).1, ?_⟩
  obtain ⟨goal, same, finds⟩ := Host.module?_eq_some_iff.mp
    (show selfImport.module? (some ⟨.slash, ["a.tn"]⟩) ".//a" = .ok (some ⟨.slash, ["a.tn"]⟩)
      from rfl)
  cases same
  have refused := bracketed.2.2 0 ⟨.importWord, "import"⟩ ⟨⟨.string, ".//a"⟩, ".//a"⟩ globalFrame
    { World.start with loading := [⟨.slash, ["a.tn"]⟩] } ["a.tn"] finds (List.mem_singleton.mpr rfl)
  rw [refused]
  rfl

end TernLang
