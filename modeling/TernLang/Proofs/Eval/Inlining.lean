import TernLang.Proofs.Eval.Importing
import TernLang.Proofs.Eval.Limits
import TernLang.Proofs.Eval.Selfsame

/-!
Importing is inlining. Where nothing else imports, a run depends neither on the files that are being
loaded nor on messages, so the import of a module does what the module's program does in its place.
An import that cannot be carried out answers an error and changes nothing.
-/
namespace TernLang

def Node.IsLoad : Node → Prop
  | .stmt (.load _ _) => True
  | _ => False

/-- No import is written in the node, nor in a function in it. -/
def Node.ImportFree (n : Node) : Prop := n.Throughout fun p => ¬ p.IsLoad

def Value.Inert : Value → Prop
  | .fn _ b _ => (Node.block b).ImportFree
  | _ => True

/-- No function that is bound or stored in what is bound may import. -/
def Store.ImportFree (s : Store) : Prop := s.Each fun v => v.Throughout Value.Inert

/-- Two ends of runs that answer or halt alike, with the same bindings and the same output. -/
structure SameEnd (e f : Except Halt Value × World) : Prop where
  answer : e.1 = f.1
  store : e.2.store = f.2.store
  output : e.2.output = f.2.output

theorem eval_importFree (cx : Context) (depth : Nat) {node : Node} (free : node.ImportFree)
    (i : FrameId) {w x : World} (inert : w.store.ImportFree) (store : w.store = x.store)
    (output : w.output = x.output) : SameEnd (eval cx depth node i w) (eval cx depth node i x) := by
  have functions : ∀ ps b home, Value.Inert (.fn ps b home) →
      Node.ImportFree (.expr (.fn .eof ps b)) := fun ps b home => Node.throughout_one id rfl
  obtain ⟨answer, written, bound⟩ := Likeness.eval_only (fun _ _ none => none trivial)
    (Likeness.stores_frames _) cx depth free i (store ▸ Likeness.frames_self functions inert) output
  exact ⟨answer, bound.eq, written⟩

/-- What an import answers when the module's program answers this. -/
def Value.imported (v : Value) : Value := if v.isError then v else .null

/-- The import of a module ends as its program does, but for what it answers, and leaves the files
that are being loaded as they were in the world it started from. -/
structure Inlines (w : World) (imported direct : Except Halt Value × World) : Prop where
  answer : imported.1 = direct.1.map Value.imported
  store : imported.2.store = direct.2.store
  output : imported.2.output = direct.2.output
  loading : imported.2.loading = w.loading

namespace Host

/-- The name leads to a file that is not being loaded yet, and the text in it is a program. -/
structure Opens (host : Host) (files : List Path) (name : String) (path : Path) (text : String) :
    Prop where
  found : host.module? files.head? name = .ok (some path)
  fresh : path ∉ files
  read : host.readText path = .ok text
  clean : (parse text).errors = []

inductive Refuses (host : Host) (files : List Path) (name : String) : Failure → Prop where
  | missing (found : host.module? files.head? name = .ok none) :
    Refuses host files name (.moduleNotFound name)
  | circular {path : Path} (found : host.module? files.head? name = .ok (some path))
    (busy : path ∈ files) : Refuses host files name (.circularImport name)
  | unreadable {path file : Path} {why : Unreadable}
    (found : host.module? files.head? name = .ok (some path)) (fresh : path ∉ files)
    (read : host.readText path = .error (.unreadable file why)) :
    Refuses host files name (.moduleUnreadable file why)
  | malformed {path : Path} {text : String}
    (found : host.module? files.head? name = .ok (some path)) (fresh : path ∉ files)
    (read : host.readText path = .ok text) (broken : (parse text).errors ≠ []) :
    Refuses host files name (.moduleMalformed name (parse text).errors)

end Host

section
variable {cx : Context} {depth : Nat} {t : Token} {p : StrLit} {i : FrameId} {w : World}

theorem eval_load_run :
    eval cx (depth + 1) (.stmt (.load t p)) i w =
      ((Run.loadModule cx.host (fun q => eval cx depth (.program q) i) p.value w).1.map
          Value.imported,
        (Run.loadModule cx.host (fun q => eval cx depth (.program q) i) p.value w).2) := by
  change (Run.loadModule cx.host (fun q => eval cx depth (.program q) i) p.value >>= fun v =>
    if v.isError then pure v else pure .null : Run Value) w = _
  rcases run : Run.loadModule cx.host (fun q => eval cx depth (.program q) i) p.value w with
    ⟨h | v, x⟩
  · rw [Run.bind_error run]
    rfl
  · rw [Run.bind_ok run]
    cases failed : v.isError with
    | true => simp [Except.map, Value.imported, failed, pure, Run.pure]
    | false => simp [Except.map, Value.imported, failed, pure, Run.pure]

/-- An import and the module's program, one level of nesting further out. -/
theorem load_inlines {path : Path} {text : String}
    (opens : cx.host.Opens w.loading p.value path text)
    (free : Node.ImportFree (.program (parse text).program)) (inert : w.store.ImportFree) :
    Inlines w (eval cx (depth + 1) (.stmt (.load t p)) i w)
      (eval cx depth (.program (parse text).program) i w) := by
  obtain ⟨found, fresh, read, clean⟩ := opens
  have same := eval_importFree cx depth free i (w := Run.opened p.value path w) (x := w) inert rfl
    rfl
  have run : Run.loadModule cx.host (fun q => eval cx depth (.program q) i) p.value w =
      Run.whileLoading path (eval cx depth (.program (parse text).program) i)
        (Run.noted (.moduleLoading p.value path) w) := by
    rw [Run.loadModule_found found fresh, read]
    exact if_pos (List.isEmpty_iff.mpr clean)
  rw [eval_load_run, run]
  constructor
  · exact congrArg (Except.map Value.imported) same.answer
  · exact same.store
  · exact same.output
  · have kept := eval_loadsNothing cx depth (.program (parse text).program) i
    exact congrArg List.tail (kept (Run.opened p.value path w))

theorem load_refused {failure : Failure} (refuses : cx.host.Refuses w.loading p.value failure) :
    ∃ log, eval cx (depth + 1) (.stmt (.load t p)) i w =
      (.ok (.fail failure), { w with log := log }) := by
  rw [eval_load_run]
  cases refuses with
  | missing found =>
    rw [Run.loadModule_missing found]
    exact ⟨w.log, rfl⟩
  | circular found busy =>
    rw [Run.loadModule_circular found busy]
    exact ⟨w.log, rfl⟩
  | unreadable found fresh read =>
    rw [Run.loadModule_found found fresh, read]
    exact ⟨_, rfl⟩
  | malformed found fresh read broken =>
    rw [Run.loadModule_found found fresh, read]
    simp only [List.isEmpty_iff, broken, if_false]
    exact ⟨_, rfl⟩

end

/-- Importing is inlining. If neither the program of a module nor any function in the store imports,
the import of the module writes what the program writes in its place, leaves the same frames, halts
for the same reason, and answers the error that the program answers or else null; the files that are
being loaded stay as they were. An import takes one level of nesting, so the program may nest as
deep as within the import, or deeper if that did not nest too deep. An import that is refused
answers why and changes neither bindings nor output nor the files that are being loaded. -/
theorem import_inlines (cx : Context) (depth : Nat) (t : Token) (p : StrLit) (i : FrameId)
    (w : World) :
    (∀ path text, cx.host.Opens w.loading p.value path text →
      Node.ImportFree (.program (parse text).program) → w.store.ImportFree →
      ∀ deeper, depth ≤ deeper →
        (depth < deeper → (eval cx (depth + 1) (.stmt (.load t p)) i w).1 ≠ .error .tooDeep) →
          Inlines w (eval cx (depth + 1) (.stmt (.load t p)) i w)
            (eval cx deeper (.program (parse text).program) i w)) ∧
      ∀ failure, cx.host.Refuses w.loading p.value failure →
        ∃ log, eval cx (depth + 1) (.stmt (.load t p)) i w =
          (.ok (.fail failure), { w with log := log }) := by
  constructor
  · intro path text opens free inert deeper deep room
    have inlines : Inlines w (eval cx (depth + 1) (.stmt (.load t p)) i w)
      (eval cx depth (.program (parse text).program) i w) := load_inlines opens free inert
    rcases Nat.eq_or_lt_of_le deep with rfl | less
    · exact inlines
    · -- The import is one level further in, so it may nest too deep where the program does not.
      have follows : Run.Follows (Eq .tooDeep) (eval cx depth (.program (parse text).program) i)
        (eval cx deeper (.program (parse text).program) i) := eval_deeper deep cx.rounds _ i
      rcases follows.ends w with same | cut
      · rw [← same]
        exact inlines
      · obtain ⟨h, halted, rfl⟩ := cut.halt
        have nested := inlines.answer
        rw [halted] at nested
        exact absurd nested (room less)
  · exact fun failure refuses => load_refused refuses

def returningModule : Host :=
  ⟨⟨[(["m.tn"], .file "puts(7) return 8".toUTF8)]⟩, [], ⟨none, none, none⟩⟩

def returningProgram : Program :=
  ⟨[.expr ⟨.ident, "puts"⟩ (.call (.symbol .lparen) (.ident ⟨⟨.ident, "puts"⟩, "puts"⟩)
      [.int ⟨⟨.int, "7"⟩, 7⟩]),
    .ret ⟨.returnWord, "return"⟩ (.int ⟨⟨.int, "8"⟩, 8⟩)]⟩

theorem returningProgram_importFree : Node.ImportFree (.program returningProgram) := by
  apply Node.throughout_two id rfl
  · apply Node.throughout_one id rfl
    exact Node.throughout_two id rfl (Node.throughout_leaf id rfl) (Node.throughout_leaf id rfl)
  · apply Node.throughout_one id rfl
    exact Node.throughout_leaf id rfl

theorem parse_returning : parse "puts(7) return 8" = ⟨returningProgram, []⟩ := by
  have read : tokens "puts(7) return 8".toList = [⟨.ident, "puts"⟩, .symbol .lparen, ⟨.int, "7"⟩,
      .symbol .rparen, ⟨.returnWord, "return"⟩, ⟨.int, "8"⟩] := by
    decide +kernel
  unfold parse
  rw [read]
  rfl

theorem import_inlines_return :
    Host.Opens returningModule [] "m" ⟨.slash, ["m.tn"]⟩ "puts(7) return 8" ∧
      Node.ImportFree (.program (parse "puts(7) return 8").program) ∧
      World.start.store.ImportFree ∧
      (eval ⟨returningModule, 1⟩ 5 (.stmt (.load ⟨.importWord, "import"⟩ ⟨⟨.string, "m"⟩, "m"⟩))
        globalFrame World.start).1 = .ok .null := by
  have opens : Host.Opens returningModule [] "m" ⟨.slash, ["m.tn"]⟩ "puts(7) return 8" := by
    constructor
    · rfl
    · exact List.not_mem_nil
    · rfl
    · rw [parse_returning]
  have free : Node.ImportFree (.program (parse "puts(7) return 8").program) := by
    rw [parse_returning]
    exact returningProgram_importFree
  have inlines := (import_inlines ⟨returningModule, 1⟩ 4 ⟨.importWord, "import"⟩
    ⟨⟨.string, "m"⟩, "m"⟩ globalFrame World.start).1 _ _ opens free start_each 4
    (Nat.le_refl _) nofun
  have direct : (eval ⟨returningModule, 1⟩ 4 (.program returningProgram) globalFrame
    World.start).1 = .ok (.int 8) := by
    with_unfolding_all rfl
  rw [parse_returning] at inlines
  refine ⟨opens, free, start_each, ?_⟩
  rw [inlines.answer, direct]
  rfl

end TernLang
