import TernLang.Proofs.Eval.Inlining
import TernLang.Proofs.Eval.Piecewise
import TernLang.Proofs.Files.Walking
import TernLang.Proofs.Syntax.LineEnds

/-!
Running a file. A text that is stored in a file is read back with other line ends, which no parse
can tell unless a string holds a carriage return. Where nothing imports, running the file is
evaluating the text.
-/
namespace TernLang
open Text

theorem fileText?_toUTF8 (s : String) :
    fileText? s.toUTF8 = some (String.ofList (unifyNewlines s.toList)) := by
  have decoded : String.fromUTF8? s.toUTF8 = some s := dif_pos s.isValidUTF8
  rw [fileText?, decoded]
  rfl

theorem parse_unifyNewlines {s : String}
    (plain : ∀ t ∈ tokens s.toList, t.kind = .string → '\r' ∉ t.literal.toList) :
    parse (String.ofList (unifyNewlines s.toList)) = parse s := by
  apply parse_lineEnds _ plain
  rw [String.toList_ofList]
  exact lineEnds_unifyNewlines s.toList

namespace Host

/-- The path leads to a file with these bytes. -/
structure Holds (host : Host) (path : String) (bytes : ByteArray) : Prop where
  known : Path.hasNul ⟨.slash, host.cwd⟩ = false
  clear : (Path.of path).hasNul = false
  read : host.files.read host.cwd ((Path.of path).resolve host.cwd) = .ok bytes

theorem Holds.readText {host : Host} {path s : String} (holds : host.Holds path s.toUTF8) :
    host.readText ((Path.of path).resolve host.cwd) =
      .ok (String.ofList (unifyNewlines s.toList)) := by
  have clear := clear_resolve holds.known holds.clear
  simp only [Host.readText, clear, Bool.false_eq_true, if_false, holds.read, fileText?_toUTF8]

end Host

namespace Machine
variable {m : Machine} {i : FrameId} {w : World} {s text path : String}

theorem program_broken (broken : (parse text).errors ≠ []) (w : World) :
    program text w = (.error (.malformed (parse text).errors),
      Run.noted (.textRefused (parse text).errors.length) w) := by
  have refused : ¬ (parse text).errors.isEmpty := by simpa using broken
  unfold program
  rw [Run.bind_ok (Run.parse_refused refused w), if_neg refused]
  rfl

theorem runFile_read (holds : m.host.Holds path s.toUTF8) (i : FrameId) (w : World) :
    m.runFile i path w =
      (program (String.ofList (unifyNewlines s.toList)) >>= fun p =>
        Run.whileLoading ((Path.of path).resolve m.host.cwd) (m.evaluate (.program p) i))
        (Run.noted (.running ((Path.of path).resolve m.host.cwd)) w) := by
  unfold runFile
  simp only [holds.clear, Bool.false_eq_true, if_false, holds.readText]
  rfl

theorem runFile_sameEnd (holds : m.host.Holds path s.toUTF8)
    (plain : ∀ t ∈ tokens s.toList, t.kind = .string → '\r' ∉ t.literal.toList)
    (free : Node.ImportFree (.program (parse s).program)) (inert : w.store.ImportFree) :
    SameEnd (m.runFile i path w) (m.evalText i s w) := by
  have same := parse_unifyNewlines plain
  rw [runFile_read holds]
  by_cases clean : (parse s).errors = []
  · have clean' : (parse (String.ofList (unifyNewlines s.toList))).errors = [] := by
      rw [same]
      exact clean
    rw [evalText_clean_eq clean, Run.bind_ok (program_clean clean' _), same]
    obtain ⟨answer, store, output⟩ := eval_importFree m.context m.depth free i
      (w := { Run.noted (.running ((Path.of path).resolve m.host.cwd)) w with
        loading := (Path.of path).resolve m.host.cwd :: w.loading }) (x := w) inert rfl rfl
    exact ⟨answer, store, output⟩
  · have broken : (parse (String.ofList (unifyNewlines s.toList))).errors ≠ [] := by
      rw [same]
      exact clean
    unfold evalText
    rw [Run.bind_error (program_broken broken _), Run.bind_error (program_broken clean _), same]
    exact ⟨rfl, rfl, rfl⟩

end Machine

/-- Running a file is evaluating its text. A text without a carriage return in a string, stored in a
file, is read with a line feed for each of its line ends, and parsed as if it were read as it is. If
it has no import, a run of the file ends as the evaluation of the text does: with the same answer,
or halted for the same reason, with the same bindings and the same output. -/
theorem running_is_evaluating (s : String)
    (plain : ∀ t ∈ tokens s.toList, t.kind = .string → '\r' ∉ t.literal.toList) :
    (∃ text, fileText? s.toUTF8 = some text ∧ text.toList = unifyNewlines s.toList ∧
      parse text = parse s) ∧
      (Node.ImportFree (.program (parse s).program) → ∀ (m : Machine) (path : String),
        m.host.Holds path s.toUTF8 →
          SameEnd (m.runFile globalFrame path World.start)
            (m.evalText globalFrame s World.start)) := by
  constructor
  · exact ⟨_, fileText?_toUTF8 s, String.toList_ofList, parse_unifyNewlines plain⟩
  · intro free m path holds
    exact Machine.runFile_sameEnd holds plain free start_each

def mixedHost : Host :=
  ⟨⟨[(["m.tn"], .file "puts(7)\r\nreturn\r8\n".toUTF8)]⟩, [], ⟨none, none, none⟩⟩

def mixedMachine : Machine := ⟨⟨mixedHost, 1⟩, 5⟩

theorem tokens_mixed : tokens "puts(7)\r\nreturn\r8\n".toList =
    [⟨.ident, "puts"⟩, .symbol .lparen, ⟨.int, "7"⟩, .symbol .rparen, ⟨.returnWord, "return"⟩,
      ⟨.int, "8"⟩] := by
  decide +kernel

theorem parse_mixed : parse "puts(7)\r\nreturn\r8\n" = ⟨returningProgram, []⟩ := by
  unfold parse
  rw [tokens_mixed]
  rfl

theorem running_is_evaluating_mixed :
    mixedHost.Holds "m.tn" "puts(7)\r\nreturn\r8\n".toUTF8 ∧
      (mixedMachine.runFile globalFrame "m.tn" World.start).1 = .ok (.int 8) ∧
      (mixedMachine.runFile globalFrame "m.tn" World.start).2.output = "7\n" := by
  have holds : mixedHost.Holds "m.tn" "puts(7)\r\nreturn\r8\n".toUTF8 := ⟨rfl, rfl, rfl⟩
  have free : Node.ImportFree (.program (parse "puts(7)\r\nreturn\r8\n").program) := by
    rw [parse_mixed]
    exact returningProgram_importFree
  have plain : ∀ t ∈ tokens "puts(7)\r\nreturn\r8\n".toList,
      t.kind = .string → '\r' ∉ t.literal.toList := by
    rw [tokens_mixed]
    simp [Token.symbol]
  have ends := (running_is_evaluating _ plain).2 free mixedMachine "m.tn" holds
  have clean : (parse "puts(7)\r\nreturn\r8\n").errors = [] := by rw [parse_mixed]
  have direct : mixedMachine.evalText globalFrame "puts(7)\r\nreturn\r8\n" World.start =
      eval ⟨mixedHost, 1⟩ 5 (.program returningProgram) globalFrame World.start := by
    rw [Machine.evalText_clean_eq clean, parse_mixed]
    rfl
  rw [direct] at ends
  have answer : (eval ⟨mixedHost, 1⟩ 5 (.program returningProgram) globalFrame
      World.start).1 = .ok (.int 8) := by
    with_unfolding_all rfl
  have output : (eval ⟨mixedHost, 1⟩ 5 (.program returningProgram) globalFrame
      World.start).2.output = "7\n" := by
    with_unfolding_all rfl
  exact ⟨holds, ends.answer.trans answer, ends.output.trans output⟩

end TernLang
