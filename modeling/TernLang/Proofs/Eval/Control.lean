import TernLang.Proofs.Eval.Lexical

/-!
Control values are never stored. From a store of data every run leaves a store of data, and no
operation that refuses a control value is ever given one.
-/
namespace TernLang

/-- What a node may answer: a program has no return and no break left. -/
def Node.Result : Node → Value → Prop
  | .program _ => Value.Outcome
  | _ => Value.Answer

theorem Node.Gives.result {node : Node} {v : Value} (h : node.Gives v) : node.Result v := by
  cases node with
  | program => exact h
  | block | stmt | expr => exact Node.Answers.answer h

namespace Machine
variable (m : Machine)

theorem evaluate_result (node : Node) (i : FrameId) : (m.evaluate node i).Clean node.Result :=
  (eval_lexical m.context m.depth node i).mono (fun _ => Node.Gives.result) fun _ => id

theorem evalText_clean (i : FrameId) (text : String) : (m.evalText i text).Clean Value.Outcome := by
  unfold evalText program
  apply Run.Keeps.bind (P := fun _ => True)
  · apply (Run.keeps_parse text).bind
    intro parsed _
    split
    · exact Run.keeps_pure trivial
    · exact Run.keeps_halt id
  · exact fun p _ => m.evaluate_result (.program p) i

end Machine

/-- In a store of data, evaluation, application to data and whole texts leave a store of data
however they end. Nodes answer data, a return of data, a break or an error; programs, calls and
texts answer data or an error. -/
theorem control_never_stored (m : Machine) (w : World) (clean : w.store.Data) :
    (∀ node i, (m.evaluate node i).EndsClean w node.Result) ∧
      (∀ f args, (∀ v ∈ args, v.Data) → (m.apply f args).EndsClean w Value.Outcome) ∧
        ∀ i text, (m.evalText i text).EndsClean w Value.Outcome := by
  refine ⟨?_, ?_, ?_⟩
  · exact fun node i => (m.evaluate_result node i).endsClean clean
  · have parts : Evaluator.Clean m.evaluate := (eval_lexical m.context m.depth).clean
    exact fun f args data => (Eval.apply_clean parts f data).endsClean clean
  · exact fun i text => (m.evalText_clean i text).endsClean clean

theorem control_never_stored_array :
    (⟨#[⟨[("xs", .array [.int 1, .str "a"])], none⟩]⟩ : Store).Data ∧
      ((Machine.ofHost default 5000).evalText globalFrame "xs[0]").EndsClean
        ⟨⟨#[⟨[("xs", .array [.int 1, .str "a"])], none⟩]⟩, "", [], []⟩ Value.Outcome := by
  have clean : (⟨#[⟨[("xs", .array [.int 1, .str "a"])], none⟩]⟩ : Store).Data := by
    refine Store.Each.single (List.forall_mem_singleton.mpr ?_)
    apply Value.Data.array
    exact List.forall_mem_cons.mpr ⟨.int 1, List.forall_mem_singleton.mpr (.str "a")⟩
  exact ⟨clean, (control_never_stored _ ⟨_, "", [], []⟩ clean).2.2 globalFrame "xs[0]"⟩

end TernLang
