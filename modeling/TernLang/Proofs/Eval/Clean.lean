import TernLang.Proofs.Eval.Keeps
import TernLang.Proofs.Value.Data

/-!
Clean runs. From a store of data such a run leaves a store of data, and no operation that refuses a
control value is given one: names are bound to data, and calls take data and answer data or an
error.
-/
namespace TernLang

/-- From a store of data the run leaves one, however it ends, and raises no type error. -/
abbrev Run.Clean {α : Type} (P : α → Prop) (r : Run α) : Prop :=
  r.Keeps Store.Data P fun h => ¬ h.IsTypeError

theorem clean_assign {i : FrameId} {name : String} {v : Value} (value : v.Data) :
    (Run.assign i name v).Clean fun _ => True := by
  apply Run.keeps_assign
  · exact fun _ s holds => holds.bind i name value
  · intro control
    rw [value.isControl] at control
    cases control

theorem clean_newFrame (outer : Option FrameId) : (Run.newFrame outer).Clean fun _ => True :=
  Run.keeps_newFrame fun _ holds => holds.newFrame outer

theorem key_of_isKey {v : Value} (h : v.isKey = true) : ∃ k, v.key = .ok k := by
  unfold Value.key
  cases found : v.key? with
  | none => simp [Value.isKey, found] at h
  | some k => exact ⟨k, rfl⟩

/-- However the run ends in this world, it leaves a store of data and raises no type error; what it
answers, if anything, has the property. -/
structure Run.EndsClean (r : Run Value) (w : World) (P : Value → Prop) : Prop where
  store : (r w).2.store.Data
  answer : ∀ v, (r w).1 = .ok v → P v
  noTypeError : ∀ h, (r w).1 = .error h → ¬ h.IsTypeError

theorem Run.Keeps.endsClean {P : Value → Prop} {r : Run Value} {w : World} (h : r.Clean P)
    (clean : w.store.Data) : r.EndsClean w P where
  store := h.store clean
  answer _ answered := (h.ok (x := (r w).2) clean (Prod.ext answered rfl)).2
  noTypeError _ halted := (h.error (x := (r w).2) clean (Prod.ext halted rfl)).2

def Evaluator.Clean (rec : Evaluator) : Prop := ∀ node i, (rec node i).Clean Value.Answer

namespace Eval
variable {rec : Evaluator}

theorem ident_clean (name : String) (i : FrameId) : (ident name i).Clean Value.Outcome :=
  keeps_ident (fun _ _ holds found => .data (holds.get found)) (fun b => .data (.builtin b)) .fail

theorem callFrame_clean (ps : List Ident) (home : FrameId) {args : List Value}
    (h : ∀ v ∈ args, v.Data) : (callFrame ps home args).Clean fun _ => True :=
  keeps_callFrame (clean_newFrame _) fun v member _ _ => clean_assign (h v member)

/-- A call answers data or an error, whatever is called. -/
theorem apply_clean (h : rec.Clean) (f : Value) {args : List Value} (data : ∀ v ∈ args, v.Data) :
    (apply rec f args).Clean Value.Outcome := by
  unfold apply
  split
  · split
    · rename_i ps b home _
      apply (callFrame_clean ps home data).bind
      intro j _
      apply (h (.block b) j).bind
      exact fun v known => Run.keeps_pure known.landed
    · exact Run.keeps_pure (.fail _)
  · rename_i b
    apply (Run.keeps_write _).bind
    exact fun _ _ => Run.keeps_pure (b.result_outcome data)
  · exact Run.keeps_pure (.fail _)

end Eval

end TernLang
