import TernLang.Proofs.Syntax.Readers

/-!
Refusals and errors. There is one error for each statement that was given up, wherever it stands,
and a text has no errors exactly if all statements that were attempted are in its tree.
-/
namespace TernLang
open Cursor

/-- What the attempts to read a statement of the text answered, nested ones included, in the order
in which they ended. -/
def attempts (text : String) : List (Option Stmt) := tries (traceTokens (tokens text.toList)).1

/-- How a parser reports. Errors are only added, at least one if nothing is answered, and none with
an answer for which no statement was given up. -/
structure Reader.Reports {α : Type} (r : Reader α) (n : Nat) (c : Cursor) : Prop where
  traced : (r.trace n c).2 = r.parse n c
  errors : c.errors <+: (r.parse n c).2.errors
  refused : (r.parse n c).1 = none → c.errors.length < (r.parse n c).2.errors.length
  clean : (r.parse n c).1 ≠ none → none ∉ tries (r.trace n c).1 →
    (r.parse n c).2.errors = c.errors

theorem Reader.Enters.reports {α : Type} {r : Reader α} {n : Nat} {c : Cursor}
    (enters : r.Enters n c) : r.Reports n c := by
  obtain ⟨ms, a, d, told⟩ := r.told n c
  refine ⟨?_, ?_, ?_, ?_⟩
  · rw [told.trace, told.parse]
  · rw [told.parse]
    exact told.account.errors
  · rw [told.parse]
    rintro rfl
    exact told.reported enters
  · rw [told.parse, told.trace]
    intro answered kept
    obtain ⟨x, rfl⟩ := Option.ne_none_iff_exists'.mp answered
    exact told.clean enters kept

/-- Every text is parsed with one error for each attempt to read a statement that answered nothing.
A parser that answers nothing has reported an error, and one that answers something has reported
none unless a statement was given up for it. So a text has no errors exactly if each statement that
was attempted is in the tree, and then the attempts are the statements of the tree one by one. -/
theorem one_error_for_each_refusal (text : String) :
    (traceTokens (tokens text.toList)).2 = parseTokens (tokens text.toList) ∧
      (parse text).errors.length = (attempts text).countP Option.isNone ∧
      (∀ {α : Type} (r : Reader α) (n : Nat) (c : Cursor), r.Enters n c → r.Reports n c) ∧
      ((parse text).errors = [] ↔
        ∀ a ∈ attempts text, ∃ s ∈ (parse text).program.sentences, a = some s) ∧
      ((parse text).errors = [] → attempts text = (parse text).program.sentences.map some) := by
  obtain ⟨ms, ss, d, trace, run, account, free, kept⟩ := told_text text
  have made : attempts text = tries ms := by rw [attempts, trace]
  have parsed : parse text = ⟨⟨ss⟩, d.errors⟩ := by
    unfold parse
    rw [run]
  have count : d.errors.length = (tries ms).countP Option.isNone := by
    have balance := account.refused
    rw [free] at balance
    exact balance.trans (Nat.zero_add _)
  have clean : d.errors = [] ↔ none ∉ tries ms := by
    rw [← List.length_eq_zero_iff, count, List.countP_eq_zero]
    constructor
    · exact fun none lost => none _ lost rfl
    · exact fun kept s member lost => kept (Option.isNone_iff_eq_none.mp lost ▸ member)
  have whole (none : d.errors = []) : tries ms = (sentencesOfStmts ss).map some :=
    kept.resolve_left (clean.mp none)
  rw [made, parsed, trace, run]
  refine ⟨rfl, count, fun r n c enters => enters.reports, ?_, whole⟩
  constructor
  · intro none a attempted
    rw [whole none] at attempted
    obtain ⟨s, member, same⟩ := List.mem_map.mp attempted
    exact ⟨s, member, same.symm⟩
  · intro all
    rw [clean]
    intro lost
    obtain ⟨s, -, same⟩ := all _ lost
    cases same

theorem one_error_for_each_refusal_let :
    (Reader.bindStatement.parse 7 (start (tokens "let x".toList))).1 = none ∧
      0 < (Reader.bindStatement.parse 7 (start (tokens "let x".toList))).2.errors.length ∧
      (attempts "let x").countP Option.isNone = 1 := by
  have read : tokens "let x".toList = [⟨.letWord, "let"⟩, ⟨.ident, "x"⟩] := by
    decide +kernel
  have enters : Reader.bindStatement.Enters 7 (start (tokens "let x".toList)) :=
    Reader.enters_start (by rw [read]; rfl) (by rw [read]; decide)
  obtain ⟨-, count, reports, -⟩ := one_error_for_each_refusal "let x"
  have refused : (Reader.bindStatement.parse 7 (start (tokens "let x".toList))).1 = none := by
    rw [read]
    rfl
  refine ⟨refused, (reports Reader.bindStatement 7 _ enters).refused refused, ?_⟩
  rw [← count, parse, parseTokens, read]
  decide +kernel

end TernLang
