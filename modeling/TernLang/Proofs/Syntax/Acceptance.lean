import TernLang.Proofs.Syntax.StatementCompleteness
import TernLang.Proofs.Syntax.StatementSoundness

/-!
A text is accepted if and only if it can be derived, and its tree is that of its only derivation.
-/
namespace TernLang

namespace Cursor

structure StandsBefore (c : Cursor) (ts : List Token) : Prop where
  current : c.current = ts.headD .eof
  ahead : c.ahead = ts.tail

theorem start_standsBefore (ts : List Token) : (start ts).StandsBefore ts := ⟨rfl, rfl⟩

theorem advance_standsBefore {c : Cursor} {ts : List Token} (h : c.ahead = ts) :
    c.advance.StandsBefore ts := by
  subst h
  exact ⟨rfl, rfl⟩

end Cursor

open Parse

theorem topLevel_cons {depth n : Nat} {c : Cursor} {s : Stmt} {ss : List Stmt} {mid : List Token}
    (starts : c.current.kind.StartsSentence) (first : (statement depth).Answers c s mid)
    (later : ∀ d : Cursor, d.StandsBefore mid →
      ∃ e, topLevel depth n d = (ss, e) ∧ e.errors = d.errors) :
    ∃ e, topLevel depth (n + 1) c = (s :: ss, e) ∧ e.errors = c.errors := by
  have more : c.current.kind ≠ .eof := fun same => by
    simp [same, Kind.StartsSentence, Kind.StartsExpr] at starts
  obtain ⟨d, run, ahead, same⟩ := first
  obtain ⟨e, rest, same'⟩ := later d.advance (Cursor.advance_standsBefore ahead)
  refine ⟨e, ?_, same'.trans same⟩
  rw [topLevel, if_neg more, run]
  simp only [rest, Option.toList_some, List.cons_append, List.nil_append]

theorem stops_nil (q : Nat) : Stops q [] := ⟨Nat.zero_le q, by decide⟩

theorem topLevel_complete {ss : List Stmt} {ts : List Token} {depth n : Nat} {c : Cursor}
    (h : Derives (.statements ss) ts) (deep : 4 * ts.length + 3 ≤ depth) (fuel : ts.length < n)
    (here : c.StandsBefore ts) : ∃ d, topLevel depth n c = (ss, d) ∧ d.errors = c.errors := by
  induction ss generalizing ts n c with
  | nil =>
    cases h with
    | noStatements =>
      obtain ⟨n, rfl⟩ := Nat.exists_eq_succ_of_ne_zero (Nat.pos_iff_ne_zero.mp fuel)
      have last : c.current.kind = .eof := by rw [here.current]; rfl
      exact ⟨c, by rw [topLevel, if_pos last], rfl⟩
  | cons s ss ih =>
    obtain ⟨n, rfl⟩ := Nat.exists_eq_succ_of_ne_zero (show n ≠ 0 by omega)
    cases h with
    | @closed _ _ ts us t first stop rest =>
      simp only [List.length_append, List.length_cons] at deep fuel
      obtain ⟨u, vs, rfl, starts⟩ := first.begins
      have stops := stops_at us stop rfl (by decide)
      have whole : c.current :: c.ahead = u :: vs ++ t :: us := by
        rw [here.current, here.ahead]
        rfl
      have read := accepts_of_derives first depth c (t :: us) (by omega) whole
        (stops.mono (Nat.zero_le 9)) fun _ => stops
      rw [afterStop, if_pos stop] at read
      refine topLevel_cons (by rw [here.current]; exact starts) read fun d before => ?_
      exact ih rest (by omega) (by omega) before
    | @joined _ _ ts us first rest apart =>
      simp only [List.length_append] at deep fuel
      obtain ⟨u, vs, rfl, starts⟩ := first.begins
      simp only [List.length_cons] at fuel
      have whole : c.current :: c.ahead = u :: vs ++ us := by
        rw [here.current, here.ahead]
        rfl
      have ends := stops_joined rest (stops_nil 0) apart
      have stops := stops_statements rest (stops_nil 0)
      have left := afterStop_statements rest (show afterStop [] = [] from rfl)
      rw [List.append_nil] at ends stops left
      have read := accepts_of_derives first depth c us (by omega) whole stops ends
      rw [left] at read
      refine topLevel_cons (by rw [here.current]; exact starts) read fun d before => ?_
      exact ih rest (by omega) (by omega) before

/-- What can be derived from the tokens of the text is what the parser answers. -/
theorem parse_complete {text : String} {p : Program} (h : p.DerivedFrom (tokens text.toList)) :
    (parse text).errors = [] ∧ (parse text).program = p := by
  have deep := le_parseDepth (tokens text.toList)
  have fuel : (tokens text.toList).length < parseDepth (tokens text.toList) := by omega
  obtain ⟨d, run, same⟩ :=
    topLevel_complete h deep fuel (Cursor.start_standsBefore (tokens text.toList))
  unfold parse parseTokens
  rw [run]
  exact ⟨same, rfl⟩

/-- The program that the parser answers can be derived from tokens that the lexer answers, and these
are the tokens of the text if nothing was refused. -/
theorem parse_sound (text : String) :
    ∃ ts, (parse text).program.DerivedFrom ts ∧ (∀ t ∈ ts, t.Lexed) ∧
      ((parse text).errors = [] → tokens text.toList = ts) := by
  have lexed := tokens_lexed text.toList
  have deep := le_parseDepth (tokens text.toList)
  have whole := Cursor.length_start_rest lexed
  rcases run : parseTokens (tokens text.toList) with ⟨ss, d⟩
  obtain ⟨-, -, -, ts, derived, known, clean⟩ := topLevel_sound (Cursor.start_lexed lexed)
    (by omega) (by omega) run
  refine ⟨ts, ?_, known, fun same => ?_⟩
  · unfold parse
    rw [run]
    exact derived
  · unfold parse at same
    rw [run] at same
    exact Cursor.start_rest lexed ▸ clean same

/-- The parser accepts exactly the texts that the grammar derives. Such a text has one derived
program, and this is the program that the parser answers. -/
theorem parse_iff_derived (text : String) :
    ((parse text).errors = [] ↔ ∃ p : Program, p.DerivedFrom (tokens text.toList)) ∧
      ∀ p : Program, p.DerivedFrom (tokens text.toList) ↔
        (parse text).errors = [] ∧ (parse text).program = p := by
  have sound (clean : (parse text).errors = []) :
      (parse text).program.DerivedFrom (tokens text.toList) := by
    obtain ⟨ts, derived, -, same⟩ := parse_sound text
    rw [same clean]
    exact derived
  constructor
  · constructor
    · exact fun clean => ⟨_, sound clean⟩
    · exact fun ⟨p, derived⟩ => (parse_complete derived).1
  · intro p
    constructor
    · exact parse_complete
    · rintro ⟨clean, rfl⟩
      exact sound clean

end TernLang
