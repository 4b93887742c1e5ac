import TernLang.Proofs.Syntax.RoundTrip

/-!
The statements of a program one by one. The printed text of each is a program of its own, which is
that statement again up to the tokens of expression statements.
-/
namespace TernLang

theorem Spells.tokens_eq {cs : List Char} {ts : List Token} (h : Spells cs ts) :
    tokens cs = ts := by
  have whole := h [] apart_nil
  have none : tokens [] = [] := by simp [tokens, Token.next?]
  rwa [List.append_nil, none, List.append_nil] at whole

theorem Derives.sentence_of_mem {ss : List Stmt} {ts : List Token}
    (h : Derives (.statements ss) ts) {s : Stmt} (member : s ∈ ss) :
    ∃ us, Derives (.sentence s) us ∧ us ⊆ ts := by
  induction ss generalizing ts with
  | nil => cases member
  | cons r ss ih =>
    cases h with
    | @closed _ _ ts us t first stop rest =>
      cases member with
      | head => exact ⟨ts, first, List.subset_append_left _ _⟩
      | tail _ later =>
        obtain ⟨vs, derived, inside⟩ := ih rest later
        refine ⟨vs, derived, ?_⟩
        intro u found
        exact List.mem_append_right _ (List.mem_cons_of_mem _ (inside found))
    | @joined _ _ ts us first rest apart =>
      cases member with
      | head => exact ⟨ts, first, List.subset_append_left _ _⟩
      | tail _ later =>
        obtain ⟨vs, derived, inside⟩ := ih rest later
        exact ⟨vs, derived, fun u found => List.mem_append_right _ (inside found)⟩

/-- The printed text of the statement is accepted, and is read as the statement alone. -/
structure Stmt.Rereads (s : Stmt) : Prop where
  clean : (parse s.text).errors = []
  same : ∃ q, (parse s.text).program = ⟨[q]⟩ ∧ q.unmarked = s.unmarked

theorem Derives.rereads {s : Stmt} {ts : List Token} (h : Derives (.sentence s) ts)
    (lexed : ∀ t ∈ ts, t.Lexed) : s.Rereads := by
  obtain ⟨q, us, again, spells, same⟩ := h.reprints lexed
  have alone : Program.DerivedFrom ⟨[q]⟩ (us ++ []) := .joined again .noStatements (by simp)
  rw [List.append_nil, ← spells.tokens_eq] at alone
  obtain ⟨clean, program⟩ := parse_complete alone
  exact ⟨clean, q, program, same⟩

/-- Each statement that the parser answers, whatever was wrong with the text around it. -/
theorem parse_statement_rereads (text : String) {s : Stmt}
    (member : s ∈ (parse text).program.statements) : s.Rereads := by
  obtain ⟨ts, derived, lexed, -⟩ := parse_sound text
  obtain ⟨us, sentence, inside⟩ := Derives.sentence_of_mem derived member
  exact sentence.rereads fun t found => lexed t (inside found)

end TernLang
