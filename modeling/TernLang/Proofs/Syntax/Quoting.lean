import Mathlib.Algebra.Group.Nat.Even
import Mathlib.Data.List.DropRight
import TernLang.Proofs.Syntax.Lexing

/-!
Where strings end. Reading a string, a backslash takes the character after it along, so backslashes
are used up in pairs, and a quote ends the string if those right before it leave none over. This can
be told from the text around the quote alone, however long the string is.
-/
namespace TernLang

def backslashes (text : List Char) : Nat := (text.rtakeWhile (· = '\\')).length

/-- At this position of the text behind an opening quote is a quote that no backslash protects. -/
def Unprotected (text : List Char) (k : Nat) : Prop :=
  text[k]? = some '"' ∧ Even (backslashes (text.take k))

theorem backslashes_concat (text : List Char) (c : Char) :
    backslashes (text ++ [c]) = if c = '\\' then backslashes text + 1 else 0 := by
  unfold backslashes
  rw [List.rtakeWhile_concat]
  split <;> simp_all

theorem backslashes_cons {c : Char} (plain : c ≠ '\\') (text : List Char) :
    backslashes (c :: text) = backslashes text := by
  induction text using List.reverseRecOn with
  | nil => simp [backslashes, List.rtakeWhile, plain]
  | append_singleton text d ih =>
    rw [← List.cons_append, backslashes_concat, backslashes_concat, ih]

theorem even_backslashes_pair (c : Char) (text : List Char) :
    Even (backslashes ('\\' :: c :: text)) ↔ Even (backslashes text) := by
  induction text using List.reverseRecOn with
  | nil =>
    by_cases escape : c = '\\'
    · subst escape
      decide
    · simp [backslashes, List.rtakeWhile, escape]
  | append_singleton text d ih =>
    rw [← List.cons_append, ← List.cons_append, backslashes_concat, backslashes_concat]
    split
    · rw [Nat.even_add_one, Nat.even_add_one, ih]
    · rfl

section
variable {c : Char} {text : List Char} {k : Nat}

theorem not_unprotected_nil : ¬ Unprotected [] k := by
  rintro ⟨quote, -⟩
  cases quote

theorem unprotected_quote (text : List Char) : Unprotected ('"' :: text) 0 := by
  have none : Even (backslashes []) := by decide
  exact ⟨rfl, none⟩

theorem not_unprotected_zero (other : c ≠ '"') : ¬ Unprotected (c :: text) 0 := by
  rintro ⟨quote, -⟩
  exact other (Option.some.inj quote)

theorem unprotected_cons (quote : c ≠ '"') (plain : c ≠ '\\') :
    Unprotected (c :: text) k ↔ ∃ j, k = j + 1 ∧ Unprotected text j := by
  cases k with
  | zero => simpa using not_unprotected_zero quote
  | succ k =>
    unfold Unprotected
    rw [List.getElem?_cons_succ, List.take_succ_cons, backslashes_cons plain]
    simp

theorem unprotected_pair :
    Unprotected ('\\' :: c :: text) k ↔ ∃ j, k = j + 2 ∧ Unprotected text j := by
  obtain _ | _ | k := k
  · simpa using not_unprotected_zero (by decide)
  · have one : ¬ Even (backslashes ['\\']) := by decide
    have protect : ¬ Unprotected ('\\' :: c :: text) 1 := fun unprotected => one unprotected.2
    simpa using protect
  · unfold Unprotected
    rw [List.getElem?_cons_succ, List.getElem?_cons_succ, List.take_succ_cons, List.take_succ_cons,
      even_backslashes_pair]
    simp

end

/-- A string that is closed ends at the first unprotected quote. -/
theorem stringBody?_first {text body after : List Char}
    (h : stringBody? text = some (body, after)) :
    Unprotected text body.length ∧ ∀ j < body.length, ¬ Unprotected text j := by
  fun_induction stringBody? text generalizing body after with
  | case1 => cases h
  | case2 text =>
    cases h
    exact ⟨unprotected_quote text, fun j less => absurd less (Nat.not_lt_zero j)⟩
  | case3 c text ih =>
    obtain ⟨⟨inner, last⟩, found, same⟩ := Option.map_eq_some_iff.mp h
    cases same
    obtain ⟨here, before⟩ := ih found
    refine ⟨unprotected_pair.mpr ⟨_, rfl, here⟩, ?_⟩
    intro j less unprotected
    obtain ⟨i, rfl, later⟩ := unprotected_pair.mp unprotected
    exact before i (Nat.lt_of_add_lt_add_right less) later
  | case4 c text quote escape ih =>
    obtain ⟨⟨inner, last⟩, found, same⟩ := Option.map_eq_some_iff.mp h
    cases same
    have plain := not_escape_of_body escape found
    obtain ⟨here, before⟩ := ih found
    refine ⟨(unprotected_cons quote plain).mpr ⟨_, rfl, here⟩, ?_⟩
    intro j less unprotected
    obtain ⟨i, rfl, later⟩ := (unprotected_cons quote plain).mp unprotected
    exact before i (Nat.lt_of_succ_lt_succ less) later

theorem not_unprotected_of_none {text : List Char} (h : stringBody? text = none) (k : Nat) :
    ¬ Unprotected text k := by
  fun_induction stringBody? text generalizing k with
  | case1 => exact not_unprotected_nil
  | case2 text => cases h
  | case3 c text ih =>
    intro unprotected
    obtain ⟨j, -, later⟩ := unprotected_pair.mp unprotected
    exact ih (Option.map_eq_none_iff.mp h) j later
  | case4 c text quote escape ih =>
    by_cases backslash : c = '\\'
    · -- A backslash with nothing after it.
      cases text with
      | nil =>
        cases k with
        | zero => exact not_unprotected_zero quote
        | succ k =>
          rintro ⟨ended, -⟩
          cases ended
      | cons d text => exact (escape d text backslash rfl).elim
    · intro unprotected
      obtain ⟨j, -, later⟩ := (unprotected_cons quote backslash).mp unprotected
      exact ih (Option.map_eq_none_iff.mp h) j later

/-- Reading that starts at the first position passes over blanks to a quote at the second. -/
structure OpensAt (source : List Char) (start q : Nat) : Prop where
  reached : start ≤ q
  blank : ∀ c ∈ (source.take q).drop start, isBlank c
  quote : source[q]? = some '"'

/-- A later position with a quote in front of which the backslashes, counted back no further than to
the opening quote, come in pairs. -/
def ClosesAt (source : List Char) (q k : Nat) : Prop :=
  q < k ∧ source[k]? = some '"' ∧ Even (backslashes ((source.take k).drop (q + 1)))

instance (source : List Char) (q k : Nat) : Decidable (ClosesAt source q k) :=
  inferInstanceAs (Decidable (_ ∧ _ ∧ _))

section
variable {source : List Char} {start q k : Nat}

theorem closesAt_iff {j : Nat} :
    ClosesAt source q (q + 1 + j) ↔ Unprotected (source.drop (q + 1)) j := by
  unfold ClosesAt Unprotected
  rw [List.getElem?_drop, List.drop_take, Nat.add_sub_cancel_left]
  exact and_iff_right (by omega)

theorem ClosesAt.exists_offset (h : ClosesAt source q k) : ∃ j, k = q + 1 + j :=
  Nat.exists_eq_add_of_le h.1

theorem OpensAt.drop_quote (h : OpensAt source start q) :
    source.drop q = '"' :: source.drop (q + 1) := by
  obtain ⟨inside, quote⟩ := List.getElem?_eq_some_iff.mp h.quote
  rw [← quote, ← List.drop_eq_getElem_cons inside]

theorem OpensAt.drop_start (h : OpensAt source start q) :
    source.drop start = (source.take q).drop start ++ '"' :: source.drop (q + 1) := by
  have whole := List.take_append_drop (q - start) (source.drop start)
  rw [List.drop_drop, Nat.add_sub_cancel' h.reached, h.drop_quote] at whole
  rw [List.drop_take, whole]

theorem OpensAt.next? (h : OpensAt source start q) :
    Token.next? (source.drop start) = some (Token.quoted (source.drop (q + 1))) := by
  rw [h.drop_start, Token.next?_behind_blanks h.blank, Token.next?_of_starting (by decide)]
  rfl

end

/-- Strings end at the first unprotected quote. What is between the quotes is the literal as it is,
and reading goes on behind the second; if there is none, all that is left is one illegal token. -/
theorem string_ends_at_first_quote (source : List Char) (start q : Nat)
    (opens : OpensAt source start q) :
    (∀ k, ClosesAt source q k → (∀ j < k, ¬ ClosesAt source q j) →
      Token.next? (source.drop start) =
        some (⟨.string, String.ofList ((source.take k).drop (q + 1))⟩, source.drop (k + 1))) ∧
      ((∀ k, ¬ ClosesAt source q k) →
        Token.next? (source.drop start) =
          some (⟨.illegal, String.ofList (source.drop q)⟩, []) ∧
            Token.call 1 (source.drop start) = .eof) := by
  constructor
  · intro k closes first
    obtain ⟨j, rfl⟩ := closes.exists_offset
    have unprotected := closesAt_iff.mp closes
    cases read : stringBody? (source.drop (q + 1)) with
    | none => exact absurd unprotected (not_unprotected_of_none read j)
    | some parts =>
      obtain ⟨body, after⟩ := parts
      obtain ⟨here, before⟩ := stringBody?_first read
      have split := stringBody?_split read
      have same : j = body.length := by
        rcases Nat.lt_trichotomy j body.length with less | same | more
        · exact absurd unprotected (before j less)
        · exact same
        · exact absurd (closesAt_iff.mpr here) (first _ (Nat.add_lt_add_left more _))
      have literal : (source.take (q + 1 + j)).drop (q + 1) = body := by
        rw [List.drop_take, Nat.add_sub_cancel_left, split, same, List.take_left]
      have left : source.drop (q + 1 + j + 1) = after := by
        rw [Nat.add_assoc, ← List.drop_drop, split, same, ← List.drop_drop, List.drop_left]
        rfl
      rw [opens.next?, literal, left, Token.quoted, read]
  · intro unclosed
    have read : stringBody? (source.drop (q + 1)) = none := by
      cases read : stringBody? (source.drop (q + 1)) with
      | none => rfl
      | some parts => exact absurd (closesAt_iff.mpr (stringBody?_first read).1) (unclosed _)
    have illegal : Token.next? (source.drop start) =
        some (⟨.illegal, String.ofList (source.drop q)⟩, []) := by
      rw [opens.next?, opens.drop_quote, Token.quoted, read]
    refine ⟨illegal, ?_⟩
    rw [Token.call_tokens, tokens_of_next? illegal, Token.tokens_of_none rfl]
    rfl

def protectedQuote : List Char := ['\t', '"', '\\', '\\', '\\', '"', 'x', '"', ';']

theorem string_ends_at_first_quote_protected :
    OpensAt protectedQuote 0 1 ∧ ClosesAt protectedQuote 1 7 ∧
      (∀ j < 7, ¬ ClosesAt protectedQuote 1 j) ∧
      Token.next? protectedQuote =
        some (⟨.string, String.ofList ['\\', '\\', '\\', '"', 'x']⟩, [';']) := by
  have opens : OpensAt protectedQuote 0 1 := ⟨by decide, by simp [protectedQuote, isBlank], rfl⟩
  have closes : ClosesAt protectedQuote 1 7 := by decide
  have first : ∀ j < 7, ¬ ClosesAt protectedQuote 1 j := by decide
  exact ⟨opens, closes, first, (string_ends_at_first_quote _ 0 1 opens).1 7 closes first⟩

end TernLang
