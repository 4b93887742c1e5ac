import TernLang.Proofs.Syntax.Lexing

/-!
Writing tokens down. Any tokens that can be read, in any order, are read again from their spellings
if there is a blank between any two of them, and it does not matter which blanks and how many.
-/
namespace TernLang

/-- There is a text that has this token in it. -/
def Token.Produced (t : Token) : Prop := ∃ text, t ∈ tokens text

def Spaced (rest : List Char) : Prop := ∀ c ∈ rest.head?, isBlank c

theorem not_continuesWord_of_blank {c : Char} (blank : isBlank c) : continuesWord c = false := by
  cases word : continuesWord c with
  | false => rfl
  | true =>
    have visible := (not_blank_of_word word).1
    rw [blank] at visible
    cases visible

theorem ofPair?_of_blank {c d : Char} (blank : isBlank d) : Kind.ofPair? c d = none := by
  unfold Kind.ofPair?
  split
  case h_7 => rfl
  all_goals exact absurd blank (by decide)

namespace Spaced
variable {gap rest : List Char}

theorem apart (h : Spaced rest) : Apart rest := by
  intro c first
  have blank := h c first
  refine ⟨not_continuesWord_of_blank blank, ?_⟩
  rintro rfl
  exact absurd blank (by decide)

theorem of_blank (blank : ∀ c ∈ rest, isBlank c) : Spaced rest :=
  fun c first => blank c (List.mem_of_head? first)

theorem append (blank : ∀ c ∈ gap, isBlank c) (nonempty : gap ≠ []) : Spaced (gap ++ rest) := by
  cases gap with
  | nil => exact absurd rfl nonempty
  | cons d gap =>
    intro c first
    cases first
    exact blank d List.mem_cons_self

end Spaced

namespace Token
variable {t : Token} {rest : List Char}

theorem spelling_of_illegal (s : String) : (⟨.illegal, s⟩ : Token).spelling = s := rfl

namespace Produced

theorem exists_next? (h : t.Produced) : ∃ text rest, next? text = some (t, rest) := by
  obtain ⟨_, member⟩ := h
  exact exists_next?_of_mem member

theorem exists_stands (h : t.Produced) : ∃ rest, t.Stands rest := by
  obtain ⟨_, rest, next⟩ := h.exists_next?
  obtain ⟨-, -, -, stands⟩ := next?_reads next
  exact ⟨rest, stands⟩

theorem visible (h : t.Produced) : ∀ c ∈ t.spelling.toList.head?, isBlank c = false := by
  intro c first
  obtain ⟨text, rest, next⟩ := h.exists_next?
  unfold next? at next
  split at next
  · cases next
  · rename_i d others cut
    have read := starting_reads d others
    rw [Option.some.inj next, ← cut] at read
    apply dropWhile_stop isBlank text
    rw [read.spelled, List.head?_append, Option.mem_def.mp first]
    rfl

theorem read_open (h : t.Produced) (unclosed : t.OpenString) : tokens t.spelling.toList = [t] := by
  obtain ⟨rest, stands⟩ := h.exists_stands
  obtain ⟨body, none, -, rfl⟩ | ⟨c, ⟨-, quote, -, -⟩, -, rfl⟩ := stands.illegal_cases unclosed.1
  · have next : next? ('"' :: body) = some (⟨.illegal, String.ofList ('"' :: body)⟩, []) := by
      rw [next?_of_starting (by decide)]
      simp [starting, quoted, none]
    rw [spelling_of_illegal, String.toList_ofList, tokens_of_next? next, tokens_of_none rfl]
  · have first := unclosed.2
    rw [String.toList_ofList] at first
    exact absurd (Option.some.inj first) quote

/-- A token is read again in front of a blank, unless it is a string that is not closed. -/
theorem read_again (h : t.Produced) (closed : ¬ t.OpenString) (spaced : Spaced rest) :
    tokens (t.spelling.toList ++ rest) = t :: tokens rest := by
  by_cases illegal : t.kind = .illegal
  · obtain ⟨_, stands⟩ := h.exists_stands
    obtain ⟨body, -, -, rfl⟩ | ⟨c, ⟨none, quote, word, digit⟩, -, rfl⟩ :=
      stands.illegal_cases illegal
    · exact absurd ⟨illegal, by simp⟩ closed
    · have blank : isBlank c = false := h.visible c (by simp [spelling])
      have alone : ∀ d ∈ rest.head?, Kind.ofPair? c d = .none :=
        fun d first => ofPair?_of_blank (spaced d first)
      have same : single c = ⟨.illegal, String.ofList [c]⟩ := by simp [single, none]
      rw [spelling_of_illegal, String.toList_ofList]
      refine tokens_of_next? ?_
      rw [List.singleton_append, next?_of_starting blank,
        starting_single quote word digit alone, same]
  · obtain ⟨text, member⟩ := h
    exact (tokens_lexed text t member).spells illegal rest spaced.apart

end Produced
end Token

/-- Tokens that are written with blanks between any two of them, and possibly in front of the first
and behind the last. A string that is not closed comes last, with nothing behind it. -/
structure Separated (pieces : List Piece) (last : List Char) : Prop where
  produced : ∀ p ∈ pieces, p.token.Produced
  blank : ∀ p ∈ pieces, ∀ c ∈ p.gap, isBlank c
  apart : ∀ p ∈ pieces.tail, p.gap ≠ []
  closed : ∀ p ∈ pieces.dropLast, ¬ p.token.OpenString
  last_blank : ∀ c ∈ last, isBlank c
  last_open : ∀ p ∈ pieces.getLast?, p.token.OpenString → last = []

namespace Separated
variable {p : Piece} {pieces after : List Piece} {last : List Char}

theorem tail (h : Separated (p :: after) last) : Separated after last where
  produced q member := h.produced q (List.mem_cons_of_mem p member)
  blank q member := h.blank q (List.mem_cons_of_mem p member)
  apart q member := h.apart q (List.mem_of_mem_tail member)
  closed q member := by
    cases after with
    | nil => cases member
    | cons first after => exact h.closed q (List.mem_cons_of_mem p member)
  last_blank := h.last_blank
  last_open q final := by
    cases after with
    | nil => cases final
    | cons first after => exact h.last_open q final

theorem spaced (h : Separated (p :: after) last) : Spaced (joined after last) := by
  cases after with
  | nil => exact .of_blank h.last_blank
  | cons q others =>
    rw [joined_cons, List.append_assoc]
    exact .append (h.blank q (by simp)) (h.apart q (by simp))

theorem joined_of_open (h : Separated (p :: after) last) (unclosed : p.token.OpenString) :
    joined after last = [] := by
  cases after with
  | nil => exact h.last_open p rfl unclosed
  | cons q others => exact absurd unclosed (h.closed p (by simp))

theorem tokens_joined (h : Separated pieces last) :
    tokens (joined pieces last) = pieces.map Piece.token := by
  induction pieces with
  | nil =>
    have blanks := tokens_behind_blanks h.last_blank []
    rw [List.append_nil] at blanks
    exact blanks.trans (Token.tokens_of_none rfl)
  | cons p after ih =>
    rw [joined_cons, List.append_assoc, tokens_behind_blanks (h.blank p List.mem_cons_self)]
    have produced := h.produced p List.mem_cons_self
    by_cases unclosed : p.token.OpenString
    · have ended := h.joined_of_open unclosed
      have none := ih h.tail
      rw [ended] at none
      rw [ended, List.append_nil, produced.read_open unclosed, List.map_cons, ← none,
        Token.tokens_of_none rfl]
    · rw [produced.read_again unclosed h.spaced, ih h.tail]
      rfl

end Separated

/-- Reading undoes writing. Tokens with blanks between them are read again, and then the end of the
text for ever; other blanks between the same tokens make no difference. -/
theorem reading_undoes_writing (pieces : List Piece) (last : List Char)
    (h : Separated pieces last) :
    tokens (joined pieces last) = pieces.map Piece.token ∧
      (∀ n, Token.call n (joined pieces last) = (pieces.map Piece.token)[n]?.getD .eof) ∧
      ∀ (others : List Piece) (last' : List Char), Separated others last' →
        others.map Piece.token = pieces.map Piece.token →
          tokens (joined others last') = tokens (joined pieces last) := by
  have read := h.tokens_joined
  refine ⟨read, ?_, ?_⟩
  · intro n
    rw [Token.call_tokens, read]
  · intro others last' separated same
    rw [separated.tokens_joined, same, read]

def crowded : List Char :=
  ['=', '=', '&', '0', '1', '"', 'a', '\\', '"', '"', 'x', '"', 'b']

def spread : List Piece :=
  [⟨[], .symbol .eq⟩, ⟨[' ', '\t'], ⟨.illegal, "&"⟩⟩, ⟨['\n'], ⟨.int, "01"⟩⟩,
    ⟨['\r', '\n'], ⟨.string, "a\\\""⟩⟩, ⟨[' '], ⟨.ident, "x"⟩⟩, ⟨['\t'], ⟨.illegal, "\"b"⟩⟩]

theorem tokens_crowded : tokens crowded = spread.map Piece.token := by
  with_unfolding_all rfl

theorem reading_undoes_writing_spread :
    Separated spread [] ∧ tokens (joined spread []) = tokens crowded := by
  have separated : Separated spread [] := {
    produced := fun p member => ⟨crowded, tokens_crowded ▸ List.mem_map_of_mem member⟩
    blank := by simp [spread, isBlank]
    apart := by simp [spread]
    closed := by simp [spread, Token.OpenString, Token.symbol]
    last_blank := by simp
    last_open := fun _ _ _ => rfl }
  refine ⟨separated, ?_⟩
  rw [tokens_crowded]
  exact (reading_undoes_writing spread [] separated).1

end TernLang
