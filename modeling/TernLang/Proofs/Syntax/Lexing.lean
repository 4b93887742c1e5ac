import Mathlib.Data.List.TakeWhile
import TernLang.Proofs.Syntax.Printing

/-!
Reading loses nothing. A text is the spellings of its tokens with blanks around them, so no character
is dropped or read twice, and a token ends only where the next character could not belong to it. Past
the last token there is nothing but the end of the text.
-/
namespace TernLang

def keywords : List (String × Kind) :=
  [("fn", .fnWord), ("let", .letWord), ("true", .trueWord), ("false", .falseWord), ("if", .ifWord),
    ("else", .elseWord), ("return", .returnWord), ("import", .importWord), ("loop", .loopWord),
    ("break", .breakWord), ("exit", .exitWord)]

namespace Kind

theorem ofWord_of_mem {p : String × Kind} (h : p ∈ keywords) : ofWord p.1 = p.2 := by
  simp only [keywords, List.mem_cons, List.not_mem_nil, or_false] at h
  rcases h with rfl | rfl | rfl | rfl | rfl | rfl | rfl | rfl | rfl | rfl | rfl <;> rfl

theorem mem_of_ofWord (word : String) : ofWord word = .ident ∨ (word, ofWord word) ∈ keywords := by
  unfold ofWord
  split
  case h_12 => exact .inl rfl
  all_goals exact .inr (by decide)

theorem ofWord_eq_ident_iff {word : String} :
    ofWord word = .ident ↔ word ∉ keywords.map Prod.fst := by
  constructor
  · intro ident member
    obtain ⟨p, reserved, rfl⟩ := List.mem_map.mp member
    have kind := ofWord_of_mem reserved
    rw [ident] at kind
    have none : Kind.ident ∉ keywords.map Prod.snd := by decide
    exact none (kind ▸ List.mem_map_of_mem reserved)
  · intro free
    rcases mem_of_ofWord word with ident | reserved
    · exact ident
    · exact absurd (List.mem_map_of_mem reserved) free

end Kind

theorem stringBody?_split {text body after : List Char} (h : stringBody? text = some (body, after)) :
    text = body ++ '"' :: after := by
  fun_induction stringBody? text generalizing body after with
  | case1 => cases h
  | case2 text =>
    cases h
    rfl
  | case3 c text ih =>
    obtain ⟨⟨inner, last⟩, found, same⟩ := Option.map_eq_some_iff.mp h
    cases same
    rw [ih found]
    rfl
  | case4 c text quote escape ih =>
    obtain ⟨⟨inner, last⟩, found, same⟩ := Option.map_eq_some_iff.mp h
    cases same
    rw [ih found]
    rfl

theorem dropWhile_stop (p : Char → Bool) (text : List Char) :
    ∀ c ∈ (text.dropWhile p).head?, p c = false := by
  intro c first
  have stopped := List.head?_dropWhile_not p text
  rw [Option.mem_def.mp first] at stopped
  simpa using stopped

namespace Token

def IsWord (text : List Char) : Prop :=
  ∃ c cs, text = c :: cs ∧ startsWord c ∧ ∀ d ∈ cs, continuesWord d

/-- How a token is written, and where it ends. -/
inductive Stands : Token → List Char → Prop where
  | string {body rest : List Char}
    (closed : stringBody? (body ++ '"' :: rest) = some (body, rest)) :
    Stands ⟨.string, String.ofList body⟩ rest
  | openString {body : List Char} (unclosed : stringBody? body = none) :
    Stands ⟨.illegal, String.ofList ('"' :: body)⟩ []
  | word {c : Char} {cs rest : List Char} (first : startsWord c)
    (others : ∀ d ∈ cs, continuesWord d) (ends : ∀ d ∈ rest.head?, continuesWord d = false) :
    Stands ⟨.ofWord (String.ofList (c :: cs)), String.ofList (c :: cs)⟩ rest
  | number {c : Char} {cs rest : List Char} (first : isDigit c) (others : ∀ d ∈ cs, isDigit d)
    (ends : ∀ d ∈ rest.head?, isDigit d = false) :
    Stands ⟨.int, String.ofList (c :: cs)⟩ rest
  | pair {c d : Char} {k : Kind} {rest : List Char} (found : Kind.ofPair? c d = some k) :
    Stands (symbol k) rest
  | single {c : Char} {k : Kind} {rest : List Char} (found : Kind.ofChar? c = some k)
    (alone : ∀ d ∈ rest.head?, Kind.ofPair? c d = none) : Stands (symbol k) rest
  | stray {c : Char} {rest : List Char} (none : Kind.ofChar? c = none) (quote : c ≠ '"')
    (word : startsWord c = false) (digit : isDigit c = false)
    (alone : ∀ d ∈ rest.head?, Kind.ofPair? c d = .none) :
    Stands ⟨.illegal, String.ofList [c]⟩ rest

/-- What is read from a text: a token that stands in front of what is left. -/
structure Reads (text : List Char) (t : Token) (rest : List Char) : Prop where
  spelled : text = t.spelling.toList ++ rest
  stands : t.Stands rest

theorem single_reads {c : Char} {rest : List Char} (quote : c ≠ '"') (word : startsWord c = false)
    (digit : isDigit c = false) (alone : ∀ d ∈ rest.head?, Kind.ofPair? c d = none) :
    Reads (c :: rest) (single c) rest := by
  unfold single
  cases found : Kind.ofChar? c with
  | some k =>
    refine ⟨?_, .single found alone⟩
    rw [spelling_of_fixed (Kind.fixed?_of_char found)]
    change c :: rest = k.name.toList ++ rest
    rw [Kind.name_of_char found]
    rfl
  | none =>
    refine ⟨?_, .stray found quote word digit alone⟩
    simp [spelling]

theorem operator_reads {c : Char} (quote : c ≠ '"') (word : startsWord c = false)
    (digit : isDigit c = false) (rest : List Char) :
    Reads (c :: rest) (operator c rest).1 (operator c rest).2 := by
  cases rest with
  | nil => exact single_reads quote word digit fun d none => nomatch none
  | cons d rest =>
    cases found : Kind.ofPair? c d with
    | some k =>
      simp only [operator, found]
      refine ⟨?_, .pair found⟩
      rw [spelling_of_fixed (Kind.fixed?_of_pair found)]
      change c :: d :: rest = k.name.toList ++ rest
      rw [Kind.name_of_pair found]
      rfl
    | none =>
      simp only [operator, found]
      apply single_reads quote word digit
      intro e first
      cases first
      exact found

theorem quoted_reads (rest : List Char) : Reads ('"' :: rest) (quoted rest).1 (quoted rest).2 := by
  unfold quoted
  cases found : stringBody? rest with
  | some parts =>
    obtain ⟨body, after⟩ := parts
    refine ⟨?_, .string (stringBody?_again found after)⟩
    simp [spelling, stringBody?_split found]
  | none =>
    refine ⟨?_, .openString found⟩
    simp [spelling]

theorem starting_reads (c : Char) (rest : List Char) :
    Reads (c :: rest) (starting c rest).1 (starting c rest).2 := by
  unfold starting
  split
  · rename_i quote
    exact quote ▸ quoted_reads rest
  · rename_i quote
    split
    · rename_i first
      refine ⟨?_, .word first (List.all_eq_true.mp List.all_takeWhile) (dropWhile_stop _ _)⟩
      rw [spelling_of_word, String.toList_ofList, List.cons_append,
        List.takeWhile_append_dropWhile]
    · rename_i word
      split
      · rename_i first
        refine ⟨?_, .number first (List.all_eq_true.mp List.all_takeWhile) (dropWhile_stop _ _)⟩
        simp [spelling, List.takeWhile_append_dropWhile]
      · rename_i digit
        exact operator_reads quote (by simpa using word) (by simpa using digit) rest

theorem tokens_of_none {text : List Char} (h : next? text = none) : tokens text = [] := by
  rw [tokens]
  split
  · rfl
  · rename_i found
    rw [h] at found
    cases found

theorem blank_of_next? {text : List Char} (h : next? text = none) : ∀ c ∈ text, isBlank c := by
  unfold next? at h
  split at h
  · rename_i ended
    exact fun c member => List.dropWhile_eq_nil_iff.mp ended c member
  · cases h

theorem next?_reads {text rest : List Char} {t : Token} (h : next? text = some (t, rest)) :
    ∃ gap, (∀ c ∈ gap, isBlank c) ∧ text = gap ++ t.spelling.toList ++ rest ∧ t.Stands rest := by
  unfold next? at h
  split at h
  · cases h
  · rename_i c cs cut
    have read := starting_reads c cs
    rw [Option.some.inj h, ← cut] at read
    exists text.takeWhile isBlank
    constructor
    · exact List.all_eq_true.mp List.all_takeWhile
    · constructor
      · rw [List.append_assoc, ← read.spelled, List.takeWhile_append_dropWhile]
      · exact read.stands

def nextOrEof (text : List Char) : Token × List Char := (next? text).getD (eof, [])

/-- What the call answers that comes after `n` others. -/
def call : Nat → List Char → Token
  | 0, text => (nextOrEof text).1
  | n + 1, text => call n (nextOrEof text).2

theorem call_nil (n : Nat) : call n [] = eof := by
  induction n with
  | zero => rfl
  | succ n ih => exact ih

/-- The calls answer the tokens of the text in turn, and the end of the text from then on. -/
theorem call_tokens (n : Nat) (text : List Char) : call n text = (tokens text)[n]?.getD eof := by
  induction n generalizing text with
  | zero =>
    cases next : next? text with
    | none => simp [call, nextOrEof, tokens_of_none next, next]
    | some read => simp [call, nextOrEof, tokens_of_next? next, next]
  | succ n ih =>
    cases next : next? text with
    | none => simp [call, nextOrEof, tokens_of_none next, next, call_nil]
    | some read => simp [call, nextOrEof, tokens_of_next? next, next, ih]

end Token

namespace Kind

def ofWords : List Kind := .ident :: keywords.map Prod.snd

theorem ofWord_mem (word : String) : ofWord word ∈ ofWords := by
  rcases mem_of_ofWord word with ident | reserved
  · rw [ident]
    exact List.mem_cons_self
  · exact List.mem_cons_of_mem _ (List.mem_map_of_mem reserved)

theorem not_word_of_fixed {k : Kind} (fixed : k.fixed? = some k.name) : k ∉ ofWords := by
  have differ : ∀ word ∈ ofWords, word.fixed? ≠ some word.name := by decide
  intro member
  exact differ k member fixed

theorem not_legal_of_fixed {k : Kind} (fixed : k.fixed? = some k.name) :
    k ≠ .int ∧ k ≠ .illegal := by
  constructor
  · rintro rfl
    cases fixed
  · rintro rfl
    cases fixed

def extended : List Kind := [.assign, .bang, .lt, .gt]

theorem ofPair?_of_extended {c : Char} {k : Kind} (found : ofChar? c = some k)
    (member : k ∈ extended) : ofPair? c '=' ≠ none := by
  have written := name_of_char found
  simp only [extended, List.mem_cons, List.not_mem_nil, or_false] at member
  rcases member with rfl | rfl | rfl | rfl
  all_goals
    cases written
    decide

theorem not_extended_of_pair {c d : Char} {k : Kind} (found : ofPair? c d = some k) :
    k ∉ extended := by
  unfold ofPair? at found
  split at found <;> cases found <;> decide

end Kind

namespace Token

/-- A token could not have been read further in front of this text. -/
structure Maximal (t : Token) (rest : List Char) : Prop where
  word : t.kind ∈ Kind.ofWords → ∀ c ∈ rest.head?, continuesWord c = false
  number : t.kind = .int → ∀ c ∈ rest.head?, isDigit c = false
  operator : t.kind ∈ Kind.extended → rest.head? ≠ some '='
  half : ∀ c ∈ ['&', '|'], t = ⟨.illegal, String.ofList [c]⟩ → rest.head? ≠ some c

namespace Stands
variable {t : Token} {rest : List Char}

theorem word_ends (h : t.Stands rest) (kind : t.kind ∈ Kind.ofWords) :
    ∀ c ∈ rest.head?, continuesWord c = false := by
  cases h with
  | word first others ends => exact ends
  | pair found => exact absurd kind (Kind.not_word_of_fixed (Kind.fixed?_of_pair found))
  | single found => exact absurd kind (Kind.not_word_of_fixed (Kind.fixed?_of_char found))
  | string | openString | number | stray => simp [Kind.ofWords, keywords] at kind

theorem number_ends (h : t.Stands rest) (kind : t.kind = .int) :
    ∀ c ∈ rest.head?, isDigit c = false := by
  cases h with
  | number first others ends => exact ends
  | @word c cs =>
    have member := Kind.ofWord_mem (String.ofList (c :: cs))
    rw [show Kind.ofWord _ = .int from kind] at member
    exact absurd member (by decide)
  | pair found => exact absurd kind (Kind.not_legal_of_fixed (Kind.fixed?_of_pair found)).1
  | single found => exact absurd kind (Kind.not_legal_of_fixed (Kind.fixed?_of_char found)).1
  | string | openString | stray => cases kind

theorem operator_ends (h : t.Stands rest) (kind : t.kind ∈ Kind.extended) :
    rest.head? ≠ some '=' := by
  cases h with
  | single found alone =>
    intro equals
    exact Kind.ofPair?_of_extended found kind (alone '=' equals)
  | pair found => exact absurd kind (Kind.not_extended_of_pair found)
  | @word c cs =>
    have member := Kind.ofWord_mem (String.ofList (c :: cs))
    have apart : ∀ k ∈ Kind.extended, k ∉ Kind.ofWords := by decide
    exact absurd member (apart _ kind)
  | string | openString | number | stray => simp [Kind.extended] at kind

theorem illegal_cases (h : t.Stands rest) (illegal : t.kind = .illegal) :
    (∃ body, stringBody? body = none ∧ rest = [] ∧
      t = ⟨.illegal, String.ofList ('"' :: body)⟩) ∨
    ∃ c, (Kind.ofChar? c = none ∧ c ≠ '"' ∧ startsWord c = false ∧ isDigit c = false) ∧
      (∀ d ∈ rest.head?, Kind.ofPair? c d = none) ∧ t = ⟨.illegal, String.ofList [c]⟩ := by
  cases h with
  | @openString body unclosed => exact .inl ⟨body, unclosed, rfl, rfl⟩
  | @stray c _ none quote word digit alone =>
    exact .inr ⟨c, ⟨none, quote, word, digit⟩, alone, rfl⟩
  | @word c cs =>
    have member := Kind.ofWord_mem (String.ofList (c :: cs))
    rw [show Kind.ofWord _ = .illegal from illegal] at member
    exact absurd member (by decide)
  | pair found => exact absurd illegal (Kind.not_legal_of_fixed (Kind.fixed?_of_pair found)).2
  | single found => exact absurd illegal (Kind.not_legal_of_fixed (Kind.fixed?_of_char found)).2
  | string | number => cases illegal

theorem half_ends (h : t.Stands rest) {c : Char} (member : c ∈ ['&', '|'])
    (half : t = ⟨.illegal, String.ofList [c]⟩) : rest.head? ≠ some c := by
  intro twice
  obtain ⟨-, -, rfl, -⟩ | ⟨d, -, alone, same⟩ := h.illegal_cases (by rw [half])
  · cases twice
  · -- Twice the character would have been a pair.
    have single : [d] = [c] := String.ofList_injective (congrArg Token.literal (same.symm.trans half))
    have apart := alone c twice
    rw [List.singleton_inj.mp single] at apart
    simp only [List.mem_cons, List.not_mem_nil, or_false] at member
    rcases member with rfl | rfl
    · cases apart
    · cases apart

theorem maximal (h : t.Stands rest) : t.Maximal rest :=
  ⟨h.word_ends, h.number_ends, h.operator_ends, fun _ => h.half_ends⟩

theorem starts_otherwise (h : t.Stands rest) (other : t.kind ∉ Kind.ofWords) :
    ∀ c ∈ t.spelling.toList.head?, startsWord c = false := by
  intro c first
  cases h with
  | @word d ds => exact absurd (Kind.ofWord_mem (String.ofList (d :: ds))) other
  | string | openString =>
    have quote : '"' = c := by simpa [spelling] using first
    rw [← quote]
    decide
  | number digit =>
    simp only [spelling, reduceCtorEq, if_false, String.toList_ofList, List.head?_cons,
      Option.mem_some_iff] at first
    exact first ▸ not_word_of_digit digit
  | stray none quote word =>
    simp only [spelling, reduceCtorEq, if_false, String.toList_ofList, List.head?_cons,
      Option.mem_some_iff] at first
    exact first ▸ word
  | pair found =>
    rw [spelling_of_fixed (Kind.fixed?_of_pair found), symbol, Kind.name_of_pair found] at first
    cases first
    exact (not_blank_of_pair found).2.2.1
  | single found =>
    rw [spelling_of_fixed (Kind.fixed?_of_char found), symbol, Kind.name_of_char found] at first
    cases first
    exact (not_blank_of_char found).2.2.1

theorem kind_of_word (h : t.Stands rest) (member : t.kind ∈ Kind.ofWords) :
    t.kind = .ofWord t.literal := by
  cases h with
  | word => rfl
  | pair found => exact absurd member (Kind.not_word_of_fixed (Kind.fixed?_of_pair found))
  | single found => exact absurd member (Kind.not_word_of_fixed (Kind.fixed?_of_char found))
  | string | openString | number | stray => simp [Kind.ofWords, keywords] at member

theorem ident_iff (h : t.Stands rest) (word : IsWord t.spelling.toList) :
    t.kind = .ident ↔ t.literal ∉ keywords.map Prod.fst := by
  obtain ⟨c, cs, spelled, first, -⟩ := word
  have member : t.kind ∈ Kind.ofWords := by
    by_contra other
    have starts := h.starts_otherwise other c (by rw [spelled]; rfl)
    rw [first] at starts
    cases starts
  rw [h.kind_of_word member]
  exact Kind.ofWord_eq_ident_iff

end Stands
end Token

structure Piece where
  gap : List Char
  token : Token

def Piece.text (p : Piece) : List Char := p.gap ++ p.token.spelling.toList

def joined (pieces : List Piece) (last : List Char) : List Char := pieces.flatMap Piece.text ++ last

theorem joined_cons (p : Piece) (pieces : List Piece) (last : List Char) :
    joined (p :: pieces) last = p.gap ++ p.token.spelling.toList ++ joined pieces last := by
  simp [joined, Piece.text]

inductive Pieces (last : List Char) : List Piece → Prop where
  | nil (blank : ∀ c ∈ last, isBlank c) : Pieces last []
  | cons {p : Piece} {after : List Piece} (blank : ∀ c ∈ p.gap, isBlank c)
    (stands : p.token.Stands (joined after last)) (others : Pieces last after) :
    Pieces last (p :: after)

namespace Pieces
variable {last : List Char} {pieces : List Piece}

theorem last_blank (h : Pieces last pieces) : ∀ c ∈ last, isBlank c := by
  induction h with
  | nil blank => exact blank
  | cons blank stands others ih => exact ih

theorem piece (h : Pieces last pieces) {before after : List Piece} {p : Piece}
    (split : pieces = before ++ p :: after) :
    (∀ c ∈ p.gap, isBlank c) ∧ p.token.Stands (joined after last) := by
  induction h generalizing before with
  | nil => simp at split
  | cons blank stands others ih =>
    cases before with
    | nil =>
      cases split
      exact ⟨blank, stands⟩
    | cons first before =>
      cases split
      exact ih rfl

end Pieces

theorem exists_pieces (text : List Char) :
    ∃ pieces last, Pieces last pieces ∧ pieces.map Piece.token = tokens text ∧
      text = joined pieces last := by
  -- On the length, since a token takes at least one character.
  induction size : text.length using Nat.strongRecOn generalizing text with
  | ind k ih =>
    cases next : Token.next? text with
    | none =>
      exists [], text
      exact ⟨.nil (Token.blank_of_next? next), (Token.tokens_of_none next).symm, rfl⟩
    | some read =>
      obtain ⟨t, rest⟩ := read
      have shorter := Token.next?_shorter next
      obtain ⟨gap, blank, spelled, stands⟩ := Token.next?_reads next
      obtain ⟨pieces, last, others, same, rfl⟩ := ih rest.length (by omega) rest rfl
      exists ⟨gap, t⟩ :: pieces, last
      constructor
      · exact .cons blank stands others
      · constructor
        · rw [tokens_of_next? next, ← same]
          rfl
        · rw [joined_cons]
          exact spelled

/-- Reading loses nothing and ends. A text is the spellings of its tokens with blanks around them,
each token is as long as it can be, and the calls answer these tokens and then the end of the text
for ever. -/
theorem reading_loses_nothing (text : List Char) :
    (∃ (pieces : List Piece) (last : List Char),
      pieces.map Piece.token = tokens text ∧ text = joined pieces last ∧
      (∀ c ∈ last, isBlank c) ∧
      ∀ before p after, pieces = before ++ p :: after →
        (∀ c ∈ p.gap, isBlank c) ∧ p.token.Maximal (joined after last)) ∧
    (∀ t ∈ tokens text, t.kind ≠ .eof ∧
      (Token.IsWord t.spelling.toList →
        (t.kind = .ident ↔ t.literal ∉ keywords.map Prod.fst))) ∧
    ∀ n, Token.call n text = (tokens text)[n]?.getD .eof := by
  obtain ⟨pieces, last, parts, same, whole⟩ := exists_pieces text
  refine ⟨⟨pieces, last, same, whole, parts.last_blank, ?_⟩, ?_, fun n => Token.call_tokens n text⟩
  · intro before p after split
    obtain ⟨blank, stands⟩ := parts.piece split
    exact ⟨blank, stands.maximal⟩
  · intro t member
    have lexed := tokens_lexed text t member
    rw [← same] at member
    obtain ⟨p, among, rfl⟩ := List.mem_map.mp member
    obtain ⟨before, after, split⟩ := List.append_of_mem among
    exact ⟨lexed.kind_ne_eof, (parts.piece split).2.ident_iff⟩

end TernLang
