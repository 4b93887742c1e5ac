import TernLang.Proofs.Syntax.Concatenation
import TernLang.Proofs.Syntax.Lexing
import TernLang.Proofs.Syntax.Masking
import TernLang.Text.Newline

/-!
Line ends. Texts that differ only in how their lines end fall into the same tokens, but for the line
ends inside strings and inside what is illegal. So it does not matter to a parse which ones a text
has, as long as there is no carriage return in a string.
-/
namespace TernLang

namespace Text

/-- The lines of the first text may end in a carriage return, alone or before a line feed, where the
second has a line feed. -/
inductive LineEnds : List Char → List Char → Prop where
  | nil : LineEnds [] []
  | char (c : Char) {s t : List Char} (h : LineEnds s t) : LineEnds (c :: s) (c :: t)
  | lone {s t : List Char} (h : LineEnds s t) : LineEnds ('\r' :: s) ('\n' :: t)
  | pair {s t : List Char} (h : LineEnds s t) : LineEnds ('\r' :: '\n' :: s) ('\n' :: t)

theorem lineEnds_unifyNewlines (s : List Char) : LineEnds s (unifyNewlines s) := by
  fun_induction unifyNewlines s with
  | case1 => exact .nil
  | case2 s ih => exact .pair ih
  | case3 s alone ih => exact .lone ih
  | case4 c s pair return_ ih => exact .char c ih

namespace LineEnds
variable {s t : List Char} {p : Char → Bool}

theorem refl (s : List Char) : LineEnds s s := by
  induction s with
  | nil => exact .nil
  | cons c s ih => exact .char c ih

theorem eq (h : LineEnds s t) (none : '\r' ∉ s) : s = t := by
  induction h with
  | nil => rfl
  | char c h ih => rw [ih fun later => none (List.mem_cons_of_mem c later)]
  | lone | pair => exact absurd List.mem_cons_self none

theorem takeWhile (h : LineEnds s t) (lone : p '\r' = false) (feed : p '\n' = false) :
    s.takeWhile p = t.takeWhile p ∧ LineEnds (s.dropWhile p) (t.dropWhile p) := by
  induction h with
  | nil => exact ⟨rfl, .nil⟩
  | char c h ih =>
    by_cases more : p c
    · simp [more, ih]
    · simp [more, h.char c]
  | lone h => simp [lone, feed, h.lone]
  | pair h => simp [lone, feed, h.pair]

theorem dropBlanks (h : LineEnds s t) :
    LineEnds (s.dropWhile isBlank) (t.dropWhile isBlank) := by
  induction h with
  | nil => exact .nil
  | char c h ih =>
    by_cases blank : isBlank c
    · simpa [blank] using ih
    · simpa [blank] using h.char c
  | lone h ih | pair h ih => simpa [isBlank] using ih

end LineEnds

def LineEndsBoth (x y : List Char × List Char) : Prop := LineEnds x.1 y.1 ∧ LineEnds x.2 y.2

end Text
open Text

variable {s t : List Char}

theorem rel_map {f g : List Char × List Char → List Char × List Char}
    {x y : Option (List Char × List Char)} (h : Option.Rel LineEndsBoth x y)
    (step : ∀ a b, LineEndsBoth a b → LineEndsBoth (f a) (g b)) :
    Option.Rel LineEndsBoth (x.map f) (y.map g) := by
  cases h with
  | none => exact .none
  | some h => exact .some (step _ _ h)

theorem stringBody?_lineEnds (h : LineEnds s t) :
    Option.Rel LineEndsBoth (stringBody? s) (stringBody? t) := by
  -- On the length, since a backslash takes two characters.
  induction size : s.length using Nat.strongRecOn generalizing s t with
  | ind k ih =>
    subst size
    cases h with
    | nil => exact .none
    | lone h =>
      rw [stringBody?_plain (by decide) (by decide), stringBody?_plain (by decide) (by decide)]
      apply rel_map (ih _ (Nat.lt_succ_self _) h rfl)
      exact fun a b both => ⟨.lone both.1, both.2⟩
    | pair h =>
      rw [stringBody?_plain (by decide) (by decide), stringBody?_plain (by decide) (by decide),
        stringBody?_plain (by decide) (by decide), Option.map_map]
      apply rel_map (ih _ (Nat.lt_succ_of_lt (Nat.lt_succ_self _)) h rfl)
      exact fun a b both => ⟨.pair both.1, both.2⟩
    | char c h =>
      by_cases quote : c = '"'
      · subst quote
        exact .some ⟨.nil, h⟩
      · by_cases escape : c = '\\'
        · subst escape
          cases h with
          | nil => exact .none
          | char d h =>
            apply rel_map (ih _ (Nat.lt_succ_of_lt (Nat.lt_succ_self _)) h rfl)
            exact fun a b both => ⟨.char '\\' (.char d both.1), both.2⟩
          | lone h =>
            apply rel_map (ih _ (Nat.lt_succ_of_lt (Nat.lt_succ_self _)) h rfl)
            exact fun a b both => ⟨.char '\\' (.lone both.1), both.2⟩
          | pair h =>
            -- The backslash protects the carriage return, and the line feed stands for itself.
            rw [stringBody?, stringBody?, stringBody?_plain (by decide) (by decide),
              Option.map_map]
            apply rel_map (ih _ (by simp only [List.length_cons]; omega) h rfl)
            exact fun a b both => ⟨.char '\\' (.pair both.1), both.2⟩
        · rw [stringBody?_plain quote escape, stringBody?_plain quote escape]
          apply rel_map (ih _ (Nat.lt_succ_self _) h rfl)
          exact fun a b both => ⟨.char c both.1, both.2⟩

namespace Token

structure LineEnds (t u : Token) : Prop where
  kind : t.kind = u.kind
  literal : Text.LineEnds t.literal.toList u.literal.toList

structure LineEndsBehind (x y : Token × List Char) : Prop where
  token : LineEnds x.1 y.1
  rest : Text.LineEnds x.2 y.2

theorem lineEnds_of (k : Kind) (h : Text.LineEnds s t) :
    LineEnds ⟨k, String.ofList s⟩ ⟨k, String.ofList t⟩ := by
  constructor
  · rfl
  · simpa using h

theorem LineEnds.refl (t : Token) : LineEnds t t := ⟨rfl, .refl _⟩

theorem quoted_lineEnds (h : Text.LineEnds s t) : LineEndsBehind (quoted s) (quoted t) := by
  have bodies := stringBody?_lineEnds h
  unfold quoted
  cases found : stringBody? s with
  | none =>
    rw [found] at bodies
    rcases found' : stringBody? t with _ | y
    · exact ⟨lineEnds_of .illegal (.char '"' h), .nil⟩
    · rw [found'] at bodies
      cases bodies
  | some x =>
    rw [found] at bodies
    rcases found' : stringBody? t with _ | y
    · rw [found'] at bodies
      cases bodies
    · rw [found'] at bodies
      cases bodies with
      | some both => exact ⟨lineEnds_of .string both.1, both.2⟩

theorem operator_lineEnds (c : Char) (h : Text.LineEnds s t) :
    LineEndsBehind (operator c s) (operator c t) := by
  have alone : Kind.ofPair? c '\r' = none ∧ Kind.ofPair? c '\n' = none := by
    simp [Kind.ofPair?]
  cases h with
  | nil => exact ⟨.refl _, .nil⟩
  | char d h =>
    cases found : Kind.ofPair? c d with
    | none =>
      simp only [operator, found]
      exact ⟨.refl _, .char d h⟩
    | some k =>
      simp only [operator, found]
      exact ⟨.refl _, h⟩
  | lone h =>
    simp only [operator, alone]
    exact ⟨.refl _, .lone h⟩
  | pair h =>
    simp only [operator, alone]
    exact ⟨.refl _, .pair h⟩

theorem starting_lineEnds (c : Char) (h : Text.LineEnds s t) :
    LineEndsBehind (starting c s) (starting c t) := by
  unfold starting
  split
  · exact quoted_lineEnds h
  · split
    · obtain ⟨word, rest⟩ := h.takeWhile (p := continuesWord) (by decide) (by decide)
      rw [word]
      exact ⟨.refl _, rest⟩
    · split
      · obtain ⟨number, rest⟩ := h.takeWhile (p := isDigit) (by decide) (by decide)
        rw [number]
        exact ⟨.refl _, rest⟩
      · exact operator_lineEnds c h

theorem next?_lineEnds (h : Text.LineEnds s t) :
    Option.Rel LineEndsBehind (next? s) (next? t) := by
  have stop := dropWhile_stop isBlank s
  have cut := h.dropBlanks
  unfold next?
  generalize s.dropWhile isBlank = s' at stop cut ⊢
  generalize t.dropWhile isBlank = t' at cut ⊢
  cases cut with
  | nil => exact .none
  | char c h => exact .some (starting_lineEnds c h)
  | lone | pair => exact absurd (stop '\r' rfl) (by decide)

end Token

theorem tokens_lineEnds (h : LineEnds s t) : List.Forall₂ Token.LineEnds (tokens s) (tokens t) := by
  induction size : s.length using Nat.strongRecOn generalizing s t with
  | ind k ih =>
    have next := Token.next?_lineEnds h
    rcases first : Token.next? s with _ | ⟨u, rest⟩
    · rcases first' : Token.next? t with _ | read
      · rw [Token.tokens_of_none first, Token.tokens_of_none first']
        exact .nil
      · rw [first, first'] at next
        cases next
    · rcases first' : Token.next? t with _ | ⟨u', rest'⟩
      · rw [first, first'] at next
        cases next
      · rw [first, first'] at next
        cases next with
        | some same =>
          have shorter := Token.next?_shorter first
          rw [tokens_of_next? first, tokens_of_next? first']
          exact .cons same.token (ih rest.length (by omega) same.rest rfl)

theorem not_mem_of_starts {c d : Char} {cs : List Char} {p q : Char → Bool} (first : p c)
    (others : ∀ e ∈ cs, q e) (start : p d = false) (later : q d = false) : d ∉ c :: cs := by
  intro member
  rcases List.mem_cons.mp member with rfl | behind
  · rw [first] at start
    cases start
  · rw [others d behind] at later
    cases later

theorem Token.Lexed.no_return {t : Token} (h : t.Lexed) (legal : t.kind ≠ .illegal)
    (other : t.kind ≠ .string) : '\r' ∉ t.literal.toList := by
  intro member
  cases h with
  | illegal | string => contradiction
  | word first others =>
    rw [String.toList_ofList] at member
    exact not_mem_of_starts first others rfl rfl member
  | number first others =>
    rw [String.toList_ofList] at member
    exact not_mem_of_starts first others rfl rfl member
  | single found =>
    rw [symbol, Kind.name_of_char found, List.mem_singleton] at member
    subst member
    exact absurd found (by simp [Kind.ofChar?])
  | pair found =>
    rw [symbol, Kind.name_of_pair found] at member
    unfold Kind.ofPair? at found
    split at found
    all_goals simp_all

theorem Token.LineEnds.masked {t u : Token} (h : t.LineEnds u) (lexed : t.Lexed)
    (plain : t.kind = .string → '\r' ∉ t.literal.toList) : t.masked = u.masked := by
  obtain ⟨kind, literal⟩ := h
  by_cases illegal : t.kind = .illegal
  · rw [Token.masked, Token.masked, if_pos illegal, if_pos (kind.symm.trans illegal)]
  · have none : '\r' ∉ t.literal.toList := by
      by_cases string : t.kind = .string
      · exact plain string
      · exact lexed.no_return illegal string
    have text : t.literal = u.literal := String.toList_inj.mp (literal.eq none)
    have same : t = u := by
      cases t
      cases u
      simp_all
    rw [same]

theorem masked_of_lineEnds {ts us : List Token} (alike : List.Forall₂ Token.LineEnds ts us)
    (lexed : ∀ t ∈ ts, t.Lexed) (plain : ∀ t ∈ ts, t.kind = .string → '\r' ∉ t.literal.toList) :
    ts.map Token.masked = us.map Token.masked := by
  induction alike with
  | nil => rfl
  | cons first rest ih =>
    obtain ⟨lex, lexes⟩ := List.forall_mem_cons.mp lexed
    obtain ⟨clean, others⟩ := List.forall_mem_cons.mp plain
    rw [List.map_cons, List.map_cons, first.masked lex clean, ih lexes others]

/-- Without a carriage return in a string, a text is parsed as the same text with other line ends:
the program is the same, its tokens included, and so are the errors. -/
theorem parse_lineEnds {text other : String} (ends : LineEnds text.toList other.toList)
    (plain : ∀ t ∈ tokens text.toList, t.kind = .string → '\r' ∉ t.literal.toList) :
    parse other = parse text := by
  have same := masked_of_lineEnds (tokens_lineEnds ends) (tokens_lexed text.toList) plain
  obtain ⟨statements, errors⟩ := parseTokens_of_masked same
  rw [parse_eq, parse_eq, statements, errors]

end TernLang
