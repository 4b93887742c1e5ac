import TernLang.Proofs.Syntax.Spelling

/-!
Text that is put together of the spellings of tokens, and the tokens that it reads as. Between two
of them stands a blank or a delimiter wherever they would run into each other.
-/
namespace TernLang

/-- The text reads as these tokens, whatever comes after it. -/
def Spells (text : List Char) (ts : List Token) : Prop :=
  ∀ rest, Apart rest → tokens (text ++ rest) = ts ++ tokens rest

theorem spelling_of_fixed {t : Token} {s : String} (fixed : t.kind.fixed? = some s) :
    t.spelling = t.literal := by
  refine if_neg fun same => ?_
  simp [same, Kind.fixed?] at fixed

theorem spelling_of_word (word : String) : (⟨.ofWord word, word⟩ : Token).spelling = word := by
  refine if_neg fun same => ?_
  simp only at same
  rcases Kind.fixed?_of_word word with ident | fixed
  · simp [same] at ident
  · simp [same, Kind.fixed?] at fixed

theorem Token.Lexed.spells {t : Token} (h : t.Lexed) (legal : t.kind ≠ .illegal) :
    Spells t.spelling.toList [t] := by
  intro rest apart
  cases h with
  | illegal => contradiction
  | @string body closed =>
    refine tokens_of_next? ?_
    have blank : isBlank '"' = false := by decide
    have chars : (⟨.string, String.ofList body⟩ : Token).spelling.toList ++ rest =
        '"' :: (body ++ '"' :: rest) := by simp [Token.spelling]
    rw [chars, Token.next?_of_starting blank]
    simp [Token.starting, Token.quoted, closed]
  | @word c cs first others =>
    refine tokens_of_next? ?_
    have word : continuesWord c := by simp [continuesWord, first]
    obtain ⟨blank, quote⟩ := not_blank_of_word word
    obtain ⟨taken, left⟩ := takeWhile_stop others fun d member => (apart d member).1
    rw [spelling_of_word, String.toList_ofList, List.cons_append, Token.next?_of_starting blank]
    simp only [Token.starting, if_neg quote, if_pos first, taken, left]
  | @number c cs first others =>
    refine tokens_of_next? ?_
    obtain ⟨blank, quote⟩ := not_blank_of_word (continuesWord_of_digit first)
    have word : ¬ startsWord c := by simp [not_word_of_digit first]
    have stop : ∀ d ∈ rest.head?, isDigit d = false := by
      intro d member
      have := (apart d member).1
      simp only [continuesWord, Bool.or_eq_false_iff] at this
      exact this.2
    obtain ⟨taken, left⟩ := takeWhile_stop others stop
    change Token.next? ((String.ofList (c :: cs)).toList ++ rest) = _
    rw [String.toList_ofList, List.cons_append, Token.next?_of_starting blank]
    simp only [Token.starting, if_neg quote, if_neg word, if_pos first, taken, left]
  | @single c k found =>
    rw [spelling_of_fixed (Kind.fixed?_of_char found)]
    change tokens (k.name.toList ++ rest) = _
    rw [Kind.name_of_char found]
    exact tokens_single found fun d member => Kind.ofPair?_of_char found (apart d member).2
  | @pair c d k found =>
    rw [spelling_of_fixed (Kind.fixed?_of_pair found)]
    change tokens (k.name.toList ++ rest) = _
    rw [Kind.name_of_pair found]
    exact tokens_pair found rest

/-- A character that is a token of its own, whatever comes after it. -/
structure Delimits (c : Char) (k : Kind) : Prop where
  found : Kind.ofChar? c = some k
  alone : ∀ d, Kind.ofPair? c d = none

theorem Delimits.apart {c : Char} {k : Kind} (h : Delimits c k) (rest : List Char) :
    Apart (c :: rest) := by
  obtain ⟨-, -, word, digit⟩ := not_blank_of_char h.found
  refine apart_cons (by simp [continuesWord, word, digit]) ?_
  rintro rfl
  exact absurd (h.alone '=') (by decide)

theorem apart_blank (rest : List Char) : Apart (' ' :: rest) := apart_cons (by decide) (by decide)

theorem tokens_equals (rest : List Char) :
    (∃ us, tokens ('=' :: rest) = .symbol .assign :: us) ∨
      ∃ us, tokens ('=' :: rest) = .symbol .eq :: us := by
  have single (alone : ∀ d ∈ rest.head?, d ≠ '=') :
      tokens ('=' :: rest) = .symbol .assign :: tokens rest :=
    tokens_single rfl fun d member => Kind.ofPair?_of_char (k := .assign) rfl (alone d member)
  cases rest with
  | nil => exact .inl ⟨_, single (by simp)⟩
  | cons d rest =>
    by_cases double : d = '='
    · subst double
      exact .inr ⟨_, tokens_pair rfl rest⟩
    · exact .inl ⟨_, single (by simpa using double)⟩

namespace Spells
variable {cs ds : List Char} {ts us : List Token} {t : Token}

theorem nil : Spells [] [] := fun _ _ => rfl

theorem append (h : Spells cs ts) (next : Spells ds us)
    (apart : ∀ rest, Apart rest → Apart (ds ++ rest)) : Spells (cs ++ ds) (ts ++ us) := by
  intro rest ends
  rw [List.append_assoc, h _ (apart rest ends), next rest ends, List.append_assoc]

theorem blank (h : Spells cs ts) (next : Spells ds us) : Spells (cs ++ ' ' :: ds) (ts ++ us) := by
  refine h.append ?_ fun rest _ => apart_blank _
  intro rest ends
  rw [List.cons_append, tokens_blank, next rest ends]

theorem enclosed {o p : Char} {j k : Kind} (opening : Delimits o j) (closing : Delimits p k)
    (h : Spells cs ts) : Spells (o :: cs ++ [p]) (.symbol j :: ts ++ [.symbol k]) := by
  intro rest ends
  rw [List.append_assoc, List.cons_append, tokens_single opening.found fun d _ => opening.alone d,
    List.singleton_append, h _ (closing.apart rest),
    tokens_single closing.found fun d _ => closing.alone d]
  simp

theorem parens (h : Spells cs ts) :
    Spells ('(' :: cs ++ [')']) (.symbol .lparen :: ts ++ [.symbol .rparen]) :=
  h.enclosed ⟨rfl, fun _ => rfl⟩ ⟨rfl, fun _ => rfl⟩

theorem brackets (h : Spells cs ts) :
    Spells ('[' :: cs ++ [']']) (.symbol .lbracket :: ts ++ [.symbol .rbracket]) :=
  h.enclosed ⟨rfl, fun _ => rfl⟩ ⟨rfl, fun _ => rfl⟩

theorem braces (h : Spells cs ts) :
    Spells ('\x7b' :: cs ++ ['\x7d']) (.symbol .lbrace :: ts ++ [.symbol .rbrace]) :=
  h.enclosed ⟨rfl, fun _ => rfl⟩ ⟨rfl, fun _ => rfl⟩

theorem delimited {c : Char} {k : Kind} (delimiter : Delimits c k) (h : Spells cs ts)
    (next : Spells ds us) : Spells (cs ++ c :: ' ' :: ds) (ts ++ .symbol k :: us) := by
  refine h.append ?_ fun rest _ => delimiter.apart _
  intro rest ends
  have first := tokens_single delimiter.found fun d (_ : d ∈ (' ' :: (ds ++ rest)).head?) =>
    delimiter.alone d
  rw [List.cons_append, List.cons_append, first, tokens_blank, next rest ends, List.cons_append]

theorem head_ne_equals (h : Spells cs (t :: ts)) (assign : t.kind ≠ .assign) (eq : t.kind ≠ .eq) :
    ∃ d ds, cs = d :: ds ∧ d ≠ '=' := by
  have same := h [] apart_nil
  cases cs with
  | nil => simp [tokens, Token.next?] at same
  | cons d ds =>
    refine ⟨d, ds, rfl, ?_⟩
    rintro rfl
    rw [List.append_nil] at same
    rcases tokens_equals ds with ⟨us, read⟩ | ⟨us, read⟩
    · rw [read] at same
      exact assign ((List.cons.inj same).1 ▸ rfl)
    · rw [read] at same
      exact eq ((List.cons.inj same).1 ▸ rfl)

theorem prefixed {c : Char} {k : Kind} (found : Kind.ofChar? c = some k) (h : Spells cs (t :: ts))
    (assign : t.kind ≠ .assign) (eq : t.kind ≠ .eq) : Spells (c :: cs) (.symbol k :: t :: ts) := by
  obtain ⟨d, ds, rfl, other⟩ := h.head_ne_equals assign eq
  intro rest ends
  have alone : Kind.ofPair? c d = none := Kind.ofPair?_of_char found other
  rw [List.cons_append, tokens_single found (by simpa using alone), h rest ends]
  rfl

end Spells

def behindCommas (texts : List String) : List Char :=
  texts.flatMap fun text => ',' :: ' ' :: text.toList

theorem intercalate_commas (text : String) (texts : List String) :
    (", ".intercalate (text :: texts)).toList = text.toList ++ behindCommas texts := by
  induction texts generalizing text with
  | nil => simp [behindCommas]
  | cons next texts ih =>
    rw [String.intercalate_cons_cons, String.toList_append, ih]
    simp [behindCommas]

theorem apart_behindCommas (texts : List String) {rest : List Char} (ends : Apart rest) :
    Apart (behindCommas texts ++ rest) := by
  cases texts with
  | nil => exact ends
  | cons => exact apart_cons (by decide) (by decide)

namespace Token.Lexed
variable {t : Token} {k : Kind} {s : String}

theorem eq_symbol (h : t.Lexed) (kind : t.kind = k) (fixed : k.fixed? = some k.name) :
    t = .symbol k := by
  subst kind
  have same := h.literal_of_fixed fixed
  cases t
  simp_all [symbol]

theorem spells_fixed (h : t.Lexed) (kind : t.kind = k) (fixed : k.fixed? = some s) :
    Spells s.toList [t] := by
  subst kind
  have spells := h.spells (by intro none; simp [none, Kind.fixed?] at fixed)
  rwa [spelling_of_fixed fixed, h.literal_of_fixed fixed] at spells

theorem spells_literal (h : t.Lexed) (legal : t.kind ≠ .illegal) (bare : t.kind ≠ .string) :
    Spells t.literal.toList [t] := by
  have spells := h.spells legal
  rwa [Token.spelling, if_neg bare] at spells

end Token.Lexed

end TernLang
