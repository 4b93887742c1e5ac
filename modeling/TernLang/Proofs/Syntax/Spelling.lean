import TernLang.Syntax.Lexeme

/-!
The tokens that the lexer answers, and how it answers them again when their spelling is read.
-/
namespace TernLang

/-- A token that the lexer answers on some text. -/
inductive Token.Lexed : Token → Prop where
  | illegal (text : String) : Lexed ⟨.illegal, text⟩
  | string {body : List Char}
      (closed : ∀ rest, stringBody? (body ++ '"' :: rest) = some (body, rest)) :
      Lexed ⟨.string, String.ofList body⟩
  | word {c : Char} {cs : List Char} (first : startsWord c) (others : ∀ d ∈ cs, continuesWord d) :
      Lexed ⟨.ofWord (String.ofList (c :: cs)), String.ofList (c :: cs)⟩
  | number {c : Char} {cs : List Char} (first : isDigit c) (others : ∀ d ∈ cs, isDigit d) :
      Lexed ⟨.int, String.ofList (c :: cs)⟩
  | single {c : Char} {k : Kind} (found : Kind.ofChar? c = some k) : Lexed (Token.symbol k)
  | pair {c d : Char} {k : Kind} (found : Kind.ofPair? c d = some k) : Lexed (Token.symbol k)

/-- A string without its closing quote. -/
def Token.OpenString (t : Token) : Prop := t.kind = .illegal ∧ t.literal.toList.head? = some '"'

instance (t : Token) : Decidable t.OpenString := inferInstanceAs (Decidable (_ ∧ _))

theorem stringBody?_plain {c : Char} (quote : c ≠ '"') (escape : c ≠ '\\') (text : List Char) :
    stringBody? (c :: text) =
      (stringBody? text).map fun (body, after) => (c :: body, after) := by
  rw [stringBody?]
  · exact quote
  · exact fun _ _ same _ => escape same

theorem not_escape_of_body {c : Char} {text : List Char} {found : List Char × List Char}
    (escape : ∀ d rest, c = '\\' → text = d :: rest → False)
    (read : stringBody? text = some found) : c ≠ '\\' := by
  intro same
  cases text with
  | nil => simp [stringBody?] at read
  | cons d text => exact escape d text same rfl

theorem stringBody?_again {text body after : List Char} (h : stringBody? text = some (body, after))
    (rest : List Char) : stringBody? (body ++ '"' :: rest) = some (body, rest) := by
  fun_induction stringBody? text generalizing body after with
  | case1 => simp at h
  | case2 text =>
    simp only [Option.some.injEq, Prod.mk.injEq] at h
    obtain ⟨rfl, -⟩ := h
    simp [stringBody?]
  | case3 c text ih =>
    obtain ⟨⟨inner, last⟩, found, same⟩ := Option.map_eq_some_iff.mp h
    simp only [Prod.mk.injEq] at same
    obtain ⟨rfl, -⟩ := same
    simp [stringBody?, ih found]
  | case4 c text quote escape ih =>
    obtain ⟨⟨inner, last⟩, found, same⟩ := Option.map_eq_some_iff.mp h
    simp only [Prod.mk.injEq] at same
    obtain ⟨rfl, -⟩ := same
    rw [List.cons_append, stringBody?_plain quote (not_escape_of_body escape found)]
    simp [ih found]

namespace Token

theorem single_lexed (c : Char) : (single c).Lexed := by
  unfold single
  split
  · rename_i found
    exact .single found
  · exact .illegal _

theorem starting_lexed (c : Char) (rest : List Char) : (starting c rest).1.Lexed := by
  unfold starting
  split
  · unfold quoted
    split
    · rename_i found
      exact .string (stringBody?_again found)
    · exact .illegal _
  · split
    · rename_i first
      exact .word first (List.all_eq_true.mp List.all_takeWhile)
    · split
      · rename_i first
        exact .number first (List.all_eq_true.mp List.all_takeWhile)
      · unfold operator
        split
        · exact single_lexed c
        · split
          · rename_i found
            exact .pair found
          · exact single_lexed c

theorem next?_lexed {text rest : List Char} {t : Token} (h : next? text = some (t, rest)) :
    t.Lexed := by
  unfold next? at h
  split at h
  · simp at h
  · rename_i c cs _
    simp only [Option.some.injEq] at h
    have same : (starting c cs).1 = t := by rw [h]
    exact same ▸ starting_lexed c cs

end Token

theorem tokens_of_next? {text rest : List Char} {t : Token}
    (h : Token.next? text = some (t, rest)) :
    tokens text = t :: tokens rest := by
  rw [tokens]
  split
  · rename_i none
    simp [none] at h
  · rename_i found
    rw [h] at found
    simp only [Option.some.injEq, Prod.mk.injEq] at found
    rw [found.1, found.2]

theorem exists_next?_of_mem {text : List Char} {t : Token} (member : t ∈ tokens text) :
    ∃ text rest, Token.next? text = some (t, rest) := by
  fun_induction tokens text with
  | case1 text ended => cases member
  | case2 text first rest next ih =>
    rcases List.mem_cons.mp member with same | later
    · exact ⟨text, rest, same ▸ next⟩
    · exact ih later

theorem tokens_lexed (text : List Char) : ∀ t ∈ tokens text, t.Lexed := by
  intro t member
  obtain ⟨_, _, next⟩ := exists_next?_of_mem member
  exact Token.next?_lexed next

namespace Kind

theorem name_of_char {c : Char} {k : Kind} (h : ofChar? c = some k) : k.name.toList = [c] := by
  unfold ofChar? at h
  split at h <;> simp only [Option.some.injEq, reduceCtorEq] at h <;> subst h <;> rfl

theorem name_of_pair {c d : Char} {k : Kind} (h : ofPair? c d = some k) :
    k.name.toList = [c, d] := by
  unfold ofPair? at h
  split at h <;> simp only [Option.some.injEq, reduceCtorEq] at h <;> subst h <;> rfl

theorem ofPair?_of_char {c d : Char} {k : Kind} (h : ofChar? c = some k) (other : d ≠ '=') :
    ofPair? c d = none := by
  unfold ofPair?
  split <;> first | contradiction | (simp [ofChar?] at h; done) | rfl

def fixed? : Kind → Option String
  | .illegal | .eof | .ident | .int | .string => none
  | .fnWord => some "fn"
  | .letWord => some "let"
  | .trueWord => some "true"
  | .falseWord => some "false"
  | .ifWord => some "if"
  | .elseWord => some "else"
  | .returnWord => some "return"
  | .importWord => some "import"
  | .loopWord => some "loop"
  | .breakWord => some "break"
  | .exitWord => some "exit"
  | k => some k.name

theorem fixed?_of_char {c : Char} {k : Kind} (h : ofChar? c = some k) : k.fixed? = some k.name := by
  unfold ofChar? at h
  split at h <;> simp only [Option.some.injEq, reduceCtorEq] at h <;> subst h <;> rfl

theorem fixed?_of_pair {c d : Char} {k : Kind} (h : ofPair? c d = some k) :
    k.fixed? = some k.name := by
  unfold ofPair? at h
  split at h <;> simp only [Option.some.injEq, reduceCtorEq] at h <;> subst h <;> rfl

theorem fixed?_of_word (word : String) :
    ofWord word = .ident ∨ (ofWord word).fixed? = some word := by
  unfold ofWord
  split <;> first | exact .inr rfl | exact .inl rfl

end Kind

namespace Token.Lexed
variable {t : Token}

theorem fixed_or (h : t.Lexed) : t.kind.fixed? = some t.literal ∨
    t.kind = .illegal ∨ t.kind = .string ∨ t.kind = .ident ∨ t.kind = .int := by
  cases h with
  | illegal | string | number => simp
  | @word c cs =>
    rcases Kind.fixed?_of_word (String.ofList (c :: cs)) with ident | fixed
    · exact .inr (.inr (.inr (.inl ident)))
    · exact .inl fixed
  | single found => exact .inl (Kind.fixed?_of_char found)
  | pair found => exact .inl (Kind.fixed?_of_pair found)

theorem kind_ne_eof (h : t.Lexed) : t.kind ≠ .eof := by
  intro last
  rcases h.fixed_or with fixed | kind | kind | kind | kind
  · simp [last, Kind.fixed?] at fixed
  all_goals simp [last] at kind

theorem literal_of_fixed {s : String} (h : t.Lexed) (fixed : t.kind.fixed? = some s) :
    t.literal = s := by
  rcases h.fixed_or with same | kind | kind | kind | kind
  · exact Option.some.inj (same.symm.trans fixed)
  all_goals simp [kind, Kind.fixed?] at fixed

end Token.Lexed

/-- Text that no word, number or operator in front of it runs on into. -/
def Apart (rest : List Char) : Prop := ∀ c ∈ rest.head?, continuesWord c = false ∧ c ≠ '='

theorem apart_nil : Apart [] := by
  simp [Apart]

theorem apart_cons {c : Char} {rest : List Char} (word : continuesWord c = false)
    (other : c ≠ '=') :
    Apart (c :: rest) := by
  intro d member
  simp only [List.head?_cons, Option.mem_some_iff] at member
  exact member ▸ ⟨word, other⟩

theorem continuesWord_of_digit {c : Char} (h : isDigit c) : continuesWord c := by
  simp [continuesWord, h]

theorem takeWhile_stop {p : Char → Bool} {cs rest : List Char} (all : ∀ d ∈ cs, p d)
    (stop : ∀ d ∈ rest.head?, p d = false) :
    (cs ++ rest).takeWhile p = cs ∧ (cs ++ rest).dropWhile p = rest := by
  rw [List.takeWhile_append_of_pos all, List.dropWhile_append_of_pos all]
  cases rest with
  | nil => simp
  | cons d rest =>
    have ends : ¬ p d := by simpa using stop d
    simp [ends]

theorem not_blank_of_char {c : Char} {k : Kind} (h : Kind.ofChar? c = some k) :
    isBlank c = false ∧ c ≠ '"' ∧ startsWord c = false ∧ isDigit c = false := by
  unfold Kind.ofChar? at h
  split at h <;> first | decide | simp at h

theorem not_blank_of_pair {c d : Char} {k : Kind} (h : Kind.ofPair? c d = some k) :
    isBlank c = false ∧ c ≠ '"' ∧ startsWord c = false ∧ isDigit c = false := by
  unfold Kind.ofPair? at h
  split at h <;> first | decide | simp at h

theorem not_blank_of_word {c : Char} (h : continuesWord c) : isBlank c = false ∧ c ≠ '"' := by
  have blank : isBlank c = false := by
    cases same : isBlank c with
    | false => rfl
    | true =>
      simp only [isBlank, Bool.or_eq_true, decide_eq_true_eq] at same
      rcases same with ((rfl | rfl) | rfl) | rfl <;> simp [continuesWord, startsWord, isDigit] at h
  exact ⟨blank, fun same => by subst same; simp [continuesWord, startsWord, isDigit] at h⟩

theorem not_word_of_digit {c : Char} (h : isDigit c) : startsWord c = false := by
  simp only [isDigit, Bool.and_eq_true, decide_eq_true_eq] at h
  simp only [startsWord, Bool.or_eq_false_iff, Bool.and_eq_false_iff, decide_eq_false_iff_not]
  have low : c.toNat ≤ '9'.toNat := h.2
  refine ⟨⟨.inl fun le => ?_, .inl fun le => ?_⟩, fun same => ?_⟩
  · have : 'a'.toNat ≤ c.toNat := le
    simp at this low
    omega
  · have : 'A'.toNat ≤ c.toNat := le
    simp at this low
    omega
  · subst same
    simp at low

namespace Token

theorem next?_of_starting {c : Char} {rest : List Char} (blank : isBlank c = false) :
    next? (c :: rest) = some (starting c rest) := by
  simp [next?, blank]

theorem next?_behind_blanks {gap : List Char} (blank : ∀ c ∈ gap, isBlank c) (text : List Char) :
    next? (gap ++ text) = next? text := by
  unfold next?
  rw [List.dropWhile_append_of_pos blank]

theorem starting_single {c : Char} {rest : List Char} (quote : c ≠ '"')
    (word : startsWord c = false) (digit : isDigit c = false)
    (alone : ∀ d ∈ rest.head?, Kind.ofPair? c d = none) : starting c rest = (single c, rest) := by
  cases rest with
  | nil => simp [starting, quote, word, digit, operator]
  | cons d rest =>
    have none : Kind.ofPair? c d = none := alone d rfl
    simp [starting, quote, word, digit, operator, none]

theorem starting_pair {c d : Char} {k : Kind} (found : Kind.ofPair? c d = some k)
    (rest : List Char) : starting c (d :: rest) = (symbol k, rest) := by
  obtain ⟨-, quote, word, digit⟩ := not_blank_of_pair found
  simp [starting, quote, word, digit, operator, found]

theorem single_of_found {c : Char} {k : Kind} (found : Kind.ofChar? c = some k) :
    single c = symbol k := by
  simp [single, found]

end Token

theorem tokens_single {c : Char} {k : Kind} {rest : List Char} (found : Kind.ofChar? c = some k)
    (alone : ∀ d ∈ rest.head?, Kind.ofPair? c d = none) :
    tokens (c :: rest) = Token.symbol k :: tokens rest := by
  obtain ⟨blank, quote, word, digit⟩ := not_blank_of_char found
  refine tokens_of_next? ?_
  rw [Token.next?_of_starting blank, Token.starting_single quote word digit alone,
    Token.single_of_found found]

theorem tokens_pair {c d : Char} {k : Kind} (found : Kind.ofPair? c d = some k) (rest : List Char) :
    tokens (c :: d :: rest) = Token.symbol k :: tokens rest := by
  refine tokens_of_next? ?_
  rw [Token.next?_of_starting (not_blank_of_pair found).1, Token.starting_pair found]

theorem tokens_behind_blanks {gap : List Char} (blank : ∀ c ∈ gap, isBlank c) (text : List Char) :
    tokens (gap ++ text) = tokens text := by
  rw [tokens, tokens.eq_def text, Token.next?_behind_blanks blank]

theorem tokens_blank (rest : List Char) : tokens (' ' :: rest) = tokens rest := by
  have blank : ∀ c ∈ [' '], isBlank c := by simp [isBlank]
  exact tokens_behind_blanks blank rest

end TernLang
