import TernLang.Syntax.Token

/-!
Reading tokens off text. `next?` takes one token from the front of the text and `tokens` takes all
of them; every character is part of a token or blank, so nothing is refused: a character that starts
no token, or a string without its closing quote, is an `illegal` token.
-/
namespace TernLang

def isBlank (c : Char) : Bool := c = ' ' || c = '\t' || c = '\r' || c = '\n'

def isDigit (c : Char) : Bool := '0' ≤ c && c ≤ '9'

def startsWord (c : Char) : Bool := 'a' ≤ c && c ≤ 'z' || 'A' ≤ c && c ≤ 'Z' || c = '_'

def continuesWord (c : Char) : Bool := startsWord c || isDigit c

/-- The content of a string whose opening quote is gone, and what follows its closing quote. A
backslash protects the character after it; both stay in the content. -/
def stringBody? : List Char → Option (List Char × List Char)
  | [] => none
  | '"' :: rest => some ([], rest)
  | '\\' :: c :: rest => (stringBody? rest).map fun (body, after) => ('\\' :: c :: body, after)
  | c :: rest => (stringBody? rest).map fun (body, after) => (c :: body, after)

namespace Token

def quoted (rest : List Char) : Token × List Char :=
  match stringBody? rest with
  | some (body, after) => (⟨.string, String.ofList body⟩, after)
  | none => (⟨.illegal, String.ofList ('"' :: rest)⟩, [])

def single (c : Char) : Token :=
  match Kind.ofChar? c with
  | some k => symbol k
  | none => ⟨.illegal, String.ofList [c]⟩

def operator (c : Char) : List Char → Token × List Char
  | [] => (single c, [])
  | d :: rest =>
    match Kind.ofPair? c d with
    | some k => (symbol k, rest)
    | none => (single c, d :: rest)

def starting (c : Char) (rest : List Char) : Token × List Char :=
  if c = '"' then quoted rest
  else if startsWord c then
    let word := String.ofList (c :: rest.takeWhile continuesWord)
    (⟨.ofWord word, word⟩, rest.dropWhile continuesWord)
  else if isDigit c then
    (⟨.int, String.ofList (c :: rest.takeWhile isDigit)⟩, rest.dropWhile isDigit)
  else operator c rest

/-- The first token of the text and what follows it, or nothing when only blanks are left. -/
def next? (text : List Char) : Option (Token × List Char) :=
  match text.dropWhile isBlank with
  | [] => none
  | c :: rest => some (starting c rest)

end Token

theorem length_dropWhile_le {α : Type} (p : α → Bool) (xs : List α) :
    (xs.dropWhile p).length ≤ xs.length :=
  (List.dropWhile_sublist p).length_le

theorem stringBody?_shorter {text body after : List Char}
    (h : stringBody? text = some (body, after)) : after.length < text.length := by
  fun_induction stringBody? text generalizing body after with
  | case1 => simp at h
  | case2 rest => simp_all
  | case3 c rest ih =>
    obtain ⟨⟨b, a⟩, found, same⟩ := Option.map_eq_some_iff.mp h
    simp only [Prod.mk.injEq] at same
    have := ih (same.2 ▸ found)
    simp only [List.length_cons]; omega
  | case4 c rest _ _ ih =>
    obtain ⟨⟨b, a⟩, found, same⟩ := Option.map_eq_some_iff.mp h
    simp only [Prod.mk.injEq] at same
    have := ih (same.2 ▸ found)
    simp only [List.length_cons]; omega

namespace Token

theorem operator_shorter (c : Char) (rest : List Char) :
    (operator c rest).2.length ≤ rest.length := by
  unfold operator
  split
  · simp
  · split <;> simp

theorem quoted_shorter (rest : List Char) : (quoted rest).2.length ≤ rest.length := by
  unfold quoted
  split
  · rename_i found; exact Nat.le_of_lt (stringBody?_shorter found)
  · simp

theorem starting_shorter (c : Char) (rest : List Char) :
    (starting c rest).2.length ≤ rest.length := by
  unfold starting
  split
  · exact quoted_shorter rest
  · split
    · exact length_dropWhile_le _ _
    · split
      · exact length_dropWhile_le _ _
      · exact operator_shorter c rest

theorem next?_shorter {text : List Char} {token : Token} {rest : List Char}
    (h : next? text = some (token, rest)) : rest.length < text.length := by
  have blanks := length_dropWhile_le isBlank text
  unfold next? at h
  split at h
  · simp at h
  · rename_i c cs cut
    have taken := starting_shorter c cs
    simp only [Option.some.injEq] at h
    rw [cut] at blanks
    rw [h] at taken
    simp only [List.length_cons] at blanks
    exact Nat.lt_of_lt_of_le (Nat.lt_succ_of_le taken) blanks

end Token

/-- All tokens of the text. The end of the text is no token: `Token.eof` stands for it wherever one
is looked for past the last. -/
def tokens (text : List Char) : List Token :=
  match _h : Token.next? text with
  | none => []
  | some (token, rest) => token :: tokens rest
termination_by text.length
decreasing_by exact Token.next?_shorter _h

end TernLang
