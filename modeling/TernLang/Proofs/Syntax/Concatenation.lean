import TernLang.Proofs.Syntax.StatementParts
import Mathlib.Data.List.Infix

/-!
Texts one after the other. A text that ends in a semicolon, outside all braces, is read on its own
whatever follows on the next line, and what follows is read as if it stood alone: no error in one
of them hides, changes or adds anything in the other.
-/
namespace TernLang

/-- A closing brace comes only where one is open, and none is left open. -/
structure Nested (ts : List Token) : Prop where
  prefixes : ∀ us, us <+: ts → 0 ≤ braceSum us
  closed : braceSum ts = 0

instance (ts : List Token) : Decidable (Nested ts) :=
  decidable_of_iff ((∀ us ∈ ts.inits, 0 ≤ braceSum us) ∧ braceSum ts = 0)
    ⟨fun h => ⟨fun us front => h.1 us ((List.mem_inits us ts).mpr front), h.2⟩,
      fun h => ⟨fun us member => h.prefixes us ((List.mem_inits us ts).mp member), h.closed⟩⟩

section
variable {text rest body after : List Char} {c : Char}

theorem stringBody?_append (h : stringBody? text = some (body, after)) (rest : List Char) :
    stringBody? (text ++ rest) = some (body, after ++ rest) := by
  fun_induction stringBody? text generalizing body after with
  | case1 => cases h
  | case2 text =>
    cases h
    rfl
  | case3 c text ih =>
    obtain ⟨⟨inner, last⟩, found, same⟩ := Option.map_eq_some_iff.mp h
    cases same
    simp [stringBody?, ih found]
  | case4 c text quote escape ih =>
    obtain ⟨⟨inner, last⟩, found, same⟩ := Option.map_eq_some_iff.mp h
    cases same
    rw [List.cons_append, stringBody?_plain quote (not_escape_of_body escape found)]
    simp [ih found]

theorem takeWhile_append_stop {p : Char → Bool} (stop : p c = false) (text rest : List Char) :
    (text ++ c :: rest).takeWhile p = text.takeWhile p ∧
      (text ++ c :: rest).dropWhile p = text.dropWhile p ++ c :: rest := by
  induction text with
  | nil => simp [stop]
  | cons d text ih =>
    by_cases more : p d
    · simp [more, ih]
    · simp [more]

namespace Token

theorem starting_append (closed : ¬ (starting c text).1.OpenString) (rest : List Char) :
    starting c (text ++ '\n' :: rest) =
      ((starting c text).1, (starting c text).2 ++ '\n' :: rest) := by
  unfold starting at closed ⊢
  split
  · rename_i quote
    unfold quoted
    rcases read : stringBody? text with _ | ⟨body, after⟩
    · simp [quote, quoted, read, OpenString] at closed
    · simp [stringBody?_append read]
  · split
    · obtain ⟨word, later⟩ := takeWhile_append_stop (p := continuesWord) (c := '\n') rfl text rest
      simp only [word, later]
    · split
      · obtain ⟨digits, later⟩ := takeWhile_append_stop (p := isDigit) (c := '\n') rfl text rest
        simp only [digits, later]
      · cases text with
        | nil =>
          have none : Kind.ofPair? c '\n' = none := by simp [Kind.ofPair?]
          simp [operator, none]
        | cons d text =>
          simp only [List.cons_append, operator]
          split
          · rfl
          · rfl

theorem next?_append {t : Token} (next : next? text = some (t, after))
    (closed : ¬ t.OpenString) (rest : List Char) :
    next? (text ++ '\n' :: rest) = some (t, after ++ '\n' :: rest) := by
  unfold next? at next ⊢
  split at next
  · cases next
  · rename_i c cs cut
    have here : (text ++ '\n' :: rest).dropWhile isBlank = c :: (cs ++ '\n' :: rest) := by
      rw [List.dropWhile_append, cut]
      rfl
    have start : starting c cs = (t, after) := Option.some.inj next
    have whole : ¬ (starting c cs).1.OpenString := by
      rw [start]
      exact closed
    rw [here]
    simp only [starting_append whole rest, start]

end Token

theorem tokens_append (closed : ∀ t ∈ tokens text, ¬ t.OpenString) (rest : List Char) :
    tokens (text ++ '\n' :: rest) = tokens text ++ tokens rest := by
  -- On the length: a line break after the last token separates it from what follows.
  induction size : text.length using Nat.strongRecOn generalizing text with
  | ind k ih =>
    rcases next : Token.next? text with _ | ⟨t, after⟩
    · have blank : text.dropWhile isBlank = [] := by
        unfold Token.next? at next
        split at next
        · assumption
        · cases next
      have same : Token.next? (text ++ '\n' :: rest) = Token.next? rest := by
        simp [Token.next?, List.dropWhile_append, blank, isBlank]
      have none : tokens text = [] := by
        rw [tokens, next]
      rw [tokens, same, ← tokens, none, List.nil_append]
    · have whole := tokens_of_next? next
      rw [whole] at closed ⊢
      obtain ⟨first, others⟩ := List.forall_mem_cons.mp closed
      have shorter := Token.next?_shorter next
      rw [tokens_of_next? (Token.next?_append next first rest),
        ih after.length (by omega) others rfl, List.cons_append]

end

def Around.line (later : List Token) (errors : List SyntaxError) (dropped : Nat) : Around :=
  ⟨.semicolon, .inl rfl, 0, later, errors, dropped⟩

namespace Cursor
variable {a : Around} {c d : Cursor} {ts : List Token}

theorem advance_within_last (inside : c.Inside a) (stop : a.stop = .semicolon) (floor : a.floor = 0)
    (none : c.ahead = []) (blocks : c.blocks = []) :
    (c.within a).advance =
      (start a.later).within (.line [] (a.errors ++ c.errors) (a.dropped + c.dropped)) := by
  have braces : c.braces = 0 := by
    obtain ⟨last, level⟩ := inside.at_last none
    rw [Cursor.level, last, stop, floor] at level
    exact Int.sub_eq_zero.mp level
  simp [within, advance, start, peek, none, braces, blocks, Around.line]

end Cursor

open Cursor
variable {a : Around} {c d : Cursor} {n m depth depth' : Nat}

theorem statement_within {s : Option Stmt} (lex : c.Lexed) (fits : c.Fits a) (stops : c.Stops a)
    (deep : 2 * c.rest.length + 3 ≤ depth) (deep' : 2 * c.rest.length + 3 ≤ depth')
    (run : Parse.statement depth c = (s, d)) :
    Parse.statement depth' (c.within a) = (s, d.within a) ∧ c.Before d ∧ d.Fits a := by
  have mirrors := (Parse.mirrors_all a depth depth').2.2 _ deep deep' c lex fits stops
    (Nat.le_refl _)
  unfold Parse.Mirrors Parse.attempt at mirrors
  rw [run] at mirrors
  obtain ⟨same, before, rests⟩ := mirrors
  obtain ⟨answer, left⟩ := Prod.mk.inj same
  exact ⟨Prod.ext (Option.some.inj answer) left, before, rests.fits⟩

/-- Errors before a text do not change how it is read. -/
theorem topLevel_within (alone : a.later = []) (lex : c.Lexed)
    (deep : 2 * c.rest.length + 3 ≤ depth) (deep' : 2 * c.rest.length + 3 ≤ depth')
    (fuel : c.rest.length < n) (fuel' : c.rest.length < m) :
    topLevel depth' m (c.within a) = ((topLevel depth n c).1, (topLevel depth n c).2.within a) := by
  induction n generalizing c m with
  | zero => omega
  | succ n ih =>
    obtain ⟨m, rfl⟩ := Nat.exists_eq_succ_of_ne_zero (Nat.ne_zero_of_lt fuel')
    rw [topLevel, topLevel]
    by_cases last : c.current.kind = .eof
    · have last' : (c.within a).current.kind = .eof := last
      rw [if_pos last, if_pos last']
    · have some' : (c.within a).current.kind ≠ .eof := last
      rw [if_neg last, if_neg some']
      rcases run : Parse.statement depth c with ⟨s, d⟩
      obtain ⟨same, before, -⟩ := statement_within lex (.inl alone) (.inl alone) deep deep' run
      have left := before.ahead_lt last
      have start := rest_advance before.lexed
      have rest := @ih d.advance m before.lexed.advance (by rw [start]; omega)
        (by rw [start]; omega) (by rw [start]; omega) (by rw [start]; omega)
      simp only [same, advance_within (.inl alone), rest]

theorem topLevel_behind {ts : List Token} {size : Nat} (errors : List SyntaxError) (dropped : Nat)
    (lexed : ∀ t ∈ ts, t.Lexed) (deep : 2 * ts.length + 3 ≤ depth) (fuel : ts.length + 1 ≤ n)
    (enough : 2 * ts.length + 3 ≤ size) :
    topLevel depth n ((start ts).within (.line [] errors dropped)) =
      ((topLevel size size (start ts)).1,
        (topLevel size size (start ts)).2.within (.line [] errors dropped)) := by
  have bound := length_start_rest lexed
  exact topLevel_within rfl (start_lexed lexed) (by omega) (by omega) (by omega) (by omega)

theorem topLevel_eof (last : c.current.kind = .eof) : topLevel depth n c = ([], c) := by
  cases n with
  | zero => rfl
  | succ n => rw [topLevel, if_pos last]

theorem topLevel_append {size : Nat} (some : a.later ≠ []) (lexed : ∀ t ∈ a.later, t.Lexed)
    (stop : a.stop = .semicolon) (floor : a.floor = 0) (lex : c.Lexed) (inside : c.Inside a)
    (blocks : c.blocks = []) (deep : 2 * c.rest.length + 3 ≤ depth)
    (deep' : 2 * (c.rest.length + a.later.length) + 3 ≤ depth') (fuel : c.rest.length < n)
    (fuel' : c.rest.length + a.later.length < m) (enough : 2 * a.later.length + 3 ≤ size) :
    topLevel depth' m (c.within a) =
      ((topLevel depth n c).1 ++ (topLevel size size (.start a.later)).1,
        (topLevel size size (.start a.later)).2.within
          (.line [] (a.errors ++ (topLevel depth n c).2.errors)
            (a.dropped + (topLevel depth n c).2.dropped))) := by
  -- The last statement of the part leaves the cursor on the semicolon that ends it, and the whole
  -- text is read on from there.
  induction n generalizing c m with
  | zero => omega
  | succ n ih =>
    obtain ⟨m, rfl⟩ := Nat.exists_eq_succ_of_ne_zero (Nat.ne_zero_of_lt fuel')
    have here := inside.kind_ne_eof lex
    have here' : (c.within a).current.kind ≠ .eof := here
    rcases run : Parse.statement depth c with ⟨s, d⟩
    have deeper : 2 * c.rest.length + 3 ≤ depth' := by omega
    obtain ⟨same, before, fits⟩ :=
      statement_within lex (.inr inside) (.inr (.inl stop)) deep deeper run
    rw [topLevel, topLevel, if_neg here, if_neg here', run, same]
    have inside : d.Inside a := fits.resolve_left some
    have left := before.ahead_lt here
    have start := rest_advance before.lexed
    by_cases last : d.ahead = []
    · have eof : d.advance.current.kind = .eof := by simp [Cursor.advance, peek, last, Token.eof]
      have bound := length_start_rest lexed
      have rest := topLevel_behind (a.errors ++ d.errors) (a.dropped + d.dropped) lexed
        (show _ ≤ depth' by omega) (show _ ≤ m by omega) enough
      simp only [advance_within_last inside stop floor last (before.blocks.trans blocks),
        topLevel_eof eof, rest]
      simp [Cursor.advance, Around.line]
    · have sees : d.Sees a := .inr last
      have rest := @ih d.advance m before.lexed.advance (inside.advance last)
        (before.blocks.trans blocks) (by rw [start]; omega) (by rw [start]; omega)
        (by rw [start]; omega) (by rw [start]; omega)
      simp only [advance_within sees, rest, List.append_assoc]

theorem inside_start {us vs : List Token} {t : Token} (last : us.getLast? = some t)
    (stop : t.kind = .semicolon) (nested : Nested us) : (start us).Inside (.line vs [] 0) := by
  obtain ⟨u, us, rfl⟩ : ∃ u vs, us = u :: vs := by
    cases us with
    | nil => cases last
    | cons u us => exact ⟨u, us, rfl⟩
  have level : (start (u :: us)).level = 0 := by simp [level, start]
  have front := List.dropLast_append_getLast? t last
  refine ⟨?_, ?_, ?_⟩
  · intro w member
    have same := last.symm.trans member
    cases same
    exact stop
  · intro vs within
    rw [level, Int.zero_add]
    exact nested.prefixes vs (within.trans (List.dropLast_prefix _))
  · have closed := nested.closed
    rw [← front, braceSum_append, braceSum, braceSum, stop] at closed
    rw [level, Int.zero_add]
    exact (Int.add_zero _).symm.trans closed

theorem parseTokens_append {us vs : List Token} {t : Token} (lexed : ∀ t ∈ us ++ vs, t.Lexed)
    (last : us.getLast? = some t) (stop : t.kind = .semicolon) (nested : Nested us) :
    (parseTokens (us ++ vs)).1 = (parseTokens us).1 ++ (parseTokens vs).1 ∧
      (parseTokens (us ++ vs)).2.errors =
        (parseTokens us).2.errors ++ (parseTokens vs).2.errors := by
  by_cases none : vs = []
  · subst none
    have empty : parseTokens [] = ([], .start []) := topLevel_eof rfl
    simp [empty, start]
  · obtain ⟨first, later⟩ := List.forall_mem_append.mp lexed
    have whole : (start us).within (.line vs [] 0) = start (us ++ vs) := by
      cases us with
      | nil => cases last
      | cons u us => simp [within, start, Around.line]
    have bound := length_start_rest first
    have parsed : parseTokens (us ++ vs) =
        ((parseTokens us).1 ++ (parseTokens vs).1,
          (parseTokens vs).2.within
            (.line [] (parseTokens us).2.errors (0 + (parseTokens us).2.dropped))) := by
      unfold parseTokens
      rw [← whole]
      refine topLevel_append none later rfl rfl (start_lexed first)
        (inside_start last stop nested) rfl ?_ ?_ ?_ ?_ ?_
      all_goals simp only [parseDepth, List.length_append, Around.line]
      all_goals omega
    rw [parsed]
    exact ⟨rfl, rfl⟩

theorem parse_eq (text : String) : parse text =
    ⟨⟨(parseTokens (tokens text.toList)).1⟩, (parseTokens (tokens text.toList)).2.errors⟩ := rfl

/-- A text that ends in a semicolon, leaves no string open and nests its braces is read as it is
read alone, whatever text follows on the next line, and so is the text that follows: the statements
of both together are those of the first and then those of the second, and so are the errors. -/
theorem parse_append (u v : String) (t : Token) (last : (tokens u.toList).getLast? = some t)
    (stop : t.kind = .semicolon) (closed : ∀ s ∈ tokens u.toList, ¬ s.OpenString)
    (nested : Nested (tokens u.toList)) :
    (parse (u ++ "\n" ++ v)).program.statements =
        (parse u).program.statements ++ (parse v).program.statements ∧
      (parse (u ++ "\n" ++ v)).errors = (parse u).errors ++ (parse v).errors := by
  have text : (u ++ "\n" ++ v).toList = u.toList ++ '\n' :: v.toList := by
    simp [String.toList_append]
  have split := tokens_append closed v.toList
  have lexed : ∀ s ∈ tokens u.toList ++ tokens v.toList, s.Lexed :=
    List.forall_mem_append.mpr ⟨tokens_lexed _, tokens_lexed _⟩
  rw [parse_eq, text, split]
  exact parseTokens_append lexed last stop nested

theorem parse_append_broken :
    (parse ("\x7b)\x7d;" ++ "\n" ++ ")")).errors =
      (parse "\x7b)\x7d;").errors ++ (parse ")").errors := by
  have read : tokens "\x7b)\x7d;".toList =
      [.symbol .lbrace, .symbol .rparen, .symbol .rbrace, .symbol .semicolon] := by
    change tokens ['\x7b', ')', '\x7d', ';'] = _
    rw [tokens_single (k := .lbrace) rfl (by simp [Kind.ofPair?]),
      tokens_single (k := .rparen) rfl (by simp [Kind.ofPair?]),
      tokens_single (k := .rbrace) rfl (by simp [Kind.ofPair?]),
      tokens_single (k := .semicolon) rfl (by simp), tokens]
    rfl
  have both := parse_append "\x7b)\x7d;" ")" (.symbol .semicolon) (by rw [read]; rfl) rfl
    (by rw [read]; decide) (by rw [read]; decide)
  exact both.2

end TernLang
