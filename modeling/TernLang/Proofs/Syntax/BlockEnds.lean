import TernLang.Proofs.Syntax.Braces

/-!
Where a block ends. Whatever is wrong in it, a block ends in a closing brace, and not behind its
own. It may end before it: what is skipped of a broken statement ends in front of any closing brace,
and the block takes that brace for its own without a look at the number of open braces.
-/
namespace TernLang
open Cursor
variable {c d : Cursor} {inner later : List Token} {r : Token} {n : Nat} {b : Block}

/-- The brace at the cursor belongs to the closing brace `r`: between the two all braces are nested.
Behind `r` comes `later`. -/
structure Cursor.Encloses (c : Cursor) (inner : List Token) (r : Token) (later : List Token) :
    Prop where
  opening : c.current.kind = .lbrace
  ahead : c.ahead = inner ++ r :: later
  nested : Nested inner
  closing : r.kind = .rbrace

def Cursor.upTo (c : Cursor) (inner : List Token) (r : Token) : Cursor :=
  { c with ahead := inner ++ [r] }

def Around.braced (depth : Int) (later : List Token) : Around :=
  ⟨.rbrace, .inr rfl, depth, later, [], 0⟩

namespace Cursor.Encloses

theorem within_upTo (h : c.Encloses inner r later) :
    (c.upTo inner r).within (.braced c.braces later) = c := by
  have ahead := h.ahead
  cases c
  simp only at ahead
  simp [within, upTo, Around.braced, ahead]

theorem lexed_upTo (h : c.Encloses inner r later) (lex : c.Lexed) : (c.upTo inner r).Lexed where
  ahead t member := by
    apply lex.ahead t
    rw [h.ahead]
    have found : t ∈ (inner ++ [r]) ++ later := List.mem_append_left _ member
    simpa using found
  current := .inl (lex.current_lexed (by rw [h.opening]; decide))

theorem inside_upTo (h : c.Encloses inner r later) (around : List Token) :
    (c.upTo inner r).advance.Inside (.braced c.braces around) := by
  have here :
      (c.upTo inner r).advance.current :: (c.upTo inner r).advance.ahead = inner ++ [r] := by
    cases inner with
    | nil => rfl
    | cons t ts => rfl
  have level : (c.upTo inner r).advance.level = c.braces := level_advance _
  refine ⟨?_, ?_, ?_⟩
  · intro t last
    rw [here, List.getLast?_concat] at last
    cases last
    exact h.closing
  · intro ts front
    rw [here, List.dropLast_concat] at front
    have nonneg := h.nested.prefixes ts front
    rw [level]
    change c.braces ≤ _
    omega
  · rw [here, List.dropLast_concat, level, h.nested.closed, Int.add_zero]
    rfl

end Cursor.Encloses

theorem block_mirrors (h : c.Encloses inner r later) (lex : c.Lexed)
    (deep : 2 * c.rest.length + 2 ≤ n) (around : List Token) :
    Parse.Mirrors (.braced c.braces around) (Parse.block n) (Parse.block n) (c.upTo inner r)
      (fun _ d => d.Held (.braced c.braces around) c.braces ∧ d.current.kind = .rbrace)
      (fun d => d.Held (.braced c.braces around) c.braces ∧ d.current.kind = .eof) := by
  obtain ⟨n, rfl⟩ := Nat.exists_eq_succ_of_ne_zero (show n ≠ 0 by omega)
  rw [rest_of_kind h.opening (by decide), List.length_cons] at deep
  have shorter : (c.upTo inner r).ahead.length ≤ c.ahead.length := by
    simp only [upTo, h.ahead, List.length_append, List.length_cons, List.length_nil]
    omega
  have lexed := h.lexed_upTo lex
  have stmts := (Parse.mirrors_all (.braced c.braces around) n n).2.2 c.ahead.length (by omega)
    (by omega)
  apply Parse.mirrors_body stmts lexed
  · exact ⟨lexed.advance, .inr (h.inside_upTo around), .inr (Int.le_refl _),
      Int.le_of_eq (level_advance _).symm⟩
  · exact .inr (by simp [upTo])
  · exact .inr (Int.sub_lt_self _ Int.one_pos)
  · exact shorter
  · omega
  · omega

theorem last_iff_braces {a : Around} (inside : d.Inside a) (closing : d.current.kind = .rbrace) :
    d.ahead = [] ↔ d.braces < a.floor := by
  constructor
  · intro none
    have level := (inside.at_last none).2
    rw [Cursor.level, closing, Kind.braceStep] at level
    omega
  · intro low
    by_contra some
    have level := (inside.advance some).floor_le_level
    rw [level_advance] at level
    omega

theorem block_ends (h : c.Encloses inner r later) (lex : c.Lexed)
    (deep : 2 * c.rest.length + 2 ≤ n) :
    ∃ b d, Parse.block n c = (some b, d) ∧ d.current.kind = .rbrace ∧
      ∃ read left, inner ++ [r] = read ++ d.current :: left ∧ d.ahead = left ++ later ∧
        (left = [] ↔ d.braces < c.braces) := by
  -- The cursor is known to stay in the part only where something comes behind it.
  have alone := block_mirrors h lex deep [r]
  have whole := block_mirrors h lex deep later
  unfold Parse.Mirrors at alone whole
  rcases run : Parse.block n (c.upTo inner r) with ⟨_ | b, d⟩
  · rw [run] at alone
    obtain ⟨-, before, held, eof⟩ := alone
    have inside := held.fits.resolve_left (List.cons_ne_nil r [])
    exact absurd eof (inside.kind_ne_eof before.lexed)
  · rw [run] at alone
    rw [run, h.within_upTo] at whole
    obtain ⟨-, before, held, closing⟩ := alone
    have inside := held.fits.resolve_left (List.cons_ne_nil r [])
    have start : (c.upTo inner r).rest = c.current :: (inner ++ [r]) :=
      rest_of_kind h.opening (by decide)
    have left := before.rest
    rw [rest_of_kind closing (by decide), start] at left
    refine ⟨b, _, whole.1, closing, ?_⟩
    rcases List.suffix_cons_iff.mp left with same | ⟨read, split⟩
    · obtain ⟨first, -⟩ := List.cons.inj same
      rw [first] at closing
      exact absurd (h.opening.symm.trans closing) (by decide)
    · exact ⟨read, d.ahead, split.symm, rfl, last_iff_braces inside closing⟩

/-- A block in which nothing was refused ends in its own brace: what was read of it is derived, so
its braces are nested. -/
theorem ahead_of_clean (h : c.Encloses inner r later) (lex : c.Lexed)
    (deep : 2 * c.rest.length + 2 ≤ n) (run : Parse.block n c = (some b, d))
    (clean : d.errors = c.errors) : d.ahead = later := by
  have reads := (Parse.reads_all n).2.1 _ deep c lex (Nat.le_refl _) h.opening
  unfold Parse.Runs at reads
  rw [run] at reads
  obtain ⟨-, -, ts, derived, entered⟩ := reads
  have read := entered.clean clean
  rw [rest_of_kind h.opening (by decide), h.ahead] at read
  cases derived with
  | @block ss ts t u opening body closing =>
    have same : inner ++ r :: later = ts ++ u :: d.ahead := by
      simpa using (List.cons.inj read).2
    exact ((h.nested.end_unique body.nested h.closing closing same).2.2).symm

theorem last_of_flat {read left : List Token} {t : Token} (flat : ∀ t ∈ inner, t.kind ≠ .rbrace)
    (closing : t.kind = .rbrace) (split : inner ++ [r] = read ++ t :: left) : left = [] := by
  rcases List.eq_nil_or_concat left with rfl | ⟨front, u, rfl⟩
  · rfl
  · have same : inner = read ++ t :: front := by
      rw [List.concat_eq_append, ← List.cons_append, ← List.append_assoc] at split
      exact (List.append_inj' split rfl).1
    exact absurd closing (flat t (by simp [same]))

/-- Wherever a block is entered in a text that nests its braces, with fuel for what is left of it,
the block is answered and ends in a closing brace, its own or one inside it. It is its own exactly
if fewer braces are open then than at the opening one: so it is if no brace is closed inside the
block, and if nothing was refused while the block was read. -/
theorem block_ends_inside (text : String) (nested : Nested (tokens text.toList)) (c : Cursor)
    (here : c.current :: c.ahead <:+ tokens text.toList) (opening : c.current.kind = .lbrace)
    (n : Nat) (deep : 2 * c.ahead.length + 4 ≤ n) :
    ∃ inner r later b d, c.Encloses inner r later ∧ Parse.block n c = (some b, d) ∧
      d.current.kind = .rbrace ∧
      (∃ read left, inner ++ [r] = read ++ d.current :: left ∧ d.ahead = left ++ later) ∧
      (d.current = r ∧ d.ahead = later ↔ d.braces < c.braces) ∧
      ((∀ t ∈ inner, t.kind ≠ .rbrace) ∨ d.errors = c.errors →
        d.current = r ∧ d.ahead = later) := by
  obtain ⟨before, whole⟩ := here
  obtain ⟨inner, r, later, ahead, inside, closing⟩ := (whole ▸ nested).exists_end opening
  have encloses : c.Encloses inner r later := ⟨opening, ahead, inside, closing⟩
  have lexed : ∀ t ∈ c.current :: c.ahead, t.Lexed := fun t member =>
    tokens_lexed text.toList t (whole ▸ List.mem_append_right _ member)
  obtain ⟨first, others⟩ := List.forall_mem_cons.mp lexed
  have lex : c.Lexed := ⟨others, .inl first⟩
  have enough : 2 * c.rest.length + 2 ≤ n := by
    rw [rest_of_kind opening (by decide), List.length_cons]
    omega
  obtain ⟨b, d, run, brace, read, left, split, rest, count⟩ := block_ends encloses lex enough
  have own : d.current = r ∧ d.ahead = later ↔ left = [] := by
    constructor
    · rintro ⟨-, same⟩
      exact List.append_left_eq_self.mp (rest.symm.trans same)
    · rintro rfl
      have last := (List.append_inj' split rfl).2
      exact ⟨(List.cons.inj last).1.symm, rest⟩
  refine ⟨inner, r, later, b, d, encloses, run, brace, ⟨read, left, split, rest⟩,
    own.trans count, ?_⟩
  rintro (flat | clean)
  · exact own.mpr (last_of_flat flat brace split)
  · have same := ahead_of_clean encloses lex enough run clean
    exact own.mpr (List.append_left_eq_self.mp (rest.symm.trans same))

def loopBody (text : String) : Cursor := (start (tokens text.toList)).advance

theorem block_ends_inside_flat :
    Nested (tokens "loop \x7b);)\x7d".toList) ∧
      ∃ b d, Parse.block 12 (loopBody "loop \x7b);)\x7d") = (some b, d) ∧ d.ahead = [] := by
  have read : tokens "loop \x7b);)\x7d".toList = [⟨.loopWord, "loop"⟩, .symbol .lbrace,
      .symbol .rparen, .symbol .semicolon, .symbol .rparen, .symbol .rbrace] := by
    decide +kernel
  have nested : Nested (tokens "loop \x7b);)\x7d".toList) := by
    rw [read]
    decide
  have body : loopBody "loop \x7b);)\x7d" = ⟨.symbol .lbrace,
      [.symbol .rparen, .symbol .semicolon, .symbol .rparen, .symbol .rbrace], 1, [], [], 0⟩ := by
    rw [loopBody, read]
    rfl
  obtain ⟨inner, r, later, b, d, encloses, run, -, -, -, own⟩ := block_ends_inside _ nested
    (loopBody "loop \x7b);)\x7d") (by rw [body, read]; exact List.suffix_cons _ _)
    (by rw [body]; rfl) 12 (by rw [body]; decide)
  have ahead : inner ++ r :: later =
      [.symbol .rparen, .symbol .semicolon, .symbol .rparen] ++ .symbol .rbrace :: [] := by
    rw [← encloses.ahead, body]
    rfl
  obtain ⟨rfl, rfl, rfl⟩ :=
    encloses.nested.end_unique (by decide) encloses.closing rfl ahead
  exact ⟨nested, b, d, run, (own (.inl (by decide))).2⟩

/-- A hash that breaks inside a block ends the block with it, and the brace of the block is reported
as an error. -/
theorem block_ends_early :
    Nested (tokens "loop \x7b\x7b)\x7d\x7d".toList) ∧
      (loopBody "loop \x7b\x7b)\x7d\x7d").Encloses
        [.symbol .lbrace, .symbol .rparen, .symbol .rbrace] (.symbol .rbrace) [] ∧
      (Parse.block 12 (loopBody "loop \x7b\x7b)\x7d\x7d")).2.ahead = [.symbol .rbrace] ∧
      (parse "loop \x7b\x7b)\x7d\x7d").errors = [.noOperand .rparen, .noOperand .rbrace] := by
  have read : tokens "loop \x7b\x7b)\x7d\x7d".toList = [⟨.loopWord, "loop"⟩, .symbol .lbrace,
      .symbol .lbrace, .symbol .rparen, .symbol .rbrace, .symbol .rbrace] := by
    decide +kernel
  refine ⟨by rw [read]; decide, ⟨?_, ?_, by decide, rfl⟩, ?_, ?_⟩
  · rw [loopBody, read]
    rfl
  · rw [loopBody, read]
    rfl
  · rw [loopBody, read]
    decide +kernel
  · rw [parse_eq, read]
    decide +kernel

end TernLang
