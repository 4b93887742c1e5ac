import Mathlib.Data.List.Chain
import TernLang.Proofs.Syntax.Concatenation
import TernLang.Proofs.Syntax.Readers

/-!
Progress. A parse ends at the end of the text with every token visited in its order, fuel of twice
the number of tokens is enough for it, and at each place it counts the braces that are open there.
-/
namespace TernLang

def countKind (k : Kind) (ts : List Token) : Nat := ts.countP fun t => t.kind = k

theorem braceSum_eq_counts (ts : List Token) :
    braceSum ts = (countKind .lbrace ts : Int) - countKind .rbrace ts := by
  induction ts with
  | nil => rfl
  | cons t ts ih =>
    rw [braceSum, ih, countKind, countKind, countKind, countKind, List.countP_cons,
      List.countP_cons]
    cases h : t.kind <;> simp [Kind.braceStep] <;> omega

namespace Cursor
variable {c d e : Cursor} {cs : List Cursor} {ts : List Token}

/-- The cursor stands in the text, on the last token that was read or behind the text, and has
counted the braces up to there. -/
def StandsIn (ts : List Token) (c : Cursor) : Prop :=
  ∃ read, ts = read ++ c.ahead ∧
    (read.getLast? = some c.current ∨ c.current = .eof ∧ c.ahead = []) ∧
    c.braces = (countKind .lbrace read : Int) - countKind .rbrace read

theorem standsIn_start (ts : List Token) : (start ts).StandsIn ts := by
  cases ts with
  | nil => exact ⟨[], rfl, .inr ⟨rfl, rfl⟩, rfl⟩
  | cons t ts =>
    refine ⟨[t], rfl, .inl rfl, ?_⟩
    rw [← braceSum_eq_counts]
    exact (Int.add_zero _).symm

theorem StandsIn.advance (h : c.StandsIn ts) : c.advance.StandsIn ts := by
  obtain ⟨read, rfl, -, braces⟩ := h
  rw [← braceSum_eq_counts] at braces
  cases ahead : c.ahead with
  | nil =>
    have eof : c.peek = .eof := by simp [peek, ahead]
    refine ⟨read, by simp [Cursor.advance, ahead], .inr ⟨eof, by simp [Cursor.advance, ahead]⟩, ?_⟩
    rw [← braceSum_eq_counts, ← braces]
    simp [Cursor.advance, eof, Token.eof, Kind.braceStep]
  | cons t us =>
    have next : c.peek = t := by simp [peek, ahead]
    refine ⟨read ++ [t], by simp [Cursor.advance, ahead], .inl ?_, ?_⟩
    · simp [Cursor.advance, next]
    · rw [← braceSum_eq_counts, braceSum_append, ← braces]
      simp [Cursor.advance, next, braceSum]

theorem StandsIn.same (h : c.StandsIn ts) (same : c.SamePlace d) : d.StandsIn ts := by
  rw [StandsIn, same.current, same.ahead, same.braces]
  exact h

theorem StandsIn.next (h : c.StandsIn ts) (next : c.Next d) : d.StandsIn ts :=
  next.elim h.same h.advance.same

theorem Path.standsIn (path : c.Path cs d) (h : c.StandsIn ts) :
    (∀ e ∈ cs, e.StandsIn ts) ∧ d.StandsIn ts := by
  induction cs generalizing c with
  | nil => exact ⟨by simp, h.same path⟩
  | cons e cs ih =>
    have here := h.next path.1
    obtain ⟨others, last⟩ := ih path.2 here
    exact ⟨List.forall_mem_cons.mpr ⟨here, others⟩, last⟩

theorem Path.isChain (path : c.Path cs d) : List.IsChain Next (c :: cs) := by
  induction cs generalizing c with
  | nil => exact List.isChain_singleton c
  | cons e cs ih => exact List.isChain_cons_cons.mpr ⟨path.1, ih path.2⟩

theorem Path.visits {read rest : List Token} {t : Token} (path : c.Path cs d)
    (here : c.current :: c.ahead = read ++ t :: rest) (beyond : d.ahead.length ≤ rest.length) :
    ∃ e ∈ c :: cs, e.current = t ∧ e.ahead = rest := by
  induction cs generalizing c read with
  | nil =>
    cases read with
    | nil => exact ⟨c, List.mem_cons_self, List.cons.inj here⟩
    | cons u read =>
      have stopped : d.ahead = c.ahead := SamePlace.ahead path
      have ahead : c.ahead = read ++ t :: rest := (List.cons.inj here).2
      rw [stopped, ahead, List.length_append, List.length_cons] at beyond
      omega
  | cons e cs ih =>
    cases read with
    | nil => exact ⟨c, List.mem_cons_self, List.cons.inj here⟩
    | cons u read =>
      have later : ∃ f ∈ e :: cs, f.current = t ∧ f.ahead = rest := by
        rcases path.1 with same | next
        · rw [← same.current, ← same.ahead] at here
          exact ih path.2 here
        · have ahead : c.ahead = read ++ t :: rest := (List.cons.inj here).2
          have some : c.ahead ≠ [] := by simp [ahead]
          obtain ⟨v, vs, split⟩ := List.exists_cons_of_ne_nil some
          have moved : e.current :: e.ahead = c.ahead := by
            rw [next.current, next.ahead]
            simp [Cursor.advance, peek, split]
          exact ih path.2 (moved.trans ahead)
      obtain ⟨f, member, found⟩ := later
      exact ⟨f, List.mem_cons_of_mem c member, found⟩

theorem within_nothing (c : Cursor) : c.within (.line [] [] 0) = c := by
  simp [within, Around.line]

theorem at_end (lex : c.Lexed) (last : c.current.kind = .eof) : c.current = .eof ∧ c.ahead = [] := by
  rcases lex.current with lexed | here
  · exact absurd last lexed.kind_ne_eof
  · exact here

end Cursor

open Cursor

theorem visits_all {ts : List Token} {cs : List Cursor} {d : Cursor} (path : (start ts).Path cs d)
    (last : d.ahead = []) (read : List Token) (t : Token) (rest : List Token)
    (split : ts = read ++ t :: rest) : ∃ e ∈ start ts :: cs, e.current = t ∧ e.ahead = rest := by
  have here : (start ts).current :: (start ts).ahead = read ++ t :: rest := by
    cases ts with
    | nil => simp at split
    | cons u us => exact split
  exact path.visits here (by simp [last])

theorem topLevel_enough {ts : List Token} (lexed : ∀ t ∈ ts, t.Lexed) {depth n : Nat}
    (deep : 2 * ts.length + 3 ≤ depth) (fuel : ts.length < n) :
    topLevel depth n (start ts) = parseTokens ts := by
  have enough : 2 * ts.length + 3 ≤ parseDepth ts := by
    have spare := le_parseDepth ts
    omega
  have same := topLevel_behind [] 0 lexed deep fuel enough
  rwa [within_nothing, within_nothing] at same

/-- The tokens were read to their end. The cursor moved forward over one token at a time, over each
of them, and wherever it stood it had counted the braces up to there. -/
structure ReadsThrough (ts : List Token) (ms : List Mark) (d : Cursor) : Prop where
  free : Mark.stuck ∉ ms
  last : d.current = .eof ∧ d.ahead = [] ∧ d.StandsIn ts
  blocks : d.blocks = []
  forward : List.IsChain Next (start ts :: stood ms)
  counted : ∀ c ∈ start ts :: stood ms, c.StandsIn ts
  visited : ∀ read t rest, ts = read ++ t :: rest →
    ∃ c ∈ start ts :: stood ms, c.current = t ∧ c.ahead = rest

/-- Entered anywhere, the parser moves the cursor forward over one token at a time, and leaves the
open blocks as it found them. -/
structure Reader.Proceeds {α : Type} (r : Reader α) (n : Nat) (c : Cursor) : Prop where
  traced : (r.trace n c).2 = r.parse n c
  path : c.Path (stood (r.trace n c).1) (r.parse n c).2
  blocks : (r.parse n c).2.blocks = c.blocks

theorem Reader.proceeds {α : Type} (r : Reader α) (n : Nat) (c : Cursor) : r.Proceeds n c := by
  obtain ⟨ms, a, d, told⟩ := r.told n c
  refine ⟨?_, ?_, ?_⟩
  · rw [told.trace, told.parse]
  · rw [told.trace, told.parse]
    exact told.account.path
  · rw [told.parse]
    exact told.account.blocks

theorem readsThrough {ts : List Token} {ms : List Mark} {d : Cursor}
    (account : Account (start ts) ms 0 d) (free : stucks ms = 0) (lex : d.Lexed)
    (eof : d.current.kind = .eof) : ReadsThrough ts ms d := by
  obtain ⟨last, none⟩ := at_end lex eof
  obtain ⟨on, ends⟩ := account.path.standsIn (standsIn_start ts)
  exact ⟨not_stuck_mem free, ⟨last, none, ends⟩, account.blocks, account.path.isChain,
    List.forall_mem_cons.mpr ⟨standsIn_start ts, on⟩, visits_all account.path none⟩

/-- Every text is parsed to its end, with fuel of twice the number of its tokens and three more, and
more than that changes nothing. All parsers, whatever they are given, keep the open blocks; and
those that have fuel for the tokens that are left never run out of it. -/
theorem parse_reaches_end (text : String) :
    (∃ ms ss d, traceTokens (tokens text.toList) = (ms, ss, d) ∧
      parseTokens (tokens text.toList) = (ss, d) ∧ ReadsThrough (tokens text.toList) ms d ∧
      ∀ depth n, 2 * (tokens text.toList).length + 3 ≤ depth → (tokens text.toList).length < n →
        topLevel depth n (start (tokens text.toList)) = (ss, d)) ∧
      (∀ {α : Type} (r : Reader α) (n : Nat) (c : Cursor), r.Proceeds n c) ∧
      ∀ {α : Type} (r : Reader α) (n : Nat) (c : Cursor), r.Enters n c →
        Mark.stuck ∉ (r.trace n c).1 := by
  refine ⟨?_, fun r n c => r.proceeds n c, ?_⟩
  · have lexed := tokens_lexed text.toList
    have deep := le_parseDepth (tokens text.toList)
    have whole := length_start_rest lexed
    obtain ⟨ms, ss, d, trace, run, account, free, -⟩ := told_text text
    obtain ⟨before, -, eof, -⟩ :=
      topLevel_sound (start_lexed lexed) (by omega) (by omega) run
    refine ⟨ms, ss, d, trace, run, readsThrough account free before.lexed eof, ?_⟩
    intro depth n deep fuel
    rw [← run]
    exact topLevel_enough lexed deep fuel
  · intro α r n c enters
    obtain ⟨ms, a, d, told⟩ := r.told n c
    rw [told.trace]
    exact not_stuck_mem (told.free enters)

theorem parse_reaches_end_broken :
    topLevel 7 3 (start (tokens "\x7b(".toList)) = parseTokens (tokens "\x7b(".toList) ∧
      Mark.stuck ∉ (Reader.hash.trace 7 (start (tokens "\x7b(".toList))).1 := by
  have read : tokens "\x7b(".toList = [.symbol .lbrace, .symbol .lparen] := by
    decide +kernel
  have enters : Reader.hash.Enters 7 (start (tokens "\x7b(".toList)) :=
    Reader.enters_start (by rw [read]; rfl) (by rw [read]; decide)
  obtain ⟨⟨ms, ss, d, -, run, -, same⟩, -, free⟩ := parse_reaches_end "\x7b("
  refine ⟨?_, free Reader.hash 7 _ enters⟩
  rw [run]
  exact same 7 3 (by rw [read]; decide) (by rw [read]; decide)

end TernLang
