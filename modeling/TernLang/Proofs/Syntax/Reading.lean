import TernLang.Proofs.Syntax.Spelling
import TernLang.Syntax.Parser

/-!
What a parser may do with the cursor. It moves forward over tokens of the text, it only adds errors,
and it leaves the open blocks as it found them; a parser that answers nothing has reported one error
more than statements were given up. `Parse.Runs` adds to this what is known of an answer, with one
rule for each way of building parsers.
-/
namespace TernLang

def braceSum : List Token → Int
  | [] => 0
  | t :: ts => t.kind.braceStep + braceSum ts

theorem braceSum_append (ts us : List Token) :
    braceSum (ts ++ us) = braceSum ts + braceSum us := by
  induction ts with
  | nil => simp [braceSum]
  | cons t ts ih => simp only [List.cons_append, braceSum, ih, Int.add_assoc]

theorem le_parseDepth (ts : List Token) : 4 * ts.length + 3 ≤ parseDepth ts := by
  unfold parseDepth
  omega

namespace Cursor

def rest (c : Cursor) : List Token := if c.current.kind = .eof then [] else c.current :: c.ahead

structure Lexed (c : Cursor) : Prop where
  ahead : ∀ t ∈ c.ahead, t.Lexed
  current : c.current.Lexed ∨ c.current = .eof ∧ c.ahead = []

def excess (c : Cursor) : Int := c.errors.length - c.dropped

/-- Where a parser that starts at `c` can leave the cursor. -/
structure Before (c d : Cursor) : Prop where
  rest : d.rest <:+ c.rest
  errors : c.errors <+: d.errors
  dropped : c.dropped ≤ d.dropped
  blocks : d.blocks = c.blocks
  braces : d.braces + braceSum d.ahead = c.braces + braceSum c.ahead
  lexed : d.Lexed

variable {c d e : Cursor}

theorem Lexed.refl (h : c.Lexed) : c.Before c :=
  ⟨List.suffix_refl _, List.prefix_refl _, Nat.le_refl _, rfl, rfl, h⟩

theorem Before.trans (first : c.Before d) (next : d.Before e) : c.Before e where
  rest := next.rest.trans first.rest
  errors := first.errors.trans next.errors
  dropped := Nat.le_trans first.dropped next.dropped
  blocks := next.blocks.trans first.blocks
  braces := next.braces.trans first.braces
  lexed := next.lexed

theorem Before.rest_le (h : c.Before d) : d.rest.length ≤ c.rest.length := h.rest.length_le

theorem rest_of_kind {k : Kind} (h : c.current.kind = k) (some : k ≠ .eof) :
    c.rest = c.current :: c.ahead := by
  simp [Cursor.rest, h, some]

theorem start_lexed {ts : List Token} (h : ∀ t ∈ ts, t.Lexed) : (start ts).Lexed := by
  refine ⟨fun t member => h t (List.mem_of_mem_tail member), ?_⟩
  cases ts with
  | nil => exact .inr ⟨rfl, rfl⟩
  | cons t ts => exact .inl (h t (by simp))

theorem start_rest {ts : List Token} (h : ∀ t ∈ ts, t.Lexed) : (start ts).rest = ts := by
  cases ts with
  | nil => rfl
  | cons t ts => exact rest_of_kind rfl (h t (by simp)).kind_ne_eof

theorem length_start_rest {ts : List Token} (h : ∀ t ∈ ts, t.Lexed) :
    (start ts).rest.length = ts.length := by
  rw [start_rest h]

theorem rest_advance (h : c.Lexed) : c.advance.rest = c.ahead := by
  cases ahead : c.ahead with
  | nil => simp [Cursor.rest, advance, peek, ahead, Token.eof]
  | cons t ts =>
    have lexed := h.ahead t (by simp [ahead])
    simp [Cursor.rest, advance, peek, ahead, lexed.kind_ne_eof]

theorem ahead_suffix_rest (h : c.Lexed) : c.ahead <:+ c.rest := by
  rcases h.current with lexed | ⟨_, none⟩
  · rw [rest_of_kind rfl lexed.kind_ne_eof]
    exact List.suffix_cons _ _
  · simp [none]

theorem Lexed.advance (h : c.Lexed) : c.advance.Lexed where
  ahead t member := h.ahead t (List.mem_of_mem_tail member)
  current := by
    cases ahead : c.ahead with
    | nil => exact .inr (by simp [Cursor.advance, peek, ahead])
    | cons t ts =>
      have lexed := h.ahead t (by simp [ahead])
      exact .inl (by simpa [Cursor.advance, peek, ahead] using lexed)

theorem before_advance (h : c.Lexed) : c.Before c.advance where
  rest := rest_advance h ▸ ahead_suffix_rest h
  errors := List.prefix_refl _
  dropped := Nat.le_refl _
  blocks := rfl
  braces := by
    cases ahead : c.ahead with
    | nil => simp [advance, peek, ahead, braceSum, Token.eof, Kind.braceStep]
    | cons t ts => simp [advance, peek, ahead, braceSum]; omega
  lexed := h.advance

theorem before_report (h : c.Lexed) (e : SyntaxError) : c.Before (c.report e) where
  rest := List.suffix_refl _
  errors := List.prefix_append _ _
  dropped := Nat.le_refl _
  blocks := rfl
  braces := rfl
  lexed := ⟨h.ahead, h.current⟩

theorem excess_report (c : Cursor) (e : SyntaxError) : (c.report e).excess = c.excess + 1 := by
  simp [excess, report]; omega

theorem before_skipBroken (h : c.Lexed) : c.Before c.skipBroken := by
  fun_induction skipBroken c with
  | case1 c ends => exact h.refl
  | case2 c more ih => exact (before_advance h).trans (ih h.advance)

theorem skipBroken_counts (c : Cursor) :
    c.skipBroken.errors = c.errors ∧ c.skipBroken.dropped = c.dropped := by
  fun_induction skipBroken c with
  | case1 c ends => exact ⟨rfl, rfl⟩
  | case2 c more ih => exact ih

theorem before_giveUp (h : c.Lexed) : c.Before c.giveUp := by
  have skipped := before_skipBroken h
  exact ⟨skipped.rest, skipped.errors, by simp [giveUp], skipped.blocks, skipped.braces,
    ⟨skipped.lexed.ahead, skipped.lexed.current⟩⟩

theorem Before.errors_eq (first : c.Before d) (next : d.Before e) (same : e.errors = c.errors) :
    e.errors = d.errors ∧ d.errors = c.errors := by
  have here := first.errors.eq_of_length_le (same ▸ next.errors.length_le)
  exact ⟨same.trans here, here.symm⟩

/-- Reading went on from `c` to `d`; if nothing was refused on the way, it went over the tokens
`ts`, the first of which was the next one. -/
structure Moves (c : Cursor) (ts : List Token) (d : Cursor) : Prop where
  before : c.Before d
  lexed : ∀ t ∈ ts, t.Lexed
  clean : d.errors = c.errors → c.ahead = ts ++ d.ahead

structure Enters (c : Cursor) (ts : List Token) (d : Cursor) : Prop where
  before : c.Before d
  lexed : ∀ t ∈ ts, t.Lexed
  first : ∃ us, ts = c.current :: us
  clean : d.errors = c.errors → c.rest = ts ++ d.ahead

variable {ts us : List Token}

theorem Lexed.moves (h : c.Lexed) : c.Moves [] c := ⟨h.refl, by simp, fun _ => rfl⟩

theorem Moves.trans (first : c.Moves ts d) (next : d.Moves us e) : c.Moves (ts ++ us) e where
  before := first.before.trans next.before
  lexed t member := (List.mem_append.mp member).elim (first.lexed t) (next.lexed t)
  clean same := by
    obtain ⟨later, sooner⟩ := first.before.errors_eq next.before same
    rw [first.clean sooner, next.clean later, List.append_assoc]

theorem Enters.trans (first : c.Enters ts d) (next : d.Moves us e) : c.Enters (ts ++ us) e where
  before := first.before.trans next.before
  lexed t member := (List.mem_append.mp member).elim (first.lexed t) (next.lexed t)
  first := by
    obtain ⟨vs, rfl⟩ := first.first
    exact ⟨vs ++ us, rfl⟩
  clean same := by
    obtain ⟨later, sooner⟩ := first.before.errors_eq next.before same
    rw [first.clean sooner, next.clean later, List.append_assoc]

theorem Enters.moves (lex : c.Lexed) (h : c.advance.Enters ts d) : c.Moves ts d where
  before := (before_advance lex).trans h.before
  lexed := h.lexed
  clean same := rest_advance lex ▸ h.clean same

theorem Lexed.current_lexed (h : c.Lexed) (some : c.current.kind ≠ .eof) : c.current.Lexed := by
  rcases h.current with lexed | ⟨eof, _⟩
  · exact lexed
  · simp [eof, Token.eof] at some

theorem Moves.enters (lex : c.Lexed) (some : c.current.kind ≠ .eof) (h : c.Moves ts d) :
    c.Enters (c.current :: ts) d where
  before := h.before
  lexed := List.forall_mem_cons.mpr ⟨lex.current_lexed some, h.lexed⟩
  first := ⟨ts, rfl⟩
  clean same := by rw [rest_of_kind rfl some, h.clean same, List.cons_append]

theorem moves_advance (lex : c.Lexed) (some : c.peek.kind ≠ .eof) : c.Moves [c.peek] c.advance := by
  have here : c.advance.current.kind ≠ .eof := some
  exact ((lex.advance.moves).enters lex.advance here).moves lex

end Cursor

namespace Parse
variable {α β : Type} {p : Parse α} {f : α → Parse β} {c : Cursor} {P R : α → Cursor → Prop}
  {Q : β → Cursor → Prop}

/-- Run at `c` the parser keeps to `Before`. It answers something with `P`, or it answers nothing
and has reported one error that no statement was given up for. -/
def Runs (p : Parse α) (c : Cursor) (P : α → Cursor → Prop) : Prop :=
  match p c with
  | (some a, d) => c.Before d ∧ d.excess = c.excess ∧ P a d
  | (none, d) => c.Before d ∧ d.excess = c.excess + 1

theorem Runs.bind (first : p.Runs c P) (next : ∀ a d, c.Before d → P a d → (f a).Runs d Q) :
    (p >>= f).Runs c Q := by
  unfold Runs at first ⊢
  rcases run : p c with ⟨_ | a, d⟩
  · rw [run] at first
    rw [bind_none run]
    exact first
  · rw [run] at first
    obtain ⟨before, level, known⟩ := first
    have then_ := next a d before known
    unfold Runs at then_
    rw [bind_some run]
    rcases later : f a d with ⟨_ | b, e⟩
    · rw [later] at then_
      exact ⟨before.trans then_.1, by rw [then_.2, level]⟩
    · rw [later] at then_
      exact ⟨before.trans then_.1, by rw [then_.2.1, level], then_.2.2⟩

theorem Runs.mono (h : p.Runs c P) (weaker : ∀ a d, c.Before d → P a d → R a d) : p.Runs c R := by
  unfold Runs at h ⊢
  split at h
  · exact ⟨h.1, h.2.1, weaker _ _ h.1 h.2.2⟩
  · exact h

theorem runs_pure {a : α} (lex : c.Lexed) (h : P a c) : (pure a : Parse α).Runs c P :=
  ⟨lex.refl, rfl, h⟩

theorem runs_fail (lex : c.Lexed) (e : SyntaxError) : (fail e : Parse α).Runs c P :=
  ⟨Cursor.before_report lex e, Cursor.excess_report c e⟩

theorem runs_token {f : Token → Parse β} (h : (f c.current).Runs c Q) : (token >>= f).Runs c Q := h

theorem runs_nextKind {f : Kind → Parse β} (h : (f c.peek.kind).Runs c Q) :
    (nextKind >>= f).Runs c Q := h

theorem runs_ident {f : Ident → Parse β} (h : (f ⟨c.current, c.current.literal⟩).Runs c Q) :
    (ident >>= f).Runs c Q := h

theorem runs_string {f : StrLit → Parse β} (h : (f ⟨c.current, c.current.literal⟩).Runs c Q) :
    (string >>= f).Runs c Q := h

theorem runs_advance {f : Unit → Parse β} (lex : c.Lexed) (h : (f ()).Runs c.advance Q) :
    (advance >>= f).Runs c Q := by
  have moved : advance.Runs c fun _ d => d = c.advance := ⟨Cursor.before_advance lex, rfl, rfl⟩
  apply moved.bind
  intro _ d _ same
  rw [same]
  exact h

theorem before_inBlock {c d : Cursor} (h : c.enterBlock.Before d) : c.Before d.leaveBlock where
  rest := h.rest
  errors := h.errors
  dropped := h.dropped
  blocks := by simp [Cursor.leaveBlock, h.blocks, Cursor.enterBlock]
  braces := h.braces
  lexed := ⟨h.lexed.ahead, h.lexed.current⟩

theorem runs_inBlock (h : p.Runs c.enterBlock P) :
    (inBlock p).Runs c fun a d => ∃ e, d = e.leaveBlock ∧ c.enterBlock.Before e ∧ P a e := by
  unfold Runs at h
  unfold Runs inBlock
  rcases run : p c.enterBlock with ⟨_ | a, d⟩
  · rw [run] at h
    exact ⟨before_inBlock h.1, h.2⟩
  · rw [run] at h
    exact ⟨before_inBlock h.1, h.2.1, d, rfl, h.1, h.2.2⟩

def Took (k : Kind) (c d : Cursor) : Prop :=
  d = c.advance ∧ d.current.kind = k ∧ c.Moves [d.current] d

theorem took_advance {k : Kind} (lex : c.Lexed) (next : c.peek.kind = k) (some : k ≠ .eof) :
    Took k c c.advance :=
  ⟨rfl, next, Cursor.moves_advance lex (next ▸ some)⟩

theorem runs_expect {k : Kind} {f : Unit → Parse β} (lex : c.Lexed) (some : k ≠ .eof)
    (next : ∀ d, c.Before d → Took k c d → (f ()).Runs d Q) : (expect k >>= f).Runs c Q := by
  have expected : (expect k).Runs c fun _ d => Took k c d := by
    apply runs_nextKind
    split
    · rename_i same
      exact ⟨Cursor.before_advance lex, rfl, took_advance lex same some⟩
    · exact runs_fail lex _
  apply expected.bind
  exact fun _ d before took => next d before took

theorem runs_skip {k : Kind} {f : Unit → Parse β} (lex : c.Lexed) (some : k ≠ .eof)
    (took : ∀ d, Took k c d → (f ()).Runs d Q) (stayed : c.peek.kind ≠ k → (f ()).Runs c Q) :
    (skip k >>= f).Runs c Q := by
  have skipped : (skip k).Runs c fun _ d => Took k c d ∨ c = d ∧ c.peek.kind ≠ k := by
    apply runs_nextKind
    split
    · rename_i same
      exact ⟨Cursor.before_advance lex, rfl, .inl (took_advance lex same some)⟩
    · rename_i other
      exact runs_pure lex (.inr ⟨rfl, other⟩)
  apply skipped.bind
  intro _ d _ step
  rcases step with moved | ⟨same, other⟩
  · exact took d moved
  · exact same ▸ stayed other

end Parse
end TernLang
