import TernLang.Proofs.Syntax.ExpressionSoundness

/-!
Parts of a text. A part that closes the braces it opens, and ends in a semicolon or in the brace
that closes what it stands in, is read within a longer text as it is read alone: whatever stands in
it, its parsers do not look behind its last token. `Parse.Mirrors` says this of one parser and one
place.
-/
namespace TernLang

/-- Where a part ends and what it stands in. -/
structure Around where
  /-- The kind of its last token. -/
  stop : Kind
  ends : stop = .semicolon ∨ stop = .rbrace
  /-- Opening less closing braces before its last token. -/
  floor : Int
  later : List Token
  errors : List SyntaxError
  dropped : Nat

theorem Around.braceStep_stop (a : Around) : a.stop.braceStep ≤ 0 := by
  rcases a.ends with stop | stop <;> rw [stop] <;> decide

def Around.Under (a : Around) (L : Int) : Prop := a.later = [] ∨ a.floor ≤ L

theorem Around.Under.raise {a : Around} {L M : Int} (h : a.Under L) (le : L ≤ M) : a.Under M :=
  h.imp id fun low => Int.le_trans low le

abbrev Kind.Plain (k : Kind) : Prop := k ≠ .eof ∧ k ≠ .semicolon ∧ k ≠ .rbrace

theorem Kind.braceStep_nonneg {k : Kind} (other : k ≠ .rbrace) : 0 ≤ k.braceStep := by
  cases k with
  | rbrace => contradiction
  | _ => decide

theorem Kind.plain_of_precedence {k : Kind} (h : 0 < k.precedence) : k.Plain := by
  refine ⟨?_, ?_, ?_⟩ <;> intro same <;> rw [same] at h <;> exact absurd h (by decide)

namespace Cursor
variable {a : Around} {c d : Cursor} {L : Int}

def within (a : Around) (c : Cursor) : Cursor :=
  { c with
    ahead := c.ahead ++ a.later
    errors := a.errors ++ c.errors
    dropped := a.dropped + c.dropped }

def level (c : Cursor) : Int := c.braces - c.current.kind.braceStep

theorem level_advance (c : Cursor) : c.advance.level = c.braces := by
  simp [level, advance]

/-- From here to the end of the part at least as many braces are open before each token as before
the last. -/
structure Inside (a : Around) (c : Cursor) : Prop where
  last : ∀ t ∈ (c.current :: c.ahead).getLast?, t.kind = a.stop
  nested : ∀ ts, ts <+: (c.current :: c.ahead).dropLast → a.floor ≤ c.level + braceSum ts
  closed : c.level + braceSum (c.current :: c.ahead).dropLast = a.floor

theorem Inside.floor_le_level (h : c.Inside a) : a.floor ≤ c.level := by
  simpa [braceSum] using h.nested [] List.nil_prefix

theorem Inside.at_last (h : c.Inside a) (none : c.ahead = []) :
    c.current.kind = a.stop ∧ c.level = a.floor := by
  refine ⟨h.last c.current (by simp [none]), ?_⟩
  simpa [none, braceSum] using h.closed

theorem Inside.kind_ne_eof (h : c.Inside a) (lex : c.Lexed) : c.current.kind ≠ .eof := by
  rcases lex.current with lexed | ⟨eof, none⟩
  · exact lexed.kind_ne_eof
  · have last := (h.at_last none).1
    rw [eof] at last
    rcases a.ends with stop | stop <;> exact absurd (last.trans stop) (by decide)

theorem Inside.ahead_ne_nil_of_braces (h : c.Inside a)
    (deep : a.floor + a.stop.braceStep < c.braces) : c.ahead ≠ [] := by
  intro none
  obtain ⟨stop, level⟩ := h.at_last none
  rw [Cursor.level, stop] at level
  omega

theorem Inside.ahead_ne_nil_of_kind (h : c.Inside a) (other : c.current.kind ≠ .semicolon)
    (deep : a.floor ≤ c.braces) : c.ahead ≠ [] := by
  intro none
  obtain ⟨stop, level⟩ := h.at_last none
  rcases a.ends with ends | ends
  · exact other (stop.trans ends)
  · rw [Cursor.level, stop, ends, Kind.braceStep] at level
    omega

theorem Inside.advance (h : c.Inside a) (some : c.ahead ≠ []) : c.advance.Inside a := by
  obtain ⟨t, ts, ahead⟩ := List.exists_cons_of_ne_nil some
  have here : c.advance.current :: c.advance.ahead = t :: ts := by
    simp [Cursor.advance, peek, ahead]
  have front : (c.current :: c.ahead).dropLast = c.current :: (t :: ts).dropLast := by
    rw [ahead, List.dropLast_cons_cons]
  have closed := h.closed
  rw [front] at closed
  refine ⟨?_, ?_, ?_⟩
  · intro u member
    rw [here] at member
    apply h.last u
    rw [ahead, List.getLast?_cons_cons]
    exact member
  · intro us within
    rw [here] at within
    have nested := h.nested (c.current :: us) (front ▸ List.cons_prefix_cons.mpr ⟨rfl, within⟩)
    rw [level_advance]
    simp only [braceSum, level] at nested
    omega
  · rw [here, level_advance]
    simp only [braceSum, level] at closed ⊢
    omega

def Fits (a : Around) (c : Cursor) : Prop := a.later = [] ∨ c.Inside a

def Sees (a : Around) (c : Cursor) : Prop := a.later = [] ∨ c.ahead ≠ []

/-- Skipping stops at the last token of the part: a semicolon, or the brace that closes the
innermost block. -/
def Stops (a : Around) (c : Cursor) : Prop :=
  a.later = [] ∨ a.stop = .semicolon ∨ ∃ b bs, c.blocks = b :: bs ∧ a.floor ≤ b

theorem Stops.same (h : c.Stops a) (blocks : d.blocks = c.blocks) : d.Stops a := by
  rw [Stops, blocks]
  exact h

theorem Fits.sees_of_braces (h : c.Fits a)
    (deep : a.later = [] ∨ a.floor + a.stop.braceStep < c.braces) : c.Sees a := by
  rcases deep with none | deep
  · exact .inl none
  · exact h.imp id fun inside => inside.ahead_ne_nil_of_braces deep

theorem Fits.under (h : c.Fits a) : a.Under c.level := h.imp id Inside.floor_le_level

theorem Fits.advance (h : c.Fits a) (sees : c.Sees a) : c.advance.Fits a := by
  rcases sees with none | some
  · exact .inl none
  · exact h.imp id fun inside => inside.advance some

theorem Fits.same (h : c.Fits a) (current : d.current = c.current) (ahead : d.ahead = c.ahead)
    (braces : d.braces = c.braces) : d.Fits a := by
  have level : d.level = c.level := by rw [level, current, braces, level]
  refine h.imp id fun inside => ⟨?_, ?_, ?_⟩
  · rw [current, ahead]
    exact inside.last
  · rw [current, ahead, level]
    exact inside.nested
  · rw [current, ahead, level]
    exact inside.closed

theorem peek_within (sees : c.Sees a) : (c.within a).peek = c.peek := by
  rcases sees with none | some
  · simp [peek, within, none]
  · obtain ⟨t, ts, ahead⟩ := List.exists_cons_of_ne_nil some
    simp [peek, within, ahead]

theorem advance_within (sees : c.Sees a) : (c.within a).advance = c.advance.within a := by
  have tail : (c.ahead ++ a.later).tail = c.ahead.tail ++ a.later := by
    rcases sees with none | some
    · simp [none]
    · exact List.tail_append_of_ne_nil some
  have peek := peek_within sees
  simp only [Cursor.advance, peek]
  simp [within, tail]

theorem report_within (c : Cursor) (e : SyntaxError) :
    (c.within a).report e = (c.report e).within a := by
  simp [report, within]

theorem endsBroken_last (inside : c.Inside a) (stops : c.Stops a) (some : a.later ≠ [])
    (none : c.ahead = []) : (c.within a).endsBroken = true := by
  obtain ⟨last, level⟩ := inside.at_last none
  rcases stops.resolve_left some with stop | ⟨b, bs, inner, low⟩
  · have here : (c.within a).current.kind = .semicolon := last.trans stop
    simp [endsBroken, here]
  · rcases a.ends with stop | stop
    · have here : (c.within a).current.kind = .semicolon := last.trans stop
      simp [endsBroken, here]
    · have here : (c.within a).current.kind = .rbrace := last.trans stop
      have blocks : (c.within a).blocks = b :: bs := inner
      have less : (c.within a).braces < b := by
        change c.braces < b
        rw [Cursor.level, last, stop, Kind.braceStep] at level
        omega
      simp [endsBroken, closesBlock, here, blocks, less]

theorem endsBroken_within (h : c.Fits a) (stops : c.Stops a) :
    (c.within a).endsBroken = c.endsBroken := by
  by_cases sees : c.Sees a
  · rw [endsBroken, peek_within sees]
    rfl
  · obtain ⟨some, none⟩ := not_or.mp sees
    have none := Classical.not_not.mp none
    rw [endsBroken_last (h.resolve_left some) stops some none]
    simp [endsBroken, peek, none, Token.eof]

theorem sees_of_not_endsBroken (more : ¬ c.endsBroken = true) : c.Sees a := by
  refine .inr (ahead_ne_nil_of_peek fun last => more ?_)
  simp [endsBroken, last]

theorem skipBroken_within (h : c.Fits a) (stops : c.Stops a) :
    (c.within a).skipBroken = c.skipBroken.within a ∧ c.skipBroken.Fits a := by
  fun_induction skipBroken c with
  | case1 c ends =>
    rw [skipBroken, dif_pos ((endsBroken_within h stops).trans ends)]
    exact ⟨rfl, h⟩
  | case2 c more ih =>
    have sees : c.Sees a := sees_of_not_endsBroken more
    rw [skipBroken, dif_neg (by rw [endsBroken_within h stops]; exact more), advance_within sees]
    exact ih (h.advance sees) stops

theorem giveUp_within (h : c.Fits a) (stops : c.Stops a) :
    (c.within a).giveUp = c.giveUp.within a ∧ c.giveUp.Fits a := by
  obtain ⟨same, fits⟩ := skipBroken_within h stops
  refine ⟨?_, fits.same rfl rfl rfl⟩
  simp only [giveUp, same]
  simp [within, (skipBroken_counts _).2, Nat.add_assoc]

/-- In the part, with at least so many braces open before the current token, and no fewer than
before the last. -/
structure Held (a : Around) (L : Int) (c : Cursor) : Prop where
  lexed : c.Lexed
  fits : c.Fits a
  under : a.Under L
  level : L ≤ c.level

/-- As `Held`, and as many are open behind the current token. -/
structure Stands (a : Around) (L : Int) (c : Cursor) : Prop extends Held a L c where
  braces : L ≤ c.braces

structure Past (a : Around) (L : Int) (c : Cursor) : Prop extends Stands a L c where
  kind : c.current.kind ≠ .semicolon

theorem Held.stands (h : c.Held a L) (other : c.current.kind ≠ .rbrace) : c.Stands a L := by
  have level := h.level
  have step := Kind.braceStep_nonneg other
  rw [Cursor.level] at level
  exact ⟨h, by omega⟩

theorem Held.past {k : Kind} (h : c.Held a L) (kind : c.current.kind = k) (plain : k.Plain) :
    c.Past a L := by
  subst kind
  exact ⟨h.stands plain.2.2, plain.2.1⟩

theorem Held.lower {M : Int} (h : c.Held a M) (under : a.Under L) (le : L ≤ M) : c.Held a L :=
  ⟨h.lexed, h.fits, under, Int.le_trans le h.level⟩

theorem Past.lower {M : Int} (h : c.Past a M) (under : a.Under L) (le : L ≤ M) : c.Past a L :=
  ⟨⟨h.toHeld.lower under le, Int.le_trans le h.braces⟩, h.kind⟩

theorem Past.sees (h : c.Past a L) : c.Sees a := by
  rcases h.under with none | low
  · exact .inl none
  · exact h.fits.imp id fun inside =>
      inside.ahead_ne_nil_of_kind h.kind (Int.le_trans low h.braces)

theorem Past.advance {M : Int} (h : c.Past a L) (le : L ≤ M) (deep : M ≤ c.braces) :
    c.advance.Held a M :=
  ⟨h.lexed.advance, h.fits.advance h.sees, h.under.raise le, by rw [level_advance]; exact deep⟩

theorem Held.same (h : c.Held a L) (current : d.current = c.current) (ahead : d.ahead = c.ahead)
    (braces : d.braces = c.braces) : d.Held a L := by
  refine ⟨⟨?_, ?_⟩, h.fits.same current ahead braces, h.under, ?_⟩
  · rw [ahead]
    exact h.lexed.ahead
  · rw [current, ahead]
    exact h.lexed.current
  · rw [Cursor.level, current, braces]
    exact h.level

end Cursor

namespace Parse
open Cursor
variable {α β : Type} {a : Around} {p q : Parse α} {f g : α → Parse β} {c : Cursor} {L : Int}
  {P R : α → Cursor → Prop} {Q : β → Cursor → Prop} {F G : Cursor → Prop}

/-- In the whole text `q` does what `p` does in the part; `P` is known of an answer, `F` of the
cursor where there is none. -/
def Mirrors (a : Around) (p q : Parse α) (c : Cursor) (P : α → Cursor → Prop)
    (F : Cursor → Prop) : Prop :=
  match p c with
  | (some r, d) => q (c.within a) = (some r, d.within a) ∧ c.Before d ∧ P r d
  | (none, d) => q (c.within a) = (none, d.within a) ∧ c.Before d ∧ F d

theorem Mirrors.bind (first : Mirrors a p q c P F)
    (next : ∀ r d, c.Before d → P r d → Mirrors a (f r) (g r) d Q F) :
    Mirrors a (p >>= f) (q >>= g) c Q F := by
  unfold Mirrors at first ⊢
  rcases run : p c with ⟨_ | r, d⟩
  · rw [run] at first
    rw [bind_none run, bind_none first.1]
    exact ⟨rfl, first.2⟩
  · rw [run] at first
    obtain ⟨same, before, known⟩ := first
    have then_ := next r d before known
    unfold Mirrors at then_
    rw [bind_some run, bind_some same]
    rcases later : f r d with ⟨_ | b, e⟩
    · rw [later] at then_
      exact ⟨then_.1, before.trans then_.2.1, then_.2.2⟩
    · rw [later] at then_
      exact ⟨then_.1, before.trans then_.2.1, then_.2.2⟩

theorem Mirrors.mono (h : Mirrors a p q c P F) (answer : ∀ r d, P r d → R r d)
    (refusal : ∀ d, F d → G d) : Mirrors a p q c R G := by
  unfold Mirrors at h ⊢
  split at h
  · exact ⟨h.1, h.2.1, answer _ _ h.2.2⟩
  · exact ⟨h.1, h.2.1, refusal _ h.2.2⟩

theorem mirrors_pure {r : α} (lex : c.Lexed) (h : P r c) :
    Mirrors a (pure r : Parse α) (pure r) c P F :=
  ⟨rfl, lex.refl, h⟩

theorem mirrors_refusal {e : SyntaxError} (lex : c.Lexed) (h : F (c.report e)) :
    Mirrors a (fail e : Parse α) (fail e) c P F := by
  refine ⟨?_, before_report lex e, h⟩
  change (none, (c.within a).report e) = _
  rw [report_within]

theorem mirrors_fail (held : c.Held a L) (e : SyntaxError) :
    Mirrors a (fail e : Parse α) (fail e) c P (Held a L) :=
  mirrors_refusal held.lexed (held.same rfl rfl rfl)

theorem mirrors_token {f g : Token → Parse β}
    (h : Mirrors a (f c.current) (g c.current) c Q F) :
    Mirrors a (token >>= f) (token >>= g) c Q F := h

theorem mirrors_ident {f g : Ident → Parse β}
    (h : Mirrors a (f ⟨c.current, c.current.literal⟩) (g ⟨c.current, c.current.literal⟩) c Q F) :
    Mirrors a (ident >>= f) (ident >>= g) c Q F := h

theorem mirrors_string {f g : StrLit → Parse β}
    (h : Mirrors a (f ⟨c.current, c.current.literal⟩) (g ⟨c.current, c.current.literal⟩) c Q F) :
    Mirrors a (string >>= f) (string >>= g) c Q F := h

theorem mirrors_nextKind {f g : Kind → Parse β} (sees : c.Sees a)
    (h : Mirrors a (f c.peek.kind) (g c.peek.kind) c Q F) :
    Mirrors a (nextKind >>= f) (nextKind >>= g) c Q F := by
  unfold Mirrors at h ⊢
  have same : (nextKind >>= g) (c.within a) = g c.peek.kind (c.within a) := by
    change g (c.within a).peek.kind (c.within a) = _
    rw [peek_within sees]
  rw [same]
  exact h

theorem mirrors_moved (lex : c.Lexed) (sees : c.Sees a) :
    Mirrors a advance advance c (fun _ d => d = c.advance) F := by
  refine ⟨?_, before_advance lex, rfl⟩
  change (some (), (c.within a).advance) = _
  rw [advance_within sees]

theorem mirrors_step {f g : Unit → Parse β} (lex : c.Lexed) (sees : c.Sees a)
    (h : Mirrors a (f ()) (g ()) c.advance Q F) :
    Mirrors a (advance >>= f) (advance >>= g) c Q F := by
  apply (mirrors_moved lex sees).bind
  intro _ d _ same
  rw [same]
  exact h

theorem mirrors_advance {f g : Unit → Parse β} (past : c.Past a L)
    (h : c.advance.Held a L → Mirrors a (f ()) (g ()) c.advance Q F) :
    Mirrors a (advance >>= f) (advance >>= g) c Q F :=
  mirrors_step past.lexed past.sees (h (past.advance (Int.le_refl L) past.braces))

theorem mirrors_took {k : Kind} (past : c.Past a L) (some : k ≠ .eof) :
    Mirrors a (expect k) (expect k) c (fun _ d => Took k c d) (Held a L) := by
  apply mirrors_nextKind past.sees
  split
  · rename_i same
    apply (mirrors_moved past.lexed past.sees).mono
    · rintro _ d rfl
      exact took_advance past.lexed same some
    · exact fun _ held => held
  · exact mirrors_fail past.toHeld _

theorem mirrors_expect {k : Kind} {f g : Unit → Parse β} (past : c.Past a L) (plain : k.Plain)
    (next : ∀ d, Took k c d → d.Past a L → Mirrors a (f ()) (g ()) d Q (Held a L)) :
    Mirrors a (expect k >>= f) (expect k >>= g) c Q (Held a L) := by
  apply (mirrors_took past plain.1).bind
  intro _ d _ took
  have held : d.Held a L := took.1 ▸ past.advance (Int.le_refl L) past.braces
  exact next d took (held.past took.2.1 plain)

theorem Took.closes {d : Cursor} (took : Took .rbrace c d) (past : c.Past a L)
    (deep : L + 1 ≤ c.braces) : d.Past a L := by
  obtain ⟨rfl, closing, -⟩ := took
  have held := past.advance (by omega) deep
  have level := held.level
  rw [Cursor.level, closing, Kind.braceStep] at level
  exact ⟨⟨held.lower past.under (by omega), by omega⟩, by simp [closing]⟩

/-- As `Mirrors`, for parsers that leave the cursor on the last token of what they read, and all
braces open that were open at the start. -/
abbrev MirrorsPast (a : Around) (L : Int) (p q : Parse α) (c : Cursor) : Prop :=
  Mirrors a p q c (fun _ d => d.Past a L) (Held a L)

theorem mirrors_answer {r : α} (past : c.Past a L) :
    MirrorsPast a L (pure r : Parse α) (pure r) c := mirrors_pure past.lexed past

end Parse
end TernLang
