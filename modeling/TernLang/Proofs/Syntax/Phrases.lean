import TernLang.Proofs.Syntax.Grammar

/-!
What is known of derivations alone: how the ladder of the grammar agrees with the precedences of the
parser, and how the tokens of a phrase begin.
-/
namespace TernLang

namespace Kind

theorem precedence_of_ladder {level : Nat} {k : Kind} (h : k ∈ ladder level) :
    level < 6 ∧ k.precedence = level + 1 := by
  match level with
  | 0 | 1 =>
    simp only [ladder, List.mem_singleton] at h
    subst h
    decide
  | 2 | 3 | 4 | 5 =>
    simp only [ladder, List.mem_cons, List.not_mem_nil, or_false] at h
    rcases h with rfl | rfl | rfl | rfl <;> decide
  | _ + 6 => simp [ladder] at h

theorem ladder_of_precedence {k : Kind} (call : k ≠ .lparen) (index : k ≠ .lbracket)
    (some : 0 < k.precedence) : k ∈ ladder (k.precedence - 1) ∧ k.precedence ≤ 6 := by
  cases k <;> first | contradiction | decide

theorem precedence_le_nine (k : Kind) : k.precedence ≤ 9 := by
  cases k <;> decide

theorem continues_iff (k : Kind) : k.Continues ↔ 0 < k.precedence := by
  constructor
  · rintro (⟨level, found⟩ | rfl | rfl)
    · have := precedence_of_ladder found
      omega
    · decide
    · decide
  · intro some
    by_cases call : k = .lparen
    · exact .inr (.inl call)
    · by_cases index : k = .lbracket
      · exact .inr (.inr index)
      · exact .inl ⟨_, (ladder_of_precedence call index some).1⟩

end Kind

theorem Derives.lower {low high : Nat} {e : Expr} {ts : List Token} (le : low ≤ high)
    (bound : high ≤ 6) (h : Derives (.expr high e) ts) : Derives (.expr low e) ts := by
  induction le with
  | refl => exact h
  | step le ih => exact ih (by omega) (.tighter (by omega) h)

def Kind.StartsExpr : Kind → Prop
  | .ident | .int | .string | .trueWord | .falseWord | .bang | .minus | .lparen | .ifWord | .fnWord
  | .lbracket | .lbrace | .loopWord => True
  | _ => False

def Kind.StartsSentence : Kind → Prop
  | .letWord | .returnWord | .importWord | .exitWord | .breakWord => True
  | k => k.StartsExpr

/-- How the tokens of a phrase begin, where it cannot be empty. -/
def Begins : Phrase → List Token → Prop
  | .expr _ _, ts | .applied _, ts | .primary _, ts => ∃ t us, ts = t :: us ∧ t.kind.StartsExpr
  | .block _, ts => ∃ t us, ts = t :: us ∧ t.kind = .lbrace
  | .sentence _, ts => ∃ t us, ts = t :: us ∧ t.kind.StartsSentence
  | .statements _, ts => ∀ t ∈ ts.head?, t.kind.StartsSentence
  | _, _ => True

theorem Kind.StartsExpr.sentence {k : Kind} (h : k.StartsExpr) : k.StartsSentence := by
  cases k <;> first | exact h | exact trivial

theorem Begins.append {ts us : List Token} {P : Kind → Prop}
    (h : ∃ t vs, ts = t :: vs ∧ P t.kind) : ∃ t vs, ts ++ us = t :: vs ∧ P t.kind := by
  obtain ⟨t, vs, rfl, starts⟩ := h
  exact ⟨t, vs ++ us, rfl, starts⟩

theorem begins_statements {s : Stmt} {ss : List Stmt} {ts us : List Token}
    (h : Begins (.sentence s) ts) : Begins (.statements (s :: ss)) (ts ++ us) := by
  obtain ⟨t, vs, rfl, starts⟩ := h
  intro u member
  simp only [List.cons_append, List.head?_cons, Option.mem_some_iff] at member
  exact member ▸ starts

theorem Derives.begins {ph : Phrase} {ts : List Token} (h : Derives ph ts) : Begins ph ts := by
  induction h with
  | binary _ _ _ left _ => exact Begins.append left
  | tighter _ _ inner => exact inner
  | unary op _ _ => exact ⟨_, _, rfl, by rcases op with op | op <;> simp [op, Kind.StartsExpr]⟩
  | plain _ inner => exact inner
  | atom _ inner => exact inner
  | call _ _ _ _ callee _ => exact Begins.append (Begins.append callee)
  | index _ _ _ _ left _ => exact Begins.append (Begins.append left)
  | ident kind | str kind | yes kind | no kind => exact ⟨_, _, rfl, by simp [kind, Kind.StartsExpr]⟩
  | int numeral => exact ⟨_, _, rfl, by simp [numeral.1, Kind.StartsExpr]⟩
  | grouped kind _ _ _ | array kind _ _ _ | hash kind _ _ _ | cond kind _ _ _ _ _ _
  | condElse kind _ _ _ _ _ _ _ _ _ | fn kind _ _ _ _ _ _ | loop kind _ _ =>
    exact ⟨_, _, rfl, by simp [kind, Kind.StartsExpr]⟩
  | noItems | someItems | lastItem | nextItem | noPairs | lastPair | nextPair | noNames | someNames
  | lastName | nextName => exact trivial
  | block opening _ _ _ => exact ⟨_, _, rfl, opening⟩
  | bind kind _ _ _ _ | ret kind _ _ | load kind _ | exit kind _ | brk kind =>
    exact ⟨_, _, rfl, by simp [kind, Kind.StartsSentence]⟩
  | expr _ inner =>
    obtain ⟨t, us, same, starts⟩ := inner
    exact ⟨t, us, same, starts.sentence⟩
  | noStatements => simp [Begins]
  | closed _ _ _ first _ => exact begins_statements first
  | joined _ _ _ first _ => exact begins_statements first

end TernLang
