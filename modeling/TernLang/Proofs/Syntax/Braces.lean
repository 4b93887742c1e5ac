import TernLang.Proofs.Syntax.Concatenation

/-!
Nested braces. Whatever is derived nests its braces, and in tokens that nest them each opening brace
has one closing brace that belongs to it.
-/
namespace TernLang
variable {ts us vs ws : List Token} {t u : Token} {k : Kind}

namespace Nested

theorem nil : Nested [] := by decide

theorem append (first : Nested ts) (next : Nested us) : Nested (ts ++ us) where
  prefixes vs front := by
    obtain ⟨rest, whole⟩ := front
    rcases List.append_eq_append_iff.mp whole with ⟨ws, same, -⟩ | ⟨ws, same, later⟩
    · exact first.prefixes vs ⟨ws, same.symm⟩
    · rw [same, braceSum_append, first.closed, Int.zero_add]
      exact next.prefixes ws ⟨rest, later.symm⟩
  closed := by rw [braceSum_append, first.closed, next.closed, Int.zero_add]

theorem single (kind : t.kind = k) (flat : k.braceStep = 0) : Nested [t] where
  prefixes vs front := by
    rcases List.prefix_cons_iff.mp front with rfl | ⟨us, rfl, none⟩
    · simp [braceSum]
    · simp [List.prefix_nil.mp none, braceSum, kind, flat]
  closed := by simp [braceSum, kind, flat]

theorem cons (h : Nested ts) (kind : t.kind = k) (flat : k.braceStep = 0) : Nested (t :: ts) :=
  (single kind flat).append h

theorem concat (h : Nested ts) (kind : t.kind = k) (flat : k.braceStep = 0) : Nested (ts ++ [t]) :=
  h.append (single kind flat)

theorem braced (opening : t.kind = .lbrace) (h : Nested ts) (closing : u.kind = .rbrace) :
    Nested (t :: ts ++ [u]) where
  prefixes vs front := by
    have step : t.kind.braceStep = 1 := by rw [opening]; rfl
    rcases List.prefix_concat_iff.mp front with rfl | inner
    · have closed := h.closed
      simp [braceSum, braceSum_append, opening, closing, Kind.braceStep, closed]
    · rcases List.prefix_cons_iff.mp inner with rfl | ⟨ws, rfl, inside⟩
      · simp [braceSum]
      · have level := h.prefixes ws inside
        rw [braceSum, step]
        omega
  closed := by
    have closed := h.closed
    simp [braceSum, braceSum_append, opening, closing, Kind.braceStep, closed]

end Nested

theorem Kind.flat_of_mem_ladder {level : Nat} (op : k ∈ Kind.ladder level) : k.braceStep = 0 := by
  have tight := (Kind.continues_iff k).mp (.inl ⟨level, op⟩)
  cases k with
  | lbrace | rbrace => exact absurd tight (by decide)
  | _ => rfl

theorem Derives.nested {ph : Phrase} (h : Derives ph ts) : Nested ts := by
  induction h with
  | noItems | lastItem | noPairs | noNames | lastName | noStatements => exact .nil
  | tighter _ _ ih | plain _ ih | atom _ ih | expr _ ih => exact ih
  | ident word | str word | yes word | no word | brk word => exact .single word rfl
  | int numeral => exact .single numeral.1 rfl
  | binary _ op _ left right => exact left.append (right.cons rfl (Kind.flat_of_mem_ladder op))
  | unary op _ right =>
    rcases op with op | op
    · exact right.cons op rfl
    · exact right.cons op rfl
  | call _ opening _ closing callee arguments =>
    exact (callee.append (arguments.cons opening rfl)).concat closing rfl
  | index _ opening _ closing left place =>
    exact (left.append (place.cons opening rfl)).concat closing rfl
  | grouped opening _ closing ih => exact (ih.cons opening rfl).concat closing rfl
  | array opening _ closing ih => exact (ih.cons opening rfl).concat closing rfl
  | hash opening _ closing ih => exact .braced opening ih closing
  | block opening _ closing ih => exact .braced opening ih closing
  | cond word opening _ closing _ condition consequence =>
    exact ((condition.cons opening rfl).cons word rfl).append (consequence.cons closing rfl)
  | condElse word opening _ closing _ other _ condition consequence alternative =>
    exact (((condition.cons opening rfl).cons word rfl).append
      (consequence.cons closing rfl)).append (alternative.cons other rfl)
  | fn word opening _ closing _ parameters body =>
    exact ((parameters.cons opening rfl).cons word rfl).append (body.cons closing rfl)
  | loop word _ body => exact body.cons word rfl
  | someItems _ _ first rest => exact first.append rest
  | nextItem comma _ _ first rest => exact (first.cons comma rfl).append rest
  | lastPair _ colon _ key value => exact key.append (value.cons colon rfl)
  | nextPair _ colon _ comma _ key value rest =>
    exact (key.append (value.cons colon rfl)).append (rest.cons comma rfl)
  | someNames word _ rest => exact rest.cons word rfl
  | nextName comma word _ rest => exact (rest.cons word rfl).cons comma rfl
  | bind word name assign _ value => exact ((value.cons assign rfl).cons name rfl).cons word rfl
  | ret word _ value => exact value.cons word rfl
  | load word path => exact (Nested.single path rfl).cons word rfl
  | exit word code => exact (Nested.single code.1 rfl).cons word rfl
  | closed _ stop _ first rest => exact first.append (rest.cons stop rfl)
  | joined _ _ _ first rest => exact first.append rest

theorem Nested.not_beyond (h : Nested ts) (closed : Nested us) (closing : t.kind = .rbrace)
    (beyond : ts = us ++ t :: vs) : False := by
  have level := h.prefixes (us ++ [t]) ⟨vs, by simp [beyond]⟩
  rw [braceSum_append, closed.closed, braceSum, closing] at level
  exact absurd level (by decide)

theorem Nested.end_unique (first : Nested ts) (second : Nested us) (closing : t.kind = .rbrace)
    (closing' : u.kind = .rbrace) (same : ts ++ t :: vs = us ++ u :: ws) :
    ts = us ∧ t = u ∧ vs = ws := by
  rcases List.append_eq_append_iff.mp same with ⟨xs, long, rest⟩ | ⟨xs, long, rest⟩
  · cases xs with
    | nil =>
      simp only [List.nil_append, List.append_nil, List.cons.injEq] at long rest
      exact ⟨long.symm, rest⟩
    | cons x xs =>
      obtain ⟨rfl, -⟩ := List.cons.inj rest
      exact (second.not_beyond first closing long).elim
  · cases xs with
    | nil =>
      simp only [List.nil_append, List.append_nil, List.cons.injEq] at long rest
      exact ⟨long, rest.1.symm, rest.2.symm⟩
    | cons x xs =>
      obtain ⟨rfl, -⟩ := List.cons.inj rest
      exact (first.not_beyond second closing' long).elim

theorem exists_closing (depth : Int) (above : 0 ≤ depth) (less : depth + braceSum ts < 0) :
    ∃ inner r later, ts = inner ++ r :: later ∧ (∀ us, us <+: inner → 0 ≤ depth + braceSum us) ∧
      depth + braceSum inner = 0 ∧ r.kind = .rbrace := by
  -- `depth` is how many braces are open before the tokens.
  induction ts generalizing depth with
  | nil =>
    rw [braceSum] at less
    omega
  | cons t ts ih =>
    rw [braceSum] at less
    by_cases last : depth + t.kind.braceStep < 0
    · have closing : t.kind = .rbrace := by
        by_contra other
        have step := Kind.braceStep_nonneg other
        omega
      rw [closing, Kind.braceStep] at last
      refine ⟨[], t, ts, rfl, ?_, ?_, closing⟩
      · intro us none
        rw [List.prefix_nil.mp none, braceSum]
        omega
      · rw [braceSum]
        omega
    · obtain ⟨inner, r, later, rfl, inside, closed, closing⟩ :=
        ih (depth + t.kind.braceStep) (by omega) (by omega)
      refine ⟨t :: inner, r, later, rfl, ?_, ?_, closing⟩
      · intro us front
        rcases List.prefix_cons_iff.mp front with rfl | ⟨ws, rfl, rest⟩
        · rw [braceSum]
          omega
        · have level := inside ws rest
          rw [braceSum]
          omega
      · rw [braceSum]
        omega

theorem Nested.exists_end (h : Nested (us ++ t :: vs)) (opening : t.kind = .lbrace) :
    ∃ inner r later, vs = inner ++ r :: later ∧ Nested inner ∧ r.kind = .rbrace := by
  have before := h.prefixes us (List.prefix_append _ _)
  have closed := h.closed
  rw [braceSum_append, braceSum, opening, Kind.braceStep] at closed
  obtain ⟨inner, r, later, same, inside, level, closing⟩ :=
    exists_closing 0 (Int.le_refl 0) (show 0 + braceSum vs < 0 by omega)
  refine ⟨inner, r, later, same, ⟨fun us front => ?_, ?_⟩, closing⟩
  · simpa using inside us front
  · simpa using level

end TernLang
