import TernLang.Proofs.Syntax.Acceptance
import TernLang.Proofs.Syntax.Throughout

/-!
What is written in a program that has been read. A property that every derived phrase has where it
stands holds throughout such a program, whatever was wrong with its text.
-/
namespace TernLang

namespace Phrase

def Here (P : Node → Prop) : Phrase → Prop
  | .expr _ e | .applied e | .primary e => P (.expr e)
  | .block b => P (.block b)
  | .sentence s => P (.stmt s)
  | _ => True

def Throughout (P : Node → Prop) : Phrase → Prop
  | .expr _ e | .applied e | .primary e => (Node.expr e).Throughout P
  | .items es | .moreItems es => ∀ e ∈ es, (Node.expr e).Throughout P
  | .pairs ps => ∀ p ∈ ps, (Node.expr p.1).Throughout P ∧ (Node.expr p.2).Throughout P
  | .names _ | .moreNames _ => True
  | .block b => (Node.block b).Throughout P
  | .sentence s => (Node.stmt s).Throughout P
  | .statements ss => ∀ s ∈ ss, (Node.stmt s).Throughout P

end Phrase

theorem Derives.throughout {P : Node → Prop}
    (here : ∀ {ph ts}, Derives ph ts → (∀ t ∈ ts, t.Lexed) → ph.Here P) {phrase : Phrase}
    {ts : List Token} (h : Derives phrase ts) (lexed : ∀ t ∈ ts, t.Lexed) :
    phrase.Throughout P := by
  induction h with
  | tighter low h ih => exact ih lexed
  | plain h ih | atom h ih => exact ih lexed
  | grouped opening h closing ih =>
    simp only [List.forall_mem_append, List.forall_mem_cons] at lexed
    exact ih lexed.1.2
  | ident word => exact Node.throughout_leaf (here (.ident word) lexed) rfl
  | int numeral => exact Node.throughout_leaf (here (.int numeral) lexed) rfl
  | str string => exact Node.throughout_leaf (here (.str string) lexed) rfl
  | yes word => exact Node.throughout_leaf (here (.yes word) lexed) rfl
  | no word => exact Node.throughout_leaf (here (.no word) lexed) rfl
  | load word path => exact Node.throughout_leaf (here (.load word path) lexed) rfl
  | exit word code => exact Node.throughout_leaf (here (.exit word code) lexed) rfl
  | brk word => exact Node.throughout_leaf (here (.brk word) lexed) rfl
  | unary op right ih =>
    have whole := here (.unary op right) lexed
    simp only [List.forall_mem_cons] at lexed
    exact Node.throughout_one whole rfl (ih lexed.2)
  | loop word body ih =>
    have whole := here (.loop word body) lexed
    simp only [List.forall_mem_cons] at lexed
    exact Node.throughout_one whole rfl (ih lexed.2)
  | fn word opening parameters closing body names ih =>
    have whole := here (.fn word opening parameters closing body) lexed
    simp only [List.forall_mem_append, List.forall_mem_cons] at lexed
    exact Node.throughout_one whole rfl (ih lexed.2.2)
  | bind word name assign value ih =>
    have whole := here (.bind word name assign value) lexed
    simp only [List.forall_mem_cons] at lexed
    exact Node.throughout_one whole rfl (ih lexed.2.2.2)
  | ret word value ih =>
    have whole := here (.ret word value) lexed
    simp only [List.forall_mem_cons] at lexed
    exact Node.throughout_one whole rfl (ih lexed.2)
  | expr h ih => exact Node.throughout_one (here (.expr h) lexed) rfl (ih lexed)
  | binary left op right first second =>
    have whole := here (.binary left op right) lexed
    simp only [List.forall_mem_append, List.forall_mem_cons] at lexed
    exact Node.throughout_two whole rfl (first lexed.1) (second lexed.2.2)
  | index left opening place closing first second =>
    have whole := here (.index left opening place closing) lexed
    simp only [List.forall_mem_append, List.forall_mem_cons] at lexed
    exact Node.throughout_two whole rfl (first lexed.1.1) (second lexed.1.2.2)
  | cond word opening condition closing consequence first second =>
    have whole := here (.cond word opening condition closing consequence) lexed
    simp only [List.forall_mem_append, List.forall_mem_cons] at lexed
    exact Node.throughout_two whole rfl (first lexed.1.2.2) (second lexed.2.2)
  | condElse word opening condition closing consequence other alternative first second third =>
    -- The one node of three parts.
    apply Node.Throughout.intro
      (here (.condElse word opening condition closing consequence other alternative) lexed)
    simp only [List.forall_mem_append, List.forall_mem_cons] at lexed
    obtain ⟨⟨head, -, block⟩, -, last⟩ := lexed
    intro p inside
    simp only [Node.parts, Expr.parts, Option.toList_some, List.map_cons, List.map_nil,
      List.mem_cons, List.not_mem_nil, or_false] at inside
    rcases inside with rfl | rfl | rfl
    · exact first head.2.2
    · exact second block
    · exact third last
  | call callee opening arguments closing first others =>
    apply Node.Throughout.intro (here (.call callee opening arguments closing) lexed)
    simp only [List.forall_mem_append, List.forall_mem_cons] at lexed
    exact List.forall_mem_cons.mpr ⟨first lexed.1.1, List.forall_mem_map.mpr (others lexed.1.2.2)⟩
  | array opening h closing ih =>
    apply Node.Throughout.intro (here (.array opening h closing) lexed)
    simp only [List.forall_mem_append, List.forall_mem_cons] at lexed
    exact List.forall_mem_map.mpr (ih lexed.1.2)
  | hash opening h closing ih =>
    apply Node.Throughout.intro (here (.hash opening h closing) lexed)
    simp only [List.forall_mem_append, List.forall_mem_cons] at lexed
    intro n inside
    obtain ⟨p, member, inside⟩ := List.mem_flatMap.mp inside
    obtain ⟨key, value⟩ := ih lexed.1.2 p member
    exact List.forall_mem_cons.mpr ⟨key, List.forall_mem_singleton.mpr value⟩ n inside
  | block opening h closing ih =>
    apply Node.Throughout.intro (here (.block opening h closing) lexed)
    simp only [List.forall_mem_append, List.forall_mem_cons] at lexed
    exact List.forall_mem_map.mpr (ih lexed.1.2)
  | noItems | lastItem | noStatements => exact List.forall_mem_nil _
  | someItems first rest here others =>
    simp only [List.forall_mem_append] at lexed
    exact List.forall_mem_cons.mpr ⟨here lexed.1, others lexed.2⟩
  | nextItem comma first rest here others =>
    simp only [List.forall_mem_append, List.forall_mem_cons] at lexed
    exact List.forall_mem_cons.mpr ⟨here lexed.1.2, others lexed.2⟩
  | noPairs => exact List.forall_mem_nil _
  | lastPair key colon value first second =>
    simp only [List.forall_mem_append, List.forall_mem_cons] at lexed
    exact List.forall_mem_singleton.mpr ⟨first lexed.1, second lexed.2.2⟩
  | nextPair key colon value comma rest first second others =>
    simp only [List.forall_mem_append, List.forall_mem_cons] at lexed
    obtain ⟨⟨key, -, value⟩, -, rest⟩ := lexed
    exact List.forall_mem_cons.mpr ⟨⟨first key, second value⟩, others rest⟩
  | noNames | someNames | lastName | nextName => trivial
  | closed first stop rest here others =>
    simp only [List.forall_mem_append, List.forall_mem_cons] at lexed
    exact List.forall_mem_cons.mpr ⟨here lexed.1, others lexed.2.2⟩
  | joined first rest apart here others =>
    simp only [List.forall_mem_append] at lexed
    exact List.forall_mem_cons.mpr ⟨here lexed.1, others lexed.2⟩

/-- Also of a text that is refused, what is read has the property throughout. -/
theorem parse_throughout {P : Node → Prop} (text : String)
    (here : ∀ {ph ts}, Derives ph ts → (∀ t ∈ ts, t.Lexed) → ph.Here P)
    (program : P (.program (parse text).program)) :
    (Node.program (parse text).program).Throughout P := by
  obtain ⟨ts, derived, lexed, -⟩ := parse_sound text
  exact .intro program (List.forall_mem_map.mpr (derived.throughout here lexed))

/-- The node is part of what is read from some text. -/
def Node.Readable (n : Node) : Prop := ∃ text, n.Occurs (.program (parse text).program)

theorem Node.Readable.has {P : Node → Prop} {n : Node} (h : n.Readable)
    (here : ∀ {ph ts}, Derives ph ts → (∀ t ∈ ts, t.Lexed) → ph.Here P)
    (program : ∀ p, P (.program p)) : P n := by
  obtain ⟨text, occurs⟩ := h
  exact (parse_throughout text here (program _)).of_occurs occurs

end TernLang
