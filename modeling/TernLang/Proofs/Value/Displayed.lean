import TernLang.Proofs.Syntax.Sentences
import TernLang.Proofs.Syntax.Written
import TernLang.Proofs.Value.Decimals
import TernLang.Proofs.Value.Likeness

/-!
The texts that values are displayed with, read as expressions. Arrays and hashes are displayed as
literals of what is displayed for their elements, negative integers as negations, and functions with
their bodies on lines of their own.
-/
namespace TernLang

def Spelled (P : Expr → Prop) (text : String) : Prop :=
  ∃ e ts, Derives (.expr 0 e) ts ∧ Spells text.toList ts ∧ P e

/-- What a function can be displayed with, its parameters and its body, can be read again. -/
def Node.Reusable : Node → Prop
  | .block b => Reprints (.statements b.statements)
  | .expr (.fn _ ps _) => Reprints (.names ps)
  | _ => True

theorem Derives.reusable {ph : Phrase} {ts : List Token} (h : Derives ph ts)
    (lexed : ∀ t ∈ ts, t.Lexed) : ph.Here Node.Reusable := by
  induction h with
  | tighter _ _ ih | plain _ ih | atom _ ih => exact ih lexed
  | grouped _ _ _ ih =>
    simp only [List.forall_mem_append, List.forall_mem_cons] at lexed
    exact ih lexed.1.2
  | fn _ _ parameters =>
    simp only [List.forall_mem_append, List.forall_mem_cons] at lexed
    exact parameters.reprints lexed.1.2.2
  | block _ inner =>
    simp only [List.forall_mem_append, List.forall_mem_cons] at lexed
    exact inner.reprints lexed.1.2
  | _ => trivial

theorem Node.Readable.reusable {n : Node} (h : n.Readable) : n.Reusable :=
  h.has Derives.reusable fun _ => trivial

theorem Spells.lines {cs : List Char} {ts : List Token} (h : Spells cs ts) :
    Spells ('\n' :: cs ++ ['\n']) ts := by
  have blank : ∀ c ∈ ['\n'], isBlank c := by simp [isBlank]
  intro rest _
  have before : tokens ('\n' :: (cs ++ '\n' :: rest)) = tokens (cs ++ '\n' :: rest) :=
    tokens_behind_blanks blank _
  have behind : tokens ('\n' :: rest) = tokens rest := tokens_behind_blanks blank rest
  rw [List.append_assoc, List.cons_append, List.singleton_append, before,
    h _ (apart_cons (by decide) (by decide)), behind]

section
variable {P : Expr → Prop}

theorem numeral_toDigits {n : Nat} (small : n ≤ 0x7fffffffffffffff) :
    IsNumeral ⟨.int, String.ofList (Nat.toDigits 10 n)⟩ n := by
  have few := length_toDigits small
  refine ⟨rfl, ?_, ?_, small⟩
  · simp only [String.length_ofList]
    omega
  · rw [String.toList_ofList, digitsValue_toDigits]

theorem lexed_toDigits (n : Nat) : Token.Lexed ⟨.int, String.ofList (Nat.toDigits 10 n)⟩ := by
  obtain ⟨c, cs, digits⟩ := exists_toDigits n
  have each : ∀ d ∈ c :: cs, isDigit d := fun d member => isDigit_of_toDigits (digits ▸ member)
  obtain ⟨first, others⟩ := List.forall_mem_cons.mp each
  rw [digits]
  exact .number first others

theorem spells_toDigits (n : Nat) : Spells (Nat.toDigits 10 n)
    [⟨.int, String.ofList (Nat.toDigits 10 n)⟩] := by
  have spells := (lexed_toDigits n).spells_literal nofun nofun
  rwa [String.toList_ofList] at spells

theorem spelled_int {n : Int} (small : n.natAbs ≤ 0x7fffffffffffffff)
    (literal : 0 ≤ n → ∀ t, P (.int ⟨t, n⟩))
    (negation : n < 0 → ∀ t u, P (.unary t "-" (.int ⟨u, n.natAbs⟩))) : Spelled P (toString n) := by
  have numeral := Derives.int (numeral_toDigits small)
  have spells := spells_toDigits n.natAbs
  by_cases positive : 0 ≤ n
  · refine ⟨_, _, (Derives.atom numeral).loosest, ?_, ?_⟩
    · rwa [toList_toString, if_pos positive]
    · rw [Int.natAbs_of_nonneg positive]
      exact literal positive _
  · have operand : Derives (.expr 6 _) _ := .plain (.atom numeral)
    have minus : (Token.symbol .minus).kind = .bang ∨ (Token.symbol .minus).kind = .minus :=
      .inr rfl
    refine ⟨_, _, (Derives.unary minus operand).lower (Nat.zero_le 6) (Nat.le_refl 6), ?_,
      negation (Int.not_le.mp positive) _ _⟩
    rw [toList_toString, if_neg positive]
    exact spells.prefixed (c := '-') rfl nofun nofun

theorem lexed_word (word : String) (first : word.toList.head?.any startsWord)
    (others : word.toList.all continuesWord) : Token.Lexed ⟨.ofWord word, word⟩ := by
  cases chars : word.toList with
  | nil =>
    rw [chars] at first
    cases first
  | cons c cs =>
    rw [chars] at first others
    rw [← String.ofList_toList (s := word), chars]
    exact .word first (List.forall_mem_cons.mp (List.all_eq_true.mp others)).2

theorem spelled_bool {b : Bool} (literal : ∀ t, P (.bool t b)) : Spelled P (boolText b) := by
  cases b with
  | false =>
    have word : Token.Lexed ⟨.falseWord, "false"⟩ :=
      lexed_word "false" (by decide) (by decide)
    exact ⟨_, _, (Derives.atom (.no rfl)).loosest, word.spells_fixed rfl rfl, literal _⟩
  | true =>
    have word : Token.Lexed ⟨.trueWord, "true"⟩ :=
      lexed_word "true" (by decide) (by decide)
    exact ⟨_, _, (Derives.atom (.yes rfl)).loosest, word.spells_fixed rfl rfl, literal _⟩

theorem spelled_fn {ps : List Ident} {b : Block} {t : Token} {a : Block}
    (parameters : (Node.expr (.fn t ps a)).Readable) (body : (Node.block b).Readable)
    (literal : ∀ t c, c.text = b.text → P (.fn t ps c)) : Spelled P (functionText ps b) := by
  obtain ⟨ts, names, spellsNames⟩ := parameters.reusable
  cases b with | mk brace rs =>
  obtain ⟨ss, us, statements, spells, same⟩ := body.reusable
  have word : Token.Lexed ⟨.fnWord, "fn"⟩ := lexed_word "fn" (by decide) (by decide)
  have block := Derives.block (t := .symbol .lbrace) (u := .symbol .rbrace) rfl statements rfl
  refine ⟨_, _, (Derives.atom (.fn (t := ⟨.fnWord, "fn"⟩) (o := .symbol .lparen)
    (p := .symbol .rparen) rfl rfl names rfl block)).loosest, ?_, literal _ _ ?_⟩
  · have whole := (word.spells_fixed rfl rfl).append (spellsNames.parens.blank spells.lines.braces)
      fun rest _ => apart_cons (by decide) (by decide)
    simpa [functionText, braced, Block.text, Block.statements] using whole
  · rw [Block.text, Block.text, ← stmtTexts_unmarked ss, same, stmtTexts_unmarked]
    rfl

end

section
variable {R : Value → Expr → Prop} {vs : List Value} {ps : List (Key × Value)}

theorem exists_moreItems (each : ∀ v ∈ vs, Spelled (R v) v.text) :
    ∃ es ts, Derives (.moreItems es) ts ∧ Spells (behindCommas (vs.map Value.text)) ts ∧
      List.Forall₂ R vs es := by
  induction vs with
  | nil => exact ⟨[], [], .lastItem, .nil, .nil⟩
  | cons v vs ih =>
    obtain ⟨here, others⟩ := List.forall_mem_cons.mp each
    obtain ⟨e, ts, derived, spells, related⟩ := here
    obtain ⟨es, us, rest, spellsRest, all⟩ := ih others
    refine ⟨e :: es, _, .nextItem (kind_symbol .comma) derived rest, ?_, .cons related all⟩
    exact (spells_comma spells).append spellsRest fun rest ends => apart_behindCommas _ ends

theorem spelled_array {P : Expr → Prop} (each : ∀ v ∈ vs, Spelled (R v) v.text)
    (literal : ∀ t es, List.Forall₂ R vs es → P (.array t es)) :
    Spelled P (Value.array vs).text := by
  obtain ⟨es, ts, items, spells, all⟩ : ∃ es ts, Derives (.items es) ts ∧
      Spells (", ".intercalate (vs.map Value.text)).toList ts ∧ List.Forall₂ R vs es := by
    cases vs with
    | nil => exact ⟨[], [], .noItems, .nil, .nil⟩
    | cons v vs =>
      obtain ⟨here, others⟩ := List.forall_mem_cons.mp each
      obtain ⟨e, ts, derived, spells, related⟩ := here
      obtain ⟨es, us, rest, spellsRest, all⟩ := exists_moreItems others
      refine ⟨e :: es, _, .someItems derived rest, ?_, .cons related all⟩
      rw [List.map_cons, intercalate_commas]
      exact spells.append spellsRest fun rest ends => apart_behindCommas _ ends
  refine ⟨_, _, (Derives.atom (.array (kind_symbol .lbracket) items
    (kind_symbol .rbracket))).loosest, ?_, literal _ _ all⟩
  rw [Likeness.text_array]
  simpa using spells.brackets

theorem exists_pairs (keys : ∀ p ∈ ps, Spelled (R p.1.value) p.1.text)
    (each : ∀ p ∈ ps, Spelled (R p.2) p.2.text) : ∃ qs ts, Derives (.pairs qs) ts ∧
      Spells (", ".intercalate (ps.map fun p => p.1.text ++ ": " ++ p.2.text)).toList ts ∧
      List.Forall₂ (fun p q => R p.1.value q.1 ∧ R p.2 q.2) ps qs := by
  induction ps with
  | nil => exact ⟨[], [], .noPairs, .nil, .nil⟩
  | cons p ps ih =>
    obtain ⟨key, keys⟩ := List.forall_mem_cons.mp keys
    obtain ⟨value, each⟩ := List.forall_mem_cons.mp each
    obtain ⟨k, ts, derivedKey, spellsKey, relatedKey⟩ := key
    obtain ⟨v, us, derivedValue, spellsValue, relatedValue⟩ := value
    have pair := spells_pair spellsKey spellsValue
    cases ps with
    | nil =>
      refine ⟨[(k, v)], _, .lastPair derivedKey (kind_symbol .colon) derivedValue, ?_,
        .cons ⟨relatedKey, relatedValue⟩ .nil⟩
      simpa using pair
    | cons q ps =>
      obtain ⟨qs, vs, derived, spells, related⟩ := ih keys each
      refine ⟨(k, v) :: qs, _, .nextPair derivedKey (kind_symbol .colon) derivedValue
        (kind_symbol .comma) derived, ?_, .cons ⟨relatedKey, relatedValue⟩ related⟩
      have whole := pair.delimited (c := ',') ⟨rfl, fun _ => rfl⟩ spells
      simpa [String.intercalate_cons_cons] using whole

theorem spelled_hash {P : Expr → Prop} (keys : ∀ p ∈ ps, Spelled (R p.1.value) p.1.text)
    (each : ∀ p ∈ ps, Spelled (R p.2) p.2.text)
    (literal : ∀ t qs, List.Forall₂ (fun p q => R p.1.value q.1 ∧ R p.2 q.2) ps qs →
      P (.hash t qs)) : Spelled P (Value.hash ps).text := by
  obtain ⟨qs, ts, pairs, spells, related⟩ := exists_pairs keys each
  refine ⟨_, _, (Derives.atom (.hash (kind_symbol .lbrace) pairs
    (kind_symbol .rbrace))).loosest, ?_, literal _ _ related⟩
  rw [Likeness.text_hash]
  simpa [braced] using spells.braces

end

theorem Spelled.parses {P : Expr → Prop} {text : String} (h : Spelled P text) :
    (parse text).errors = [] ∧ ∃ t e, (parse text).program = ⟨[.expr t e]⟩ ∧ P e := by
  obtain ⟨e, ts, derived, spells, has⟩ := h
  obtain ⟨t, us, rfl, -⟩ := derived.begins
  have program : Program.DerivedFrom ⟨[.expr t e]⟩ (tokens text.toList) := by
    rw [spells.tokens_eq, ← List.append_nil (t :: us)]
    exact .joined (.expr derived) .noStatements (by simp)
  obtain ⟨clean, parsed⟩ := parse_complete program
  exact ⟨clean, t, e, parsed, has⟩
end TernLang
