import TernLang.Settings
import Mathlib.Data.Nat.Digits.Defs
import Mathlib.Tactic.Ring

/-!
The limit on nested evaluation as it is written. A numeral stands for its value, and a text that is
not made of digits for the usual limit. In between are the texts that are made of digits and are
still no numeral that is read: for these there is no limit, and no run.
-/
namespace TernLang

namespace Text
variable {c : Char} {cs : List Char} {ds : List Nat} {n start : Nat}

structure Numeral (cs : List Char) (ds : List Nat) : Prop where
  written : cs ≠ []
  values : cs.map decimalValue? = ds.map some

theorem ofDigits_first (d : Nat) (ds : List Nat) :
    Nat.ofDigits 10 (d :: ds).reverse = Nat.ofDigits 10 ds.reverse + 10 ^ ds.length * d := by
  rw [List.reverse_cons, Nat.ofDigits_append, Nat.ofDigits_singleton, List.length_reverse]

theorem foldlM_eq_some_iff :
    cs.foldlM (fun n c => (decimalValue? c).map (10 * n + ·)) start = some n ↔
      ∃ ds : List Nat, cs.map decimalValue? = ds.map some ∧
        n = Nat.ofDigits 10 ds.reverse + 10 ^ ds.length * start := by
  induction cs generalizing start with
  | nil =>
    constructor
    · intro same
      cases same
      exact ⟨[], rfl, by simp⟩
    · rintro ⟨ds, none, rfl⟩
      obtain rfl := List.map_eq_nil_iff.mp none.symm
      simp
  | cons c cs ih =>
    rw [List.foldlM_cons]
    constructor
    · intro read
      obtain ⟨next, first, rest⟩ := Option.bind_eq_some_iff.mp read
      obtain ⟨d, value, rfl⟩ := Option.map_eq_some_iff.mp first
      obtain ⟨ds, values, rfl⟩ := ih.mp rest
      refine ⟨d :: ds, by rw [List.map_cons, List.map_cons, value, values], ?_⟩
      rw [ofDigits_first, List.length_cons, Nat.pow_succ]
      ring
    · rintro ⟨ds, values, rfl⟩
      cases ds with
      | nil => cases values
      | cons d ds =>
        simp only [List.map_cons, List.cons.injEq] at values
        obtain ⟨value, values⟩ := values
        rw [value, Option.map_some]
        apply ih.mpr
        refine ⟨ds, values, ?_⟩
        rw [ofDigits_first, List.length_cons, Nat.pow_succ]
        ring

theorem numeralValue?_eq_some_iff :
    numeralValue? cs = some n ↔ ∃ ds, Numeral cs ds ∧ n = Nat.ofDigits 10 ds.reverse := by
  rw [numeralValue?]
  cases cs with
  | nil => simpa using fun ds (h : Numeral [] ds) => absurd rfl h.written
  | cons c cs =>
    have some : c :: cs ≠ [] := List.cons_ne_nil c cs
    rw [if_neg (by simp), foldlM_eq_some_iff]
    constructor
    · rintro ⟨ds, values, rfl⟩
      exact ⟨ds, ⟨some, values⟩, rfl⟩
    · rintro ⟨ds, numeral, rfl⟩
      exact ⟨ds, numeral.values, rfl⟩

theorem numeralValue?_eq_none_iff (some : cs ≠ []) :
    numeralValue? cs = none ↔ ∃ c ∈ cs, isDecimal c = false := by
  constructor
  · intro none
    by_contra all
    have values : ∀ c ∈ cs, ∃ d, decimalValue? c = .some d := by
      intro c member
      by_contra other
      apply all
      refine ⟨c, member, ?_⟩
      simpa [isDecimal] using Option.eq_none_iff_forall_ne_some.mpr (not_exists.mp other)
    have numeral : Numeral cs (cs.map fun c => (decimalValue? c).getD 0) := by
      refine ⟨some, ?_⟩
      rw [List.map_map]
      apply List.map_congr_left
      intro c member
      obtain ⟨d, value⟩ := values c member
      rw [Function.comp_apply, value, Option.getD_some]
    rw [numeralValue?_eq_some_iff.mpr ⟨_, numeral, rfl⟩] at none
    cases none
  · rintro ⟨c, member, other⟩
    by_contra read
    obtain ⟨n, value⟩ := Option.ne_none_iff_exists'.mp read
    obtain ⟨ds, numeral, -⟩ := numeralValue?_eq_some_iff.mp value
    have listed := numeral.values ▸ List.mem_map_of_mem (f := decimalValue?) member
    obtain ⟨d, -, value⟩ := List.mem_map.mp listed
    simp [isDecimal, ← value] at other

end Text

namespace Settings
variable {s : Settings} {n : Nat}

def limitText (s : Settings) : List Char := (Text.trim (s.limit.getD "")).toList

/-- Made of digits, decimal or not. -/
def WritesDigits (s : Settings) : Prop :=
  s.limitText ≠ [] ∧ ∀ c ∈ s.limitText, Text.isAnyDigit c = true

def WritesNumeral (s : Settings) (n : Nat) : Prop :=
  s.limitText.length ≤ maxLimitDigits ∧
    ∃ ds, Text.Numeral s.limitText ds ∧ n = Nat.ofDigits 10 ds.reverse

theorem recursionLimit?_eq_default (h : ¬ s.WritesDigits) :
    s.recursionLimit? = some defaultRecursionLimit := by
  apply if_pos
  simp only [WritesDigits, limitText, ne_eq, not_and] at h
  by_contra other
  simp only [Bool.or_eq_true, List.isEmpty_iff, Bool.not_eq_true', not_or, Bool.not_eq_false,
    List.all_eq_true] at other
  exact h other.1 other.2

theorem recursionLimit?_eq_numeral (h : s.WritesDigits) :
    s.recursionLimit? =
      if maxLimitDigits < s.limitText.length then none else Text.numeralValue? s.limitText := by
  apply if_neg
  obtain ⟨some, digits⟩ := h
  have digits : s.limitText.all Text.isAnyDigit = true := List.all_eq_true.mpr digits
  have some : s.limitText.isEmpty = false := by simpa using some
  rw [limitText] at digits some
  simp [digits, some]

theorem WritesNumeral.digits (h : s.WritesNumeral n) : s.WritesDigits := by
  obtain ⟨-, ds, numeral, -⟩ := h
  refine ⟨numeral.written, fun c member => ?_⟩
  have listed := numeral.values ▸ List.mem_map_of_mem (f := Text.decimalValue?) member
  obtain ⟨d, -, value⟩ := List.mem_map.mp listed
  simp [Text.isAnyDigit, Text.isDecimal, ← value]

theorem levelOf?_mem {name : String} {level : Nat} (h : levelOf? name = some level) :
    level ∈ [0, 10, 20, 30, 40, 50] := by
  unfold levelOf? at h
  split at h
  all_goals cases h
  all_goals decide

theorem logLevel_mem (s : Settings) : s.logLevel ∈ [0, 10, 20, 30, 40, 50] := by
  unfold logLevel
  split
  · decide
  · rename_i text _
    cases named : levelOf? ((Text.trim text).map capital) with
    | none => decide
    | some level => exact levelOf?_mem named

theorem mem_moduleRoots {p : Path} (member : p ∈ s.moduleRoots) :
    ∃ text, text ≠ "" ∧ p = .of text := by
  unfold moduleRoots at member
  split at member
  · exact ⟨".", by decide, List.mem_singleton.mp member⟩
  · exact ⟨".", by decide, List.mem_singleton.mp member⟩
  · obtain ⟨text, kept, rfl⟩ := List.mem_map.mp member
    exact ⟨text, by simpa using (List.mem_filter.mp kept).2, rfl⟩

/-- There is no limit exactly if what is written is made of digits and is no numeral that is read:
it is too long, or one of the digits is not decimal. Otherwise the limit is the value of the
numeral, or the usual one if what is written is not made of digits. The least level of messages is
one of the known levels, and modules are looked for in directories that have a name, whatever is
written for them. -/
theorem no_limit_iff (s : Settings) :
    (s.recursionLimit? = none ↔ s.WritesDigits ∧
      (maxLimitDigits < s.limitText.length ∨ ∃ c ∈ s.limitText, Text.isDecimal c = false)) ∧
      (∀ n, s.recursionLimit? = some n ↔
        s.WritesNumeral n ∨ ¬ s.WritesDigits ∧ n = defaultRecursionLimit) ∧
      s.logLevel ∈ [0, 10, 20, 30, 40, 50] ∧
      ∀ p ∈ s.moduleRoots, ∃ text, text ≠ "" ∧ p = .of text := by
  refine ⟨?_, ?_, s.logLevel_mem, fun p member => mem_moduleRoots member⟩
  · by_cases digits : s.WritesDigits
    · rw [recursionLimit?_eq_numeral digits, ← Text.numeralValue?_eq_none_iff digits.1]
      by_cases long : maxLimitDigits < s.limitText.length
      · simp [digits, long]
      · simp [digits, long]
    · rw [recursionLimit?_eq_default digits]
      simp [digits]
  · intro n
    by_cases digits : s.WritesDigits
    · rw [recursionLimit?_eq_numeral digits, WritesNumeral, ← Text.numeralValue?_eq_some_iff]
      by_cases long : maxLimitDigits < s.limitText.length
      · simp [digits, long]
      · simp [digits, Nat.not_lt.mp long, long]
    · have plain : ¬ s.WritesNumeral n := fun numeral => digits numeral.digits
      rw [recursionLimit?_eq_default digits]
      simp [digits, plain, eq_comm]

theorem no_limit_superscript :
    (⟨none, none, some "\u00b2"⟩ : Settings).recursionLimit? = none := by
  decide +kernel

end Settings
end TernLang
