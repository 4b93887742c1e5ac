import TernLang.Eval.Evaluate
import TernLang.Proofs.Syntax.Literals
import TernLang.Proofs.Value.Throughout

/-!
Integers of 64 bits. A value is in range if all integers in it are, and so are the literals in the
bodies of its functions. Operators answer values in range whatever they are given, and the functions
every program has do if they are given such values and no sequence is too long to be counted.
-/
namespace TernLang

def Fits (n : Int) : Prop := -0x8000000000000000 ≤ n ∧ n ≤ 0x7fffffffffffffff

/-- The integer that the value is, or those that its body says, fit. -/
def Value.Ranged : Value → Prop
  | .int n => Fits n
  | .fn _ b _ => (Node.block b).Throughout Node.ShortLiteral
  | _ => True

def Value.InRange (v : Value) : Prop := v.Throughout Value.Ranged

def Store.InRange (s : Store) : Prop := s.Each Value.InRange

/-- The sequence that the value is can be counted with 63 bits. -/
def Value.Small : Value → Prop
  | .str s => s.toList.length ≤ 0x7fffffffffffffff
  | .array vs => vs.length ≤ 0x7fffffffffffffff
  | _ => True

theorem fits_wrap (n : Int) : Fits (wrap n) := by
  obtain ⟨low, high⟩ := wrap_bounds n
  exact ⟨low, by omega⟩

theorem fits_of_short {n : Int} (h : 0 ≤ n ∧ n ≤ 0x7fffffffffffffff) : Fits n := by
  obtain ⟨low, high⟩ := h
  exact ⟨by omega, high⟩

theorem fits_count {n : Nat} (h : n ≤ 0x7fffffffffffffff) : Fits n := by
  constructor
  · omega
  · omega

namespace Value
variable {v : Value}

theorem inRange_int {n : Int} (h : Fits n) : (int n).InRange := throughout_of_simple rfl h

theorem inRange_bool (b : Bool) : (bool b).InRange := throughout_of_simple rfl trivial

theorem inRange_str (s : String) : (str s).InRange := throughout_of_simple rfl trivial

theorem inRange_null : null.InRange := throughout_of_simple rfl trivial

theorem inRange_builtin (b : Builtin) : (builtin b).InRange := throughout_of_simple rfl trivial

theorem inRange_brk : brk.InRange := throughout_of_simple rfl trivial

theorem inRange_fail (f : Failure) : (fail f).InRange := throughout_of_simple rfl trivial

theorem inRange_fn {ps : List Ident} {b : Block} {home : FrameId}
    (body : (Node.block b).Throughout Node.ShortLiteral) : (fn ps b home).InRange :=
  throughout_of_simple rfl body

theorem inRange_ret (h : v.InRange) : (ret v).InRange :=
  .intro trivial (List.forall_mem_singleton.mpr h)

theorem inRange_array {vs : List Value} (h : ∀ v ∈ vs, v.InRange) : (array vs).InRange :=
  .intro trivial h

theorem inRange_hash {ps : List (Key × Value)}
    (h : ∀ p ∈ ps, p.1.value.InRange ∧ p.2.InRange) : (hash ps).InRange := by
  apply Throughout.intro trivial
  intro v inside
  obtain ⟨p, member, inside⟩ := List.mem_flatMap.mp inside
  obtain ⟨key, value⟩ := h p member
  exact List.forall_mem_cons.mpr ⟨key, List.forall_mem_singleton.mpr value⟩ v inside

theorem InRange.landed (h : v.InRange) : v.landed.InRange := by
  cases v with
  | ret v => exact h.part (List.mem_singleton_self v)
  | brk => exact inRange_fail _
  | int | bool | str | null | array | hash | fn | builtin | err => exact h

theorem InRange.key {k : Key} (h : v.InRange) (found : v.key = .ok k) : k.value.InRange := by
  cases v with
  | int | bool | str =>
    cases found
    exact h
  | null | array | hash | fn | builtin | ret | brk | err => cases found

end Value

namespace Operator

theorem integer?_inRange {op : String} {a b : Int} {v : Value} (h : integer? op a b = some v) :
    v.InRange := by
  unfold integer? at h
  split at h
  case h_1 | h_2 | h_3 =>
    cases h
    exact Value.inRange_int (fits_wrap _)
  case h_4 | h_5 =>
    cases h
    split
    · exact Value.inRange_fail _
    · exact Value.inRange_int (fits_wrap _)
  case h_12 => cases h
  all_goals
    cases h
    exact Value.inRange_bool _

theorem string?_inRange {op s t : String} {v : Value} (h : string? op s t = some v) :
    v.InRange := by
  unfold string? at h
  split at h <;> cases h
  exact Value.inRange_str _

theorem boolean?_inRange {op : String} {a b : Bool} {v : Value} (h : boolean? op a b = some v) :
    v.InRange := by
  unfold boolean? at h
  split at h <;> cases h
  all_goals exact Value.inRange_bool _

theorem binary?_inRange {op : String} {l r v : Value} (h : binary? op l r = some v) :
    v.InRange := by
  unfold binary? at h
  split at h
  · exact integer?_inRange h
  · exact string?_inRange h
  · exact boolean?_inRange h
  · cases h

theorem binary_inRange (op : String) (l r : Value) : (binary op l r).InRange := by
  unfold binary
  split
  · cases found : binary? op l r with
    | none => exact Value.inRange_fail _
    | some v => exact binary?_inRange found
  · exact Value.inRange_fail _

theorem unary_inRange (op : String) (r : Value) : (unary op r).InRange := by
  unfold unary
  split
  · exact Value.inRange_bool _
  · exact Value.inRange_bool _
  · exact Value.inRange_int (fits_wrap _)
  · exact Value.inRange_fail _

end Operator

theorem element_inRange {l r : Value} (h : l.InRange) : (Eval.element l r).InRange := by
  unfold Eval.element
  split
  · rename_i vs n
    split
    · exact Value.inRange_fail _
    · rw [List.getD_eq_getElem?_getD]
      cases found : vs[n.toNat]? with
      | none => exact Value.inRange_fail _
      | some v => exact h.part (List.mem_of_getElem? found)
  · exact Value.inRange_fail _

namespace Builtin
variable {args : List Value}

theorem onSequence_inRange {b : Builtin} {onString : List Char → Value}
    {onArray : List Value → Value} (string : ∀ s, .str s ∈ args → (onString s.toList).InRange)
    (array : ∀ vs, .array vs ∈ args → (onArray vs).InRange) :
    (onSequence b onString onArray args).InRange := by
  unfold onSequence
  split
  · exact string _ (List.mem_singleton_self _)
  · exact array _ (List.mem_singleton_self _)
  · exact Value.inRange_fail _
  · exact Value.inRange_fail _

theorem result_inRange (b : Builtin) (h : ∀ v ∈ args, v.InRange) (small : ∀ v ∈ args, v.Small) :
    (b.result args).InRange := by
  have elements : ∀ vs, .array vs ∈ args → ∀ v ∈ vs, v.InRange :=
    fun vs member v inside => (h _ member).part inside
  unfold result
  split
  · apply onSequence_inRange
    · exact fun s member => Value.inRange_int (fits_count (small _ member))
    · exact fun vs member => Value.inRange_int (fits_count (small _ member))
  · apply onSequence_inRange
    · exact fun s _ => Value.inRange_str _
    · intro vs member
      cases vs with
      | nil => exact Value.inRange_null
      | cons v vs => exact elements _ member v List.mem_cons_self
  · apply onSequence_inRange
    · exact fun s _ => Value.inRange_str _
    · intro vs member
      rw [List.getLastD_eq_getLast?]
      cases last : vs.getLast? with
      | none => exact Value.inRange_null
      | some v => exact elements vs member v (List.mem_of_getLast? last)
  · apply onSequence_inRange
    · exact fun s _ => Value.inRange_str _
    · intro vs member
      apply Value.inRange_array
      exact fun v inside => elements vs member v (List.mem_of_mem_drop inside)
  · rename_i vs v
    apply Value.inRange_array
    intro u inside
    rcases List.mem_append.mp inside with old | new
    · exact elements vs List.mem_cons_self u old
    · obtain rfl := List.mem_singleton.mp new
      exact h u (List.mem_cons_of_mem _ List.mem_cons_self)
  · exact Value.inRange_fail _
  · exact Value.inRange_fail _
  · exact Value.inRange_null

end Builtin
end TernLang
