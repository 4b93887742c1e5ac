import TernLang.Eval.Evaluate
import TernLang.Proofs.Value.Throughout

/-!
Data values: those that no control value is part of, and the stores that bind nothing else.
Operators, indexing and the functions every program has answer data or an error when they are
given data.
-/
namespace TernLang

/-- A value without a control value in it. The keys of a hash are of a type of their own. -/
inductive Value.Data : Value → Prop where
  | int (n : Int) : Data (.int n)
  | bool (b : Bool) : Data (.bool b)
  | str (s : String) : Data (.str s)
  | null : Data .null
  | array {vs : List Value} (h : ∀ v ∈ vs, Data v) : Data (.array vs)
  | hash {ps : List (Key × Value)} (h : ∀ p ∈ ps, Data p.2) : Data (.hash ps)
  | fn (ps : List Ident) (b : Block) (home : FrameId) : Data (.fn ps b home)
  | builtin (b : Builtin) : Data (.builtin b)

/-- What calls and programs may answer. -/
inductive Value.Outcome : Value → Prop where
  | data {v : Value} (h : v.Data) : Outcome v
  | err (m : String) : Outcome (.err m)

inductive Value.Answer : Value → Prop where
  | outcome {v : Value} (h : v.Outcome) : Answer v
  | ret {v : Value} (h : v.Data) : Answer (.ret v)
  | brk : Answer .brk

/-- What operators answer: a value that no other value is part of and that no frame belongs to. -/
inductive Value.Flat : Value → Prop where
  | int (n : Int) : Flat (.int n)
  | bool (b : Bool) : Flat (.bool b)
  | str (s : String) : Flat (.str s)
  | err (m : String) : Flat (.err m)

def Store.Data (s : Store) : Prop := ∀ f ∈ s.frames, ∀ p ∈ f.vars, p.2.Data

namespace Value
variable {v : Value}

theorem Data.isControl (h : v.Data) : v.isControl = false := by
  cases h <;> rfl

theorem Outcome.fail (f : Failure) : Outcome (.fail f) := .err f.message

theorem Flat.fail (f : Failure) : Flat (.fail f) := .err f.message

theorem Flat.outcome (h : v.Flat) : v.Outcome := by
  cases h with
  | err m => exact .err m
  | int | bool | str => exact .data (by constructor)

theorem Answer.data (h : v.Answer) (free : v.isControl = false) : v.Data := by
  cases h with
  | outcome h =>
    cases h with
    | data h => exact h
    | err => cases free
  | ret | brk => cases free

theorem Answer.landed (h : v.Answer) : v.landed.Outcome := by
  cases h with
  | outcome h =>
    cases h with
    | data h =>
      cases h with
      | array h => exact .data (.array h)
      | hash h => exact .data (.hash h)
      | int | bool | str | null | fn | builtin => exact .data (by constructor)
    | err m => exact .err m
  | ret h => exact .data h
  | brk => exact .fail _

end Value

namespace Store
variable {s : Store}

theorem Data.bind (h : s.Data) (i : FrameId) (name : String) {v : Value} (value : v.Data) :
    (s.bind i name v).Data := Each.bind h i name value

theorem Data.newFrame (h : s.Data) (outer : Option FrameId) : (s.newFrame outer).Data :=
  Each.newFrame h outer

theorem Data.get (h : s.Data) {name : String} {i : FrameId} {v : Value}
    (found : s.get name i = some v) : v.Data := Each.get h found

end Store

namespace Operator

theorem integer?_flat {op : String} {a b : Int} {v : Value} (h : integer? op a b = some v) :
    v.Flat := by
  unfold integer? at h
  split at h
  case h_4 | h_5 =>
    cases h
    split
    · exact .fail _
    · exact .int _
  case h_12 => cases h
  all_goals
    cases h
    constructor

theorem string?_flat {op s t : String} {v : Value} (h : string? op s t = some v) : v.Flat := by
  unfold string? at h
  split at h <;> cases h
  exact .str _

theorem boolean?_flat {op : String} {a b : Bool} {v : Value} (h : boolean? op a b = some v) :
    v.Flat := by
  unfold boolean? at h
  split at h <;> cases h
  all_goals exact .bool _

theorem binary?_flat {op : String} {l r v : Value} (h : binary? op l r = some v) : v.Flat := by
  unfold binary? at h
  split at h
  · exact integer?_flat h
  · exact string?_flat h
  · exact boolean?_flat h
  · cases h

theorem binary_flat (op : String) (l r : Value) : (binary op l r).Flat := by
  unfold binary
  split
  · cases found : binary? op l r with
    | none => exact .fail _
    | some v => exact binary?_flat found
  · exact .fail _

theorem unary_flat (op : String) (r : Value) : (unary op r).Flat := by
  unfold unary
  split
  · exact .bool _
  · exact .bool _
  · exact .int _
  · exact .fail _

theorem binary_outcome (op : String) (l r : Value) : (binary op l r).Outcome :=
  (binary_flat op l r).outcome

theorem unary_outcome (op : String) (r : Value) : (unary op r).Outcome := (unary_flat op r).outcome

end Operator

theorem element_outcome {l r : Value} (h : l.Data) : (Eval.element l r).Outcome := by
  unfold Eval.element
  split
  · rename_i vs n
    cases h with
    | array elements =>
      split
      · exact .fail _
      · cases found : vs[n.toNat]? with
        | none =>
          rw [List.getD_eq_getElem?_getD, found]
          exact .fail _
        | some v =>
          rw [List.getD_eq_getElem?_getD, found]
          exact .data (elements v (List.mem_of_getElem? found))
  · exact .fail _

namespace Builtin

theorem onSequence_outcome {b : Builtin} {onString : List Char → Value}
    {onArray : List Value → Value} {args : List Value} (h : ∀ v ∈ args, v.Data)
    (string : ∀ cs, (onString cs).Data) (array : ∀ vs, (∀ v ∈ vs, v.Data) → (onArray vs).Data) :
    (onSequence b onString onArray args).Outcome := by
  unfold onSequence
  split
  · exact .data (string _)
  · rename_i vs
    have elements := h (.array vs) (by simp)
    cases elements with
    | array elements => exact .data (array vs elements)
  · exact .fail _
  · exact .fail _

theorem result_outcome (b : Builtin) {args : List Value} (h : ∀ v ∈ args, v.Data) :
    (b.result args).Outcome := by
  unfold result
  split
  · apply onSequence_outcome h
    · exact fun cs => .int _
    · exact fun vs _ => .int _
  · apply onSequence_outcome h
    · exact fun cs => .str _
    · intro vs elements
      cases vs with
      | nil => exact .null
      | cons v vs => exact elements v (by simp)
  · apply onSequence_outcome h
    · exact fun cs => .str _
    · intro vs elements
      rw [List.getLastD_eq_getLast?]
      cases last : vs.getLast? with
      | none => exact .null
      | some v => exact elements v (List.mem_of_getLast? last)
  · apply onSequence_outcome h
    · exact fun cs => .str _
    · exact fun vs elements => .array fun v member => elements v (List.mem_of_mem_drop member)
  · rename_i vs v
    have elements := h (.array vs) (by simp)
    cases elements with
    | array elements =>
      apply Value.Outcome.data
      apply Value.Data.array
      intro u member
      rcases List.mem_append.mp member with old | new
      · exact elements u old
      · exact h u (by simp_all)
  · exact .fail _
  · exact .fail _
  · exact .data .null

end Builtin
end TernLang
