import TernLang.Proofs.Value.Likeness

/-!
Operations on values that are alike. Operators, indexing and the functions every program has answer
alike for them, and write the same.
-/
namespace TernLang

namespace Operator
variable {L : Likeness} {k : FrameId} {v u w x : Value}

theorem binary?_flat_of_some {op : String} (h : binary? op v w = some x) : v.Flat ∧ w.Flat := by
  unfold binary? at h
  split at h
  · exact ⟨.int _, .int _⟩
  · exact ⟨.str _, .str _⟩
  · exact ⟨.bool _, .bool _⟩
  · cases h

theorem unary_of_not_flat {op : String} (h : ¬ v.Flat) :
    unary op v = .fail (.noUnary op v.tag) := by
  unfold unary
  split
  · exact absurd (.bool _) h
  · exact absurd (.int _) h
  · exact absurd (.int _) h
  · rfl

theorem unary_alike (op : String) (h : L.Alike k v u) : L.Alike k (unary op v) (unary op u) := by
  have same : unary op u = unary op v := by
    by_cases flat : v.Flat ∨ u.Flat
    · rw [h.eq_of_flat flat]
    · obtain ⟨left, right⟩ := not_or.mp flat
      rw [unary_of_not_flat left, unary_of_not_flat right, h.tag]
  rw [same]
  exact .ofFlat (unary_flat op v)

theorem binary?_eq (op : String) (left : L.Alike k v u) (right : L.Alike k w x) :
    binary? op u x = binary? op v w := by
  cases found : binary? op v w with
  | some y =>
    obtain ⟨flat, alsoFlat⟩ := binary?_flat_of_some found
    rw [left.eq_of_flat (.inl flat), right.eq_of_flat (.inl alsoFlat), found]
  | none =>
    cases other : binary? op u x with
    | none => rfl
    | some y =>
      obtain ⟨flat, alsoFlat⟩ := binary?_flat_of_some other
      rw [left.eq_of_flat (.inr flat), right.eq_of_flat (.inr alsoFlat), found] at other
      cases other

theorem binary_alike (op : String) (left : L.Alike k v u) (right : L.Alike k w x) :
    L.Alike k (binary op v w) (binary op u x) := by
  have same : binary op u x = binary op v w := by
    unfold binary
    rw [left.tag, right.tag, binary?_eq op left right]
  rw [same]
  exact .ofFlat (binary_flat op v w)

end Operator

namespace Likeness
variable {L : Likeness} {k : FrameId}

theorem element_of_not_array {l n : Value} (h : ∀ vs, l ≠ .array vs) :
    Eval.element l n = .fail (.notIndexed l.tag n.tag) := by
  unfold Eval.element
  split
  · exact absurd rfl (h _)
  · rfl

theorem getD_alike {vs us : List Value} (h : List.Forall₂ (L.Alike k) vs us) {v : Value}
    (other : L.Alike k v v) (n : Nat) : L.Alike k (vs.getD n v) (us.getD n v) := by
  induction h generalizing n with
  | nil => exact other
  | cons same rest ih =>
    cases n with
    | zero => exact same
    | succ n => exact ih n

theorem element_alike {l m n o : Value} (left : L.Alike k l m) (index : L.Alike k n o) :
    L.Alike k (Eval.element l n) (Eval.element m o) := by
  cases left with
  | array length each =>
    cases index with
    | int n =>
      simp only [Eval.element]
      by_cases negative : n < 0
      · rw [if_pos negative, if_pos negative]
        exact .fail _
      · rw [if_neg negative, if_neg negative]
        exact getD_alike (Alike.elements (.array length each)) (.fail _) _
    | bool | str | null | builtin | brk | err | ret | array | hash | fn => exact .fail _
  | int | bool | str | null | builtin | brk | err | ret | hash | fn =>
    rw [element_of_not_array (by simp), element_of_not_array (by simp), index.tag]
    exact .fail _

theorem getLastD_alike {vs us : List Value} (h : List.Forall₂ (L.Alike k) vs us) {v u : Value}
    (other : L.Alike k v u) : L.Alike k (vs.getLastD v) (us.getLastD u) := by
  induction h generalizing v u with
  | nil => exact other
  | cons same rest ih =>
    rw [List.getLastD_cons, List.getLastD_cons]
    exact ih same

theorem onSequence_of_many {b : Builtin} {onString : List Char → Value}
    {onArray : List Value → Value} (v u : Value) (vs : List Value) :
    b.onSequence onString onArray (v :: u :: vs) = .fail (.builtinCount (vs.length + 2) 1) := by
  cases v <;> rfl

theorem onSequence_alike {b : Builtin} {onString : List Char → Value}
    {onArray : List Value → Value} {args others : List Value}
    (h : List.Forall₂ (L.Alike k) args others)
    (string : ∀ cs, L.Alike k (onString cs) (onString cs))
    (array : ∀ vs us, List.Forall₂ (L.Alike k) vs us → L.Alike k (onArray vs) (onArray us)) :
    L.Alike k (b.onSequence onString onArray args) (b.onSequence onString onArray others) := by
  cases h with
  | nil => exact .fail _
  | cons same rest =>
    cases rest with
    | nil =>
      cases same with
      | str s => exact string _
      | array length each => exact array _ _ (Alike.elements (.array length each))
      | int | bool | null | builtin | brk | err | ret | hash | fn => exact .fail _
    | cons next rest =>
      rw [onSequence_of_many, onSequence_of_many, rest.length_eq]
      exact .fail _

theorem push_of_count {args : List Value} (h : args.length ≠ 2) :
    Builtin.push.result args = .fail (.builtinCount args.length 2) := by
  unfold Builtin.result
  split
  case h_5 | h_6 => exact absurd rfl h
  case h_7 => rfl
  all_goals contradiction

theorem push_alike {args others : List Value} (h : List.Forall₂ (L.Alike k) args others) :
    L.Alike k (Builtin.push.result args) (Builtin.push.result others) := by
  by_cases count : args.length = 2
  · obtain ⟨v, w, rfl⟩ := List.length_eq_two.mp count
    obtain ⟨u, _, left, rest, rfl⟩ := List.forall₂_cons_left_iff.mp h
    obtain ⟨x, _, right, none, rfl⟩ := List.forall₂_cons_left_iff.mp rest
    obtain rfl := List.forall₂_nil_left_iff.mp none
    cases left with
    | array length each =>
      have elements := Alike.elements (.array length each)
      exact .ofArray (List.rel_append elements (.cons right .nil))
    | int | bool | str | null | builtin | brk | err | ret | hash | fn => exact .fail _
  · have other : others.length ≠ 2 := h.length_eq ▸ count
    rw [push_of_count count, push_of_count other, h.length_eq]
    exact .fail _

theorem result_alike (b : Builtin) {args others : List Value}
    (h : List.Forall₂ (L.Alike k) args others) : L.Alike k (b.result args) (b.result others) := by
  cases b with
  | len =>
    simp only [Builtin.result]
    apply onSequence_alike h
    · exact fun cs => .int _
    · intro vs us elements
      rw [elements.length_eq]
      exact .int _
  | first =>
    simp only [Builtin.result]
    apply onSequence_alike h
    · exact fun cs => .str _
    · intro vs us elements
      cases elements with
      | nil => exact .null
      | cons same => exact same
  | last =>
    simp only [Builtin.result]
    apply onSequence_alike h
    · exact fun cs => .str _
    · exact fun vs us elements => getLastD_alike elements .null
  | tail =>
    simp only [Builtin.result]
    apply onSequence_alike h
    · exact fun cs => .str _
    · exact fun vs us elements => .ofArray (List.forall₂_drop 1 elements)
  | push => exact push_alike h
  | puts => exact .null

theorem printed_eq (sound : L.Sound) (b : Builtin) {args others : List Value}
    (h : List.Forall₂ (L.Alike k) args others) : b.printed args = b.printed others := by
  cases b with
  | puts =>
    have texts : args.map (fun v => v.text ++ "\n") = others.map fun v => v.text ++ "\n" := by
      induction h with
      | nil => rfl
      | cons same rest ih => rw [List.map_cons, List.map_cons, ih, same.text sound]
    exact congrArg String.join texts
  | len | first | last | tail | push => rfl

end Likeness
end TernLang
