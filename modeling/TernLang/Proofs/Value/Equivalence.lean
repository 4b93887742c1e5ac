import Mathlib.Data.List.Forall2
import Mathlib.Data.List.Nodup
import TernLang.Proofs.Value.Throughout
import TernLang.Proofs.Value.Pairs
import TernLang.Value.Display
import TernLang.Value.Equality

/-!
Equality of values is an equivalence. A function is equal to none, so values with a function in them
are left out; hashes have distinct keys. Arrays are compared element by element and hashes up to a
permutation of their pairs, so values that are equal without being the same differ in the order of
the pairs of some hash.
-/
namespace TernLang
namespace Value

def Plain : Value → Prop
  | .fn _ _ _ => False
  | .hash ps => (ps.map Prod.fst).Nodup
  | _ => True

/-- There is no function in the value, and every hash in it has distinct keys. -/
def Comparable (v : Value) : Prop := v.Throughout Plain

def HashFree (v : Value) : Prop := v.Throughout fun u => u.tag ≠ .hash

/-- Nothing is stored in the value, and it is equal to itself alone. -/
def Simple : Value → Prop
  | .array _ | .hash _ | .fn _ _ _ | .ret _ => False
  | _ => True

/-- What it takes to be equal, given what it takes for what is stored. -/
inductive Matches : Value → Value → Prop where
  | simple {v : Value} (h : v.Simple) : Matches v v
  | array {vs us : List Value} (each : List.Forall₂ (fun v u => v.same u = true) vs us) :
    Matches (.array vs) (.array us)
  | hash {ps qs : List (Key × Value)} (count : ps.length = qs.length)
    (each : ∀ p ∈ ps, ∃ u, findPair p.1 qs = some u ∧ p.2.same u = true) :
    Matches (.hash ps) (.hash qs)
  | ret {v u : Value} (h : v.same u = true) : Matches (.ret v) (.ret u)

end Value

theorem sameAll_iff (vs us : List Value) :
    sameAll vs us = true ↔ List.Forall₂ (fun v u => v.same u = true) vs us := by
  induction vs generalizing us with
  | nil => cases us <;> simp [sameAll]
  | cons v vs ih => cases us <;> simp [sameAll, ih]

theorem sameEntries_iff (ps qs : List (Key × Value)) :
    sameEntries ps qs = true ↔ ∀ p ∈ ps, ∃ u, findPair p.1 qs = some u ∧ p.2.same u = true := by
  induction ps with
  | nil => simp [sameEntries]
  | cons p ps ih =>
    rw [sameEntries, Bool.and_eq_true, ih, List.forall_mem_cons]
    cases findPair p.1 qs <;> simp

section
variable {α : Type} {R S : α → α → Prop} {as bs cs : List α}

theorem forall₂_imp_of_mem (imp : ∀ a ∈ as, ∀ b, R a b → S a b) (h : List.Forall₂ R as bs) :
    List.Forall₂ S as bs := by
  induction h with
  | nil => exact .nil
  | cons first rest ih =>
    obtain ⟨here, later⟩ := List.forall_mem_cons.mp imp
    exact .cons (here _ first) (ih later)

theorem eq_of_forall₂ (equal : ∀ a ∈ as, ∀ b, R a b → a = b) (h : List.Forall₂ R as bs) :
    as = bs := by
  have same : List.Forall₂ (· = ·) as bs := forall₂_imp_of_mem equal h
  rwa [List.forall₂_eq_eq_eq] at same

theorem forall₂_trans (trans : ∀ a ∈ as, ∀ b c, R a b → R b c → R a c)
    (h : List.Forall₂ R as bs) (next : List.Forall₂ R bs cs) : List.Forall₂ R as cs := by
  induction h generalizing cs with
  | nil => exact next
  | cons first rest ih =>
    obtain ⟨here, later⟩ := List.forall_mem_cons.mp trans
    cases next with
    | cons second others => exact .cons (here _ _ first second) (ih later others)

theorem exists_of_forall₂ (h : List.Forall₂ R as bs) {a : α} (member : a ∈ as) :
    ∃ b ∈ bs, R a b := by
  induction h with
  | nil => cases member
  | cons first rest ih =>
    rcases List.mem_cons.mp member with rfl | later
    · exact ⟨_, List.mem_cons_self, first⟩
    · obtain ⟨b, inside, related⟩ := ih later
      exact ⟨b, List.mem_cons_of_mem _ inside, related⟩

end

namespace Value
variable {u v w : Value} {ps qs : List (Key × Value)}

theorem same_array (vs us : List Value) :
    (array vs).same (array us) = true ↔ List.Forall₂ (fun v u => v.same u = true) vs us :=
  sameAll_iff vs us

theorem same_hash (ps qs : List (Key × Value)) :
    (hash ps).same (hash qs) = true ↔ ps.length = qs.length ∧
      ∀ p ∈ ps, ∃ u, findPair p.1 qs = some u ∧ p.2.same u = true := by
  rw [same, Bool.and_eq_true, decide_eq_true_eq, sameEntries_iff]

theorem matches_of_same (h : u.same v = true) : u.Matches v := by
  cases u with
  | array vs =>
    cases v with
    | array us => exact .array ((same_array vs us).mp h)
    | _ => cases h
  | hash ps =>
    cases v with
    | hash qs =>
      obtain ⟨count, each⟩ := (same_hash ps qs).mp h
      exact .hash count each
    | _ => cases h
  | ret a =>
    cases v with
    | ret b => exact .ret h
    | _ => cases h
  | fn => cases v <;> cases h
  | int | bool | str | null | builtin | brk | err =>
    cases v <;> simp_all [same]
    all_goals exact .simple trivial

theorem same_of_matches (h : u.Matches v) : u.same v = true := by
  cases h with
  | array each => exact (same_array _ _).mpr each
  | hash count each => exact (same_hash _ _).mpr ⟨count, each⟩
  | ret h => exact h
  | simple h =>
    cases u with
    | array | hash | fn | ret => cases h
    | null | brk => rfl
    | int | bool | str | builtin | err => simp [same]

theorem tag_of_same (h : u.same v = true) : u.tag = v.tag := by
  cases matches_of_same h <;> rfl

/-- The keys of a hash are those of any other that is equal to it. -/
theorem keys_of_same (distinct : (ps.map Prod.fst).Nodup) (count : ps.length = qs.length)
    (each : ∀ p ∈ ps, ∃ u, findPair p.1 qs = some u ∧ p.2.same u = true) :
    (ps.map Prod.fst).Perm (qs.map Prod.fst) := by
  apply keys_perm distinct count
  intro p member
  obtain ⟨u, found, -⟩ := each p member
  exact List.mem_map.mpr ⟨(p.1, u), mem_of_findPair found, rfl⟩

theorem same_refl (h : u.Comparable) : u.same u = true := by
  induction h with
  | @intro u here parts ih =>
    apply same_of_matches
    cases u with
    | array vs => exact .array (List.forall₂_same.mpr ih)
    | hash ps =>
      refine .hash rfl fun p member => ?_
      exact ⟨p.2, findPair_of_mem here member, ih p.2 (value_mem_parts member)⟩
    | ret v => exact .ret (ih v List.mem_cons_self)
    | fn => cases here
    | int | bool | str | null | builtin | brk | err => exact .simple trivial

theorem same_symm (h : u.Comparable) (same : u.same v = true) : v.same u = true := by
  induction h generalizing v with
  | @intro u here parts ih =>
    apply same_of_matches
    cases matches_of_same same with
    | simple h => exact .simple h
    | @array vs us each =>
      have turned : List.Forall₂ (fun v u => u.same v = true) vs us :=
        forall₂_imp_of_mem (fun v member _ => ih v member) each
      exact .array turned.flip
    | @hash ps qs count each =>
      have keys := keys_of_same here count each
      refine .hash count.symm fun q member => ?_
      obtain ⟨p, inside, key⟩ := List.mem_map.mp (keys.symm.subset (List.mem_map_of_mem member))
      obtain ⟨u, found, equal⟩ := each p inside
      have own : findPair p.1 qs = some q.2 :=
        findPair_of_mem (keys.nodup_iff.mp here) (key ▸ member)
      obtain rfl : q.2 = u := Option.some.inj (own.symm.trans found)
      refine ⟨p.2, key ▸ findPair_of_mem here inside, ?_⟩
      exact ih p.2 (value_mem_parts inside) equal
    | ret h => exact .ret (ih _ List.mem_cons_self h)

theorem same_trans (h : u.Comparable) (first : u.same v = true) (next : v.same w = true) :
    u.same w = true := by
  induction h generalizing v w with
  | @intro u here parts ih =>
    apply same_of_matches
    cases matches_of_same first with
    | simple => exact matches_of_same next
    | array each =>
      cases matches_of_same next with
      | simple h => cases h
      | array each' => exact .array (forall₂_trans (fun v member _ _ => ih v member) each each')
    | hash count each =>
      cases matches_of_same next with
      | simple h => cases h
      | hash count' each' =>
        refine .hash (count.trans count') fun p member => ?_
        obtain ⟨u, found, equal⟩ := each p member
        obtain ⟨w, found', equal'⟩ := each' (p.1, u) (mem_of_findPair found)
        exact ⟨w, found', ih p.2 (value_mem_parts member) equal equal'⟩
    | ret h =>
      cases matches_of_same next with
      | simple h => cases h
      | ret h' => exact .ret (ih _ List.mem_cons_self h h')

def SamePair (p q : Key × Value) : Prop := p.1 = q.1 ∧ p.2.same q.2 = true

theorem same_hash_iff_perm (left : (ps.map Prod.fst).Nodup) (right : (qs.map Prod.fst).Nodup) :
    (hash ps).same (hash qs) = true ↔ ∃ rs, rs.Perm qs ∧ List.Forall₂ SamePair ps rs := by
  constructor
  · intro same
    obtain ⟨count, each⟩ := (same_hash ps qs).mp same
    -- The pairs that are found under the keys of the first hash, in its order.
    let partner (p : Key × Value) : Key × Value := (p.1, (findPair p.1 qs).getD .null)
    have pairs : ∀ p ∈ ps, SamePair p (partner p) ∧ partner p ∈ qs := by
      intro p member
      obtain ⟨u, found, equal⟩ := each p member
      have own : partner p = (p.1, u) := by simp [partner, found]
      rw [own]
      exact ⟨⟨rfl, equal⟩, mem_of_findPair found⟩
    have keys : (ps.map partner).map Prod.fst = ps.map Prod.fst := by
      simp [partner, Function.comp_def]
    have distinct : (ps.map partner).Nodup := List.Nodup.of_map Prod.fst (keys ▸ left)
    have subset : ps.map partner ⊆ qs := by
      intro q member
      obtain ⟨p, inside, rfl⟩ := List.mem_map.mp member
      exact (pairs p inside).2
    refine ⟨ps.map partner, (distinct.subperm subset).perm_of_length_le (by simp [count]), ?_⟩
    rw [List.forall₂_map_right_iff, List.forall₂_same]
    exact fun p member => (pairs p member).1
  · rintro ⟨rs, perm, each⟩
    refine (same_hash ps qs).mpr ⟨each.length_eq.trans perm.length_eq, fun p member => ?_⟩
    obtain ⟨r, inside, key, equal⟩ := exists_of_forall₂ each member
    exact ⟨r.2, key ▸ findPair_of_mem right (perm.subset inside), equal⟩

theorem eq_of_same (free : u.HashFree) (same : u.same v = true) : u = v := by
  induction free generalizing v with
  | @intro u here parts ih =>
    cases matches_of_same same with
    | simple => rfl
    | @array vs us each =>
      have equal : vs = us := eq_of_forall₂ (fun v member _ => ih v member) each
      rw [equal]
    | hash => exact absurd rfl here
    | ret h => rw [ih _ List.mem_cons_self h]

end Value

/-- Equality of values without functions is an equivalence. Equal values are of one type. Arrays are
equal if their elements are in turn, hashes if the pairs of one are equal to those of the other in
some order, so that the order of a hash makes no difference. Without hashes in them, equal values
have the same text. -/
theorem equality_is_equivalence :
    Equivalence (fun u v : {v : Value // v.Comparable} => u.1.same v.1 = true) ∧
      (∀ u v : Value, u.same v = true → u.tag = v.tag) ∧
      (∀ vs us : List Value, (Value.array vs).same (.array us) = true ↔
        List.Forall₂ (fun v u => v.same u = true) vs us) ∧
      (∀ ps qs : List (Key × Value), (Value.hash ps).Comparable → (Value.hash qs).Comparable →
        ((Value.hash ps).same (.hash qs) = true ↔
          ∃ rs, rs.Perm qs ∧ List.Forall₂ Value.SamePair ps rs)) ∧
      (∀ ps qs : List (Key × Value), (Value.hash ps).Comparable → ps.Perm qs →
        (Value.hash ps).same (.hash qs) = true) ∧
      ∀ u v : Value, u.HashFree → u.same v = true → u.text = v.text := by
  refine ⟨⟨?_, ?_, ?_⟩, ?_, Value.same_array, ?_, ?_, ?_⟩
  · exact fun u => Value.same_refl u.2
  · exact fun {u v} same => Value.same_symm u.2 same
  · exact fun {u v w} first next => Value.same_trans u.2 first next
  · exact fun u v same => Value.tag_of_same same
  · exact fun ps qs left right => Value.same_hash_iff_perm left.here right.here
  · intro ps qs comparable perm
    have right : (qs.map Prod.fst).Nodup := (perm.map Prod.fst).nodup_iff.mp comparable.here
    have each : List.Forall₂ Value.SamePair ps ps := List.forall₂_same.mpr fun p member =>
      ⟨rfl, Value.same_refl (comparable.part (Value.value_mem_parts member))⟩
    exact (Value.same_hash_iff_perm comparable.here right).mpr ⟨ps, perm, each⟩
  · intro u v free same
    rw [Value.eq_of_same free same]

theorem equality_is_equivalence_reordered :
    (Value.hash [(.int 1, .bool true), (.str "1", .null)]).Comparable ∧
      [(Key.int 1, Value.bool true), (.str "1", .null)].Perm
        [(.str "1", .null), (.int 1, .bool true)] ∧
      (Value.hash [(.int 1, .bool true), (.str "1", .null)]).same
        (.hash [(.str "1", .null), (.int 1, .bool true)]) = true ∧
      (Value.hash [(.int 1, .bool true), (.str "1", .null)]).text ≠
        (Value.hash [(.str "1", .null), (.int 1, .bool true)]).text := by
  have comparable : (Value.hash [(.int 1, .bool true), (.str "1", .null)]).Comparable := by
    constructor
    · show [Key.int 1, .str "1"].Nodup
      decide
    · intro u inside
      simp [Value.parts, Key.value] at inside
      rcases inside with rfl | rfl | rfl | rfl
      all_goals exact Value.throughout_of_simple rfl trivial
  have perm : [(Key.int 1, Value.bool true), (.str "1", .null)].Perm
      [(.str "1", .null), (.int 1, .bool true)] := .swap ..
  exact ⟨comparable, perm, equality_is_equivalence.2.2.2.2.1 _ _ comparable perm, by decide +kernel⟩

end TernLang
