import Mathlib.Data.List.Induction
import Mathlib.Data.List.Perm.Subperm
import TernLang.Value.Basic

/-!
The pairs of a hash, looked up and stored by their keys. Where keys are distinct, the pair that is
found under a key is the only one with this key. Storing pairs in turn leaves the keys in the order
in which they first came, each with what was stored under it last.
-/
namespace TernLang

section
variable {k : Key} {v : Value} {ps qs : List (Key × Value)}

theorem mem_of_findPair (found : findPair k ps = some v) : (k, v) ∈ ps := by
  induction ps with
  | nil => cases found
  | cons p ps ih =>
    unfold findPair at found
    split at found
    · rename_i same
      cases found
      exact same ▸ List.mem_cons_self
    · exact List.mem_cons_of_mem p (ih found)

theorem findPair_of_mem (distinct : (ps.map Prod.fst).Nodup) (member : (k, v) ∈ ps) :
    findPair k ps = some v := by
  induction ps with
  | nil => cases member
  | cons p ps ih =>
    obtain ⟨new, distinct⟩ := List.nodup_cons.mp distinct
    rcases List.mem_cons.mp member with rfl | later
    · exact if_pos rfl
    · have other : p.1 ≠ k := by
        rintro rfl
        exact new (List.mem_map.mpr ⟨_, later, rfl⟩)
      rw [findPair, if_neg other]
      exact ih distinct later

theorem keys_perm (distinct : (ps.map Prod.fst).Nodup) (count : ps.length = qs.length)
    (among : ∀ p ∈ ps, p.1 ∈ qs.map Prod.fst) : (ps.map Prod.fst).Perm (qs.map Prod.fst) := by
  have subset : ps.map Prod.fst ⊆ qs.map Prod.fst := by
    intro k member
    obtain ⟨p, inside, rfl⟩ := List.mem_map.mp member
    exact among p inside
  have few : (qs.map Prod.fst).length ≤ (ps.map Prod.fst).length := by
    simp [count]
  exact (distinct.subperm subset).perm_of_length_le few

theorem keys_putPair (k : Key) (v : Value) (ps : List (Key × Value)) :
    (putPair k v ps).map Prod.fst =
      if k ∈ ps.map Prod.fst then ps.map Prod.fst else ps.map Prod.fst ++ [k] := by
  induction ps with
  | nil => rfl
  | cons p ps ih =>
    by_cases same : p.1 = k
    · simp [putPair, same]
    · have other : k ≠ p.1 := Ne.symm same
      rw [putPair, if_neg same, List.map_cons, ih]
      by_cases known : k ∈ ps.map Prod.fst
      · simp [known]
      · simp only [List.map_cons, List.mem_cons, other, known, or_self, if_false, List.cons_append]

theorem findPair_split (found : findPair k ps = some v) :
    ∃ before after, ps = before ++ (k, v) :: after ∧ k ∉ before.map Prod.fst := by
  induction ps with
  | nil => cases found
  | cons p ps ih =>
    unfold findPair at found
    split at found
    · rename_i same
      cases found
      exact ⟨[], ps, by simp [← same], by simp⟩
    · rename_i other
      obtain ⟨before, after, rfl, new⟩ := ih found
      exact ⟨p :: before, after, rfl, by simpa [Ne.symm other] using new⟩

end

section
variable {α : Type} [DecidableEq α]

/-- What comes again at the end keeps the place where it came first. -/
theorem eraseDups_concat (as : List α) (a : α) :
    (as ++ [a]).eraseDups = if a ∈ as then as.eraseDups else as.eraseDups ++ [a] := by
  rw [List.eraseDups_append]
  by_cases known : a ∈ as
  · simp [List.removeAll, known]
  · simp [List.removeAll, known, List.eraseDups_cons]

theorem nodup_eraseDups (as : List α) : as.eraseDups.Nodup := by
  induction as using List.reverseRecOn with
  | nil => simp
  | append_singleton as a ih =>
    rw [eraseDups_concat]
    split
    · exact ih
    · rename_i new
      rw [← List.mem_eraseDups] at new
      refine List.nodup_append.mpr ⟨ih, by simp, ?_⟩
      rintro b member c last rfl
      exact new (List.mem_singleton.mp last ▸ member)

end

def putPairs (done found : List (Key × Value)) : List (Key × Value) :=
  found.foldl (fun ps p => putPair p.1 p.2 ps) done

theorem putPairs_concat (done found : List (Key × Value)) (p : Key × Value) :
    putPairs done (found ++ [p]) = putPair p.1 p.2 (putPairs done found) := by
  rw [putPairs, List.foldl_append]
  rfl

theorem putPair_of_new {k : Key} {v : Value} {ps : List (Key × Value)}
    (new : k ∉ ps.map Prod.fst) : putPair k v ps = ps ++ [(k, v)] := by
  induction ps with
  | nil => rfl
  | cons p ps ih =>
    obtain ⟨other, others⟩ := not_or.mp fun known => new (List.mem_cons.mpr known)
    rw [putPair, if_neg (Ne.symm other), ih others]
    rfl

theorem putPairs_of_distinct {ps : List (Key × Value)} (distinct : (ps.map Prod.fst).Nodup) :
    putPairs [] ps = ps := by
  induction ps using List.reverseRecOn with
  | nil => rfl
  | append_singleton ps p ih =>
    rw [List.map_append, List.map_singleton, List.nodup_append] at distinct
    have new : p.1 ∉ ps.map Prod.fst := fun known =>
      distinct.2.2 p.1 known p.1 (List.mem_singleton.mpr rfl) rfl
    rw [putPairs_concat, ih distinct.1, putPair_of_new new]

/-- The keys of the second pairs are those of the first in the order in which they first came, and
each holds what came last under it. -/
structure LastWins (found ps : List (Key × Value)) : Prop where
  distinct : (ps.map Prod.fst).Nodup
  order : ps.map Prod.fst = (found.map Prod.fst).eraseDups
  last : ∀ p ∈ ps, ∃ before after, found = before ++ p :: after ∧ p.1 ∉ after.map Prod.fst

theorem keys_putPairs (found : List (Key × Value)) :
    (putPairs [] found).map Prod.fst = (found.map Prod.fst).eraseDups := by
  induction found using List.reverseRecOn with
  | nil => rfl
  | append_singleton found p ih =>
    rw [putPairs_concat, keys_putPair, ih, List.map_append, List.map_singleton, eraseDups_concat]
    simp only [List.mem_eraseDups]

theorem findPair_putPairs (k : Key) (found : List (Key × Value)) :
    findPair k (putPairs [] found) = findPair k found.reverse := by
  induction found using List.reverseRecOn with
  | nil => rfl
  | append_singleton found p ih =>
    rw [putPairs_concat, findPair_putPair, ih, List.reverse_append, List.reverse_singleton,
      List.singleton_append, findPair]

theorem putPairs_lastWins (found : List (Key × Value)) : LastWins found (putPairs [] found) := by
  have order := keys_putPairs found
  have distinct : ((putPairs [] found).map Prod.fst).Nodup := order ▸ nodup_eraseDups _
  refine ⟨distinct, order, fun p member => ?_⟩
  have stored := findPair_of_mem distinct member
  rw [findPair_putPairs] at stored
  obtain ⟨after, before, split, new⟩ := findPair_split stored
  refine ⟨before.reverse, after.reverse, ?_, by simpa using new⟩
  rw [← List.reverse_reverse found, split]
  simp

end TernLang
