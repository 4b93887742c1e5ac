import TernLang.Files.FileSystem
import Mathlib.Data.List.Induction

/-!
File systems as trees. Every entry has a name in a directory that is there, so a file is found along
the names from the root. Writing files keeps a file system a tree.
-/
namespace TernLang.FileSystem

structure EntryName (name : String) : Prop where
  written : name ≠ ""
  other : name ≠ "." ∧ name ≠ ".."
  slash : '/' ∉ name.toList
  nul : '\x00' ∉ name.toList
  short : name.utf8ByteSize ≤ maxName

instance (name : String) : Decidable (EntryName name) :=
  decidable_of_iff (name ≠ "" ∧ (name ≠ "." ∧ name ≠ "..") ∧ '/' ∉ name.toList ∧
      '\x00' ∉ name.toList ∧ name.utf8ByteSize ≤ maxName)
    ⟨fun ⟨written, other, slash, nul, short⟩ => ⟨written, other, slash, nul, short⟩,
      fun ⟨written, other, slash, nul, short⟩ => ⟨written, other, slash, nul, short⟩⟩

/-- Entries have names in directories that are there. -/
structure Tree (fs : FileSystem) : Prop where
  named : ∀ {place entry}, fs.entry? place = some entry → ∀ part ∈ place, EntryName part
  inside : ∀ {place entry}, fs.entry? place = some entry →
    fs.entry? place.dropLast = some .directory

variable {fs : FileSystem} {place before after q : List String} {entry e : Entry}
  {bytes : ByteArray}

theorem ne_nil_of_file (h : fs.entry? place = some (.file bytes)) : place ≠ [] := by
  rintro rfl
  cases h

namespace Tree

theorem directory (tree : fs.Tree) (h : fs.entry? (before ++ after) = some entry)
    (below : after ≠ []) : fs.entry? before = some .directory := by
  -- The names behind the directory go one by one, the last first.
  induction after using List.reverseRecOn generalizing entry with
  | nil => contradiction
  | append_singleton after name ih =>
    have inside := tree.inside h
    rw [← List.append_assoc, List.dropLast_concat] at inside
    by_cases last : after = []
    · rw [last, List.append_nil] at inside
      exact inside
    · exact ih inside last

theorem follow_eq (tree : fs.Tree) (h : fs.entry? (before ++ after) = some (.file bytes)) :
    fs.follow before after = .ok bytes := by
  induction after generalizing before with
  | nil =>
    rw [List.append_nil] at h
    rw [follow, h]
  | cons part after ih =>
    obtain ⟨-, ⟨-, up⟩, -, -, short⟩ := tree.named h part (by simp)
    rw [follow, tree.directory h (List.cons_ne_nil part after)]
    simp only [if_neg up, if_neg (Nat.not_lt.mpr short)]
    apply ih
    rwa [List.append_assoc, List.singleton_append]

theorem read_eq (tree : fs.Tree) (h : fs.entry? place = some (.file bytes))
    (short : (Path.mk .slash place).text.utf8ByteSize < maxPath) (cwd : List String) :
    fs.read cwd ⟨.slash, place⟩ = .ok bytes := by
  rw [read, if_neg (Nat.not_le.mpr short)]
  exact tree.follow_eq h

theorem clear (tree : fs.Tree) (h : fs.entry? place = some (.file bytes)) :
    Path.hasNul ⟨.slash, place⟩ = false := by
  rw [Path.hasNul, List.any_eq_false]
  intro part member
  simpa using (tree.named h part member).nul

end Tree

theorem lookup_put (below : q ≠ []) :
    FileSystem.entry? (fs.put place e) q = if q = place then some e else fs.entry? q := by
  have some : q.isEmpty = false := by simpa using below
  by_cases here : q = place
  · simp [ entry?, put, here, here ▸ below]
  · rw [if_neg here]
    simp only [ entry?, put, some]
    rw [List.find?_cons_of_neg (by simpa using Ne.symm here), List.find?_filter]
    congr 3
    funext old
    by_cases found : old.1 = q
    · simp [found, here]
    · simp [found]

theorem lookup_put_of_ne (other : q ≠ place) :
    FileSystem.entry? (fs.put place e) q = fs.entry? q := by
  by_cases below : q = []
  · subst below
    rfl
  · rw [lookup_put below, if_neg other]

theorem Tree.put (tree : fs.Tree) (named : ∀ part ∈ place, EntryName part)
    (inside : fs.entry? place.dropLast = some .directory)
    (room : e = .directory ∨ fs.entry? place ≠ some .directory) : (fs.put place e).Tree := by
  have kept {q : List String} (h : fs.entry? q = some .directory) :
      FileSystem.entry? (fs.put place e) q = some .directory := by
    by_cases below : q = []
    · subst below
      rfl
    · rw [lookup_put below]
      split
      · rename_i here
        subst here
        rw [room.resolve_right (not_not_intro h)]
      · exact h
  have cases_of {q : List String} {d : Entry} (h : FileSystem.entry? (fs.put place e) q = some d) :
      q = place ∨ fs.entry? q = some d := by
    by_cases here : q = place
    · exact .inl here
    · exact .inr (lookup_put_of_ne here ▸ h)
  constructor
  · intro q d h
    rcases cases_of h with rfl | old
    · exact named
    · exact tree.named old
  · intro q d h
    rcases cases_of h with rfl | old
    · exact kept inside
    · exact kept (tree.inside old)

structure Widens (fs : FileSystem) (place : List String) (gs : FileSystem) : Prop where
  tree : gs.Tree
  here : gs.entry? place = some .directory
  other : ∀ q, q ≠ place → gs.entry? q = fs.entry? q

theorem Tree.withDirectory (tree : fs.Tree) (named : ∀ part ∈ place, EntryName part)
    (below : place ≠ []) (inside : fs.entry? place.dropLast = some .directory)
    (way : ∀ bytes, fs.entry? place ≠ some (.file bytes)) :
    fs.Widens place (fs.withDirectory place) := by
  unfold FileSystem.withDirectory
  split
  · rename_i entry found
    cases entry with
    | directory => exact ⟨tree, found, fun q _ => rfl⟩
    | file bytes => exact absurd found (way bytes)
  · refine ⟨tree.put named inside (.inl rfl), ?_, fun q differs => lookup_put_of_ne differs⟩
    rw [lookup_put below, if_pos rfl]

theorem take_ne_take {n m : Nat} (less : n < m) (le : m ≤ place.length) :
    place.take m ≠ place.take n := by
  intro same
  have lengths := congrArg List.length same
  simp only [List.length_take] at lengths
  omega

theorem Tree.parents (tree : fs.Tree) (named : ∀ part ∈ place, EntryName part)
    (way : ∀ n < place.length, ∀ bytes, fs.entry? (place.take n) ≠ some (.file bytes)) {k : Nat}
    (le : k ≤ place.length) {gs : FileSystem}
    (made : ((List.range k).drop 1).foldl (fun fs n => fs.withDirectory (place.take n)) fs = gs) :
    gs.Tree ∧ (∀ n < k, gs.entry? (place.take n) = some .directory) ∧
      ∀ q, (∀ n < k, q ≠ place.take n) → gs.entry? q = fs.entry? q := by
  induction k generalizing gs with
  | zero =>
    subst made
    exact ⟨tree, nofun, fun q _ => rfl⟩
  | succ k ih =>
    obtain ⟨kept, there, other⟩ := ih (by omega) rfl
    cases k with
    | zero =>
      subst made
      refine ⟨tree, ?_, fun q _ => rfl⟩
      intro n less
      obtain rfl : n = 0 := by omega
      rfl
    | succ k =>
      have apart {n : Nat} (less : n < k + 1) : place.take (k + 1) ≠ place.take n :=
        take_ne_take less (by omega)
      have split : (List.range (k + 1 + 1)).drop 1 = (List.range (k + 1)).drop 1 ++ [k + 1] := by
        rw [List.range_succ, List.drop_append_of_le_length (by simp)]
      rw [split, List.foldl_append, List.foldl_cons, List.foldl_nil] at made
      have below : place.take (k + 1) ≠ [] := apart (Nat.zero_lt_succ k)
      have inside := there k (Nat.lt_succ_self k)
      rw [← Nat.add_sub_cancel (n := k) (m := 1), ← List.dropLast_take (by omega)] at inside
      have free := other _ fun n less => apart less
      obtain ⟨grown, here, rest⟩ := kept.withDirectory
        (fun part member => named part (List.mem_of_mem_take member)) below inside
        (free ▸ way _ (by omega))
      rw [made] at grown here rest
      refine ⟨grown, ?_, ?_⟩
      · intro n less
        by_cases last : n = k + 1
        · rw [last]
          exact here
        · have sooner : n < k + 1 := by omega
          rw [rest _ (apart sooner).symm]
          exact there n sooner
      · intro q differs
        rw [rest q (differs _ (Nat.lt_succ_self _))]
        exact other q fun n less => differs n (by omega)

/-- Writing at a place keeps a tree, if there is no file on the way and no directory is replaced by
a file. -/
theorem Tree.write (tree : fs.Tree) (named : ∀ part ∈ place, EntryName part) (below : place ≠ [])
    (way : ∀ n < place.length, ∀ bytes, fs.entry? (place.take n) ≠ some (.file bytes))
    (room : e = .directory ∨ fs.entry? place ≠ some .directory) : (fs.write place e).Tree := by
  obtain ⟨kept, there, other⟩ :=
    tree.parents named way (Nat.le_refl place.length) (rfl : _ = fs.makeParents place)
  have length := List.length_pos_iff.mpr below
  have inside : FileSystem.entry? (fs.makeParents place) place.dropLast = some .directory := by
    rw [List.dropLast_eq_take]
    exact there _ (by omega)
  have same : FileSystem.entry? (fs.makeParents place) place = fs.entry? place := by
    apply other
    intro n less
    have apart := take_ne_take less (Nat.le_refl place.length)
    rwa [List.take_length] at apart
  exact kept.put named inside (same ▸ room)

theorem tree_empty : FileSystem.empty.Tree := by
  have none {place : List String} {entry : Entry} (h : FileSystem.empty.entry? place = some entry) :
      place = [] := by
    by_contra below
    rw [ entry?, if_neg (by simpa using below)] at h
    cases h
  constructor
  · intro place entry h
    rw [none h]
    exact nofun
  · intro place entry h
    rw [none h]
    rfl

end TernLang.FileSystem
