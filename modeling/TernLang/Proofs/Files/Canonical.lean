import TernLang.Proofs.Files.Trees
import TernLang.Proofs.Files.Walking

/-!
Resolved paths. What is found for a module's name is the path of a file from the root, with the
names of the directories on the way and nothing else in it. It leads to this file from everywhere,
also when it is given as a module's name, so two names lead to one file exactly if one path is found
for both.
-/
namespace TernLang

namespace Text
variable {separator : Char} {piece rest : List Char}

theorem splitOn_plain (plain : separator ∉ piece) : splitOn separator piece = [piece] := by
  induction piece with
  | nil => rfl
  | cons c cs ih =>
    obtain ⟨here, later⟩ := not_or.mp (List.mem_cons.not.mp plain)
    rw [splitOn, if_neg (Ne.symm here), ih later]

theorem splitOn_append (plain : separator ∉ piece) (rest : List Char) :
    splitOn separator (piece ++ separator :: rest) = piece :: splitOn separator rest := by
  induction piece with
  | nil => rw [List.nil_append, splitOn, if_pos rfl]
  | cons c cs ih =>
    obtain ⟨here, later⟩ := not_or.mp (List.mem_cons.not.mp plain)
    rw [List.cons_append, splitOn, if_neg (Ne.symm here), ih later]

theorem split_intercalate {pieces : List String} (some : pieces ≠ [])
    (plain : ∀ p ∈ pieces, separator ∉ p.toList) :
    split separator ((String.singleton separator).intercalate pieces) = pieces := by
  induction pieces with
  | nil => contradiction
  | cons p pieces ih =>
    obtain ⟨here, later⟩ := List.forall_mem_cons.mp plain
    cases pieces with
    | nil =>
      rw [String.intercalate_singleton, split, splitOn_plain here]
      simp
    | cons q pieces =>
      have rest := ih (List.cons_ne_nil q pieces) later
      rw [split] at rest
      have text : ((String.singleton separator).intercalate (p :: q :: pieces)).toList =
          p.toList ++
            separator :: ((String.singleton separator).intercalate (q :: pieces)).toList := by
        rw [String.intercalate_cons_cons]
        simp
      rw [split, text, splitOn_append here, List.map_cons, rest, String.ofList_toList]

end Text

namespace Path
open FileSystem
variable {place : List String}

/-- From the root along names, none of them for the directory itself or the one around it. -/
structure Canonical (p : Path) : Prop where
  absolute : p.root = .slash
  below : p.parts ≠ []
  names : ∀ part ∈ p.parts, part ≠ "" ∧ part ≠ "." ∧ part ≠ ".." ∧ '/' ∉ part.toList

theorem Canonical.text_eq {p : Path} (h : p.Canonical) :
    p.text = "/" ++ "/".intercalate p.parts := by
  rw [text, h.absolute]
  rfl

/-- The text of a path is read back. -/
theorem Canonical.of_text {p : Path} (h : p.Canonical) : Path.of p.text = p := by
  have plain : ∀ part ∈ p.parts, '/' ∉ part.toList := fun part member => (h.names part member).2.2.2
  have cut : Text.split '/' p.text = "" :: p.parts := by
    have whole : Text.split '/' ("/".intercalate ("" :: p.parts)) = "" :: p.parts :=
      Text.split_intercalate (List.cons_ne_nil _ _) (by simpa using plain)
    obtain ⟨first, rest, parts⟩ := List.exists_cons_of_ne_nil h.below
    rw [parts, String.intercalate_cons_cons, String.empty_append, ← parts] at whole
    rw [h.text_eq]
    exact whole
  have kept : ("" :: p.parts).filter (fun part => part ≠ "" && part ≠ ".") = p.parts := by
    rw [List.filter_cons_of_neg (by simp)]
    apply List.filter_eq_self.mpr
    intro part member
    obtain ⟨written, other, -⟩ := h.names part member
    simp [written, other]
  have root : PathRoot.of p.text.toList = .slash := by
    obtain ⟨first, rest, parts⟩ := List.exists_cons_of_ne_nil h.below
    obtain ⟨written, -, -, slash⟩ := h.names first (by simp [parts])
    obtain ⟨c, cs, text⟩ := List.exists_cons_of_ne_nil (l := first.toList) (by simpa using written)
    have other : c ≠ '/' := by
      rintro rfl
      simp [text] at slash
    have start : ∃ more, p.text.toList = '/' :: c :: more := by
      rw [h.text_eq, parts]
      cases rest with
      | nil => exact ⟨cs, by simp [text]⟩
      | cons q rest => exact ⟨_, by rw [String.intercalate_cons_cons]; simp [text]; rfl⟩
    obtain ⟨more, start⟩ := start
    rw [start]
    unfold PathRoot.of
    split <;> simp_all
  rw [of, cut, kept, root]
  cases p
  simp only [mk.injEq, and_true]
  exact h.absolute.symm

end Path

theorem FileSystem.Tree.canonical {fs : FileSystem} {place : List String} {bytes : ByteArray}
    (tree : fs.Tree) (h : fs.entry? place = some (.file bytes)) :
    (⟨.slash, place⟩ : Path).Canonical := by
  refine ⟨rfl, ne_nil_of_file h, fun part member => ?_⟩
  obtain ⟨written, ⟨here, up⟩, slash, -, -⟩ := tree.named h part member
  exact ⟨written, here, up, slash⟩

namespace Host
variable {host other : Host} {importer : Option Path} {name : String} {p c : Path}
  {place goal : List String} {bytes : ByteArray}

/-- The path is the first of the candidates for the name at which there is a file. -/
structure Chooses (host : Host) (importer : Option Path) (name : String) (c : Path) : Prop where
  first : ∃ sooner later, host.candidates importer name = .ok (sooner ++ c :: later) ∧
    ∀ s ∈ sooner, host.Passes s
  clear : c.hasNul = false
  read : ∃ bytes, host.files.read host.cwd c = .ok bytes

theorem exists_chosen (h : host.module? importer name = .ok (some p)) :
    ∃ c, host.Chooses importer name c := by
  obtain ⟨goal, rfl, finds⟩ := module?_eq_some_iff.mp h
  obtain ⟨sooner, c, later, names, passed, clear, read, -⟩ := finds.candidate
  exact ⟨c, ⟨sooner, later, names, passed⟩, clear, read⟩

theorem Chooses.module?_eq (h : host.Chooses importer name c) :
    host.module? importer name = .ok (some (c.resolve host.cwd)) ∧
      host.LeadsTo c (c.resolve host.cwd).parts := by
  obtain ⟨⟨sooner, later, names, passed⟩, clear, bytes, read⟩ := h
  constructor
  · rw [module?_of_candidates names, firstFile_append passed, firstFile_of_read clear read]
  · exact (leadsTo_of_read read).1

theorem Chooses.leadsTo_iff (h : host.Chooses importer name c)
    (found : host.module? importer name = .ok (some p)) :
    host.LeadsTo c goal ↔ p = ⟨.slash, goal⟩ := by
  obtain ⟨same, leads⟩ := h.module?_eq
  rw [same] at found
  cases found
  constructor
  · exact LeadsTo.resolve_eq
  · intro resolved
    rw [resolved] at leads
    exact leads

/-- A file is found by its path from the root, wherever one looks for it, unless the path is too
long. The usual suffix is tried after the path itself. -/
theorem module?_text (tree : host.files.Tree)
    (file : host.files.entry? place = some (.file bytes))
    (short : (Path.mk .slash place).text.utf8ByteSize < FileSystem.maxPath)
    (importer : Option Path) :
    host.module? importer (Path.mk .slash place).text = .ok (some ⟨.slash, place⟩) := by
  have canonical := tree.canonical file
  have named : (⟨.slash, place⟩ : Path).name ≠ "" := by
    have read := canonical.of_text
    rw [← read, ne_eq, Path.name_of_eq_empty, read]
    exact canonical.below
  have names : ∃ later,
      host.candidates importer (Path.mk .slash place).text = .ok (⟨.slash, place⟩ :: later) := by
    unfold candidates spellings
    rw [canonical.of_text]
    by_cases suffix : (⟨.slash, place⟩ : Path).hasSuffix
    · exact ⟨[], by simp [suffix, Path.isAbsolute]⟩
    · exact ⟨[Path.withSuffix ⟨.slash, place⟩ moduleSuffix],
        by simp [suffix, named, Path.isAbsolute]⟩
  obtain ⟨later, names⟩ := names
  have plain : ".." ∉ place := fun member => (canonical.names _ member).2.2.1 rfl
  have here : (⟨.slash, place⟩ : Path).resolve host.cwd = ⟨.slash, place⟩ := by
    simp [Path.resolve, Path.isAbsolute, Path.collapse_append plain]
  rw [module?_of_candidates names, firstFile_of_read (tree.clear file) (tree.read_eq file short _),
    here]

end Host

/-- Resolution is canonical. What is found for a module's name in a file system is the path of a
file from the root, along names; its text is read back as the path, and when it is given as a name,
the path is found again from every working directory, with all settings and for every importing
file. Only this last part needs the path to be shorter than 4096 bytes: the host looks no others
up. What is found for two names is one path exactly if the candidates that were chosen for
them lead to one file. -/
theorem resolution_canonical (fs : FileSystem) (tree : fs.Tree) :
    (∀ (host : Host) (importer : Option Path) (name : String) (p : Path), host.files = fs →
      host.module? importer name = .ok (some p) →
        p.Canonical ∧ (∃ bytes, fs.entry? p.parts = some (.file bytes)) ∧
          p.text = "/" ++ "/".intercalate p.parts ∧ Path.of p.text = p ∧
          (p.text.utf8ByteSize < FileSystem.maxPath →
            ∀ (cwd : List String) (settings : Settings) (importer : Option Path),
              Host.module? ⟨fs, cwd, settings⟩ importer p.text = .ok (some p))) ∧
      ∀ (host other : Host) (importer away : Option Path) (name word : String) (p q : Path),
        host.files = fs → other.files = fs →
        host.module? importer name = .ok (some p) → other.module? away word = .ok (some q) →
          (∃ c, host.Chooses importer name c) ∧ (∃ d, other.Chooses away word d) ∧
            ∀ c d, host.Chooses importer name c → other.Chooses away word d →
              (p = q ↔ ∃ goal, host.LeadsTo c goal ∧ other.LeadsTo d goal) := by
  constructor
  · rintro host importer name p rfl found
    obtain ⟨goal, rfl, finds⟩ := Host.module?_eq_some_iff.mp found
    obtain ⟨_, _, _, _, _, _, _, leads⟩ := finds.candidate
    obtain ⟨bytes, file⟩ := leads.file
    have canonical := tree.canonical file
    exact ⟨canonical, ⟨bytes, file⟩, canonical.text_eq, canonical.of_text,
      fun short cwd settings => @Host.module?_text ⟨_, cwd, settings⟩ _ _ tree file short⟩
  · intro host other importer away name word p q _ _ found met
    refine ⟨Host.exists_chosen found, Host.exists_chosen met, fun c d chosen taken => ?_⟩
    obtain ⟨goal, resolved, -⟩ := Host.module?_eq_some_iff.mp found
    constructor
    · rintro rfl
      exact ⟨goal, (chosen.leadsTo_iff found).mpr resolved, (taken.leadsTo_iff met).mpr resolved⟩
    · rintro ⟨goal, leads, reaches⟩
      rw [(chosen.leadsTo_iff found).mp leads, (taken.leadsTo_iff met).mp reaches]

def besideSuffix : FileSystem :=
  (FileSystem.empty.write ["lib", "m"] (.file "1".toUTF8)).write ["lib", "m.tn"] (.file "2".toUTF8)

theorem tree_besideSuffix : besideSuffix.Tree := by
  have plain : (FileSystem.empty.write ["lib", "m"] (.file "1".toUTF8)).Tree := by
    apply FileSystem.tree_empty.write
    · decide
    · decide
    · intro n less bytes
      match n, less with
      | 0, _ => exact nofun
      | 1, _ => exact nofun
    · exact .inr nofun
  apply plain.write
  · decide
  · decide
  · intro n less bytes
    match n, less with
    | 0, _ => exact nofun
    | 1, _ => exact nofun
  · exact .inr nofun

theorem resolution_canonical_beside :
    besideSuffix.Tree ∧
      Host.module? ⟨besideSuffix, ["lib"], .unset⟩ none "../lib/./m" =
        .ok (some ⟨.slash, ["lib", "m"]⟩) ∧
      Host.module? ⟨besideSuffix, [], .unset⟩ none "/lib/m" = .ok (some ⟨.slash, ["lib", "m"]⟩) ∧
      ∃ c d, Host.Chooses ⟨besideSuffix, ["lib"], .unset⟩ none "../lib/./m" c ∧
        Host.Chooses ⟨besideSuffix, [], .unset⟩ (some ⟨.slash, ["lib", "m.tn"]⟩) "m" d ∧
        ∃ goal, Host.LeadsTo ⟨besideSuffix, ["lib"], .unset⟩ c goal ∧
          Host.LeadsTo ⟨besideSuffix, [], .unset⟩ d goal := by
  have found : Host.module? ⟨besideSuffix, ["lib"], .unset⟩ none "../lib/./m" =
      .ok (some ⟨.slash, ["lib", "m"]⟩) := by
    with_unfolding_all rfl
  have met : Host.module? ⟨besideSuffix, [], .unset⟩ (some ⟨.slash, ["lib", "m.tn"]⟩) "m" =
      .ok (some ⟨.slash, ["lib", "m"]⟩) := by
    with_unfolding_all rfl
  obtain ⟨single, pair⟩ := resolution_canonical besideSuffix tree_besideSuffix
  obtain ⟨-, -, text, -, again⟩ := single _ none _ _ rfl found
  obtain ⟨⟨c, chosen⟩, ⟨d, taken⟩, same⟩ := pair _ _ none _ _ _ _ _ rfl rfl found met
  have written : (Path.mk .slash ["lib", "m"]).text = "/lib/m" := by decide +kernel
  refine ⟨tree_besideSuffix, found, ?_, c, d, chosen, taken, (same c d chosen taken).mp rfl⟩
  rw [written] at again
  exact again (by decide +kernel) [] .unset none

end TernLang
