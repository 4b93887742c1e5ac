import TernLang.Eval.Module
import Mathlib.Data.List.Dedup

/-!
Where paths lead. A path is walked from directory to directory. What a module's name stands for is
the file that the first of its candidates leads to, and the path that is found for it names the
place of this file, however the name is written. Looking for it and reading it fail for a few
reasons only.
-/
namespace TernLang

namespace Path
variable {place parts : List String} {part : String}

theorem collapse_append (h : ".." ∉ parts) : collapse place parts = place ++ parts := by
  induction parts generalizing place with
  | nil => simp [collapse]
  | cons part parts ih =>
    obtain ⟨name, rest⟩ := not_or.mp (List.mem_cons.not.mp h)
    rw [collapse, if_neg (Ne.symm name), ih rest, List.append_assoc, List.singleton_append]

theorem up_not_mem_collapse (h : ".." ∉ place) : ".." ∉ collapse place parts := by
  induction parts generalizing place with
  | nil => exact h
  | cons part parts ih =>
    rw [collapse]
    apply ih
    split
    · exact fun member => h ((List.dropLast_sublist place).subset member)
    · rename_i name
      simpa [h] using Ne.symm name

theorem mem_collapse (member : part ∈ collapse place parts) : part ∈ place ∨ part ∈ parts := by
  induction parts generalizing place with
  | nil => exact .inl member
  | cons step parts ih =>
    rw [collapse] at member
    rcases ih member with before | after
    · split at before
      · exact .inl ((List.dropLast_sublist place).subset before)
      · rcases List.mem_append.mp before with old | new
        · exact .inl old
        · obtain rfl := List.mem_singleton.mp new
          exact .inr List.mem_cons_self
    · exact .inr (List.mem_cons_of_mem step after)

theorem name_of_eq_empty {s : String} : (Path.of s).name = "" ↔ (Path.of s).parts = [] := by
  constructor
  · intro unnamed
    rcases List.eq_nil_or_concat' (Path.of s).parts with empty | ⟨before, last, parts⟩
    · exact empty
    · have kept : last ∈ (Path.of s).parts := by simp [parts]
      have named : last ≠ "" := by
        have filtered := (List.mem_filter.mp kept).2
        simp only [Bool.and_eq_true, decide_eq_true_eq] at filtered
        exact filtered.1
      rw [name, parts, List.getLastD_concat] at unnamed
      exact absurd unnamed named
  · intro empty
    rw [name, empty]
    rfl

end Path

namespace FileSystem

/-- Walking from a place, through directories that are there, one comes to another place. -/
inductive Leads (fs : FileSystem) : List String → List String → List String → Prop where
  | here (place : List String) : Leads fs place [] place
  | up {place parts goal : List String} (directory : fs.entry? place = some .directory)
    (rest : Leads fs place.dropLast parts goal) : Leads fs place (".." :: parts) goal
  | down {place parts goal : List String} {part : String}
    (directory : fs.entry? place = some .directory) (name : part ≠ "..")
    (rest : Leads fs (place ++ [part]) parts goal) : Leads fs place (part :: parts) goal

def isFile (fs : FileSystem) (place : List String) : Bool :=
  match fs.entry? place with
  | some (.file _) => true
  | _ => false

def filePaths (fs : FileSystem) : List Path :=
  (((fs.entries.map Prod.fst).filter fs.isFile).dedup).map (Path.mk .slash)

variable {fs : FileSystem} {place parts goal : List String} {bytes : ByteArray}

theorem isFile_of_entry (h : fs.entry? place = some (.file bytes)) : fs.isFile place = true := by
  rw [isFile, h]

theorem mem_filePaths (h : fs.entry? place = some (.file bytes)) :
    (⟨.slash, place⟩ : Path) ∈ fs.filePaths := by
  apply List.mem_map_of_mem
  apply List.mem_dedup.mpr
  refine List.mem_filter.mpr ⟨?_, isFile_of_entry h⟩
  unfold entry? at h
  split at h
  · cases h
  · obtain ⟨entry, here, -⟩ := Option.map_eq_some_iff.mp h
    have same : entry.1 = place := by simpa using List.find?_some here
    exact same ▸ List.mem_map_of_mem (List.mem_of_find?_eq_some here)

/-- The place that a walk comes to can be told without looking at the file system. -/
theorem Leads.goal_eq (h : fs.Leads place parts goal) : goal = Path.collapse place parts := by
  induction h with
  | here => rfl
  | up _ _ ih => simpa [Path.collapse] using ih
  | down _ name _ ih => simpa [Path.collapse, name] using ih

theorem leads_of_follow (h : fs.follow place parts = .ok bytes) :
    fs.Leads place parts (Path.collapse place parts) ∧
      fs.entry? (Path.collapse place parts) = some (.file bytes) := by
  fun_induction follow fs place parts with
  | case1 place bytes' found =>
    cases h
    exact ⟨.here place, found⟩
  | case2 | case3 | case4 | case5 | case7 => cases h
  | case6 place parts directory ih =>
    obtain ⟨walk, file⟩ := ih h
    rw [Path.collapse, if_pos rfl]
    exact ⟨.up directory walk, file⟩
  | case8 place part parts directory name _ ih =>
    obtain ⟨walk, file⟩ := ih h
    rw [Path.collapse, if_neg name]
    exact ⟨.down directory name walk, file⟩

end FileSystem

namespace Host
variable {host : Host} {p path : Path} {goal : List String} {bytes : ByteArray}
  {importer : Option Path} {name : String} {halt : Halt}

/-- The path leads to the file at a place, from the working directory if it is relative. -/
structure LeadsTo (host : Host) (p : Path) (goal : List String) : Prop where
  walk : host.files.Leads (if p.isAbsolute then [] else host.cwd) p.parts goal
  file : ∃ bytes, host.files.entry? goal = some (.file bytes)

theorem leadsTo_of_read (h : host.files.read host.cwd p = .ok bytes) :
    host.LeadsTo p (p.resolve host.cwd).parts ∧
      host.files.entry? (p.resolve host.cwd).parts = some (.file bytes) := by
  unfold FileSystem.read at h
  split at h
  · cases h
  · obtain ⟨walk, file⟩ := FileSystem.leads_of_follow h
    exact ⟨⟨walk, bytes, file⟩, file⟩

theorem LeadsTo.resolve_eq (h : host.LeadsTo p goal) : p.resolve host.cwd = ⟨.slash, goal⟩ := by
  rw [Path.resolve, h.walk.goal_eq]

/-- There is no file at the path, and it is not too long to find that out. -/
def Passes (host : Host) (p : Path) : Prop :=
  p.hasNul = true ∨ ∃ why, host.files.read host.cwd p = .error why ∧ why ≠ .nameTooLong

/-- The first candidate for a module's name at which there is a file leads to the file at a place.
-/
structure Finds (host : Host) (importer : Option Path) (name : String) (goal : List String) : Prop
    where
  candidate : ∃ sooner p later, host.candidates importer name = .ok (sooner ++ p :: later) ∧
    (∀ s ∈ sooner, host.Passes s) ∧ p.hasNul = false ∧
      (∃ bytes, host.files.read host.cwd p = .ok bytes) ∧ host.LeadsTo p goal

theorem spellings_eq_error_iff :
    spellings (.of name) = .error halt ↔ halt = .emptyName ∧ (Path.of name).parts = [] := by
  rw [← Path.name_of_eq_empty]
  by_cases named : (Path.of name).name = ""
  · have plain : (Path.of name).hasSuffix = false := by
      rw [Path.hasSuffix, named]
      rfl
    simp [spellings, plain, named, eq_comm]
  · have known : ∃ names, spellings (.of name) = .ok names := by
      rw [spellings]
      split
      · exact ⟨_, rfl⟩
      · exact ⟨_, rfl⟩
    obtain ⟨names, known⟩ := known
    simp [known, named]

theorem candidates_eq_error_iff :
    host.candidates importer name = .error halt ↔ halt = .emptyName ∧ (Path.of name).parts = [] := by
  rw [← spellings_eq_error_iff]
  unfold candidates
  rcases spellings (.of name) with e | names
  · exact Iff.rfl
  · simp only [reduceCtorEq, iff_false]
    split
    · exact nofun
    · exact nofun

/-- The name stands for no path, or there is a path among its candidates that is too long to look
for, and no file at those before. -/
inductive Unsought (host : Host) (importer : Option Path) (name : String) : Halt → Prop where
  | empty (parts : (Path.of name).parts = []) : Unsought host importer name .emptyName
  | long {sooner later : List Path} {p : Path}
    (names : host.candidates importer name = .ok (sooner ++ p :: later))
    (passed : ∀ s ∈ sooner, host.Passes s) (clear : p.hasNul = false)
    (long : host.files.read host.cwd p = .error .nameTooLong) :
    Unsought host importer name .nameTooLong

theorem firstFile_passes {ps : List Path} (h : host.Passes p) :
    host.firstFile (p :: ps) = host.firstFile ps := by
  rw [firstFile]
  split
  · rfl
  · rename_i clear
    obtain nul | ⟨why, refused, short⟩ := h
    · exact absurd nul clear
    · rw [refused]
      cases why with
      | nameTooLong => contradiction
      | missing | notDirectory | isDirectory => rfl

theorem not_passes (h : ¬ host.Passes p) :
    p.hasNul = false ∧ ((∃ bytes, host.files.read host.cwd p = .ok bytes) ∨
      host.files.read host.cwd p = .error .nameTooLong) := by
  obtain ⟨clear, readable⟩ := not_or.mp h
  refine ⟨by simpa using clear, ?_⟩
  rcases read : host.files.read host.cwd p with why | bytes
  · by_cases long : why = .nameTooLong
    · exact .inr (congrArg _ long)
    · exact absurd ⟨why, read, long⟩ readable
  · exact .inl ⟨bytes, rfl⟩

theorem firstFile_of_read {ps : List Path} (clear : p.hasNul = false)
    (read : host.files.read host.cwd p = .ok bytes) :
    host.firstFile (p :: ps) = .ok (some (p.resolve host.cwd)) := by
  rw [firstFile, clear, read]
  rfl

theorem firstFile_of_long {ps : List Path} (clear : p.hasNul = false)
    (long : host.files.read host.cwd p = .error .nameTooLong) :
    host.firstFile (p :: ps) = .error .nameTooLong := by
  rw [firstFile, clear, long]
  rfl

theorem firstFile_append {sooner later : List Path} (passed : ∀ s ∈ sooner, host.Passes s) :
    host.firstFile (sooner ++ later) = host.firstFile later := by
  induction sooner with
  | nil => rfl
  | cons s sooner ih =>
    obtain ⟨here, rest⟩ := List.forall_mem_cons.mp passed
    rw [List.cons_append, firstFile_passes here, ih rest]

theorem firstFile_split (host : Host) (ps : List Path) :
    host.firstFile ps = .ok none ∨ ∃ sooner p later, ps = sooner ++ p :: later ∧
      (∀ s ∈ sooner, host.Passes s) ∧ ¬ host.Passes p := by
  induction ps with
  | nil => exact .inl rfl
  | cons p ps ih =>
    by_cases passes : host.Passes p
    · rw [firstFile_passes passes]
      obtain none | ⟨sooner, q, later, rfl, passed, stops⟩ := ih
      · exact .inl none
      · exact .inr ⟨p :: sooner, q, later, rfl, List.forall_mem_cons.mpr ⟨passes, passed⟩, stops⟩
    · exact .inr ⟨[], p, ps, rfl, by simp, passes⟩

theorem module?_of_candidates {ps : List Path} (names : host.candidates importer name = .ok ps) :
    host.module? importer name = host.firstFile ps := by
  unfold module?
  rw [names]

theorem module?_of_no_candidates (refused : host.candidates importer name = .error halt) :
    host.module? importer name = .error halt := by
  unfold module?
  rw [refused]

theorem module?_cases (host : Host) (importer : Option Path) (name : String) :
    host.module? importer name = .ok none ∨
      (∃ h, host.module? importer name = .error h ∧ host.Unsought importer name h) ∨
      ∃ goal, host.module? importer name = .ok (some ⟨.slash, goal⟩) ∧
        host.Finds importer name goal := by
  rcases names : host.candidates importer name with h | ps
  · obtain ⟨rfl, parts⟩ := candidates_eq_error_iff.mp names
    exact .inr (.inl ⟨_, module?_of_no_candidates names, .empty parts⟩)
  · rw [module?_of_candidates names]
    obtain none | ⟨sooner, p, later, rfl, passed, stops⟩ := firstFile_split host ps
    · exact .inl none
    · rw [firstFile_append passed]
      obtain ⟨clear, ⟨bytes, read⟩ | long⟩ := not_passes stops
      · have leads := (leadsTo_of_read read).1
        exact .inr (.inr ⟨_, firstFile_of_read clear read,
          ⟨sooner, p, later, names, passed, clear, ⟨bytes, read⟩, leads⟩⟩)
      · exact .inr (.inl ⟨_, firstFile_of_long clear long, .long names passed clear long⟩)

theorem Finds.module?_eq (h : host.Finds importer name goal) :
    host.module? importer name = .ok (some ⟨.slash, goal⟩) := by
  obtain ⟨sooner, p, later, names, passed, clear, ⟨bytes, read⟩, leads⟩ := h.candidate
  rw [module?_of_candidates names, firstFile_append passed, firstFile_of_read clear read,
    leads.resolve_eq]

theorem Unsought.module?_eq (h : host.Unsought importer name halt) :
    host.module? importer name = .error halt := by
  cases h with
  | empty parts => exact module?_of_no_candidates (candidates_eq_error_iff.mpr ⟨rfl, parts⟩)
  | @long sooner later p names passed clear long =>
    rw [module?_of_candidates names, firstFile_append passed, firstFile_of_long clear long]

/-- What is found for a module's name is the place of the file that the name leads to. -/
theorem module?_eq_some_iff :
    host.module? importer name = .ok (some path) ↔
      ∃ goal, path = ⟨.slash, goal⟩ ∧ host.Finds importer name goal := by
  constructor
  · intro found
    obtain none | ⟨_, refused, -⟩ | ⟨goal, other, finds⟩ := module?_cases host importer name
    · simp [none] at found
    · simp [refused] at found
    · refine ⟨goal, ?_, finds⟩
      simpa [other, eq_comm] using found
  · rintro ⟨goal, rfl, finds⟩
    exact finds.module?_eq

/-- All that can be wrong with looking for a module. -/
theorem module?_eq_error_iff :
    host.module? importer name = .error halt ↔ host.Unsought importer name halt := by
  constructor
  · intro refused
    obtain none | ⟨_, same, unsought⟩ | ⟨_, found, -⟩ := module?_cases host importer name
    · simp [none] at refused
    · rw [same] at refused
      cases refused
      exact unsought
    · simp [found] at refused
  · exact Unsought.module?_eq

theorem Finds.mem_filePaths (h : host.Finds importer name goal) :
    (⟨.slash, goal⟩ : Path) ∈ host.files.filePaths := by
  obtain ⟨_, _, _, _, _, _, _, leads⟩ := h.candidate
  obtain ⟨bytes, file⟩ := leads.file
  exact FileSystem.mem_filePaths file

theorem clear_resolve {cwd : List String} (known : Path.hasNul ⟨.slash, cwd⟩ = false)
    (clear : p.hasNul = false) : (p.resolve cwd).hasNul = false := by
  simp only [Path.hasNul, List.any_eq_false] at known clear ⊢
  intro part member
  rcases Path.mem_collapse member with start | step
  · split at start
    · cases start
    · exact known part start
  · exact clear part step

theorem Finds.clear (h : host.Finds importer name goal)
    (known : Path.hasNul ⟨.slash, host.cwd⟩ = false) : Path.hasNul ⟨.slash, goal⟩ = false := by
  obtain ⟨_, p, _, _, _, clear, _, leads⟩ := h.candidate
  rw [leads.walk.goal_eq]
  exact clear_resolve known clear

theorem readText_eq_error_iff : host.readText p = .error halt ↔
    (halt = .nulInPath ∧ p.hasNul = true) ∨ p.hasNul = false ∧
      ((∃ why, halt = .unreadable p why ∧ host.files.read host.cwd p = .error why) ∨
        halt = .notUtf8 ∧
          ∃ bytes, host.files.read host.cwd p = .ok bytes ∧ fileText? bytes = none) := by
  rw [readText]
  split
  · rename_i nul
    simp [nul, eq_comm]
  · rename_i clear
    split
    · rename_i why refused
      simp [clear, refused, eq_comm]
    · rename_i bytes read
      split
      · rename_i broken
        simp [clear, read, broken, eq_comm]
      · rename_i text decoded
        simp [clear, read, decoded]

theorem resolve_mem_filePaths {text : String} (placed : ".." ∉ host.cwd)
    (h : host.readText (p.resolve host.cwd) = .ok text) :
    p.resolve host.cwd ∈ host.files.filePaths := by
  have plain : ".." ∉ (p.resolve host.cwd).parts := by
    apply Path.up_not_mem_collapse
    split
    · exact List.not_mem_nil
    · exact placed
  unfold readText at h
  split at h
  · cases h
  · split at h
    · cases h
    · rename_i bytes read
      have file := (leadsTo_of_read read).2
      have here : ((p.resolve host.cwd).resolve host.cwd).parts = (p.resolve host.cwd).parts :=
        Path.collapse_append plain
      rw [here] at file
      exact FileSystem.mem_filePaths file

end Host
end TernLang
