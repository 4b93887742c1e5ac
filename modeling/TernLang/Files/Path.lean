import TernLang.Text.Split

/-!
Paths as they are written in programs and settings. Empty and `.` components are dropped when a path
is read; `..` is kept, because where it leads is for the file system to say.
-/
namespace TernLang

/-- Two leading slashes are a root of their own; more than two are one. -/
inductive PathRoot where
  | relative | slash | doubleSlash
  deriving DecidableEq, Repr

structure Path where
  root : PathRoot
  parts : List String
  deriving DecidableEq, Repr

def PathRoot.text : PathRoot → String
  | relative => ""
  | slash => "/"
  | doubleSlash => "//"

def PathRoot.of : List Char → PathRoot
  | '/' :: '/' :: '/' :: _ => slash
  | '/' :: '/' :: _ => doubleSlash
  | '/' :: _ => slash
  | _ => relative

namespace Path

def of (s : String) : Path :=
  ⟨.of s.toList, (Text.split '/' s).filter fun part => part ≠ "" && part ≠ "."⟩

def isAbsolute (p : Path) : Bool := p.root ≠ .relative

def text (p : Path) : String :=
  if p.root = .relative && p.parts.isEmpty then "." else p.root.text ++ "/".intercalate p.parts

def name (p : Path) : String := p.parts.getLastD ""

/-- A suffix starts at the last dot of a name, which is neither its first nor its last character. -/
def nameHasSuffix (name : List Char) : Bool :=
  match name.reverse.span (· ≠ '.') with
  | (_ :: _, _ :: _ :: _) => true
  | _ => false

def hasSuffix (p : Path) : Bool := nameHasSuffix p.name.toList

def withSuffix (p : Path) (suffix : String) : Path :=
  { p with parts := p.parts.dropLast ++ [p.name ++ suffix] }

def parent (p : Path) : Path := { p with parts := p.parts.dropLast }

def under (base p : Path) : Path :=
  if p.isAbsolute then p else { base with parts := base.parts ++ p.parts }

def hasNul (p : Path) : Bool := p.parts.any fun part => part.toList.contains '\x00'

def collapse : List String → List String → List String
  | place, [] => place
  | place, part :: parts =>
    collapse (if part = ".." then place.dropLast else place ++ [part]) parts

/-- The place that a path means in a working directory, found without looking at any file. -/
def resolve (cwd : List String) (p : Path) : Path :=
  ⟨.slash, collapse (if p.isAbsolute then [] else cwd) p.parts⟩

end Path
end TernLang
