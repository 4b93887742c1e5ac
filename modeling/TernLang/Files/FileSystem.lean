import TernLang.Files.Path
import TernLang.Text.Newline

/-!
A file system without links: entries by their components from the root. A path is followed from left
to right, so each directory before a `..` has to exist.
-/
namespace TernLang

inductive Entry where
  | file (bytes : ByteArray)
  | directory
  deriving Inhabited

structure FileSystem where
  entries : List (List String × Entry)
  deriving Inhabited

inductive Unreadable where
  | missing | notDirectory | isDirectory | nameTooLong
  deriving DecidableEq, Repr

def Unreadable.reason : Unreadable → String
  | missing => "No such file or directory"
  | notDirectory => "Not a directory"
  | isDirectory => "Is a directory"
  | nameTooLong => "File name too long"

namespace FileSystem

def maxName : Nat := 255

/-- The first length of a whole path, in bytes, that is refused. -/
def maxPath : Nat := 4096

def empty : FileSystem := ⟨[]⟩

/-- The root is a directory in every file system. -/
def entry? (fs : FileSystem) (place : List String) : Option Entry :=
  if place.isEmpty then some .directory
  else (fs.entries.find? fun e => e.1 = place).map Prod.snd

def follow (fs : FileSystem) : List String → List String → Except Unreadable ByteArray
  | place, [] =>
    match fs.entry? place with
    | some (.file bytes) => .ok bytes
    | some .directory => .error .isDirectory
    | none => .error .missing
  | place, part :: parts =>
    match fs.entry? place with
    | none => .error .missing
    | some (.file _) => .error .notDirectory
    | some .directory =>
      if part = ".." then fs.follow place.dropLast parts
      else if maxName < part.utf8ByteSize then .error .nameTooLong
      else fs.follow (place ++ [part]) parts

def read (fs : FileSystem) (cwd : List String) (p : Path) : Except Unreadable ByteArray :=
  if maxPath ≤ p.text.utf8ByteSize then .error .nameTooLong
  else fs.follow (if p.isAbsolute then [] else cwd) p.parts

def put (fs : FileSystem) (place : List String) (e : Entry) : FileSystem :=
  ⟨(place, e) :: fs.entries.filter fun old => old.1 ≠ place⟩

def withDirectory (fs : FileSystem) (place : List String) : FileSystem :=
  match fs.entry? place with
  | some _ => fs
  | none => fs.put place .directory

def makeParents (fs : FileSystem) (place : List String) : FileSystem :=
  ((List.range place.length).drop 1).foldl (fun fs n => fs.withDirectory (place.take n)) fs

def write (fs : FileSystem) (place : List String) (e : Entry) : FileSystem :=
  (fs.makeParents place).put place e

end FileSystem

def fileText? (bytes : ByteArray) : Option String :=
  (String.fromUTF8? bytes).map fun s => String.ofList (Text.unifyNewlines s.toList)

end TernLang
