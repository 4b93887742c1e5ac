import TernLang.Syntax.Tree

/-!
Runtime values. Data values are what programs compute with; control values (a return on its way to
its call, a break on its way to its loop, an error on its way out) are answers of evaluation that
are never bound to a name nor stored in an array or a hash.
-/
namespace TernLang

abbrev FrameId := Nat

inductive Builtin where
  | len | first | last | tail | push | puts
  deriving DecidableEq, Repr

namespace Builtin

def name : Builtin → String
  | len => "len"
  | first => "first"
  | last => "last"
  | tail => "tail"
  | push => "push"
  | puts => "puts"

def all : List Builtin := [len, first, last, tail, push, puts]

def ofName? (name : String) : Option Builtin := all.find? fun b => b.name = name

end Builtin

inductive Key where
  | int (n : Int)
  | bool (b : Bool)
  | str (s : String)
  deriving DecidableEq, Repr

inductive Value where
  | int (n : Int)
  | bool (b : Bool)
  | str (s : String)
  | null
  | array (elements : List Value)
  /-- Pairs with distinct keys, in the order in which the keys came. -/
  | hash (pairs : List (Key × Value))
  /-- A function sees the frame it was made in, with whatever is bound there later. -/
  | fn (parameters : List Ident) (body : Block) (home : FrameId)
  | builtin (b : Builtin)
  | ret (value : Value)
  | brk
  | err (message : String)

instance : Inhabited Value := ⟨.null⟩

inductive TypeTag where
  | integer | boolean | string | null | array | hash | function | builtin | returnValue | break
  | error
  deriving DecidableEq, Repr

def TypeTag.name : TypeTag → String
  | integer => "INTEGER"
  | boolean => "BOOLEAN"
  | string => "STRING"
  | null => "NULL"
  | array => "ARRAY"
  | hash => "HASH"
  | function => "FUNCTION"
  | builtin => "BUILTIN"
  | returnValue => "RETURN_VALUE"
  | .break => "BREAK"
  | error => "ERROR"

def Key.value : Key → Value
  | int n => .int n
  | bool b => .bool b
  | str s => .str s

namespace Value

def tag : Value → TypeTag
  | int _ => .integer
  | bool _ => .boolean
  | str _ => .string
  | null => .null
  | array _ => .array
  | hash _ => .hash
  | fn _ _ _ => .function
  | builtin _ => .builtin
  | ret _ => .returnValue
  | brk => .break
  | err _ => .error

def typeName (v : Value) : String := v.tag.name

def isError : Value → Bool
  | err _ => true
  | _ => false

/-- A value that is handed up instead of being used. -/
def isControl : Value → Bool
  | ret _ | brk | err _ => true
  | _ => false

/-- Only `false` and `null` fail a condition. -/
def holds : Value → Bool
  | bool false | null => false
  | _ => true

def key? : Value → Option Key
  | int n => some (.int n)
  | bool b => some (.bool b)
  | str s => some (.str s)
  | _ => none

def isKey (v : Value) : Bool := v.key?.isSome

end Value

def findPair (k : Key) : List (Key × Value) → Option Value
  | [] => none
  | (l, v) :: ps => if l = k then some v else findPair k ps

def putPair (k : Key) (v : Value) : List (Key × Value) → List (Key × Value)
  | [] => [(k, v)]
  | (l, w) :: ps => if l = k then (k, v) :: ps else (l, w) :: putPair k v ps

theorem findPair_putPair (k l : Key) (v : Value) (ps : List (Key × Value)) :
    findPair l (putPair k v ps) = if k = l then some v else findPair l ps := by
  induction ps with
  | nil => simp [putPair, findPair]
  | cons p ps ih =>
    obtain ⟨m, w⟩ := p
    simp only [putPair]
    split
    · subst m; simp only [findPair]; split <;> rfl
    · rename_i differs
      simp only [findPair, ih]
      split
      · subst m; simp [Ne.symm differs]
      · rfl

end TernLang
