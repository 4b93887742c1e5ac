import TernLang.Value.Basic

/-!
Equality of values. Values of different types are never equal, hashes are equal whatever the order
of their pairs, and no two functions are: even the same text makes another function each time.
-/
namespace TernLang

mutual

def Value.same : Value → Value → Bool
  | .int m, .int n => m = n
  | .bool a, .bool b => a = b
  | .str s, .str t => s = t
  | .null, .null => true
  | .array vs, .array ws => sameAll vs ws
  | .hash ps, .hash qs => ps.length = qs.length && sameEntries ps qs
  | .builtin a, .builtin b => a = b
  | .ret v, .ret w => v.same w
  | .brk, .brk => true
  | .err m, .err n => m = n
  | _, _ => false

def sameAll : List Value → List Value → Bool
  | [], [] => true
  | v :: vs, w :: ws => v.same w && sameAll vs ws
  | _, _ => false

/-- Each of the pairs has an equal one with the same key. -/
def sameEntries : List (Key × Value) → List (Key × Value) → Bool
  | [], _ => true
  | (k, v) :: ps, qs =>
    (match findPair k qs with
      | some w => v.same w
      | none => false) && sameEntries ps qs

end

end TernLang
