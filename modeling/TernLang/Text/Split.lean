/-!
Cutting a text at a separator.
-/
namespace TernLang.Text

/-- The pieces between the separators, one more than there are separators. -/
def splitOn (separator : Char) : List Char → List (List Char)
  | [] => [[]]
  | c :: cs =>
    if c = separator then [] :: splitOn separator cs
    else
      match splitOn separator cs with
      | [] => [[c]]
      | piece :: pieces => (c :: piece) :: pieces

theorem splitOn_ne_nil (separator : Char) (cs : List Char) :
    splitOn separator cs ≠ [] := by
  induction cs with
  | nil => simp [splitOn]
  | cons c cs ih =>
    simp only [splitOn]
    split
    · simp
    · split <;> simp

theorem length_splitOn (separator : Char) (cs : List Char) :
    (splitOn separator cs).length = cs.count separator + 1 := by
  induction cs with
  | nil => rfl
  | cons c cs ih =>
    simp only [splitOn]
    split
    · rename_i isSeparator
      simp [isSeparator, ih]
    · rename_i notSeparator
      split
      · rename_i noPiece
        exact absurd noPiece (splitOn_ne_nil separator cs)
      · rename_i pieces
        simp [pieces, List.count_cons_of_ne notSeparator] at ih ⊢
        omega

def split (separator : Char) (s : String) : List String :=
  (splitOn separator s.toList).map String.ofList

end TernLang.Text
