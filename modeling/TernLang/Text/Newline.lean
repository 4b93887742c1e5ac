/-!
Line ends. A file may end its lines with a line feed, a carriage return or both; all three are read
as one line feed.
-/
namespace TernLang.Text

def unifyNewlines : List Char → List Char
  | [] => []
  | '\r' :: '\n' :: rest => '\n' :: unifyNewlines rest
  | '\r' :: rest => '\n' :: unifyNewlines rest
  | c :: rest => c :: unifyNewlines rest

theorem unifyNewlines_no_return (cs : List Char) : '\r' ∉ unifyNewlines cs := by
  fun_induction unifyNewlines cs with
  | case1 => simp
  | case2 rest ih => simp [ih]
  | case3 rest _ ih => simp [ih]
  | case4 c rest _ notReturn ih => simp [ih, Ne.symm notReturn]

end TernLang.Text
