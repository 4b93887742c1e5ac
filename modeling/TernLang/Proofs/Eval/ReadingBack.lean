import TernLang.Proofs.Eval.Piecewise
import TernLang.Proofs.Eval.Wrapping
import TernLang.Proofs.Eval.HashLiterals
import TernLang.Proofs.Value.Displayed
import TernLang.Proofs.Value.Equivalence

/-!
Displayed values read back. The text of a value is an expression that rebuilds the value: it is
evaluated without a look at the world, and answers what cannot be told from the value by its text. It
takes as many levels of nesting as the value has, and one more for a negative integer.
-/
namespace TernLang

def Key.levels : Key → Nat
  | .int n => if n < 0 then 2 else 1
  | .bool _ | .str _ => 1

mutual

/-- How many levels of nesting the text of a value makes. -/
def Value.levels : Value → Nat
  | .int n => (Key.int n).levels
  | .array vs => levelsOfAll vs + 1
  | .hash ps => levelsOfEntries ps + 1
  | _ => 1

def levelsOfAll : List Value → Nat
  | [] => 0
  | v :: vs => max v.levels (levelsOfAll vs)

def levelsOfEntries : List (Key × Value) → Nat
  | [] => 0
  | (k, v) :: ps => max (max k.levels v.levels) (levelsOfEntries ps)

end

namespace Value

def FunctionFree (v : Value) : Prop := v.Throughout fun u => u.tag ≠ .function

/-- What is left of a value when it has been read from its text: all but the functions in it. -/
structure Renewed (v u : Value) : Prop where
  data : u.isControl = false
  text : u.text = v.text
  equal : v.FunctionFree → u = v

structure Rebuilt (v : Value) (e : Expr) : Prop where
  room (cx : Context) {depth : Nat} (i : FrameId) (w : World) (enough : v.levels ≤ depth) :
    ∃ u, eval cx depth (.expr e) i w = (.ok u, w) ∧ v.Renewed u
  cramped (cx : Context) {depth : Nat} (i : FrameId) (w : World) (less : depth < v.levels) :
    eval cx depth (.expr e) i w = (.error .tooDeep, w)

/-- Values that are displayed as expressions. A function has parameters and a body that were read
from some text. -/
def Displayed : Value → Prop
  | .int n => -0x7fffffffffffffff ≤ n ∧ n ≤ 0x7fffffffffffffff
  | .bool _ | .array _ => True
  | .fn ps b _ => (∃ t a, (Node.expr (.fn t ps a)).Readable) ∧ (Node.block b).Readable
  | .hash ps => (ps.map Prod.fst).Nodup
  | _ => False

end Value

section
variable {vs us : List Value} {ps : List (Key × Value)} {es : List Expr} {qs : List (Expr × Expr)}
  {depth : Nat} (cx : Context) (i : FrameId) (w : World)

theorem Key.value_levels (k : Key) : k.value.levels = k.levels := by
  cases k <;> rfl

theorem Key.value_text (k : Key) : k.value.text = k.text := by
  cases k <;> rfl

theorem Key.value_functionFree (k : Key) : k.value.FunctionFree := by
  cases k <;> exact Value.throughout_of_simple rfl nofun

theorem all_room (each : List.Forall₂ Value.Rebuilt vs es) (room : levelsOfAll vs ≤ depth) :
    ∃ us, Eval.all (eval cx depth) i es w = (.ok (.ok us), w) ∧
      List.Forall₂ Value.Renewed vs us := by
  induction each with
  | nil => exact ⟨[], rfl, .nil⟩
  | cons first rest ih =>
    obtain ⟨here, others⟩ := Nat.max_le.mp room
    obtain ⟨u, run, renewed⟩ := first.room cx i w here
    obtain ⟨us, runs, all⟩ := ih others
    refine ⟨u :: us, ?_, .cons renewed all⟩
    rw [Eval.all, Run.bind_ok run, renewed.data, if_neg Bool.false_ne_true, Run.bind_ok runs]
    rfl

theorem all_cramped (each : List.Forall₂ Value.Rebuilt vs es) (less : depth < levelsOfAll vs) :
    Eval.all (eval cx depth) i es w = (.error .tooDeep, w) := by
  induction each with
  | nil => cases less
  | @cons v e vs es first rest ih =>
    by_cases room : v.levels ≤ depth
    · obtain ⟨u, run, renewed⟩ := first.room cx i w room
      have others : depth < levelsOfAll vs := by
        rw [levelsOfAll] at less
        omega
      rw [Eval.all, Run.bind_ok run, renewed.data, if_neg Bool.false_ne_true,
        Run.bind_error (ih others)]
    · rw [Eval.all, Run.bind_error (first.cramped cx i w (Nat.lt_of_not_le room))]

theorem pairs_room (done : List (Key × Value))
    (each : List.Forall₂ (fun p q => p.1.value.Rebuilt q.1 ∧ p.2.Rebuilt q.2) ps qs)
    (room : levelsOfEntries ps ≤ depth) :
    ∃ found, Eval.pairs (eval cx depth) i done qs w = (.ok (.hash (putPairs done found)), w) ∧
      List.Forall₂ (fun p q => p.1 = q.1 ∧ p.2.Renewed q.2) ps found := by
  induction each generalizing done with
  | nil => exact ⟨[], rfl, .nil⟩
  | @cons p q ps qs first rest ih =>
    obtain ⟨k, v⟩ := p
    obtain ⟨here, others⟩ := Nat.max_le.mp room
    obtain ⟨keyRoom, valueRoom⟩ := Nat.max_le.mp here
    obtain ⟨u, runKey, renewedKey⟩ := first.1.room cx i w (k.value_levels.symm ▸ keyRoom)
    obtain rfl := renewedKey.equal k.value_functionFree
    obtain ⟨u, runValue, renewed⟩ := first.2.room cx i w valueRoom
    obtain ⟨found, runs, all⟩ := ih (putPair k u done) others
    obtain ⟨-, keyed, own⟩ := Eval.key_value k
    refine ⟨(k, u) :: found, ?_, .cons ⟨rfl, renewed⟩ all⟩
    rw [Eval.pairs, onData_run runKey renewedKey.data, if_pos keyed,
      onData_run runValue renewed.data, own]
    exact runs

theorem pairs_cramped (done : List (Key × Value))
    (each : List.Forall₂ (fun p q => p.1.value.Rebuilt q.1 ∧ p.2.Rebuilt q.2) ps qs)
    (less : depth < levelsOfEntries ps) :
    Eval.pairs (eval cx depth) i done qs w = (.error .tooDeep, w) := by
  induction each generalizing done with
  | nil => cases less
  | @cons p q ps qs first rest ih =>
    obtain ⟨k, v⟩ := p
    by_cases keyRoom : k.levels ≤ depth
    · obtain ⟨u, runKey, renewedKey⟩ := first.1.room cx i w (k.value_levels.symm ▸ keyRoom)
      obtain rfl := renewedKey.equal k.value_functionFree
      obtain ⟨-, keyed, own⟩ := Eval.key_value k
      rw [Eval.pairs, onData_run runKey renewedKey.data, if_pos keyed]
      by_cases valueRoom : v.levels ≤ depth
      · obtain ⟨u, runValue, renewed⟩ := first.2.room cx i w valueRoom
        have others : depth < levelsOfEntries ps := by
          rw [levelsOfEntries] at less
          omega
        rw [onData_run runValue renewed.data, own]
        exact ih _ others
      · rw [onData_error (first.2.cramped cx i w (Nat.lt_of_not_le valueRoom))]
    · have key := first.1.cramped cx i w (k.value_levels.symm ▸ Nat.lt_of_not_le keyRoom)
      rw [Eval.pairs, onData_error key]

end

namespace Value
variable {vs us : List Value} {ps found : List (Key × Value)} {es : List Expr}
  {qs : List (Expr × Expr)}

theorem comparable_of_displayed {v : Value} (displayed : v.Throughout Displayed)
    (free : v.FunctionFree) : v.Comparable := by
  have both := displayed.both free
  clear displayed free
  induction both with
  | @intro v here _ ih =>
    refine .intro ?_ ih
    cases v with
    | fn => exact here.2 rfl
    | hash ps => exact here.1
    | _ => trivial

theorem FunctionFree.part {v u : Value} (h : v.FunctionFree) (inside : u ∈ v.parts) :
    u.FunctionFree := Throughout.part h inside

theorem Renewed.array (all : List.Forall₂ Renewed vs us) : (array vs).Renewed (array us) where
  data := rfl
  text := by
    have texts : List.Forall₂ (fun v u => v.text = u.text) vs us :=
      all.imp fun _ _ renewed => renewed.text.symm
    rw [Likeness.text_array, Likeness.text_array, Likeness.map_eq_of_forall₂ texts]
  equal free := by
    have each : ∀ v ∈ vs, ∀ u, v.Renewed u → v = u := fun v member u renewed =>
      (renewed.equal (free.part member)).symm
    rw [eq_of_forall₂ each all]

theorem Renewed.hash (all : List.Forall₂ (fun p q => p.1 = q.1 ∧ p.2.Renewed q.2) ps found) :
    (hash ps).Renewed (hash found) where
  data := rfl
  text := by
    have texts : List.Forall₂ (fun p q : Key × Value =>
        p.1.text ++ ": " ++ p.2.text = q.1.text ++ ": " ++ q.2.text) ps found :=
      all.imp fun _ _ ⟨key, renewed⟩ => by rw [key, renewed.text]
    rw [Likeness.text_hash, Likeness.text_hash, Likeness.map_eq_of_forall₂ texts]
  equal free := by
    have each : ∀ p ∈ ps, ∀ q : Key × Value, p.1 = q.1 ∧ p.2.Renewed q.2 → p = q :=
      fun p member q ⟨key, renewed⟩ =>
        Prod.ext key (renewed.equal (free.part (value_mem_parts member))).symm
    rw [eq_of_forall₂ each all]

theorem Rebuilt.of_step {v : Value} {e : Expr} {least : Nat} (levels : v.levels = least + 1)
    (room : ∀ (cx : Context) (depth : Nat) (i : FrameId) (w : World), least ≤ depth →
      ∃ u, eval cx (depth + 1) (.expr e) i w = (.ok u, w) ∧ v.Renewed u)
    (cramped : ∀ (cx : Context) (depth : Nat) (i : FrameId) (w : World), depth < least →
      eval cx (depth + 1) (.expr e) i w = (.error .tooDeep, w)) : v.Rebuilt e where
  room cx depth i w enough := by
    rw [levels] at enough
    obtain ⟨depth, rfl⟩ := Nat.exists_eq_add_one.mpr (Nat.lt_of_lt_of_le (Nat.succ_pos _) enough)
    exact room cx depth i w (Nat.le_of_succ_le_succ enough)
  cramped cx depth i w less := by
    rw [levels] at less
    cases depth with
    | zero => rfl
    | succ depth => exact cramped cx depth i w (Nat.lt_of_succ_lt_succ less)

theorem Rebuilt.literal {v : Value} {e : Expr} (one : v.levels = 1)
    (run : ∀ (cx : Context) (depth : Nat) (i : FrameId) (w : World),
      ∃ u, eval cx (depth + 1) (.expr e) i w = (.ok u, w) ∧ v.Renewed u) : v.Rebuilt e :=
  .of_step one (fun cx depth i w _ => run cx depth i w) nofun

theorem Rebuilt.array (each : List.Forall₂ Rebuilt vs es) (t : Token) :
    (array vs).Rebuilt (.array t es) := by
  refine .of_step rfl ?_ ?_
  · intro cx depth i w enough
    obtain ⟨us, run, all⟩ := all_room cx i w each enough
    refine ⟨.array us, ?_, .array all⟩
    rw [eval, evalStep, Eval.expr, Eval.onAll, Run.bind_ok run]
    rfl
  · intro cx depth i w less
    rw [eval, evalStep, Eval.expr, Eval.onAll, Run.bind_error (all_cramped cx i w each less)]

theorem Rebuilt.hash (distinct : (ps.map Prod.fst).Nodup)
    (each : List.Forall₂ (fun p q => p.1.value.Rebuilt q.1 ∧ p.2.Rebuilt q.2) ps qs) (t : Token) :
    (hash ps).Rebuilt (.hash t qs) := by
  refine .of_step rfl ?_ ?_
  · intro cx depth i w enough
    obtain ⟨found, run, all⟩ := pairs_room cx i w [] each enough
    have keys : ps.map Prod.fst = found.map Prod.fst :=
      Likeness.map_eq_of_forall₂ (all.imp fun _ _ renewed => renewed.1)
    rw [putPairs_of_distinct (keys ▸ distinct)] at run
    exact ⟨.hash found, run, .hash all⟩
  · intro cx depth i w less
    exact pairs_cramped cx i w [] each less

theorem Rebuilt.negation {n : Int} (negative : n < 0) (low : -0x7fffffffffffffff ≤ n)
    (t u : Token) : (int n).Rebuilt (.unary t "-" (.int ⟨u, n.natAbs⟩)) := by
  refine .of_step (if_pos negative) ?_ ?_
  · intro cx depth i w enough
    obtain ⟨depth, rfl⟩ := Nat.exists_eq_add_one.mpr enough
    have literal : eval cx (depth + 1) (.expr (.int ⟨u, n.natAbs⟩)) i w =
        (.ok (.int n.natAbs), w) := rfl
    have same : wrap (-(n.natAbs : Int)) = n := by
      have fits : Fits n := ⟨by omega, by omega⟩
      rw [Int.ofNat_natAbs_of_nonpos (Int.le_of_lt negative), Int.neg_neg]
      exact wrap_of_fits fits
    have answered : Operator.unary "-" (.int n.natAbs) = .int (wrap (-(n.natAbs : Int))) := rfl
    have run := eval_unary t "-" literal rfl
    rw [answered, same] at run
    exact ⟨.int n, run, rfl, rfl, fun _ => rfl⟩
  · intro cx depth i w less
    obtain rfl := Nat.lt_one_iff.mp less
    rfl

theorem Rebuilt.fn {params : List Ident} {b c : Block} {home : FrameId} (t : Token)
    (same : c.text = b.text) : (fn params b home).Rebuilt (.fn t params c) := by
  refine .literal rfl fun cx depth i w => ⟨.fn params c i, rfl, rfl, ?_, ?_⟩
  · change functionText params c = functionText params b
    rw [functionText, functionText, same]
  · intro free
    exact absurd rfl free.here

theorem displayed_spelled {v : Value} (h : v.Throughout Displayed) : Spelled v.Rebuilt v.text := by
  induction h with
  | @intro v here parts ih =>
    cases v with
    | int n =>
      refine spelled_int (by have := here.1; have := here.2; omega) ?_ ?_
      · intro positive t
        exact .literal (if_neg (Int.not_lt.mpr positive)) fun cx depth i w =>
          ⟨.int n, rfl, rfl, rfl, fun _ => rfl⟩
      · intro negative t u
        exact .negation negative here.1 t u
    | bool b =>
      exact spelled_bool fun t => .literal rfl fun cx depth i w =>
        ⟨.bool b, rfl, rfl, rfl, fun _ => rfl⟩
    | fn params b home =>
      obtain ⟨⟨t, a, parameters⟩, body⟩ := here
      exact spelled_fn parameters body fun t c same => .fn t same
    | array vs => exact spelled_array ih fun t es each => .array each t
    | hash ps =>
      have keys : ∀ p ∈ ps, Spelled p.1.value.Rebuilt p.1.text := by
        intro p member
        have inside : p.1.value ∈ (hash ps).parts :=
          List.mem_flatMap.mpr ⟨p, member, List.mem_cons_self⟩
        exact p.1.value_text ▸ ih p.1.value inside
      exact spelled_hash keys (fun p member => ih p.2 (value_mem_parts member))
        fun t qs each => .hash here each t
    | str | null | builtin | ret | brk | err => exact here.elim

end Value

section
variable {cx : Context} {depth : Nat} {t : Token} {e : Expr} {i : FrameId} {w : World} {u : Value}

theorem eval_expr_program (run : eval cx depth (.expr e) i w = (.ok u, w))
    (data : u.isControl = false) :
    eval cx (depth + 2) (.program ⟨[.expr t e]⟩) i w = (.ok u, w) := by
  have statement : eval cx (depth + 1) (.stmt (.expr t e)) i w = (.ok u, w) := run
  have block : Eval.block (eval cx (depth + 1)) i .null [.expr t e] w = (.ok u, w) := by
    rw [Eval.block, onData_run statement data]
    rfl
  rw [eval, evalStep, Run.bind_ok block, Machine.landed_of_data data]
  rfl

theorem eval_expr_program_cramped {least : Nat} (less : depth < least + 2)
    (cramped : ∀ {d}, d < least → eval cx d (.expr e) i w = (.error .tooDeep, w)) :
    eval cx depth (.program ⟨[.expr t e]⟩) i w = (.error .tooDeep, w) := by
  match depth, less with
  | 0, _ => rfl
  | 1, _ => rfl
  | d + 2, less =>
    have statement : eval cx (d + 1) (.stmt (.expr t e)) i w = (.error .tooDeep, w) :=
      cramped (Nat.lt_of_add_lt_add_right less)
    have block : Eval.block (eval cx (d + 1)) i .null [.expr t e] w = (.error .tooDeep, w) := by
      rw [Eval.block, onData_error statement]
    rw [eval, evalStep, Run.bind_error block]

end

/-- Displayed values read back. In whatever frame and world, the text of a value is a program without
errors that answers a value with this text, and the value itself if there is no function in it, as
long as there is room for its levels of nesting; without room the run halts. -/
theorem displayed_values_read_back (v : Value) (displayed : v.Throughout Value.Displayed)
    (m : Machine) (i : FrameId) (w : World) :
    (parse v.text).errors = [] ∧
      (v.levels + 2 ≤ m.depth →
        ∃ u, m.evalText i v.text w = (.ok u, w) ∧ u.isError = false ∧ u.text = v.text ∧
          (v.FunctionFree → u = v ∧ u.same v = true)) ∧
      (m.depth < v.levels + 2 → m.evalText i v.text w = (.error .tooDeep, w)) := by
  obtain ⟨clean, t, e, program, rebuilt⟩ := (Value.displayed_spelled displayed).parses
  refine ⟨clean, ?_, ?_⟩
  · intro enough
    obtain ⟨depth, level⟩ := Nat.exists_eq_add_of_le' (Nat.le_of_add_left_le enough)
    have room : v.levels ≤ depth := by omega
    obtain ⟨u, run, data, text, equal⟩ := rebuilt.room m.context i w room
    refine ⟨u, ?_, ?_, text, fun free => ⟨equal free, ?_⟩⟩
    · rw [Machine.evalText_clean_eq clean, program, Machine.evaluate, level]
      exact eval_expr_program run data
    · cases u with
      | err => cases data
      | _ => rfl
    · rw [equal free]
      exact Value.same_refl (Value.comparable_of_displayed displayed free)
  · intro less
    rw [Machine.evalText_clean_eq clean, program]
    exact eval_expr_program_cramped less (rebuilt.cramped m.context i w)

def nestedFunction : Value :=
  .hash [(.int (-1), .array [.bool true, .fn [⟨⟨.ident, "x"⟩, "x"⟩]
    (.mk (.symbol .lbrace) [.expr ⟨.ident, "x"⟩ (.ident ⟨⟨.ident, "x"⟩, "x"⟩)]) 7])]

theorem displayed_values_read_back_nested :
    nestedFunction.Throughout Value.Displayed ∧
      nestedFunction.text = "\x7b-1: [true, fn(x) \x7b\nx\n\x7d]\x7d" ∧
      ∃ u, (Machine.ofHost default 5000).evalText globalFrame nestedFunction.text World.start =
        (.ok u, World.start) ∧ u.text = nestedFunction.text := by
  have read : tokens "fn(x) \x7bx\x7d".toList = [⟨.fnWord, "fn"⟩, .symbol .lparen, ⟨.ident, "x"⟩,
      .symbol .rparen, .symbol .lbrace, ⟨.ident, "x"⟩, .symbol .rbrace] := by
    decide +kernel
  let body : Block := .mk (.symbol .lbrace) [.expr ⟨.ident, "x"⟩ (.ident ⟨⟨.ident, "x"⟩, "x"⟩)]
  let function : Expr := .fn ⟨.fnWord, "fn"⟩ [⟨⟨.ident, "x"⟩, "x"⟩] body
  have program : (parse "fn(x) \x7bx\x7d").program.statements = [.expr ⟨.fnWord, "fn"⟩ function] := by
    rw [parse, parseTokens, read]
    rfl
  have statement : Node.stmt (.expr ⟨.fnWord, "fn"⟩ function) ∈
      (Node.program (parse "fn(x) \x7bx\x7d").program).parts := by
    simp [Node.parts, program]
  have readable : (Node.expr function).Readable :=
    ⟨_, .part statement (.part List.mem_cons_self .here)⟩
  have inside : (Node.block body).Readable :=
    ⟨_, .part statement (.part List.mem_cons_self (.part List.mem_cons_self .here))⟩
  have displayed : nestedFunction.Throughout Value.Displayed := by
    have key : (Value.int (-1)).Throughout Value.Displayed :=
      Value.throughout_of_simple rfl ⟨by decide, by decide⟩
    have first : (Value.bool true).Throughout Value.Displayed :=
      Value.throughout_of_simple rfl trivial
    have last : (Value.fn [⟨⟨.ident, "x"⟩, "x"⟩] body 7).Throughout Value.Displayed :=
      Value.throughout_of_simple rfl ⟨⟨_, body, readable⟩, inside⟩
    have array : (Value.array [.bool true, .fn [⟨⟨.ident, "x"⟩, "x"⟩] body 7]).Throughout
        Value.Displayed :=
      .intro trivial (List.forall_mem_cons.mpr ⟨first, List.forall_mem_singleton.mpr last⟩)
    have distinct : Value.Displayed nestedFunction := List.nodup_singleton _
    exact .intro distinct (List.forall_mem_cons.mpr ⟨key, List.forall_mem_singleton.mpr array⟩)
  have enough : nestedFunction.levels + 2 ≤ (Machine.ofHost default 5000).depth := by
    decide
  obtain ⟨-, answers, -⟩ := displayed_values_read_back nestedFunction displayed
    (Machine.ofHost default 5000) globalFrame World.start
  obtain ⟨u, run, -, text, -⟩ := answers enough
  exact ⟨displayed, by decide +kernel, u, run, text⟩

end TernLang
