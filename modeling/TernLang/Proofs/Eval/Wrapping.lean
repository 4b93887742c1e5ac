import TernLang.Machine
import TernLang.Proofs.Value.Arithmetic

/-!
Wrapping at every step is wrapping once. Sums, differences, products and negations of integers are
congruent to what they would be without limits on the operands, so in an expression of them what has
overflowed on the way makes no difference to the answer.
-/
namespace TernLang

namespace Operator

def ring? : String → Option (Int → Int → Int)
  | "+" => some (· + ·)
  | "-" => some (· - ·)
  | "*" => some (· * ·)
  | _ => none

theorem binary_ring {op : String} {f : Int → Int → Int} (h : ring? op = some f) (a b : Int) :
    binary op (.int a) (.int b) = .int (wrap (f a b)) := by
  unfold ring? at h
  split at h <;> cases h <;> rfl

theorem ring_congruent {op : String} {f : Int → Int → Int} (h : ring? op = some f)
    {a b m n : Int} (left : a ≡ m [ZMOD 2 ^ 64]) (right : b ≡ n [ZMOD 2 ^ 64]) :
    f a b ≡ f m n [ZMOD 2 ^ 64] := by
  unfold ring? at h
  split at h <;> cases h
  · exact left.add right
  · exact left.sub right
  · exact left.mul right

end Operator

theorem wrap_congruent {a n : Int} (h : a ≡ n [ZMOD 2 ^ 64]) : wrap a = wrap n :=
  eq_of_wraps ⟨fits_wrap a, (wraps_wrap a).2.trans h⟩ (wraps_wrap n)

namespace Expr

/-- What an expression of integers is worth when nothing wraps: literals of any value, names that
are bound to integers, sums, differences, products and negations. -/
inductive Exact (s : Store) (i : FrameId) : Expr → Int → Prop where
  | int (n : IntLit) : Exact s i (.int n) n.value
  | ident {x : Ident} {n : Int} (bound : s.get x.name i = some (.int n)) : Exact s i (.ident x) n
  | negation (t : Token) {r : Expr} {n : Int} (right : Exact s i r n) :
    Exact s i (.unary t "-" r) (-n)
  | binary (t : Token) {op : String} {f : Int → Int → Int} {l r : Expr} {m n : Int}
    (found : Operator.ring? op = some f) (left : Exact s i l m) (right : Exact s i r n) :
    Exact s i (.binary t l op r) (f m n)

def IsOperation : Expr → Prop
  | .unary _ _ _ | .binary _ _ _ _ => True
  | _ => False

def levels : Expr → Nat
  | .unary _ _ r => r.levels + 1
  | .binary _ l _ r => max l.levels r.levels + 1
  | _ => 1

theorem levels_pos (e : Expr) : 0 < e.levels := by
  cases e <;> simp [levels]

end Expr

section
variable {cx : Context} {depth : Nat} {l r : Expr} {i : FrameId} {w : World}

theorem eval_unary (t : Token) (op : String) {v : Value}
    (right : eval cx depth (.expr r) i w = (.ok v, w)) (data : v.isControl = false) :
    eval cx (depth + 1) (.expr (.unary t op r)) i w = (.ok (Operator.unary op v), w) := by
  rw [eval, evalStep, Eval.expr, onData_run right data]
  rfl

theorem eval_binary (t : Token) (op : String) {v u : Value}
    (left : eval cx depth (.expr l) i w = (.ok v, w))
    (right : eval cx depth (.expr r) i w = (.ok u, w)) (data : v.isControl = false)
    (others : u.isControl = false) :
    eval cx (depth + 1) (.expr (.binary t l op r)) i w = (.ok (Operator.binary op v u), w) := by
  rw [eval, evalStep, Eval.expr, onData_run left data, onData_run right others]
  rfl

theorem exists_level {e : Expr} (room : e.levels ≤ depth) : ∃ d, depth = d + 1 :=
  Nat.exists_eq_add_one.mpr (Nat.lt_of_lt_of_le e.levels_pos room)

/-- Where there is room, an expression answers an integer that is congruent to its exact value, and
is wrapped if the expression is an operation. -/
theorem eval_exact {e : Expr} {n : Int} (h : e.Exact w.store i n) (room : e.levels ≤ depth) :
    ∃ k, eval cx depth (.expr e) i w = (.ok (.int k), w) ∧ k ≡ n [ZMOD 2 ^ 64] ∧
      (e.IsOperation → k = wrap n) := by
  induction h generalizing depth with
  | int n =>
    obtain ⟨depth, rfl⟩ := exists_level room
    exact ⟨n.value, rfl, rfl, nofun⟩
  | @ident x n bound =>
    obtain ⟨depth, rfl⟩ := exists_level room
    have found : Eval.ident x.name i w = (.ok (.int n), w) := by
      rw [Eval.ident_eq, bound]
      rfl
    exact ⟨n, found, rfl, nofun⟩
  | @negation t r n right ih =>
    obtain ⟨depth, rfl⟩ := exists_level room
    obtain ⟨k, run, congruent, -⟩ := ih (Nat.le_of_succ_le_succ room)
    have same : wrap (-k) = wrap (-n) := wrap_congruent congruent.neg
    have answered : Operator.unary "-" (.int k) = .int (wrap (-k)) := rfl
    have negated := eval_unary t "-" run rfl
    rw [answered, same] at negated
    exact ⟨wrap (-n), negated, (wraps_wrap (-n)).2, fun _ => rfl⟩
  | @binary t op f l r m n found left right ihl ihr =>
    obtain ⟨depth, rfl⟩ := exists_level room
    obtain ⟨first, second⟩ := Nat.max_le.mp (Nat.le_of_succ_le_succ room)
    obtain ⟨a, leftRun, congruent, -⟩ := ihl first
    obtain ⟨b, rightRun, congruent', -⟩ := ihr second
    have same : wrap (f a b) = wrap (f m n) :=
      wrap_congruent (Operator.ring_congruent found congruent congruent')
    have combined := eval_binary t op leftRun rightRun rfl rfl
    rw [Operator.binary_ring found, same] at combined
    exact ⟨wrap (f m n), combined, (wraps_wrap (f m n)).2, fun _ => rfl⟩

/-- Where there is no room, an operand on the way in nests too deep. -/
theorem eval_cramped {e : Expr} {n : Int} (h : e.Exact w.store i n) (cramped : depth < e.levels) :
    eval cx depth (.expr e) i w = (.error .tooDeep, w) := by
  induction h generalizing depth with
  | int | ident =>
    obtain rfl := Nat.lt_one_iff.mp cramped
    rfl
  | @negation t r n right ih =>
    cases depth with
    | zero => rfl
    | succ depth =>
      rw [eval, evalStep, Eval.expr, onData_error (ih (Nat.lt_of_succ_lt_succ cramped))]
  | @binary t op f l r m n found left right ihl ihr =>
    cases depth with
    | zero => rfl
    | succ depth =>
      by_cases room : l.levels ≤ depth
      · obtain ⟨a, leftRun, -, -⟩ := eval_exact left room
        have less : depth < r.levels :=
          (lt_max_iff.mp (Nat.lt_of_succ_lt_succ cramped)).resolve_left (Nat.not_lt.mpr room)
        rw [eval, evalStep, Eval.expr, onData_run leftRun rfl, onData_error (ihr less)]
      · rw [eval, evalStep, Eval.expr, onData_error (ihl (Nat.lt_of_not_le room))]

end

/-- Wrapping at every step is wrapping once. An operation on integers answers the only integer of 64
bits that is congruent to its exact value, and so does every other whose exact value is congruent,
in whatever frame and world, as long as no operand nests too deep; then the run halts. -/
theorem wrapping_once (m : Machine) (w : World) (i : FrameId) (e : Expr) (n : Int)
    (exact : e.Exact w.store i n) (operation : e.IsOperation) :
    (e.levels ≤ m.depth → ∃ v, m.evaluate (.expr e) i w = (.ok v, w) ∧ v.WrapOf n ∧
      ∀ x j d k, Expr.Exact x.store j d k → d.IsOperation → d.levels ≤ m.depth →
        k ≡ n [ZMOD 2 ^ 64] → m.evaluate (.expr d) j x = (.ok v, x)) ∧
      (m.depth < e.levels → m.evaluate (.expr e) i w = (.error .tooDeep, w)) := by
  constructor
  · intro room
    obtain ⟨k, run, -, wrapped⟩ := eval_exact exact room
    obtain rfl := wrapped operation
    refine ⟨.int (wrap n), run, wrapOf_wrap n, ?_⟩
    intro x j d k other also fits congruent
    obtain ⟨a, same, -, wrapped⟩ := eval_exact other fits
    obtain rfl := wrapped also
    rw [wrap_congruent congruent] at same
    exact same
  · exact fun cramped => eval_cramped exact cramped

def wideWorld : World := ⟨⟨#[⟨[("x", .int 0x10000000000000003)], none⟩]⟩, "", [], []⟩

def wideName : Expr := .ident ⟨⟨.ident, "x"⟩, "x"⟩

def greatest : Expr := .int ⟨⟨.int, "9223372036854775807"⟩, 0x7fffffffffffffff⟩

/-- `x * greatest`. -/
def wideProduct : Expr := .binary (.symbol .asterisk) wideName "*" greatest

/-- `x * (greatest + 1) - x`, where the sum overflows. -/
def wideDifference : Expr :=
  .binary (.symbol .minus) (.binary (.symbol .asterisk) wideName "*"
    (.binary (.symbol .plus) greatest "+" (.int ⟨⟨.int, "1"⟩, 1⟩))) "-" wideName

theorem wrapping_once_spread :
    wideProduct.Exact wideWorld.store globalFrame (0x10000000000000003 * 0x7fffffffffffffff) ∧
      wideProduct.IsOperation ∧ wideProduct.levels ≤ (Machine.ofHost default 5000).depth ∧
      (Machine.ofHost default 5000).evaluate (.expr wideProduct) globalFrame wideWorld =
        (.ok (.int 0x7ffffffffffffffd), wideWorld) ∧
      (Machine.ofHost default 5000).evaluate (.expr wideDifference) globalFrame wideWorld =
        (.ok (.int 0x7ffffffffffffffd), wideWorld) := by
  have bound : Expr.Exact wideWorld.store globalFrame wideName 0x10000000000000003 :=
    .ident (by with_unfolding_all rfl)
  have product : wideProduct.Exact wideWorld.store globalFrame
      (0x10000000000000003 * 0x7fffffffffffffff) := .binary _ rfl bound (.int _)
  have sum : Expr.Exact wideWorld.store globalFrame
      (.binary (.symbol .plus) greatest "+" (.int ⟨⟨.int, "1"⟩, 1⟩)) (0x7fffffffffffffff + 1) :=
    .binary _ rfl (.int _) (.int _)
  have difference : wideDifference.Exact wideWorld.store globalFrame
      (0x10000000000000003 * (0x7fffffffffffffff + 1) - 0x10000000000000003) :=
    .binary _ rfl (.binary _ rfl bound sum) bound
  have room : wideProduct.levels ≤ (Machine.ofHost default 5000).depth := by decide
  obtain ⟨v, run, ⟨k, rfl, -, unique⟩, others⟩ :=
    (wrapping_once (Machine.ofHost default 5000) wideWorld globalFrame wideProduct _ product
      trivial).1 room
  obtain rfl := unique 0x7ffffffffffffffd ⟨⟨by decide, by decide⟩, by decide⟩
  exact ⟨product, trivial, room, run, others _ _ _ _ difference trivial (by decide) (by decide)⟩

end TernLang
