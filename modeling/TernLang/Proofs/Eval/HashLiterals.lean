import Mathlib.Data.List.Nodup
import TernLang.Proofs.Eval.Watching
import TernLang.Proofs.Value.Decimals
import TernLang.Proofs.Value.Pairs
import TernLang.Value.Equality

/-!
Hash literals. Their pairs are evaluated in turn, each key before its value, until one is refused.
If none is, the literal answers a hash in which each key stands where it first came, with what came
last under it. The key of a value shows its type and its text, which tell all keys apart.
-/
namespace TernLang

theorem Key.tagged_inj (k l : Key) : k.tagged = l.tagged ↔ k = l := by
  constructor
  · intro same
    cases k with
    | int m =>
      cases l with
      | int n => exact congrArg Key.int (toString_inj.mp (Prod.mk.inj same).2)
      | bool | str => cases (Prod.mk.inj same).1
    | bool a =>
      cases l with
      | bool b =>
        have texts : boolText a = boolText b := (Prod.mk.inj same).2
        cases a <;> cases b <;> first | rfl | exact absurd texts (by decide)
      | int | str => cases (Prod.mk.inj same).1
    | str s =>
      cases l with
      | str t => exact congrArg Key.str (Prod.mk.inj same).2
      | int | bool => cases (Prod.mk.inj same).1
  · rintro rfl
    rfl

theorem Value.hashKey_iff {u v : Value} (left : u.isKey) (right : v.isKey) :
    u.key?.map Key.tagged = v.key?.map Key.tagged ↔ u.tag = v.tag ∧ u.same v = true := by
  cases u <;> simp [isKey, key?] at left
  all_goals
    cases v <;> simp [isKey, key?] at right
  all_goals
    simp [key?, Key.tagged_inj, tag, same]

namespace Eval

/-- The pairs are evaluated in turn, in one place after the other: these are the keys and values
they answer, and these the moments on the way. -/
inductive Reads (rec : EvaluatorIn Watched) (i : FrameId) :
    List (Expr × Expr) → World → List (Key × Value) → List Moment → World → Prop where
  | nil {w : World} : Reads rec i [] w [] [] w
  | cons {key value : Expr} {ps : List (Expr × Expr)} {k : Key} {v : Value}
    {found : List (Key × Value)} {w x y z : World} {ms ns os : List Moment}
    (first : rec (.expr key) i w = (ms, .ok k.value, x))
    (second : rec (.expr value) i x = (ns, .ok v, y)) (data : v.isControl = false)
    (rest : Reads rec i ps y found os z) :
    Reads rec i ((key, value) :: ps) w ((k, v) :: found) (ms ++ ns ++ os) z

/-- The pair ends the literal: its key or its value answers a control value or halts, or its value
is not evaluated since its key is no key. -/
inductive Refuses (rec : EvaluatorIn Watched) (i : FrameId) :
    Expr × Expr → World → Except Halt Value → List Moment → World → Prop where
  | controlKey {key value : Expr} {c : Value} {w x : World} {ms : List Moment}
    (first : rec (.expr key) i w = (ms, .ok c, x)) (control : c.isControl) :
    Refuses rec i (key, value) w (.ok c) ms x
  | unkeyable {key value : Expr} {u : Value} {w x : World} {ms : List Moment}
    (first : rec (.expr key) i w = (ms, .ok u, x)) (data : u.isControl = false)
    (no : u.isKey = false) :
    Refuses rec i (key, value) w (.ok (.err ("unusable as hash key: " ++ u.typeName))) ms x
  | controlValue {key value : Expr} {k : Key} {c : Value} {w x y : World} {ms ns : List Moment}
    (first : rec (.expr key) i w = (ms, .ok k.value, x))
    (second : rec (.expr value) i x = (ns, .ok c, y)) (control : c.isControl) :
    Refuses rec i (key, value) w (.ok c) (ms ++ ns) y
  | haltKey {key value : Expr} {h : Halt} {w x : World} {ms : List Moment}
    (first : rec (.expr key) i w = (ms, .error h, x)) : Refuses rec i (key, value) w (.error h) ms x
  | haltValue {key value : Expr} {k : Key} {h : Halt} {w x y : World} {ms ns : List Moment}
    (first : rec (.expr key) i w = (ms, .ok k.value, x))
    (second : rec (.expr value) i x = (ns, .error h, y)) :
    Refuses rec i (key, value) w (.error h) (ms ++ ns) y

end Eval

section
variable {r : Watched Value} {k : Value → Watched Value} {w x : World} {ms : List Moment} {v : Value}

theorem Watched.onData_data (run : r w = (ms, .ok v, x)) (data : v.isControl = false) :
    onData r k w = (ms ++ (k v x).1, (k v x).2) := by
  unfold onData
  rw [bind_ok run, data]
  rfl

theorem Watched.onData_control (run : r w = (ms, .ok v, x)) (control : v.isControl) :
    onData r k w = (ms, .ok v, x) := by
  unfold onData
  rw [bind_ok run, control]
  change (ms ++ [], _) = _
  rw [List.append_nil]
  rfl

theorem Watched.onData_halt {h : Halt} (run : r w = (ms, .error h, x)) :
    onData r k w = (ms, .error h, x) := bind_error run

end

namespace Eval
variable {rec : EvaluatorIn Watched} {i : FrameId} {ps before : List (Expr × Expr)}
  {pair : Expr × Expr} {found : List (Key × Value)} {ms : List Moment} {w x : World}
  {answer : Except Halt Value}

theorem key_value (k : Key) : k.value.isControl = false ∧ k.value.isKey ∧ k.value.key = .ok k := by
  cases k <;> exact ⟨rfl, rfl, rfl⟩

theorem Reads.pairs (h : Reads rec i before w found ms x) (done : List (Key × Value))
    (after : List (Expr × Expr)) :
    Eval.pairs rec i done (before ++ after) w =
      (ms ++ (Eval.pairs rec i (putPairs done found) after x).1,
        (Eval.pairs rec i (putPairs done found) after x).2) := by
  -- The pairs behind go on with what those in front have stored.
  induction h generalizing done with
  | nil => rfl
  | @cons key value ps k v found w x y z ms ns os first second data rest ih =>
    obtain ⟨free, keyed, own⟩ := key_value k
    rw [List.cons_append, Eval.pairs, Watched.onData_data first free, if_pos keyed,
      Watched.onData_data second data, own]
    change (ms ++ (ns ++ ([] ++ (Eval.pairs rec i (putPair k v done) (ps ++ after) y).1)),
      (Eval.pairs rec i (putPair k v done) (ps ++ after) y).2) = _
    rw [ih]
    simp only [List.nil_append, List.append_assoc]
    rfl

theorem Refuses.pairs (h : Refuses rec i pair w answer ms x) (done : List (Key × Value))
    (after : List (Expr × Expr)) :
    Eval.pairs rec i done (pair :: after) w = (ms, answer, x) := by
  cases h with
  | controlKey first control => rw [Eval.pairs, Watched.onData_control first control]
  | @unkeyable key value u _ _ _ first data no =>
    rw [Eval.pairs, Watched.onData_data first data, no]
    change (ms ++ [], _) = _
    rw [List.append_nil]
    rfl
  | @controlValue key value k c _ y _ ms ns first second control =>
    obtain ⟨free, keyed, -⟩ := key_value k
    rw [Eval.pairs, Watched.onData_data first free, if_pos keyed,
      Watched.onData_control second control]
  | haltKey first => rw [Eval.pairs, Watched.onData_halt first]
  | @haltValue key value k h _ y _ ms ns first second =>
    obtain ⟨free, keyed, -⟩ := key_value k
    rw [Eval.pairs, Watched.onData_data first free, if_pos keyed, Watched.onData_halt second]

theorem Reads.literal (h : Reads rec i ps w found ms x) (cx : Context) (t : Token) :
    evalStep cx rec (.expr (.hash t ps)) i w = (ms, .ok (.hash (putPairs [] found)), x) := by
  have run := h.pairs [] []
  rw [List.append_nil] at run
  change Eval.pairs rec i [] ps w = _
  rw [run]
  change (ms ++ [], _) = _
  rw [List.append_nil]
  rfl

theorem Refuses.literal {y : World} {ns : List Moment} (h : Refuses rec i pair x answer ns y)
    (cx : Context) (t : Token) (reads : Reads rec i before w found ms x)
    (after : List (Expr × Expr)) :
    evalStep cx rec (.expr (.hash t (before ++ pair :: after))) i w = (ms ++ ns, answer, y) := by
  change Eval.pairs rec i [] (before ++ pair :: after) w = _
  rw [reads.pairs, h.pairs]

theorem exists_key {u : Value} (keyed : u.isKey) : ∃ k : Key, u = k.value := by
  cases u with
  | int n => exact ⟨.int n, rfl⟩
  | bool b => exact ⟨.bool b, rfl⟩
  | str s => exact ⟨.str s, rfl⟩
  | null | array | hash | fn | builtin | ret | brk | err => cases keyed

theorem reads_or_refuses_pair (rec : EvaluatorIn Watched) (i : FrameId) (pair : Expr × Expr)
    (w : World) : (∃ p ms x, Reads rec i [pair] w [p] ms x) ∨
      ∃ answer ms x, Refuses rec i pair w answer ms x := by
  obtain ⟨key, value⟩ := pair
  rcases first : rec (.expr key) i w with ⟨ms, h | u, x⟩
  · exact .inr ⟨_, _, _, .haltKey first⟩
  · by_cases control : u.isControl
    · exact .inr ⟨_, _, _, .controlKey first control⟩
    · by_cases keyed : u.isKey
      · obtain ⟨k, rfl⟩ := exists_key keyed
        rcases second : rec (.expr value) i x with ⟨ns, h | v, y⟩
        · exact .inr ⟨_, _, _, .haltValue first second⟩
        · by_cases last : v.isControl
          · exact .inr ⟨_, _, _, .controlValue first second last⟩
          · exact .inl ⟨(k, v), _, y, .cons first second (Bool.eq_false_iff.mpr last) .nil⟩
      · exact .inr ⟨_, _, _,
          .unkeyable first (Bool.eq_false_iff.mpr control) (Bool.eq_false_iff.mpr keyed)⟩

theorem reads_or_refuses (rec : EvaluatorIn Watched) (i : FrameId) (ps : List (Expr × Expr))
    (w : World) : (∃ found ms x, Reads rec i ps w found ms x) ∨
      ∃ before pair after found ms x answer ns y, ps = before ++ pair :: after ∧
        Reads rec i before w found ms x ∧ Refuses rec i pair x answer ns y := by
  induction ps generalizing w with
  | nil => exact .inl ⟨[], [], w, .nil⟩
  | cons pair ps ih =>
    rcases reads_or_refuses_pair rec i pair w with ⟨p, ms, x, read⟩ | ⟨answer, ns, y, refused⟩
    · cases read with
      | cons first second data rest =>
        cases rest with
        | nil =>
          rcases ih x with ⟨found, ns, y, others⟩ |
            ⟨before, pair, after, found, ns, y, answer, os, z, rfl, others, refused⟩
          · exact .inl ⟨_, _, y, .cons first second data others⟩
          · exact .inr ⟨_ :: before, pair, after, _, _, y, answer, os, z, rfl,
              .cons first second data others, refused⟩
    · exact .inr ⟨[], pair, ps, [], [], w, answer, ns, y, rfl, .nil, refused⟩

end Eval

def lastMoment : Except Halt Value → World → List Moment
  | .ok v, x => [⟨.answers v, x⟩]
  | .error _, _ => []

theorem watch_step {cx : Context} {depth : Nat} {node : Node} {i : FrameId} {w x : World}
    {ms : List Moment} {answer : Except Halt Value}
    (run : evalStep cx (watch cx depth) node i w = (ms, answer, x)) :
    watch cx (depth + 1) node i w =
      (⟨.starts node i, w⟩ :: (ms ++ lastMoment answer x), answer, x) := by
  rw [watch_run]
  cases answer with
  | ok v =>
    rw [Watched.bind_ok run]
    rfl
  | error h =>
    rw [Watched.bind_error run]
    simp [lastMoment]

/-- Hash literals are maps in which the last pair wins. Keys of values tell exactly unequal values
apart. If all pairs are read, the answer is a hash with distinct keys, each the key of the value it
stands for, in the order in which they first came and each with what came last under it. Otherwise
the first pair that is refused decides the answer and nothing behind it is evaluated. -/
theorem hash_literal_last_wins (cx : Context) (depth : Nat) (t : Token) (ps : List (Expr × Expr))
    (i : FrameId) (w : World) :
    let literal := Node.expr (.hash t ps)
    (∀ u v : Value, u.isKey → v.isKey →
      (u.key?.map Key.tagged = v.key?.map Key.tagged ↔ u.tag = v.tag ∧ u.same v = true)) ∧
    (watch cx (depth + 1) literal i w).2 = eval cx (depth + 1) literal i w ∧
    (∀ found ms x, Eval.Reads (watch cx depth) i ps w found ms x →
      ∃ qs, (qs.map fun q => q.1.tagged).Nodup ∧ (∀ q ∈ qs, q.1.value.key? = some q.1) ∧
        LastWins found qs ∧ watch cx (depth + 1) literal i w =
          (⟨.starts literal i, w⟩ :: (ms ++ [⟨.answers (.hash qs), x⟩]), .ok (.hash qs), x)) ∧
    (∀ before pair after found ms x answer ns y, ps = before ++ pair :: after →
      Eval.Reads (watch cx depth) i before w found ms x →
      Eval.Refuses (watch cx depth) i pair x answer ns y →
        watch cx (depth + 1) literal i w =
          (⟨.starts literal i, w⟩ :: (ms ++ ns ++ lastMoment answer y), answer, y)) ∧
    ((∃ found ms x, Eval.Reads (watch cx depth) i ps w found ms x) ∨
      ∃ before pair after found ms x answer ns y, ps = before ++ pair :: after ∧
        Eval.Reads (watch cx depth) i before w found ms x ∧
        Eval.Refuses (watch cx depth) i pair x answer ns y) := by
  refine ⟨fun u v => Value.hashKey_iff, watch_shows cx (depth + 1) _ i w, ?_, ?_,
    Eval.reads_or_refuses _ i ps w⟩
  · intro found ms x reads
    have wins := putPairs_lastWins found
    refine ⟨putPairs [] found, ?_, ?_, wins, watch_step (reads.literal cx t)⟩
    · have tagged := wins.distinct.map (f := Key.tagged) fun k l => (Key.tagged_inj k l).mp
      rwa [List.map_map] at tagged
    · intro q _
      cases q.1 <;> rfl
  · rintro before pair after found ms x answer ns y rfl reads refuses
    exact watch_step (refuses.literal cx t reads after)

def repeatedKey : List (Expr × Expr) :=
  [(.str ⟨⟨.string, "a"⟩, "a"⟩, .int ⟨⟨.int, "1"⟩, 1⟩),
    (.bool ⟨.trueWord, "true"⟩ true, .int ⟨⟨.int, "2"⟩, 2⟩),
    (.str ⟨⟨.string, "a"⟩, "a"⟩, .int ⟨⟨.int, "3"⟩, 3⟩)]

theorem hash_literal_last_wins_repeated :
    (∃ ms, Eval.Reads (watch ⟨default, 1⟩ 1) globalFrame repeatedKey World.start
      [(.str "a", .int 1), (.bool true, .int 2), (.str "a", .int 3)] ms World.start) ∧
    LastWins [(.str "a", .int 1), (.bool true, .int 2), (.str "a", .int 3)]
      [(.str "a", .int 3), (.bool true, .int 2)] ∧
    (eval ⟨default, 1⟩ 2 (.expr (.hash (.symbol .lbrace) repeatedKey)) globalFrame World.start).1 =
      .ok (.hash [(.str "a", .int 3), (.bool true, .int 2)]) := by
  obtain ⟨-, shown, last, -, -⟩ := hash_literal_last_wins ⟨default, 1⟩ 1 (.symbol .lbrace)
    repeatedKey globalFrame World.start
  obtain ⟨ms, reads⟩ : ∃ ms, Eval.Reads (watch ⟨default, 1⟩ 1) globalFrame repeatedKey World.start
      [(.str "a", .int 1), (.bool true, .int 2), (.str "a", .int 3)] ms World.start :=
    ⟨_, .cons rfl rfl rfl (.cons rfl rfl rfl (.cons rfl rfl rfl .nil))⟩
  obtain ⟨qs, -, -, wins, run⟩ := last _ _ _ reads
  have answered : (eval ⟨default, 1⟩ 2 (.expr (.hash (.symbol .lbrace) repeatedKey)) globalFrame
      World.start).1 = .ok (.hash [(.str "a", .int 3), (.bool true, .int 2)]) := rfl
  have same : Except.ok (.hash qs) = (Except.ok (.hash [(.str "a", .int 3), (.bool true, .int 2)]) :
      Except Halt Value) := by
    rw [← answered, ← shown, run]
  cases same
  exact ⟨⟨_, reads⟩, wins, answered⟩

end TernLang
