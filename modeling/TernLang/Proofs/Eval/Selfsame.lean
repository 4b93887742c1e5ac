import TernLang.Proofs.Eval.Mirroring

/-!
Nodes that stand for themselves. If a property that imports do not have holds throughout a node and
throughout the functions in the store, it holds throughout all that is evaluated, and what is alike
then is equal. So to compare two runs of the node, only the ways in which their stores may differ
have to be looked at.
-/
namespace TernLang

namespace Likeness

/-- Nothing is overlooked; nodes that the property holds throughout stand for themselves alone. -/
def only (P : Node → Prop) : Likeness := ⟨fun n o => n = o ∧ n.Throughout P, 0, 0, False⟩

variable {P : Node → Prop} {k : FrameId}

theorem place_only (i : FrameId) : (only P).place i = i := place_of_moved_eq_zero rfl i

theorem only_known (i : FrameId) : (only P).Known k i := fun none => none.elim

section
variable (loadless : ∀ t p, ¬ P (.stmt (.load t p)))
include loadless

theorem only_not_imports : ¬ (only P).Imports := by
  rintro ⟨t, p, u, q, -, throughout⟩
  exact loadless t p throughout.here

theorem only_sound : (only P).Sound where
  form {n o} same := by
    obtain ⟨rfl, throughout⟩ := same
    exact .refl n fun p inside => ⟨rfl, throughout.part inside⟩
  text same := by
    obtain ⟨same, -⟩ := same
    cases same
    rfl
  programs imports := absurd imports (only_not_imports loadless)

end

theorem Alike.of_functions {Q : Value → Prop} {v : Value}
    (functions : ∀ ps b home, Q (.fn ps b home) → (Node.expr (.fn .eof ps b)).Throughout P)
    (h : v.Throughout Q) : (only P).Alike k v v := by
  induction h with
  | @intro v here parts ih =>
    cases v with
    | int n => exact .int n
    | bool b => exact .bool b
    | str s => exact .str s
    | null => exact .null
    | builtin b => exact .builtin b
    | brk => exact .brk
    | err m => exact .err m
    | ret v => exact .ret (ih v List.mem_cons_self)
    | array vs => exact .ofArray (List.forall₂_same.mpr ih)
    | hash ps =>
      apply Alike.ofHash
      apply List.forall₂_same.mpr
      intro p member
      exact ⟨rfl, ih p.2 (Value.value_mem_parts member)⟩
    | fn ps b home =>
      have written := functions ps b home here
      have same : (only P).Alike k (.fn ps b home) (.fn ps b ((only P).place home)) :=
        .fn ⟨rfl, written⟩ (only_known home)
      rwa [place_only] at same

theorem Alike.eq {v u : Value} (h : (only P).Alike k v u) : v = u := by
  induction h with
  | int | bool | str | null | builtin | brk | err => rfl
  | ret h ih => rw [ih]
  | @array vs us length each ih =>
    have same : vs.map id = us.map id := map_eq_of_zip length ih
    rw [List.map_id, List.map_id] at same
    rw [same]
  | @hash ps qs length keys each ih =>
    have same : ps.map id = qs.map id :=
      map_eq_of_zip length fun p member => Prod.ext (keys p member) (ih p member)
    rw [List.map_id, List.map_id] at same
    rw [same]
  | fn written known =>
    obtain ⟨same, -⟩ := written
    cases same
    rw [place_only]

theorem Bindings.eq {ps qs : List (String × Value)} (h : (only P).Bindings k ps qs) : ps = qs := by
  induction h with
  | nil => rfl
  | @cons p q ps qs same rest ih => rw [Prod.ext same.1 same.2.eq, ih]

theorem SameFrame.eq {f g : Frame} (h : (only P).SameFrame k f g) : f = g := by
  obtain ⟨vars, outer, -⟩ := h
  cases f with
  | mk vars outer =>
    cases g with
    | mk others beyond =>
      have place : (only P).place = id := funext place_only
      simp only [place, Option.map_id, id] at outer
      rw [Frame.mk.injEq]
      exact ⟨vars.eq, outer.symm⟩

theorem frames_self {Q : Value → Prop} {s : Store}
    (functions : ∀ ps b home, Q (.fn ps b home) → (Node.expr (.fn .eof ps b)).Throughout P)
    (h : s.Each fun v => v.Throughout Q) : (only P).Frames s s where
  reached := Nat.zero_le _
  next := (place_only _).symm
  frame i := by
    rw [place_only]
    cases found : s.frame? i with
    | none => exact .none
    | some f =>
      have bound := h f (Array.mem_of_getElem? found)
      have place : (only P).place = id := funext place_only
      apply Option.Rel.some
      constructor
      · apply List.forall₂_same.mpr
        exact fun p member => ⟨rfl, .of_functions functions (bound p member)⟩
      · rw [place, Option.map_id, id]
      · exact fun o _ => only_known o

theorem Frames.eq {s t : Store} (h : (only P).Frames s t) : s = t := by
  apply Store.eq_of_frame?
  intro i
  have here := h.frame i
  rw [place_only] at here
  generalize s.frame? i = left, t.frame? i = right at here ⊢
  cases here with
  | none => rfl
  | some frame => rw [frame.eq]

/-- Runs of a node from stores that are related, with the same output before, answer or halt alike
and have the same output, and the stores are related in the end. -/
theorem eval_only (loadless : ∀ t p, ¬ P (.stmt (.load t p))) {S : Store → Store → Prop}
    (stores : (only P).Stores S) (cx : Context) (depth : Nat) {node : Node}
    (throughout : node.Throughout P) (i : FrameId) {w x : World} (store : S w.store x.store)
    (output : w.output = x.output) :
    (eval cx depth node i w).1 = (eval cx depth node i x).1 ∧
      (eval cx depth node i w).2.output = (eval cx depth node i x).2.output ∧
      S (eval cx depth node i w).2.store (eval cx depth node i x).2.store := by
  -- The relation compares what is written from here on, so both start with nothing written.
  have worlds : (only P).Worlds S (w.output, w.output) w x := by
    refine ⟨store, ⟨"", String.append_empty.symm, output ▸ String.append_empty.symm⟩, ?_⟩
    exact fun imports => absurd imports (only_not_imports loadless)
  have ended := eval_like (only_sound loadless) stores cx depth node node i 0 ⟨rfl, throughout⟩
    (only_known i) w x worlds (Nat.zero_le _)
  rw [place_only] at ended
  obtain ⟨o, left, right⟩ := ended.worlds.output
  refine ⟨?_, by rw [left, right], ended.worlds.store⟩
  generalize eval cx depth node i w = e, eval cx depth node i x = f at ended
  cases ended with
  | ok worlds grown answers => rw [answers.eq]
  | error worlds => rfl

end Likeness
end TernLang
