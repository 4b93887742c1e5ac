import TernLang.Store

/-!
What is found in a store. A new frame changes no other, and binding a name changes one frame. Seen
from any frame, it changes the value of this name alone, and only if no frame further in binds the
name as well.
-/
namespace TernLang
namespace Store
variable {s : Store} {i : FrameId} {name : String} {v : Value}

theorem frame?_of_le {i : Nat} (h : s.next ≤ i) : s.frame? i = none := Array.getElem?_eq_none h

theorem frame?_of_lt {i : Nat} (h : i < s.next) : ∃ f, s.frame? i = some f :=
  ⟨_, Array.getElem?_eq_getElem h⟩

theorem eq_of_frame? {t : Store} (h : ∀ i, s.frame? i = t.frame? i) : s = t := by
  cases s
  cases t
  rw [Store.mk.injEq]
  exact Array.ext_getElem? h

theorem next_newFrame (s : Store) (outer : Option FrameId) :
    (s.newFrame outer).next = s.next + 1 := by
  simp [newFrame, push, next]

theorem frame?_newFrame (s : Store) (outer : Option FrameId) (i : Nat) :
    (s.newFrame outer).frame? i = if i = s.next then some ⟨[], outer⟩ else s.frame? i :=
  Array.getElem?_push

theorem next_bind (s : Store) (i : FrameId) (name : String) (v : Value) :
    (s.bind i name v).next = s.next := by
  simp [Store.bind, next]

theorem frame?_bind (s : Store) (i : Nat) (name : String) (v : Value) (j : Nat) :
    (s.bind i name v).frame? j =
      if i = j then (s.frame? j).map fun f => { f with vars := bindVar name v f.vars }
      else s.frame? j := by
  simp [Store.bind, frame?, Array.getElem?_modify]

theorem vars_bind (old : i < s.next) (name : String) (v : Value) :
    (s.bind i name v).vars i = bindVar name v (s.vars i) := by
  have inside : i < s.frames.size := old
  simp [vars, frame?, Store.bind, Array.getElem_modify, inside]

section
variable {f : Frame} (there : s.frame? i = some f)
include there

theorem find_of_bound (bound : f.lookup name = some v) : s.find name i = some i := by
  rw [find, there]
  simp [bound]

theorem get_of_bound (bound : f.lookup name = some v) : s.get name i = some v := by
  rw [get, find_of_bound there bound]
  simp [there, bound]

theorem find_of_unbound (unbound : f.lookup name = none) :
    s.find name i = (f.outer.filter (· < i)).bind (s.find name) := by
  rw [find, there]
  cases away : f.outer with
  | none => simp [unbound, away]
  | some o =>
    by_cases further : o < i
    · simp [unbound, away, further, Option.filter]
    · simp [unbound, away, further, Option.filter]

theorem get_of_unbound (unbound : f.lookup name = none) :
    s.get name i = (f.outer.filter (· < i)).bind (s.get name) := by
  rw [get, find_of_unbound there unbound]
  cases f.outer.filter (· < i) with
  | none => rfl
  | some o => rfl

end

theorem get_of_no_frame (gone : s.frame? i = none) : s.get name i = none := by
  rw [get, find]
  simp [gone]

theorem get_bind_changed {m : String} {g : FrameId}
    (changed : (s.bind i name v).get m g ≠ s.get m g) :
    m = name ∧ (s.bind i name v).find name g = some i := by
  -- On the frame: outward from it, the binding shows only where it is the first of its name.
  induction g using Nat.strongRecOn with
  | ind g ih =>
    have frame := frame?_bind s i name v g
    cases there : s.frame? g with
    | none =>
      have gone : (s.bind i name v).frame? g = none := by
        rw [frame, there]
        split <;> rfl
      exact absurd ((get_of_no_frame gone).trans (get_of_no_frame there).symm) changed
    | some f =>
      rw [there] at frame
      by_cases here : i = g ∧ m = name
      · obtain ⟨rfl, rfl⟩ := here
        rw [if_pos rfl] at frame
        refine ⟨rfl, find_of_bound frame (v := v) ?_⟩
        simp [Frame.lookup, lookupVar_bindVar]
      · -- What this frame binds the name to is the same as before.
        obtain ⟨f', frame', lookup, outer⟩ : ∃ f', (s.bind i name v).frame? g = some f' ∧
            f'.lookup m = f.lookup m ∧ f'.outer = f.outer := by
          by_cases own : i = g
          · have other : name ≠ m := fun same => here ⟨own, same.symm⟩
            rw [if_pos own] at frame
            exact ⟨_, frame, by simp [Frame.lookup, lookupVar_bindVar, other], rfl⟩
          · rw [if_neg own] at frame
            exact ⟨f, frame, rfl, rfl⟩
        cases bound : f.lookup m with
        | some u =>
          have same := (get_of_bound frame' (lookup.trans bound)).trans (get_of_bound there bound).symm
          exact absurd same changed
        | none =>
          have unbound := lookup.trans bound
          rw [get_of_unbound frame' unbound, get_of_unbound there bound, outer] at changed
          cases further : f.outer.filter (· < g) with
          | none => exact absurd (by rw [further]; rfl) changed
          | some o =>
            rw [further] at changed
            have less : o < g := by simpa using (Option.filter_eq_some_iff.mp further).2
            obtain ⟨rfl, found⟩ := ih o less changed
            refine ⟨rfl, ?_⟩
            rw [find_of_unbound frame' unbound, outer, further]
            exact found

end Store
end TernLang
