import TernLang.Run

/-!
Properties that hold throughout a value: of it and of all that is stored in it. What is stored has a
property if all that is put there has it.
-/
namespace TernLang

def Value.parts : Value → List Value
  | .array vs => vs
  | .hash ps => ps.flatMap fun p => [p.1.value, p.2]
  | .ret v => [v]
  | .int _ | .bool _ | .str _ | .null | .fn _ _ _ | .builtin _ | .brk | .err _ => []

inductive Value.Throughout (P : Value → Prop) : Value → Prop where
  | intro {v : Value} (here : P v) (parts : ∀ u ∈ v.parts, Throughout P u) : Throughout P v

namespace Value
variable {P : Value → Prop} {v u : Value}

theorem Throughout.here (h : v.Throughout P) : P v := by
  cases h with
  | intro here parts => exact here

theorem Throughout.part (h : v.Throughout P) (inside : u ∈ v.parts) : u.Throughout P := by
  cases h with
  | intro here parts => exact parts u inside

theorem Throughout.both {Q : Value → Prop} (h : v.Throughout P) (other : v.Throughout Q) :
    v.Throughout fun u => P u ∧ Q u := by
  induction h with
  | intro here parts ih =>
    constructor
    · exact ⟨here, other.here⟩
    · exact fun u inside => ih u inside (other.part inside)

theorem throughout_of_simple (simple : v.parts = []) (here : P v) : v.Throughout P := by
  constructor
  · exact here
  · intro u inside
    rw [simple] at inside
    cases inside

theorem value_mem_parts {ps : List (Key × Value)} {p : Key × Value} (member : p ∈ ps) :
    p.2 ∈ (hash ps).parts :=
  List.mem_flatMap.mpr ⟨p, member, List.mem_cons_of_mem _ List.mem_cons_self⟩

end Value

section
variable {P : Value → Prop}

theorem forall_putPair {k : Key} {v : Value} {ps : List (Key × Value)} {Q : Key × Value → Prop}
    (here : Q (k, v)) (h : ∀ p ∈ ps, Q p) : ∀ p ∈ putPair k v ps, Q p := by
  induction ps with
  | nil => simpa [putPair] using here
  | cons p ps ih =>
    obtain ⟨first, rest⟩ := List.forall_mem_cons.mp h
    unfold putPair
    split
    · exact List.forall_mem_cons.mpr ⟨here, rest⟩
    · exact List.forall_mem_cons.mpr ⟨first, ih rest⟩

theorem forall_bindVar {name : String} {v : Value} {vars : List (String × Value)} (value : P v)
    (h : ∀ p ∈ vars, P p.2) : ∀ p ∈ bindVar name v vars, P p.2 := by
  induction vars with
  | nil => simpa [bindVar] using value
  | cons p vars ih =>
    obtain ⟨first, rest⟩ := List.forall_mem_cons.mp h
    unfold bindVar
    split
    · exact List.forall_mem_cons.mpr ⟨value, rest⟩
    · exact List.forall_mem_cons.mpr ⟨first, ih rest⟩

theorem of_lookupVar {name : String} {v : Value} {vars : List (String × Value)}
    (h : ∀ p ∈ vars, P p.2) (found : lookupVar name vars = some v) : P v := by
  induction vars with
  | nil => cases found
  | cons p vars ih =>
    obtain ⟨first, rest⟩ := List.forall_mem_cons.mp h
    unfold lookupVar at found
    split at found
    · cases found
      exact first
    · exact ih rest found

def Store.Each (P : Value → Prop) (s : Store) : Prop := ∀ f ∈ s.frames, ∀ p ∈ f.vars, P p.2

namespace Store.Each
variable {s : Store}

theorem bind (h : s.Each P) (i : FrameId) (name : String) {v : Value} (value : P v) :
    (s.bind i name v).Each P := by
  intro f member p bound
  obtain ⟨j, inside, rfl⟩ := Array.mem_iff_getElem.mp member
  simp only [Store.bind, Array.getElem_modify] at bound
  split at bound
  · exact forall_bindVar value (h _ (Array.getElem_mem _)) p bound
  · exact h _ (Array.getElem_mem _) p bound

theorem newFrame (h : s.Each P) (outer : Option FrameId) : (s.newFrame outer).Each P := by
  intro f member p bound
  rcases Array.mem_push.mp member with old | rfl
  · exact h f old p bound
  · cases bound

theorem get (h : s.Each P) {name : String} {i : FrameId} {v : Value}
    (found : s.get name i = some v) : P v := by
  unfold Store.get at found
  split at found
  · cases found
  · rename_i o _
    obtain ⟨f, frame, bound⟩ := Option.bind_eq_some_iff.mp found
    exact of_lookupVar (h f (Array.mem_of_getElem? frame)) bound

theorem single {f : Frame} (h : ∀ p ∈ f.vars, P p.2) : (⟨#[f]⟩ : Store).Each P := by
  intro g member
  obtain rfl := Array.mem_singleton.mp member
  exact h

end Store.Each

theorem start_each : World.start.store.Each P := Store.Each.single (List.forall_mem_nil _)

end
end TernLang
