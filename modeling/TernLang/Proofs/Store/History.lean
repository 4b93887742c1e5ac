import TernLang.Proofs.Store.Lookup
import TernLang.Proofs.Value.Pairs
import TernLang.Run

/-!
Frames and their history. Whatever frames have been made, one in another, and whatever names have
been set in them, what is found from a frame outward is told by this history: the first frame on the
way in which the name was ever set, and what was set there last.
-/
namespace TernLang

inductive Change where
  | root
  | enclosed (outer : FrameId)
  | set (i : FrameId) (name : String) (v : Value)

namespace Change

def run : Change → Run Unit
  | root => do
    let _ ← Run.newFrame none
    pure ()
  | enclosed o => do
    let _ ← Run.newFrame (some o)
    pure ()
  | set i name v => Run.assign i name v

def outer? : Change → Option (Option FrameId)
  | root => some none
  | enclosed o => some (some o)
  | set _ _ _ => none

def set? (i : FrameId) : Change → Option (String × Value)
  | set j name v => if j = i ∧ v.isControl = false then some (name, v) else none
  | _ => none

end Change

def framesMade (cs : List Change) : List (Option FrameId) := cs.filterMap Change.outer?

def setsIn (cs : List Change) (i : FrameId) : List (String × Value) := cs.filterMap (Change.set? i)

def valuesSet (cs : List Change) (i : FrameId) (name : String) : List Value :=
  ((setsIn cs i).filter fun p => p.1 = name).map Prod.snd

/-- Changes that refer to frames that are there when they are made. -/
inductive History : List Change → Prop where
  | nil : History []
  | root {cs : List Change} (h : History cs) : History (cs ++ [.root])
  | enclosed {cs : List Change} {o : FrameId} (h : History cs) (there : o < (framesMade cs).length) :
    History (cs ++ [.enclosed o])
  | set {cs : List Change} {i : FrameId} (h : History cs) (there : i < (framesMade cs).length)
    (name : String) (v : Value) : History (cs ++ [.set i name v])

/-- Makes changes in turn. A change that is refused does not keep the others from being made. -/
def World.changed (w : World) (cs : List Change) : World := cs.foldl (fun w c => (c.run w).2) w

inductive Outward (cs : List Change) : FrameId → List FrameId → Prop where
  | root {g : FrameId} (made : (framesMade cs)[g]? = some none) : Outward cs g [g]
  | inner {g o : FrameId} {is : List FrameId} (made : (framesMade cs)[g]? = some (some o))
    (rest : Outward cs o is) : Outward cs g (g :: is)

def bindVars (sets : List (String × Value)) : List (String × Value) :=
  sets.foldl (fun vars p => bindVar p.1 p.2 vars) []

section
variable {sets : List (String × Value)} {p : String × Value} {name : String}

theorem bindVars_concat : bindVars (sets ++ [p]) = bindVar p.1 p.2 (bindVars sets) := by
  rw [bindVars, List.foldl_append]
  rfl

theorem names_bindVars (sets : List (String × Value)) :
    (bindVars sets).map Prod.fst = (sets.map Prod.fst).eraseDups := by
  induction sets using List.reverseRecOn with
  | nil => rfl
  | append_singleton sets p ih =>
    rw [bindVars_concat, names_bindVar, ih, List.map_append, List.map_singleton, eraseDups_concat]
    simp only [List.mem_eraseDups]

theorem lookupVar_bindVars (name : String) (sets : List (String × Value)) :
    lookupVar name (bindVars sets) =
      ((sets.filter fun p => p.1 = name).map Prod.snd).getLast? := by
  induction sets using List.reverseRecOn with
  | nil => rfl
  | append_singleton sets p ih =>
    rw [bindVars_concat, lookupVar_bindVar, ih, List.filter_append]
    by_cases same : p.1 = name
    · simp [same]
    · simp [same]

end

section
variable {cs : List Change} {w : World} {g i : FrameId} {is : List FrameId} {name : String}

theorem World.changed_concat (w : World) (cs : List Change) (c : Change) :
    w.changed (cs ++ [c]) = (c.run (w.changed cs)).2 := by
  rw [World.changed, List.foldl_append]
  rfl

theorem framesMade_concat (cs : List Change) (c : Change) :
    framesMade (cs ++ [c]) = framesMade cs ++ c.outer?.toList := by
  rw [framesMade, List.filterMap_append]
  cases c <;> rfl

theorem getElem?_concat {α : Type} (as : List α) (a : α) (i : Nat) :
    (as ++ [a])[i]? = if i = as.length then some a else as[i]? := by
  by_cases last : i = as.length
  · simp [last]
  · rw [if_neg last]
    by_cases inside : i < as.length
    · exact List.getElem?_append_left inside
    · have beyond : as.length + 1 ≤ i := by omega
      rw [List.getElem?_eq_none (by simpa using beyond), List.getElem?_eq_none (by omega)]

theorem getElem?_framesMade {c : Change} {outer : Option FrameId} (made : c.outer? = some outer)
    (cs : List Change) (g : FrameId) : (framesMade (cs ++ [c]))[g]? =
      if g = (framesMade cs).length then some outer else (framesMade cs)[g]? := by
  rw [framesMade_concat, made]
  exact getElem?_concat (framesMade cs) outer g

theorem framesMade_same {c : Change} (made : c.outer? = none) (cs : List Change) :
    framesMade (cs ++ [c]) = framesMade cs := by
  rw [framesMade_concat, made]
  exact List.append_nil _

theorem setsIn_concat (cs : List Change) (c : Change) (i : FrameId) :
    setsIn (cs ++ [c]) i = setsIn cs i ++ (c.set? i).toList := by
  rw [setsIn, List.filterMap_append]
  cases found : c.set? i <;> simp [found, setsIn]

theorem Run.assign_control {v : Value} (control : v.isControl) (i : FrameId) (name : String) :
    Run.assign i name v w = (.error (.controlBound v.describe name), w) := by
  rw [Run.assign, if_pos control]

theorem Run.assign_data {v : Value} (data : v.isControl = false) (i : FrameId) (name : String) :
    Run.assign i name v w = (.ok (), { w with store := w.store.bind i name v }) := by
  rw [Run.assign, data]
  rfl

namespace History

theorem setsIn_beyond (h : History cs) (beyond : (framesMade cs).length ≤ i) : setsIn cs i = [] := by
  induction h with
  | nil => rfl
  | root h ih | enclosed h _ ih =>
    rw [framesMade_concat, List.length_append] at beyond
    rw [setsIn_concat, ih (by omega)]
    rfl
  | @set cs j h there name v ih =>
    rw [framesMade_concat, List.length_append] at beyond
    have old : (framesMade cs).length ≤ i := by omega
    have other : j ≠ i := Nat.ne_of_lt (Nat.lt_of_lt_of_le there old)
    rw [setsIn_concat, ih old, Change.set?, if_neg fun own => other own.1]
    rfl

theorem outer_lt (h : History cs) {o : FrameId} (made : (framesMade cs)[g]? = some (some o)) :
    o < g := by
  induction h with
  | nil => cases made
  | root h ih =>
    rw [getElem?_framesMade rfl] at made
    split at made
    · cases made
    · exact ih made
  | enclosed h there ih =>
    rw [getElem?_framesMade rfl] at made
    split at made
    · rename_i last
      cases made
      exact last ▸ there
    · exact ih made
  | set h there name v ih =>
    rw [framesMade_same rfl] at made
    exact ih made

/-- The store that a history leads to: the frames that were made, with what was set in them bound
in turn. -/
structure Told (cs : List Change) (s : Store) : Prop where
  count : s.next = (framesMade cs).length
  frame : ∀ i, s.frame? i = (framesMade cs)[i]?.map fun outer => ⟨bindVars (setsIn cs i), outer⟩

theorem Told.newFrame {s : Store} (h : Told cs s) {c : Change} {outer : Option FrameId}
    (fresh : setsIn cs s.next = []) (made : c.outer? = some outer) (sets : ∀ i, c.set? i = none) :
    Told (cs ++ [c]) (s.newFrame outer) where
  count := by
    rw [Store.next_newFrame, framesMade_concat, made, h.count]
    simp
  frame i := by
    rw [Store.frame?_newFrame, getElem?_framesMade made, setsIn_concat, sets, h.frame, ← h.count,
      Option.toList_none, List.append_nil]
    by_cases new : i = s.next
    · rw [if_pos new, if_pos new, new, fresh]
      rfl
    · rw [if_neg new, if_neg new]

theorem Told.same {s : Store} (h : Told cs s) {c : Change} (made : c.outer? = none)
    (sets : ∀ i, c.set? i = none) : Told (cs ++ [c]) s where
  count := by
    rw [framesMade_same made, h.count]
  frame i := by
    rw [framesMade_same made, setsIn_concat, sets, h.frame, Option.toList_none, List.append_nil]

theorem Told.bind {s : Store} (h : Told cs s) {v : Value} (data : v.isControl = false)
    (i : FrameId) (name : String) : Told (cs ++ [.set i name v]) (s.bind i name v) where
  count := by
    rw [Store.next_bind, framesMade_same rfl, h.count]
  frame j := by
    rw [Store.frame?_bind, framesMade_same rfl, setsIn_concat, h.frame, Change.set?]
    by_cases own : i = j
    · subst own
      rw [if_pos rfl, if_pos ⟨rfl, data⟩, Option.toList_some, bindVars_concat]
      cases (framesMade cs)[i]? <;> rfl
    · rw [if_neg own, if_neg fun same => own same.1, Option.toList_none, List.append_nil]

theorem told (h : History cs) (empty : w.store = .empty) : Told cs (w.changed cs).store := by
  induction h with
  | nil =>
    change Told [] w.store
    rw [empty]
    exact ⟨rfl, fun i => rfl⟩
  | root h ih =>
    rw [World.changed_concat]
    exact ih.newFrame (h.setsIn_beyond (Nat.le_of_eq ih.count.symm)) rfl fun _ => rfl
  | enclosed h there ih =>
    rw [World.changed_concat]
    exact ih.newFrame (h.setsIn_beyond (Nat.le_of_eq ih.count.symm)) rfl fun _ => rfl
  | set h there name v ih =>
    rw [World.changed_concat, Change.run]
    cases control : v.isControl with
    | true =>
      rw [Run.assign_control control]
      exact ih.same rfl fun i => by simp [Change.set?, control]
    | false =>
      rw [Run.assign_data control]
      exact ih.bind control _ name

end History

theorem valuesSet_getLast?_isSome :
    (valuesSet cs i name).getLast?.isSome = decide (name ∈ (setsIn cs i).map Prod.fst) := by
  rw [Bool.eq_iff_iff, decide_eq_true_iff, List.getLast?_isSome, valuesSet, ne_eq,
    List.map_eq_nil_iff, List.filter_eq_nil_iff]
  constructor
  · intro some_set
    push Not at some_set
    obtain ⟨p, set, own⟩ := some_set
    exact List.mem_map.mpr ⟨p, set, by simpa using own⟩
  · intro named none_set
    obtain ⟨p, set, own⟩ := List.mem_map.mp named
    exact none_set p set (by simpa using own)

namespace History

theorem Told.lookup {s : Store} (told : Told cs s) {outer : Option FrameId}
    (made : (framesMade cs)[i]? = some outer) : ∃ f, s.frame? i = some f ∧ f.outer = outer ∧
      ∀ name, f.lookup name = (valuesSet cs i name).getLast? := by
  have there := told.frame i
  rw [made] at there
  exact ⟨_, there, rfl, fun name => lookupVar_bindVars name (setsIn cs i)⟩

theorem exists_outward (h : History cs) (made : g < (framesMade cs).length) :
    ∃ is, Outward cs g is := by
  induction g using Nat.strongRecOn with
  | ind g ih =>
    have there := List.getElem?_eq_getElem made
    cases outer : (framesMade cs)[g] with
    | none => exact ⟨[g], .root (there.trans (congrArg some outer))⟩
    | some o =>
      rw [outer] at there
      have older := h.outer_lt there
      obtain ⟨is, rest⟩ := ih o older (Nat.lt_trans older made)
      exact ⟨g :: is, .inner there rest⟩

end History

namespace Outward

theorem older (out : Outward cs g is) (h : History cs) : ∀ i ∈ is.tail, i < g := by
  induction out with
  | root made => simp
  | @inner g o is made rest ih =>
    have less := h.outer_lt made
    cases rest with
    | root =>
      intro i among
      cases List.mem_singleton.mp among
      exact less
    | inner =>
      intro i among
      cases among with
      | head => exact less
      | tail _ further => exact Nat.lt_trans (ih i further) less

theorem chain_eq {s : Store} (out : Outward cs g is) (h : History cs) (told : History.Told cs s) :
    (s.chain g).map some = is.map s.frame? := by
  induction out with
  | root made =>
    obtain ⟨f, there, outer, -⟩ := told.lookup made
    rw [Store.chain, List.map_singleton, there]
    simp [outer]
  | inner made rest ih =>
    obtain ⟨f, there, outer, -⟩ := told.lookup made
    rw [Store.chain, List.map_cons, there, ← ih]
    simp [outer, h.outer_lt made]

theorem find_eq {s : Store} (out : Outward cs g is) (h : History cs) (told : History.Told cs s)
    (name : String) : s.find name g = is.find? fun i => name ∈ (setsIn cs i).map Prod.fst := by
  induction out with
  | root made =>
    obtain ⟨f, there, outer, lookup⟩ := told.lookup made
    rw [List.find?_cons, ← valuesSet_getLast?_isSome, ← lookup name]
    cases bound : f.lookup name with
    | none =>
      rw [Store.find_of_unbound there bound, outer]
      rfl
    | some v => exact Store.find_of_bound there bound
  | @inner g o is made rest ih =>
    obtain ⟨f, there, outer, lookup⟩ := told.lookup made
    rw [List.find?_cons, ← valuesSet_getLast?_isSome, ← lookup name]
    cases bound : f.lookup name with
    | none =>
      have further : (some o).filter (· < g) = some o := by simp [Option.filter, h.outer_lt made]
      rw [Store.find_of_unbound there bound, outer, further]
      exact ih
    | some v => exact Store.find_of_bound there bound

end Outward

namespace History
variable {s : Store} (told : Told cs s)
include told

theorem Told.names (h : History cs) (i : FrameId) :
    (s.vars i).map Prod.fst = ((setsIn cs i).map Prod.fst).eraseDups := by
  rw [Store.vars, told.frame]
  cases made : (framesMade cs)[i]? with
  | none =>
    rw [h.setsIn_beyond (List.getElem?_eq_none_iff.mp made)]
    rfl
  | some outer => exact names_bindVars _

/-- What is found under a name is what it was set to last, where it is found. -/
theorem Told.get_eq (h : History cs) (name : String) (g : FrameId) :
    s.get name g = (s.find name g).bind fun i => (valuesSet cs i name).getLast? := by
  rw [Store.get]
  cases s.find name g with
  | none => rfl
  | some i =>
    cases made : (framesMade cs)[i]? with
    | none =>
      have unset := h.setsIn_beyond (List.getElem?_eq_none_iff.mp made)
      have gone := told.frame i
      rw [made] at gone
      simp [gone, valuesSet, unset]
    | some outer =>
      obtain ⟨f, there, -, lookup⟩ := told.lookup made
      simp [there, lookup]

end History

theorem Store.contains_eq {s : Store} (told : History.Told cs s) (h : History cs)
    (out : Outward cs g is) (name : String) : s.contains name g = (s.get name g).isSome := by
  rw [Store.contains, told.get_eq h]
  cases found : s.find name g with
  | none => rfl
  | some i =>
    rw [out.find_eq h told] at found
    have named := List.find?_some found
    rw [← valuesSet_getLast?_isSome] at named
    exact named.symm

end

/-- What a history alone tells about a frame: the way outward from it, where names are found on this
way, and what they stand for there. -/
structure Seen (cs : List Change) (s : Store) (g : FrameId) (is : List FrameId) : Prop where
  outward : Outward cs g is
  older : ∀ i ∈ is.tail, i < g
  chain : (s.chain g).map some = is.map s.frame?
  find : ∀ name, s.find name g = is.find? fun i => name ∈ (setsIn cs i).map Prod.fst
  get : ∀ name, s.get name g = (s.find name g).bind fun i => (valuesSet cs i name).getLast?
  contains : ∀ name, s.contains name g = (s.get name g).isSome
  names : (s.vars g).map Prod.fst = ((setsIn cs g).map Prod.fst).eraseDups

/-- Environments are chains of maps, whatever has been done to the family before: setting a control
value is refused and changes nothing, and setting any other value is seen from the frames alone that
find the name where it was set. -/
theorem environments_are_chains {cs : List Change} (h : History cs) {w : World}
    (empty : w.store = .empty) {g : FrameId} (made : g < (framesMade cs).length) :
    (∃ is, Seen cs (w.changed cs).store g is) ∧
      ∀ name v,
        (v.isControl = true →
          Run.assign g name v (w.changed cs) =
            (.error (.controlBound v.describe name), w.changed cs)) ∧
        (v.isControl = false →
          ∃ x, Run.assign g name v (w.changed cs) = (.ok (), x) ∧
            x.store.get name g = some v ∧
            ∀ m i, x.store.get m i ≠ (w.changed cs).store.get m i →
              m = name ∧ x.store.find name i = some g) := by
  have told := h.told empty
  constructor
  · obtain ⟨is, out⟩ := h.exists_outward made
    exact ⟨is, {
      outward := out
      older := out.older h
      chain := out.chain_eq h told
      find := out.find_eq h told
      get := fun name => told.get_eq h name g
      contains := Store.contains_eq told h out
      names := told.names h g }⟩
  · intro name v
    constructor
    · intro control
      exact Run.assign_control control g name
    · intro data
      refine ⟨_, Run.assign_data data g name, ?_, fun m i => Store.get_bind_changed⟩
      obtain ⟨f, there⟩ := Store.frame?_of_lt (told.count ▸ made)
      have bound := Store.frame?_bind (w.changed cs).store g name v g
      rw [if_pos rfl, there] at bound
      refine Store.get_of_bound bound ?_
      simp [Frame.lookup, lookupVar_bindVar]

theorem environments_are_chains_siblings :
    ∃ is, Seen [.root, .enclosed 0, .enclosed 0, .set 0 "x" (.int 1), .set 1 "x" (.bool true),
        .set 2 "x" .brk]
      (World.changed ⟨.empty, "", [], []⟩ [.root, .enclosed 0, .enclosed 0, .set 0 "x" (.int 1),
        .set 1 "x" (.bool true), .set 2 "x" .brk]).store 2 is := by
  have frames : History [.root, .enclosed 0, .enclosed 0] :=
    .enclosed (.enclosed (.root .nil) (by decide)) (by decide)
  have outer : History ([.root, .enclosed 0, .enclosed 0] ++ [.set 0 "x" (.int 1)]) :=
    frames.set (by decide) "x" (.int 1)
  have inner : History ([.root, .enclosed 0, .enclosed 0, .set 0 "x" (.int 1)] ++
      [.set 1 "x" (.bool true)]) :=
    outer.set (by decide) "x" (.bool true)
  exact (environments_are_chains (inner.set (i := 2) (by decide) "x" .brk) rfl (by decide)).1

end TernLang
