import TernLang.Proofs.Eval.Inlining

/-!
Bindings that nothing uses. A name that is written neither in a node nor in a function in the store
can be bound in any frame beforehand, to any value: evaluation of the node answers, halts and writes
the same, and in the end the stores differ in that one binding.
-/
namespace TernLang

/-- The name is neither looked up nor bound in the node, nor in a function in it. -/
def Node.Avoids (y : String) (n : Node) : Prop := n.Throughout fun p => y ∉ p.names

def Value.Avoids (y : String) : Value → Prop
  | .fn ps b _ => y ∉ ps.map Ident.name ∧ (Node.block b).Avoids y
  | _ => True

def Store.Avoids (y : String) (s : Store) : Prop := s.Each fun v => v.Throughout (Value.Avoids y)

/-- The store with one binding put in behind the first `k` of a frame. -/
def Store.insert (s : Store) (f : FrameId) (k : Nat) (y : String) (v : Value) : Store :=
  ⟨s.frames.modify f fun g => { g with vars := g.vars.insertIdx k (y, v) }⟩

/-- The second store has one binding more than the first, behind the first `k` of a frame that
does not bind the name otherwise. -/
structure Store.OneMore (f : FrameId) (k : Nat) (y : String) (v : Value) (s t : Store) : Prop where
  own : ∃ g, s.frame? f = some g ∧ k ≤ g.vars.length ∧ y ∉ g.vars.map Prod.fst
  store : t = s.insert f k y v

section
variable {x y : String} {u v : Value} {vars : List (String × Value)}

theorem lookupVar_insertIdx (other : x ≠ y) (k : Nat) :
    lookupVar x (vars.insertIdx k (y, v)) = lookupVar x vars := by
  induction vars generalizing k with
  | nil =>
    cases k with
    | zero => exact if_neg other.symm
    | succ k => rfl
  | cons p vars ih =>
    cases k with
    | zero => exact if_neg other.symm
    | succ k =>
      rw [List.insertIdx_succ_cons, lookupVar, lookupVar, ih]

theorem bindVar_insertIdx (other : x ≠ y) {k : Nat} (room : k ≤ vars.length) :
    bindVar x u (vars.insertIdx k (y, v)) = (bindVar x u vars).insertIdx k (y, v) := by
  induction vars generalizing k with
  | nil =>
    obtain rfl := Nat.le_zero.mp room
    simp [bindVar, other.symm]
  | cons p vars ih =>
    cases k with
    | zero => simp [bindVar, other.symm]
    | succ k =>
      have rest := ih (Nat.le_of_succ_le_succ room)
      rw [List.insertIdx_succ_cons, bindVar, bindVar, rest]
      split <;> rfl

theorem bindVar_of_unbound (unbound : y ∉ vars.map Prod.fst) :
    bindVar y v vars = vars ++ [(y, v)] := by
  induction vars with
  | nil => rfl
  | cons p vars ih =>
    obtain ⟨here, later⟩ := not_or.mp (mt List.mem_cons.mpr unbound)
    rw [bindVar, if_neg (Ne.symm here), ih later, List.cons_append]

theorem length_le_bindVar (x : String) (u : Value) (vars : List (String × Value)) :
    vars.length ≤ (bindVar x u vars).length := by
  have names := congrArg List.length (names_bindVar x u vars)
  split at names <;> simp at names <;> omega

theorem not_mem_bindVar (other : x ≠ y) (unbound : y ∉ vars.map Prod.fst) :
    y ∉ (bindVar x u vars).map Prod.fst := by
  rw [names_bindVar]
  split
  · exact unbound
  · simpa [other.symm] using unbound

end

namespace Store
variable {s t : Store} {f i : FrameId} {k : Nat} {x y : String} {u v : Value}

theorem next_insert (s : Store) (f : FrameId) (k : Nat) (y : String) (v : Value) :
    (s.insert f k y v).next = s.next := by
  simp [insert, next]

theorem frame?_insert (s : Store) (f : FrameId) (k : Nat) (y : String) (v : Value) (j : FrameId) :
    (s.insert f k y v).frame? j =
      if f = j then (s.frame? j).map fun g => { g with vars := g.vars.insertIdx k (y, v) }
      else s.frame? j := by
  simp [insert, frame?, Array.getElem?_modify]

theorem bind_eq_insert (unbound : y ∉ (s.vars f).map Prod.fst) :
    s.bind f y v = s.insert f (s.vars f).length y v := by
  apply eq_of_frame?
  intro j
  rw [frame?_bind, frame?_insert]
  split
  · rename_i same
    subst same
    unfold vars at unbound ⊢
    cases found : s.frame? f with
    | none => rfl
    | some g =>
      rw [found] at unbound
      simp only [Option.map_some]
      rw [bindVar_of_unbound unbound, List.insertIdx_length_self]
  · rfl

theorem newFrame_insert (there : f < s.next) (outer : Option FrameId) :
    (s.insert f k y v).newFrame outer = (s.newFrame outer).insert f k y v := by
  apply eq_of_frame?
  intro j
  rw [frame?_newFrame, frame?_insert, frame?_insert, frame?_newFrame, next_insert]
  by_cases new : j = s.next
  · have own : f ≠ j := fun same => Nat.ne_of_lt there (same.trans new)
    rw [if_pos new, if_neg own, if_pos new]
  · rw [if_neg new, if_neg new]

theorem bind_insert (other : x ≠ y) {g : Frame} (found : s.frame? f = some g)
    (room : k ≤ g.vars.length) :
    (s.insert f k y v).bind i x u = (s.bind i x u).insert f k y v := by
  apply eq_of_frame?
  intro j
  rw [frame?_bind, frame?_insert, frame?_insert, frame?_bind]
  by_cases bound : i = j
  · by_cases own : f = j
    · -- Both bindings are in this frame: a new name comes last, behind the place.
      subst own
      rw [if_pos rfl, if_pos bound, if_pos rfl, if_pos bound]
      simp only [found, Option.map_some, bindVar_insertIdx other room]
    · rw [if_neg own, if_neg own]
  · rw [if_neg bound, if_neg bound]

theorem frame?_insert_alike (other : x ≠ y) (j : FrameId) :
    Option.Rel (fun g h => g.lookup x = h.lookup x ∧ h.outer = g.outer) (s.frame? j)
      ((s.insert f k y v).frame? j) := by
  rw [frame?_insert]
  cases s.frame? j with
  | none => simp
  | some g =>
    split
    · exact .some ⟨(lookupVar_insertIdx other k).symm, rfl⟩
    · exact .some ⟨rfl, rfl⟩

theorem find_insert (other : x ≠ y) (i : FrameId) :
    (s.insert f k y v).find x i = s.find x i := by
  have frame (j : FrameId) : Option.Rel
      (fun g h => (g.lookup x).isSome = (h.lookup x).isSome ∧ h.outer = g.outer.map id)
      (s.frame? j) ((s.insert f k y v).frame? j) := by
    simpa using Likeness.rel_map (f := id) (g := id) (frame?_insert_alike other j)
      fun g h alike => ⟨congrArg Option.isSome alike.1, by simpa using alike.2⟩
  simpa using find_place id (fun _ _ => Iff.rfl) frame i

theorem get_insert (other : x ≠ y) (i : FrameId) :
    (s.insert f k y v).get x i = s.get x i := by
  unfold get
  rw [find_insert other]
  cases s.find x i with
  | none => rfl
  | some o =>
    have alike : Option.Rel _ (s.frame? o) ((s.insert f k y v).frame? o) :=
      frame?_insert_alike other o
    simp only
    generalize s.frame? o = left, (s.insert f k y v).frame? o = right at alike ⊢
    cases alike with
    | none => rfl
    | some alike => exact alike.1.symm

namespace OneMore

theorem there (h : s.OneMore f k y v t) : f < s.next := by
  obtain ⟨g, found, -⟩ := h.own
  by_contra beyond
  rw [frame?_of_le (Nat.not_lt.mp beyond)] at found
  cases found

theorem newFrame (h : s.OneMore f k y v t) (outer : Option FrameId) :
    (s.newFrame outer).OneMore f k y v (t.newFrame outer) where
  own := by
    obtain ⟨g, found, rest⟩ := h.own
    refine ⟨g, ?_, rest⟩
    rw [frame?_newFrame, if_neg (Nat.ne_of_lt h.there), found]
  store := by rw [h.store, newFrame_insert h.there]

theorem bind (h : s.OneMore f k y v t) (other : x ≠ y) (i : FrameId) (u : Value) :
    (s.bind i x u).OneMore f k y v (t.bind i x u) := by
  obtain ⟨⟨g, found, room, unbound⟩, rfl⟩ := h
  refine ⟨?_, bind_insert other found room⟩
  rw [frame?_bind, found]
  split
  · exact ⟨_, rfl, Nat.le_trans room (length_le_bindVar x u g.vars), not_mem_bindVar other unbound⟩
  · exact ⟨g, rfl, room, unbound⟩

theorem of_bind (there : f < s.next) (unbound : y ∉ (s.vars f).map Prod.fst) :
    s.OneMore f (s.vars f).length y v (s.bind f y v) := by
  obtain ⟨g, found⟩ := frame?_of_lt there
  have vars : s.vars f = g.vars := by rw [Store.vars, found]
  refine ⟨⟨g, found, Nat.le_of_eq (congrArg List.length vars), ?_⟩, bind_eq_insert unbound⟩
  exact vars ▸ unbound

end OneMore
end Store

namespace Likeness
variable {P : Node → Prop} {f : FrameId} {k : Nat} {y : String} {v : Value}

structure WithUnused (P : Node → Prop) (f : FrameId) (k : Nat) (y : String) (v : Value)
    (s t : Store) : Prop where
  frames : (only P).Frames s s
  more : s.OneMore f k y v t

theorem ne_of_said {n o : Node} {x : String} (unsaid : ∀ n, P n → y ∉ n.names)
    (same : (only P).nodes n o) (said : x ∈ n.names) : x ≠ y := by
  rintro rfl
  exact unsaid n same.2.here said

theorem stores_withUnused (unsaid : ∀ n, P n → y ∉ n.names) :
    (only P).Stores (WithUnused P f k y v) where
  newFrame {s t home} h known := by
    have frames := h.frames.newFrame known
    rw [place_only] at frames
    rw [place_only, place_only]
    refine ⟨?_, frames, h.more.newFrame (some home)⟩
    rw [h.more.store, Store.next_insert]
  get {s t n o x} i h same said := by
    have found := h.frames.get x i
    rw [place_only] at found ⊢
    rwa [h.more.store, Store.get_insert (ne_of_said unsaid same said)]
  bind {s t n o x v u} i h same said value := by
    have frames := h.frames.bind i x value
    rw [place_only] at frames ⊢
    rw [← value.eq] at frames ⊢
    exact ⟨frames, h.more.bind (ne_of_said unsaid same said) i v⟩

end Likeness

/-- Bindings that nothing uses do not matter. If neither a node nor a function in the store imports
or says a name, the name may be bound beforehand in a frame that does not bind it: the node answers
or halts as it does without the binding and writes the same, and the stores in the end differ in
nothing else. -/
theorem unused_binding_ignored (cx : Context) (depth : Nat) (node : Node) (i f : FrameId)
    (w : World) (y : String) (v : Value) (free : node.ImportFree) (inert : w.store.ImportFree)
    (unsaid : node.Avoids y) (unknown : w.store.Avoids y) (there : f < w.store.next)
    (unbound : y ∉ (w.store.vars f).map Prod.fst) :
    let plain := eval cx depth node i w
    let extra := eval cx depth node i { w with store := w.store.bind f y v }
    extra.1 = plain.1 ∧ extra.2.output = plain.2.output ∧
      plain.2.store.OneMore f (w.store.vars f).length y v extra.2.store := by
  have functions : ∀ ps b home, Value.Inert (.fn ps b home) ∧ Value.Avoids y (.fn ps b home) →
      (Node.expr (.fn .eof ps b)).Throughout fun p => ¬ p.IsLoad ∧ y ∉ p.names := by
    rintro ps b home ⟨body, parameters, unsaid⟩
    exact Node.throughout_one ⟨id, parameters⟩ rfl (body.both unsaid)
  have frames : (Likeness.only fun p => ¬ p.IsLoad ∧ y ∉ p.names).Frames w.store w.store :=
    Likeness.frames_self functions fun g member p bound =>
      (inert g member p bound).both (unknown g member p bound)
  obtain ⟨answer, output, -, more⟩ := Likeness.eval_only (fun _ _ none => none.1 trivial)
    (Likeness.stores_withUnused fun _ here => here.2) cx depth (free.both unsaid) i
    (x := { w with store := w.store.bind f y v }) ⟨frames, .of_bind there unbound⟩ rfl
  exact ⟨answer.symm, output.symm, more⟩

def idle : Value := .fn [] ⟨.eof, []⟩ globalFrame

def idleWorld : World := ⟨⟨#[⟨[("f", idle)], none⟩]⟩, "", [], []⟩

theorem idleWorld_each {P : Value → Prop} (h : P idle) : idleWorld.store.Each P :=
  .single (List.forall_mem_singleton.mpr h)

def bindIdle : Stmt :=
  .bind ⟨.letWord, "let"⟩ ⟨⟨.ident, "x"⟩, "x"⟩
    (.call (.symbol .lparen) (.ident ⟨⟨.ident, "f"⟩, "f"⟩) [])

theorem unused_binding_ignored_between :
    Node.ImportFree (.stmt bindIdle) ∧ idleWorld.store.ImportFree ∧
      Node.Avoids "y" (.stmt bindIdle) ∧ idleWorld.store.Avoids "y" ∧
      globalFrame < idleWorld.store.next ∧
      "y" ∉ (idleWorld.store.vars globalFrame).map Prod.fst ∧
      (eval ⟨default, 1⟩ 5 (.stmt bindIdle) globalFrame
        { idleWorld with store := idleWorld.store.bind globalFrame "y" (.int 1) }).2.store =
          ⟨#[⟨[("f", idle), ("y", .int 1), ("x", .null)], none⟩, ⟨[], some globalFrame⟩]⟩ := by
  have free : Node.ImportFree (.stmt bindIdle) :=
    Node.throughout_one id rfl (Node.throughout_one id rfl (Node.throughout_leaf id rfl))
  have inert : idleWorld.store.ImportFree :=
    idleWorld_each (Value.throughout_of_simple rfl (Node.throughout_leaf id rfl))
  have unsaid : Node.Avoids "y" (.stmt bindIdle) := by
    apply Node.throughout_one (by decide) rfl
    exact Node.throughout_one (by decide) rfl (Node.throughout_leaf (by decide) rfl)
  have unknown : idleWorld.store.Avoids "y" := by
    apply idleWorld_each
    exact Value.throughout_of_simple rfl ⟨by decide, Node.throughout_leaf (by decide) rfl⟩
  have there : globalFrame < idleWorld.store.next := by decide
  have unbound : "y" ∉ (idleWorld.store.vars globalFrame).map Prod.fst := by decide
  have ignored := unused_binding_ignored ⟨default, 1⟩ 5 (.stmt bindIdle) globalFrame globalFrame
    idleWorld "y" (.int 1) free inert unsaid unknown there unbound
  refine ⟨free, inert, unsaid, unknown, there, unbound, ?_⟩
  rw [ignored.2.2.store]
  with_unfolding_all rfl

end TernLang
