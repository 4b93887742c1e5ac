import TernLang.Proofs.Eval.Simulation
import TernLang.Proofs.Syntax.Throughout

/-!
Stores that mirror each other. Every frame of the first has a frame on the second side with bindings
that are alike, so runs from them go the same way. A store whose references are all to frames that
are there mirrors itself, and a run keeps it so.
-/
namespace TernLang

/-- All functions in the value see frames before this one. -/
inductive Value.Closed (k : FrameId) : Value → Prop where
  | int (n : Int) : Closed k (.int n)
  | bool (b : Bool) : Closed k (.bool b)
  | str (s : String) : Closed k (.str s)
  | null : Closed k .null
  | builtin (b : Builtin) : Closed k (.builtin b)
  | brk : Closed k .brk
  | err (m : String) : Closed k (.err m)
  | ret {v : Value} (h : Closed k v) : Closed k (.ret v)
  | array {vs : List Value} (h : ∀ v ∈ vs, Closed k v) : Closed k (.array vs)
  | hash {ps : List (Key × Value)} (h : ∀ p ∈ ps, Closed k p.2) : Closed k (.hash ps)
  | fn (ps : List Ident) (b : Block) {home : FrameId} (known : home < k) :
    Closed k (.fn ps b home)

/-- Frames and functions refer to frames that are there. -/
structure Store.Closed (s : Store) : Prop where
  outer : ∀ {i f o}, s.frame? i = some f → f.outer = some o → o < s.next
  value : ∀ {i f p}, s.frame? i = some f → p ∈ f.vars → p.2.Closed s.next

namespace Store
variable {s : Store}

theorem find_place {t : Store} {name : String} (place : Nat → Nat)
    (further : ∀ i j, place i < place j ↔ i < j)
    (frame : ∀ i, Option.Rel
      (fun f g => (f.lookup name).isSome = (g.lookup name).isSome ∧ g.outer = f.outer.map place)
      (s.frame? i) (t.frame? (place i)))
    (i : FrameId) : t.find name (place i) = (s.find name i).map place := by
  induction i using Nat.strongRecOn with
  | ind i ih =>
    have same := frame i
    rw [find, find]
    generalize s.frame? i = left, t.frame? (place i) = right at same ⊢
    cases same with
    | none => rfl
    | @some f g same =>
      obtain ⟨found, outer⟩ := same
      simp only [← found]
      split
      · rfl
      · cases away : f.outer with
        | none =>
          rw [away] at outer
          simp only [outer, Option.map_none]
        | some o =>
          rw [away] at outer
          simp only [outer, Option.map_some, further]
          split
          · rename_i inner
            exact ih o inner
          · rfl

end Store

theorem Node.SameForm.refl {R : Node → Node → Prop} (n : Node) (same : ∀ p ∈ n.parts, R p p) :
    n.SameForm R n := by
  have listed {α : Type} {as : List α} {f : α → Node} (h : ∀ p ∈ as.map f, R p p) :
      List.Forall₂ (fun a b => R (f a) (f b)) as as :=
    List.forall₂_same.mpr fun a member => h _ (List.mem_map_of_mem member)
  cases n with
  | program p => exact .program (listed same)
  | block b => exact .block (listed same)
  | stmt s =>
    cases s with
    | bind t x e => exact .bind rfl (same _ List.mem_cons_self)
    | ret t e => exact .returns (same _ List.mem_cons_self)
    | expr t e => exact .simple (same _ List.mem_cons_self)
    | block b => exact .braces (listed same)
    | load t p => exact .load rfl
    | exit t n => exact .exit rfl
    | brk t => exact .brk
    | stray form => exact .strayStmt
  | expr e =>
    cases e with
    | ident x => exact .ident rfl
    | int n => exact .int rfl
    | str s => exact .str rfl
    | bool t b => exact .bool
    | array t es => exact .array (listed same)
    | hash t ps =>
      have pair : ∀ p ∈ ps, ∀ n ∈ [Node.expr p.1, .expr p.2], R n n :=
        fun p member n inside => same n (List.mem_flatMap.mpr ⟨p, member, inside⟩)
      exact .hash (List.forall₂_same.mpr fun p member =>
        ⟨pair p member _ List.mem_cons_self, pair p member _ (by simp)⟩)
    | unary t op r => exact .unary (same _ List.mem_cons_self)
    | binary t l op r => exact .binary (same _ List.mem_cons_self) (same _ (by simp [parts, Expr.parts]))
    | cond t c b a =>
      obtain ⟨condition, blocks⟩ := List.forall_mem_cons.mp same
      obtain ⟨consequence, alternative⟩ := List.forall_mem_cons.mp blocks
      apply Node.SameForm.cond condition consequence
      cases a with
      | some a => exact .some (alternative _ List.mem_cons_self)
      | none => exact .none
    | fn t ps b => exact .fn rfl (same _ List.mem_cons_self)
    | call t f es =>
      obtain ⟨callee, arguments⟩ := List.forall_mem_cons.mp same
      exact .call callee (listed arguments)
    | index t l n => exact .index (same _ List.mem_cons_self) (same _ (by simp [parts, Expr.parts]))
    | loop t b => exact .loop (same _ List.mem_cons_self)
    | stray form => exact .strayExpr

namespace Likeness
variable {L : Likeness} {s t : Store} {k : FrameId}

structure SameFrame (L : Likeness) (k : FrameId) (f g : Frame) : Prop where
  vars : L.Bindings k f.vars g.vars
  outer : g.outer = f.outer.map L.place
  known : ∀ o, f.outer = some o → L.Known k o

/-- Every frame of the first store, and no other place, has its frame on the second side. -/
structure Frames (L : Likeness) (s t : Store) : Prop where
  reached : L.old ≤ s.next
  next : t.next = L.place s.next
  frame : ∀ i, Option.Rel (L.SameFrame s.next) (s.frame? i) (t.frame? (L.place i))

theorem SameFrame.mono {l : FrameId} {f g : Frame} (h : L.SameFrame k f g) (le : k ≤ l) :
    L.SameFrame l f g where
  vars := h.vars.mono le
  outer := h.outer
  known o found := (h.known o found).mono le

theorem SameFrame.lookup {f g : Frame} (h : L.SameFrame k f g) (name : String) :
    Option.Rel (L.Alike k) (f.lookup name) (g.lookup name) :=
  h.vars.lookupVar name

section
variable {α β γ δ : Type} {R : α → β → Prop} {Q : γ → δ → Prop} {a : Option α} {b : Option β}

theorem isSome_eq_of_rel (h : Option.Rel R a b) : a.isSome = b.isSome := by
  cases h <;> rfl

theorem rel_bind {f : α → Option γ} {g : β → Option δ} (h : Option.Rel R a b)
    (next : ∀ x y, R x y → Option.Rel Q (f x) (g y)) : Option.Rel Q (a.bind f) (b.bind g) := by
  cases h with
  | none => exact .none
  | some h => exact next _ _ h

theorem rel_map {f : α → γ} {g : β → δ} (h : Option.Rel R a b)
    (next : ∀ x y, R x y → Q (f x) (g y)) : Option.Rel Q (a.map f) (b.map g) := by
  cases h with
  | none => exact .none
  | some h => exact .some (next _ _ h)

end

theorem Frames.find (h : L.Frames s t) (name : String) (i : FrameId) :
    t.find name (L.place i) = (s.find name i).map L.place := by
  refine Store.find_place L.place (fun _ _ => place_lt_place) (fun j => ?_) i
  simpa using rel_map (f := id) (g := id) (h.frame j) fun f g same =>
    ⟨isSome_eq_of_rel (same.lookup name), same.outer⟩

theorem Frames.get (h : L.Frames s t) (name : String) (i : FrameId) :
    Option.Rel (L.Alike s.next) (s.get name i) (t.get name (L.place i)) := by
  unfold Store.get
  rw [h.find name i]
  cases s.find name i with
  | none => exact .none
  | some o => exact rel_bind (h.frame o) fun f g same => same.lookup name

theorem Frames.newFrame {home : FrameId} (h : L.Frames s t) (known : L.Known s.next home) :
    L.Frames (s.newFrame (some home)) (t.newFrame (some (L.place home))) := by
  have more : s.next ≤ (s.newFrame (some home)).next := (s.extends_newFrame _).grows
  refine ⟨Nat.le_trans h.reached more, ?_, ?_⟩
  · rw [Store.next_newFrame, Store.next_newFrame, h.next, place_succ h.reached]
  · intro i
    rw [Store.frame?_newFrame, Store.frame?_newFrame, h.next]
    simp only [place_inj]
    split
    · apply Option.Rel.some
      refine ⟨.nil, rfl, ?_⟩
      rintro o found
      cases found
      exact known.mono more
    · simpa using rel_map (h.frame i) (f := id) (g := id) fun f g same => same.mono more

theorem Frames.bind {v u : Value} (h : L.Frames s t) (i : FrameId) (name : String)
    (value : L.Alike s.next v u) : L.Frames (s.bind i name v) (t.bind (L.place i) name u) := by
  have kept := Store.next_bind s i name v
  refine ⟨kept.symm ▸ h.reached, ?_, ?_⟩
  · rw [Store.next_bind, Store.next_bind, h.next]
  · intro j
    rw [Store.frame?_bind, Store.frame?_bind, kept]
    simp only [place_inj]
    split
    · exact rel_map (h.frame j) fun f g same =>
        ⟨same.vars.bindVar name value, same.outer, same.known⟩
    · exact h.frame j

/-- What mirrors keep up: they answer lookups alike, and are mirrors again when a name is bound on
both sides or a frame is made. -/
theorem stores_frames (L : Likeness) : L.Stores L.Frames where
  newFrame h known := ⟨h.next, h.newFrame known⟩
  get i h _ _ := h.get _ i
  bind i h _ _ value := h.bind i _ value

theorem Alike.refl {v : Value} (h : v.Closed k) (nodes : ∀ n, L.nodes n n) (old : k ≤ L.old) :
    L.Alike k v v := by
  induction h with
  | int n => exact .int n
  | bool b => exact .bool b
  | str s => exact .str s
  | null => exact .null
  | builtin b => exact .builtin b
  | brk => exact .brk
  | err m => exact .err m
  | ret h ih => exact .ret ih
  | array h ih => exact .ofArray (List.forall₂_same.mpr ih)
  | hash h ih => exact .ofHash (List.forall₂_same.mpr fun p member => ⟨rfl, ih p member⟩)
  | @fn ps b home known =>
    have stays : L.place home = home := place_of_lt (Nat.lt_of_lt_of_le known old)
    have same : L.Alike k (.fn ps b home) (.fn ps b (L.place home)) :=
      .fn (t := .eof) (u := .eof) (nodes _) (known_of_lt known)
    rwa [stays] at same

theorem Alike.closed {v u : Value} (h : L.Alike k v u) (closed : L.closed) : v.Closed k := by
  induction h with
  | int n => exact .int n
  | bool b => exact .bool b
  | str s => exact .str s
  | null => exact .null
  | builtin b => exact .builtin b
  | brk => exact .brk
  | err m => exact .err m
  | ret h ih => exact .ret ih
  | array length each ih =>
    apply Value.Closed.array
    intro v member
    rw [← List.map_fst_zip (Nat.le_of_eq length)] at member
    obtain ⟨p, inside, rfl⟩ := List.mem_map.mp member
    exact ih p inside
  | hash length keys each ih =>
    apply Value.Closed.hash
    intro p member
    rw [← List.map_fst_zip (Nat.le_of_eq length)] at member
    obtain ⟨q, inside, rfl⟩ := List.mem_map.mp member
    exact ih q inside
  | fn written known => exact .fn _ _ (known closed)

theorem Bindings.closed {κ : Type} {ps qs : List (κ × Value)} (h : L.Bindings k ps qs)
    (closed : L.closed) : ∀ p ∈ ps, p.2.Closed k :=
  ((List.forall₂_and_left ps qs).mp (h.imp fun _ _ same => ⟨same.2.closed closed, same⟩)).1

theorem Frames.of_some (h : L.Frames s t) {i : FrameId} {f : Frame} (found : s.frame? i = some f) :
    ∃ g, t.frame? (L.place i) = some g ∧ L.SameFrame s.next f g := by
  have same := h.frame i
  rw [found] at same
  generalize t.frame? (L.place i) = right at same ⊢
  cases same with
  | some same => exact ⟨_, rfl, same⟩

theorem Frames.closed (h : L.Frames s t) (closed : L.closed) : s.Closed where
  outer found away := by
    obtain ⟨g, -, same⟩ := h.of_some found
    exact same.known _ away closed
  value found member := by
    obtain ⟨g, -, same⟩ := h.of_some found
    exact same.vars.closed closed _ member

/-- A closed store is mirrored by every store that extends it. -/
theorem frames_of_extends (closed : s.Closed) (nodes : ∀ n, L.nodes n n) (old : L.old = s.next)
    (added : s.Extends t) (moved : t.next = s.next + L.moved) : L.Frames s t where
  reached := Nat.le_of_eq old
  next := by
    unfold place
    rw [old, if_neg (Nat.lt_irrefl _), moved]
  frame i := by
    rcases Nat.lt_or_ge i s.next with there | beyond
    · obtain ⟨f, found⟩ := Store.frame?_of_lt there
      rw [place_of_lt (old.symm ▸ there), added.same i there, found]
      apply Option.Rel.some
      refine ⟨?_, ?_, ?_⟩
      · apply List.forall₂_same.mpr
        intro p member
        exact ⟨rfl, .refl (closed.value found member) nodes (Nat.le_of_eq old.symm)⟩
      · cases away : f.outer with
        | none => rfl
        | some o => rw [Option.map_some, place_of_lt (old.symm ▸ closed.outer found away)]
      · exact fun o away => known_of_lt (closed.outer found away)
    · have later : t.next ≤ L.place i := by
        unfold place
        rw [moved, old, if_neg (Nat.not_lt.mpr beyond)]
        exact Nat.add_le_add_right beyond _
      rw [Store.frame?_of_le beyond, Store.frame?_of_le later]
      exact .none

/-- What two runs of the same differ in when the second has so many frames more: the frames that
were there before the first stand still, and those that a run makes stand so much further on. -/
def again (old moved : Nat) : Likeness := ⟨Eq, old, moved, True⟩

theorem again_sound (old moved : Nat) : (again old moved).Sound where
  form {n o} same := by
    cases same
    exact .refl n fun _ _ => rfl
  text same := by
    cases same
    rfl
  programs _ _ := rfl

end Likeness

structure Run.EndsClosed (r : Run Value) (w : World) : Prop where
  store : (r w).2.store.Closed
  answer : ∀ v, (r w).1 = .ok v → v.Closed (r w).2.store.next

namespace Likeness
variable {L : Likeness} {before : String × String} {k : FrameId}

theorem endsClosed {r s : Run Value} {w x : World} (closed : L.closed)
    (h : Run.Ends (L.Worlds L.Frames before) L.Alike k (r w) (s x)) : r.EndsClosed w where
  store := h.worlds.store.closed closed
  answer _ answered := by
    obtain ⟨u, -, alike⟩ := h.answer answered
    exact alike.closed closed

theorem worlds_self {w : World} (closed : w.store.Closed) :
    (again w.store.next 0).Worlds (again w.store.next 0).Frames ("", "") w w where
  store := frames_of_extends closed (fun _ => rfl) rfl (.refl _) rfl
  output := ⟨w.output, (String.empty_append).symm, (String.empty_append).symm⟩
  loading _ := rfl

end Likeness

namespace Machine
variable (m : Machine) {w : World}

theorem evaluate_endsClosed (closed : w.store.Closed) (node : Node) {i : FrameId}
    (inside : i < w.store.next) : (m.evaluate node i).EndsClosed w := by
  have ended := Likeness.eval_like (Likeness.again_sound w.store.next 0)
    (Likeness.stores_frames _) m.context m.depth node node i w.store.next rfl
    (Likeness.known_of_lt inside) w w (Likeness.worlds_self closed) (Nat.le_refl _)
  exact Likeness.endsClosed trivial ended

theorem evalText_endsClosed (closed : w.store.Closed) (text : String) {i : FrameId}
    (inside : i < w.store.next) : (m.evalText i text).EndsClosed w := by
  have ended := Likeness.evalText_like (Likeness.again_sound w.store.next 0)
    (Likeness.stores_frames _) m text (Likeness.known_of_lt inside) (fun _ => rfl) w w
    (Likeness.worlds_self closed) (Nat.le_refl _)
  exact Likeness.endsClosed trivial ended

theorem apply_endsClosed (closed : w.store.Closed) {f : Value} {args : List Value}
    (callee : f.Closed w.store.next) (values : ∀ v ∈ args, v.Closed w.store.next) :
    (m.apply f args).EndsClosed w := by
  have same : ∀ v : Value, v.Closed w.store.next →
      (Likeness.again w.store.next 0).Alike w.store.next v v :=
    fun v known => .refl known (fun _ => rfl) (Nat.le_refl _)
  have ended := Likeness.apply_like (Likeness.again_sound w.store.next 0)
    (Likeness.stores_frames _)
    (Likeness.eval_like (Likeness.again_sound _ _) (Likeness.stores_frames _) m.context m.depth)
    (same f callee) (List.forall₂_same.mpr fun v member => same v (values v member)) w w
    (Likeness.worlds_self closed) (Nat.le_refl _)
  exact Likeness.endsClosed trivial ended

end Machine

theorem start_frame {i : FrameId} {f : Frame} (found : World.start.store.frame? i = some f) :
    f = ⟨[], none⟩ :=
  Array.mem_singleton.mp (Array.mem_of_getElem? found)

theorem start_closed : World.start.store.Closed where
  outer found away := by
    rw [start_frame found] at away
    cases away
  value found member := by
    rw [start_frame found] at member
    cases member

end TernLang
