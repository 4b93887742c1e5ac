import TernLang.Proofs.Eval.Frames
import TernLang.Proofs.Value.Operations

/-!
Simulation. Evaluation of nodes that stand for each other, from bindings that look alike, goes the
same way on both sides: it halts for the same reason or answers values that are alike, writes the
same, and leaves bindings that look alike. There is one rule for each way of building runs and one
lemma for each construct, so that the result for whole evaluations is an induction on the nesting.
-/
namespace TernLang

namespace Run
variable {α β γ δ : Type} {W : World → World → Prop} {V : FrameId → α → β → Prop}
  {U : FrameId → γ → δ → Prop} {k : FrameId}

inductive Ends (W : World → World → Prop) (V : FrameId → α → β → Prop) (k : FrameId) :
    Except Halt α × World → Except Halt β × World → Prop where
  | ok {a : α} {b : β} {w x : World} (worlds : W w x) (grown : k ≤ w.store.next)
    (answers : V w.store.next a b) : Ends W V k (.ok a, w) (.ok b, x)
  | error {h : Halt} {w x : World} (worlds : W w x) : Ends W V k (.error h, w) (.error h, x)

section
variable {e : Except Halt α × World} {d : Except Halt β × World}

theorem Ends.worlds (h : Ends W V k e d) : W e.2 d.2 := by
  cases h with
  | ok worlds => exact worlds
  | error worlds => exact worlds

theorem Ends.halt (h : Ends W V k e d) (stop : Halt) : e.1 = .error stop ↔ d.1 = .error stop := by
  cases h with
  | ok =>
    constructor
    · intro halted
      cases halted
    · intro halted
      cases halted
  | error =>
    constructor
    · intro halted
      cases halted
      rfl
    · intro halted
      cases halted
      rfl

theorem Ends.answer (h : Ends W V k e d) {a : α} (answered : e.1 = .ok a) :
    ∃ b, d.1 = .ok b ∧ V e.2.store.next a b := by
  cases h with
  | ok _ _ answers =>
    cases answered
    exact ⟨_, rfl, answers⟩
  | error => cases answered

end

/-- From worlds that are related, where at least `k` frames are there, the runs end alike. -/
def Like (W : World → World → Prop) (V : FrameId → α → β → Prop) (k : FrameId) (r : Run α)
    (s : Run β) : Prop :=
  ∀ w x, W w x → k ≤ w.store.next → Ends W V w.store.next (r w) (s x)

theorem like_pure {a : α} {b : β} (h : ∀ l, k ≤ l → V l a b) :
    Like W V k (pure a) (pure b) :=
  fun _ _ worlds known => .ok worlds (Nat.le_refl _) (h _ known)

theorem like_halt (h : Halt) : Like W V k (halt h) (halt h) := fun _ _ worlds _ => .error worlds

theorem like_ofExcept (e : Except Halt α) :
    Like W (fun _ a b => a = b) k (ofExcept e) (ofExcept e) := by
  intro w x worlds _
  cases e with
  | ok a => exact .ok worlds (Nat.le_refl _) rfl
  | error h => exact .error worlds

theorem Like.bind {r : Run α} {s : Run β} {f : α → Run γ} {g : β → Run δ}
    (first : Like W V k r s)
    (next : ∀ l, k ≤ l → ∀ a b, V l a b → Like W U l (f a) (g b)) :
    Like W U k (r >>= f) (s >>= g) := by
  intro w x worlds known
  have ended := first w x worlds known
  rcases left : r w with ⟨a, y⟩
  rcases right : s x with ⟨b, z⟩
  rw [left, right] at ended
  cases ended with
  | error worlds =>
    rw [bind_error left, bind_error right]
    exact .error worlds
  | ok worlds grown answers =>
    rw [bind_ok left, bind_ok right]
    have later := next _ (Nat.le_trans known grown) _ _ answers _ _ worlds (Nat.le_refl _)
    cases run : f _ y with
    | mk c u =>
      cases other : g _ z with
      | mk d v =>
        rw [run, other] at later
        cases later with
        | error worlds => exact .error worlds
        | ok worlds more answers => exact .ok worlds (Nat.le_trans grown more) answers

end Run

namespace Likeness

/-- What two stores have to keep up for runs from them to go the same way: a new frame, a lookup and
a binding of the names that nodes say. -/
structure Stores (L : Likeness) (S : Store → Store → Prop) : Prop where
  newFrame : ∀ {s t home}, S s t → L.Known s.next home → t.next = L.place s.next ∧
    S (s.newFrame (some home)) (t.newFrame (some (L.place home)))
  get : ∀ {s t n o x} (i : FrameId), S s t → L.nodes n o → x ∈ n.names →
    Option.Rel (L.Alike s.next) (s.get x i) (t.get x (L.place i))
  bind : ∀ {s t n o x v u} (i : FrameId), S s t → L.nodes n o → x ∈ n.names →
    L.Alike s.next v u → S (s.bind i x v) (t.bind (L.place i) x u)

/-- Worlds whose bindings look alike. The same has been added to what was written before, and if
modules may be imported, the same files are being loaded. -/
structure Worlds (L : Likeness) (S : Store → Store → Prop) (before : String × String)
    (w x : World) : Prop where
  store : S w.store x.store
  output : ∃ o, w.output = before.1 ++ o ∧ x.output = before.2 ++ o
  loading : L.Imports → x.loading = w.loading

inductive Gathered (L : Likeness) (k : FrameId) :
    Except Value (List Value) → Except Value (List Value) → Prop where
  | ok {vs us : List Value} (h : List.Forall₂ (L.Alike k) vs us) : Gathered L k (.ok vs) (.ok us)
  | error {c d : Value} (h : L.Alike k c d) : Gathered L k (.error c) (.error d)

abbrev Runs {α β : Type} (L : Likeness) (S : Store → Store → Prop) (before : String × String)
    (V : FrameId → α → β → Prop) (k : FrameId) (r : Run α) (s : Run β) : Prop :=
  Run.Like (L.Worlds S before) V k r s

abbrev Answers (L : Likeness) (S : Store → Store → Prop) (before : String × String) (k : FrameId)
    (r s : Run Value) : Prop :=
  L.Runs S before L.Alike k r s

def Evaluators (L : Likeness) (S : Store → Store → Prop) (before : String × String)
    (rec sec : Evaluator) : Prop :=
  ∀ n o i k, L.nodes n o → L.Known k i → L.Answers S before k (rec n i) (sec o (L.place i))

variable {L : Likeness} {S : Store → Store → Prop} {before : String × String} {k : FrameId}

section
variable {α β : Type} {V : FrameId → α → β → Prop}

theorem like_value {v u : Value} (h : L.Alike k v u) :
    L.Answers S before k (pure v) (pure u) :=
  Run.like_pure fun _ le => h.mono le

theorem like_fail (f : Failure) :
    L.Answers S before k (pure (.fail f)) (pure (.fail f)) :=
  like_value (.fail f)

theorem like_write (s : String) :
    L.Runs S before (fun _ _ _ => True) k (Run.write s) (Run.write s) := by
  intro w x worlds _
  obtain ⟨o, left, right⟩ := worlds.output
  refine .ok ⟨worlds.store, ⟨o ++ s, ?_, ?_⟩, worlds.loading⟩ (Nat.le_refl _) trivial
  · rw [left, String.append_assoc]
  · rw [right, String.append_assoc]

theorem like_note (e : LogEvent) :
    L.Runs S before (fun _ _ _ => True) k (Run.note e) (Run.note e) :=
  fun _ _ worlds _ =>
    .ok ⟨worlds.store, worlds.output, worlds.loading⟩ (Nat.le_refl _) trivial

theorem like_parse (text : String) :
    L.Runs S before (fun _ p q => p = q) k (Run.parse text) (Run.parse text) := by
  unfold Run.parse
  by_cases clean : (TernLang.parse text).errors.isEmpty
  · simp only [clean, if_true]
    exact Run.like_pure fun _ _ => rfl
  · simp only [clean]
    exact (like_note _).bind fun _ _ _ _ _ => Run.like_pure fun _ _ => rfl

theorem like_loading (imports : L.Imports) :
    L.Runs S before (fun _ a b => a = b) k Run.loading Run.loading :=
  fun _ _ worlds _ => .ok worlds (Nat.le_refl _) (worlds.loading imports).symm

theorem like_whileLoading {r : Run α} {s : Run β} (p : Path)
    (h : L.Runs S before V k r s) :
    L.Runs S before V k (Run.whileLoading p r) (Run.whileLoading p s) := by
  intro w x worlds known
  have inside : L.Worlds S before { w with loading := p :: w.loading }
      { x with loading := p :: x.loading } :=
    ⟨worlds.store, worlds.output, fun imports => congrArg (p :: ·) (worlds.loading imports)⟩
  have ended := h _ _ inside known
  unfold Run.whileLoading
  revert ended
  cases r { w with loading := p :: w.loading } with
  | mk a y =>
    cases s { x with loading := p :: x.loading } with
    | mk b z =>
      intro ended
      cases ended with
      | error worlds =>
        exact .error ⟨worlds.store, worlds.output, fun h => congrArg List.tail (worlds.loading h)⟩
      | ok worlds grown answers =>
        exact .ok ⟨worlds.store, worlds.output, fun h => congrArg List.tail (worlds.loading h)⟩
          grown answers

theorem like_onData {r s : Run Value} {f g : Value → Run Value}
    (first : L.Answers S before k r s)
    (next : ∀ l, k ≤ l → ∀ v u, L.Alike l v u →
      L.Answers S before l (f v) (g u)) :
    L.Answers S before k (onData r f) (onData s g) := by
  apply first.bind
  intro l le v u same
  rw [same.isControl]
  split
  · exact like_value same
  · exact next l le v u same

theorem like_newFrame (stores : L.Stores S) {home : FrameId} (known : L.Known k home) :
    L.Runs S before (fun l i j => L.Known l i ∧ j = L.place i) k (Run.newFrame (some home))
      (Run.newFrame (some (L.place home))) := by
  intro w x worlds le
  obtain ⟨next, made⟩ := stores.newFrame worlds.store (known.mono le)
  refine .ok ⟨made, worlds.output, worlds.loading⟩ ?_ ⟨?_, next⟩
  · exact (Store.extends_newFrame _ _).grows
  · exact known_of_lt (by simp [Store.newFrame, Store.push, Store.next])

theorem like_assign (sound : L.Sound) (stores : L.Stores S) {n o : Node} (same : L.nodes n o)
    {x : String} (said : x ∈ n.names) (i : FrameId) {v u : Value} (value : L.Alike k v u) :
    L.Runs S before (fun _ _ _ => True) k (Run.assign i x v) (Run.assign (L.place i) x u) := by
  intro w y worlds le
  unfold Run.assign
  rw [value.isControl, value.describe sound]
  split
  · exact .error worlds
  · refine .ok ⟨?_, worlds.output, worlds.loading⟩ ?_ trivial
    · exact stores.bind i worlds.store same said (value.mono le)
    · exact Nat.le_of_eq (Store.next_bind _ _ _ _).symm

end

section
variable {rec sec : Evaluator} {i : FrameId}

theorem all_like (parts : L.Evaluators S before rec sec) {es ds : List Expr}
    (h : List.Forall₂ (fun e d => L.nodes (.expr e) (.expr d)) es ds) (known : L.Known k i) :
    L.Runs S before L.Gathered k (Eval.all rec i es) (Eval.all sec (L.place i) ds) := by
  induction h generalizing k with
  | nil => exact Run.like_pure fun _ _ => .ok .nil
  | cons same rest ih =>
    apply (parts _ _ i k same known).bind
    intro l le v u value
    rw [value.isControl]
    split
    · exact Run.like_pure fun _ le => .error (value.mono le)
    · apply (ih (known.mono le)).bind
      intro m more r t gathered
      cases gathered with
      | ok values =>
        apply Run.like_pure
        intro p later
        exact .ok (.cons (value.mono (Nat.le_trans more later))
          (values.imp fun _ _ h => h.mono later))
      | error control => exact Run.like_pure fun _ later => .error (control.mono later)

theorem onAll_like (parts : L.Evaluators S before rec sec) {es ds : List Expr}
    (h : List.Forall₂ (fun e d => L.nodes (.expr e) (.expr d)) es ds) (known : L.Known k i)
    {f g : List Value → Run Value}
    (next : ∀ l, k ≤ l → ∀ vs us, List.Forall₂ (L.Alike l) vs us →
      L.Answers S before l (f vs) (g us)) :
    L.Answers S before k (Eval.onAll rec i es f) (Eval.onAll sec (L.place i) ds g) := by
  apply (all_like parts h known).bind
  intro l le r t gathered
  cases gathered with
  | ok values => exact next l le _ _ values
  | error control => exact like_value control

theorem pairs_like (parts : L.Evaluators S before rec sec) {ps qs : List (Expr × Expr)}
    (h : List.Forall₂
      (fun p q => L.nodes (.expr p.1) (.expr q.1) ∧ L.nodes (.expr p.2) (.expr q.2)) ps qs)
    (known : L.Known k i) {done made : List (Key × Value)} (ready : L.Bindings k done made) :
    L.Answers S before k (Eval.pairs rec i done ps) (Eval.pairs sec (L.place i) made qs) := by
  induction h generalizing k done made with
  | nil => exact like_value (.ofHash ready)
  | cons same rest ih =>
    apply like_onData (parts _ _ i k same.1 known)
    intro l le key other alike
    rw [alike.isKey, alike.tag]
    split
    · apply like_onData (parts _ _ i l same.2 (known.mono le))
      intro m more v u value
      rw [alike.key]
      apply (Run.like_ofExcept _).bind
      rintro p later c _ rfl
      have upTo : k ≤ p := Nat.le_trans le (Nat.le_trans more later)
      exact ih (known.mono upTo) ((ready.mono upTo).putPair c (value.mono later))
    · exact like_fail _

theorem ident_like (stores : L.Stores S) {x y : Ident}
    (same : L.nodes (.expr (.ident x)) (.expr (.ident y))) (name : x.name = y.name) (i : FrameId) :
    L.Answers S before k (Eval.ident x.name i) (Eval.ident y.name (L.place i)) := by
  intro w z worlds le
  have found := stores.get i worlds.store same (List.mem_singleton_self x.name)
  rw [← name, Eval.ident_eq, Eval.ident_eq]
  refine .ok worlds (Nat.le_refl _) ?_
  generalize w.store.get x.name i = left, z.store.get x.name (L.place i) = right at found ⊢
  cases found with
  | some value => exact value
  | none =>
    cases Builtin.ofName? x.name with
    | some b => exact .builtin b
    | none => exact .fail _

theorem bindAll_like (sound : L.Sound) (stores : L.Stores S) {n o : Node} (same : L.nodes n o)
    (i : FrameId) {ps qs : List Ident} (names : ps.map Ident.name = qs.map Ident.name)
    (said : ∀ x ∈ ps.map Ident.name, x ∈ n.names) {args others : List Value}
    (values : List.Forall₂ (L.Alike k) args others) :
    L.Runs S before (fun _ _ _ => True) k (Eval.bindAll i ps args)
      (Eval.bindAll (L.place i) qs others) := by
  induction ps generalizing k qs args others with
  | nil =>
    obtain rfl := List.map_eq_nil_iff.mp names.symm
    exact Run.like_pure fun _ _ => trivial
  | cons p ps ih =>
    obtain ⟨q, qs, rfl, name, rest⟩ := List.map_eq_cons_iff.mp names.symm
    obtain ⟨here, later⟩ := List.forall_mem_cons.mp said
    cases values with
    | nil => exact Run.like_pure fun _ _ => trivial
    | cons value values =>
      rw [Eval.bindAll, Eval.bindAll, name]
      apply (like_assign sound stores same here i value).bind
      intro l le _ _ _
      exact ih rest.symm later (values.imp fun _ _ h => h.mono le)

theorem callFrame_like (sound : L.Sound) (stores : L.Stores S) {t u : Token} {ps qs : List Ident}
    {b c : Block} (same : L.nodes (.expr (.fn t ps b)) (.expr (.fn u qs c)))
    (names : ps.map Ident.name = qs.map Ident.name) {home : FrameId} (known : L.Known k home)
    {args others : List Value} (values : List.Forall₂ (L.Alike k) args others) :
    L.Runs S before (fun l i j => L.Known l i ∧ j = L.place i) k (Eval.callFrame ps home args)
      (Eval.callFrame qs (L.place home) others) := by
  apply (like_newFrame stores known).bind
  rintro l le i _ ⟨here, rfl⟩
  have lifted := values.imp fun _ _ (h : L.Alike k _ _) => h.mono le
  apply (bindAll_like sound stores same i names (fun _ => id) lifted).bind
  exact fun m more _ _ _ => Run.like_pure fun _ later => ⟨here.mono (Nat.le_trans more later), rfl⟩

theorem builtin_like (sound : L.Sound) (b : Builtin) {args others : List Value}
    (values : List.Forall₂ (L.Alike k) args others) :
    L.Answers S before k (b.apply args) (b.apply others) := by
  unfold Builtin.apply
  rw [printed_eq sound b values]
  apply (like_write _).bind
  exact fun l le _ _ _ => like_value ((result_alike b values).mono le)

theorem apply_like (sound : L.Sound) (stores : L.Stores S) (parts : L.Evaluators S before rec sec)
    {f g : Value} (callee : L.Alike k f g) {args others : List Value}
    (values : List.Forall₂ (L.Alike k) args others) :
    L.Answers S before k (Eval.apply rec f args) (Eval.apply sec g others) := by
  cases callee with
  | @fn t u ps qs b c home same known =>
    cases sound.form same with
    | fn names body =>
      have count : ps.length = qs.length := by simpa using congrArg List.length names
      rw [Eval.apply, Eval.apply, ← values.length_eq, ← count]
      split
      · apply (callFrame_like sound stores same names known values).bind
        rintro l _ i _ ⟨here, rfl⟩
        apply (parts _ _ i l body here).bind
        exact fun m _ v u value => like_value value.landed
      · exact like_fail _
  | builtin b => exact builtin_like sound b values
  | int | bool | str | null | brk | err | ret | array | hash => exact like_fail _

theorem loop_like (parts : L.Evaluators S before rec sec) {b c : Block}
    (body : L.nodes (.block b) (.block c)) (known : L.Known k i) (rounds : Nat) :
    L.Answers S before k (Eval.loop rec b i rounds) (Eval.loop sec c (L.place i) rounds) := by
  induction rounds generalizing k with
  | zero => exact Run.like_halt _
  | succ rounds ih =>
    apply (parts _ _ i k body known).bind
    intro l le v u value
    cases value with
    | brk => exact like_value .null
    | ret value => exact like_value (.ret value)
    | err m => exact like_value (.err m)
    | int | bool | str | null | builtin | array | hash | fn => exact ih (known.mono le)

theorem block_like (parts : L.Evaluators S before rec sec) {ss ts : List Stmt}
    (h : List.Forall₂ (fun s t => L.nodes (.stmt s) (.stmt t)) ss ts) (known : L.Known k i)
    {v u : Value} (last : L.Alike k v u) :
    L.Answers S before k (Eval.block rec i v ss) (Eval.block sec (L.place i) u ts) := by
  induction h generalizing k v u with
  | nil => exact like_value last
  | cons same rest ih =>
    apply like_onData (parts _ _ i k same known)
    exact fun l le v u value => ih (known.mono le) value

theorem cond_like (parts : L.Evaluators S before rec sec) {c d : Expr} {b a : Block}
    {y z : Option Block} (condition : L.nodes (.expr c) (.expr d))
    (consequence : L.nodes (.block b) (.block a))
    (alternative : Option.Rel (fun y z => L.nodes (.block y) (.block z)) y z)
    (known : L.Known k i) :
    L.Answers S before k (Eval.cond rec i c b y) (Eval.cond sec (L.place i) d a z) := by
  apply like_onData (parts _ _ i k condition known)
  intro l le v u value
  rw [value.holds]
  split
  · exact parts _ _ i l consequence (known.mono le)
  · cases alternative with
    | some alternative => exact parts _ _ i l alternative (known.mono le)
    | none => exact like_value .null

theorem expr_like (sound : L.Sound) (stores : L.Stores S) (parts : L.Evaluators S before rec sec)
    (rounds : Nat) {e d : Expr} (same : L.nodes (.expr e) (.expr d)) (known : L.Known k i) :
    L.Answers S before k (Eval.expr rounds rec i e) (Eval.expr rounds sec (L.place i) d) := by
  cases sound.form same with
  | ident name => exact ident_like stores same name i
  | @int n m value =>
    rw [Eval.expr, Eval.expr, value]
    exact like_value (.int _)
  | @str r s value =>
    rw [Eval.expr, Eval.expr, value]
    exact like_value (.str _)
  | bool => exact like_value (.bool _)
  | array elements =>
    exact onAll_like parts elements known fun l _ vs us values => like_value (.ofArray values)
  | hash pairs => exact pairs_like parts pairs known .nil
  | unary right =>
    apply like_onData (parts _ _ i k right known)
    exact fun l _ v u value => like_value (Operator.unary_alike _ value)
  | binary left right =>
    apply like_onData (parts _ _ i k left known)
    intro l le v u first
    apply like_onData (parts _ _ i l right (known.mono le))
    exact fun m more w x second => like_value (Operator.binary_alike _ (first.mono more) second)
  | cond condition consequence alternative =>
    exact cond_like parts condition consequence alternative known
  | fn => exact like_value (.fn same known)
  | call callee arguments =>
    apply like_onData (parts _ _ i k callee known)
    intro l le f g alike
    apply onAll_like parts arguments (known.mono le)
    exact fun m more vs us values => apply_like sound stores parts (alike.mono more) values
  | index left index =>
    apply like_onData (parts _ _ i k left known)
    intro l le v u first
    apply like_onData (parts _ _ i l index (known.mono le))
    exact fun m more w x second => like_value (element_alike (first.mono more) second)
  | loop body => exact loop_like parts body known rounds
  | strayExpr => exact like_fail _

theorem module?_like (imports : L.Imports) (host : Host) (name : String) :
    L.Runs S before (fun _ a b => a = b) k (Run.module? host name) (Run.module? host name) := by
  apply (like_loading imports).bind
  rintro l _ files _ rfl
  exact Run.like_ofExcept _

theorem loadModule_like (imports : L.Imports) {evaluate other : Program → Run Value}
    (programs : ∀ l, k ≤ l → ∀ p, L.Answers S before l (evaluate p) (other p)) (host : Host)
    (name : String) :
    L.Answers S before k (Run.loadModule host evaluate name) (Run.loadModule host other name) := by
  apply (module?_like imports host name).bind
  rintro l le found _ rfl
  cases found with
  | none => exact like_fail _
  | some path =>
    apply (like_loading imports).bind
    rintro m more files _ rfl
    split
    · exact like_fail _
    · apply (like_note _).bind
      intro p later _ _ _
      split
      · exact like_fail _
      · exact Run.like_halt _
      · apply (like_parse _).bind
        rintro q last parsed _ rfl
        split
        · have upTo : k ≤ q := Nat.le_trans le (Nat.le_trans more (Nat.le_trans later last))
          exact like_whileLoading path (programs q upTo parsed.program)
        · exact like_fail _

theorem load_like (sound : L.Sound) (imports : L.Imports) (parts : L.Evaluators S before rec sec)
    (known : L.Known k i) (host : Host) (name : String) :
    L.Answers S before k (Eval.load host rec i name) (Eval.load host sec (L.place i) name) := by
  have loaded := loadModule_like imports
    (fun l le p => parts _ _ i l (sound.programs imports p) (known.mono le)) host name
  apply loaded.bind
  intro l _ v u value
  rw [value.isError]
  split
  · exact like_value value
  · exact like_value .null

theorem exit_like (code : Int) : L.Answers S before k (Eval.exit code) (Eval.exit code) :=
  (like_note _).bind fun _ _ _ _ _ => Run.like_halt _

theorem stmt_like (sound : L.Sound) (stores : L.Stores S) (parts : L.Evaluators S before rec sec)
    (host : Host) {s t : Stmt} (same : L.nodes (.stmt s) (.stmt t)) (known : L.Known k i) :
    L.Answers S before k (Eval.stmt host rec i s) (Eval.stmt host sec (L.place i) t) := by
  cases sound.form same with
  | @bind t u x y e d name value =>
    apply like_onData (parts _ _ i k value known)
    intro l _ v u alike
    rw [← name]
    apply (like_assign sound stores same (List.mem_singleton_self _) i alike).bind
    exact fun _ _ _ _ _ => like_value .null
  | returns value =>
    apply like_onData (parts _ _ i k value known)
    exact fun l _ v u alike => like_value (.ret alike)
  | simple value => exact parts _ _ i k value known
  | braces statements => exact block_like parts statements known .null
  | load path =>
    rw [Eval.stmt, Eval.stmt, path]
    exact load_like sound ⟨_, _, _, _, same⟩ parts known host _
  | exit code =>
    rw [Eval.stmt, Eval.stmt, code]
    exact exit_like _
  | brk => exact like_value .brk
  | strayStmt => exact like_fail _

theorem evalStep_like (sound : L.Sound) (stores : L.Stores S)
    (parts : L.Evaluators S before rec sec) (cx : Context) {n o : Node} (same : L.nodes n o)
    (known : L.Known k i) :
    L.Answers S before k (evalStep cx rec n i) (evalStep cx sec o (L.place i)) := by
  cases n with
  | program p =>
    cases sound.form same with
    | program statements =>
      apply (block_like parts statements known .null).bind
      exact fun l _ v u value => like_value value.landed
  | block b =>
    cases sound.form same with
    | block statements => exact block_like parts statements known .null
  | stmt s =>
    cases o with
    | stmt t => exact stmt_like sound stores parts cx.host same known
    | program | block | expr => cases sound.form same
  | expr e =>
    cases o with
    | expr d => exact expr_like sound stores parts cx.rounds same known
    | program | block | stmt => cases sound.form same

end

theorem eval_like (sound : L.Sound) (stores : L.Stores S) (cx : Context) (depth : Nat) :
    L.Evaluators S before (eval cx depth) (eval cx depth) := by
  induction depth with
  | zero => exact fun _ _ _ _ _ _ => Run.like_halt _
  | succ depth ih => exact fun _ _ _ _ same known => evalStep_like sound stores ih cx same known

theorem program_like (text : String) :
    L.Runs S before (fun _ p q => p = q) k (Machine.program text) (Machine.program text) := by
  apply (like_parse text).bind
  rintro l _ parsed _ rfl
  split
  · exact Run.like_pure fun _ _ => rfl
  · exact Run.like_halt _

theorem evalText_like (sound : L.Sound) (stores : L.Stores S) (m : Machine) (text : String)
    {i : FrameId} (known : L.Known k i) (programs : ∀ p, L.nodes (.program p) (.program p)) :
    L.Answers S before k (m.evalText i text) (m.evalText (L.place i) text) := by
  apply (program_like text).bind
  rintro l le p _ rfl
  exact eval_like sound stores m.context m.depth _ _ i l (programs p) (known.mono le)

end Likeness
end TernLang
