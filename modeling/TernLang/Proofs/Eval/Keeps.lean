import TernLang.Machine
import TernLang.Proofs.Files.Walking

/-!
Invariants of runs. A run keeps a property of the bindings if it leaves them with it however it
ends, and then its answer and its halt can be said to have properties of their own. There is one
rule for each way of building runs and, given the evaluator of the parts, one for each construct
that evaluates several parts.
-/
namespace TernLang

def Halt.IsTypeError : Halt → Prop
  | .controlBound _ _ | .unkeyable _ => True
  | _ => False

namespace Host
variable {host : Host} {h : Halt}

theorem module?_error {importer : Option Path} {name : String}
    (found : host.module? importer name = .error h) : ¬ h.IsTypeError := by
  cases module?_eq_error_iff.mp found with
  | empty | long => exact id

theorem readText_error {p : Path} (found : host.readText p = .error h) : ¬ h.IsTypeError := by
  rcases readText_eq_error_iff.mp found with ⟨rfl, -⟩ | ⟨-, ⟨why, rfl, -⟩ | ⟨rfl, -⟩⟩
  all_goals exact id

end Host

namespace Run
variable {α β : Type} {I : Store → Prop} {P R : α → Prop} {Q : β → Prop} {B : Halt → Prop}

/-- Started with the invariant, the run leaves it however it ends. -/
structure Keeps (I : Store → Prop) (P : α → Prop) (B : Halt → Prop) (r : Run α) : Prop where
  ok : ∀ {w x a}, I w.store → r w = (.ok a, x) → I x.store ∧ P a
  error : ∀ {w x h}, I w.store → r w = (.error h, x) → I x.store ∧ B h

theorem Keeps.store {r : Run α} (h : r.Keeps I P B) {w : World} (holds : I w.store) :
    I (r w).2.store := by
  cases run : r w with
  | mk answer x =>
    cases answer with
    | ok a => exact (h.ok holds run).1
    | error e => exact (h.error holds run).1

theorem keeps_of_store {r : Run α} (same : ∀ w, (r w).2.store = w.store)
    (ok : ∀ w a, I w.store → (r w).1 = .ok a → P a)
    (bad : ∀ w h, I w.store → (r w).1 = .error h → B h) : r.Keeps I P B where
  ok {w x a} holds run := by
    have kept := same w
    rw [run] at kept
    exact ⟨kept.symm ▸ holds, ok w a holds (by rw [run])⟩
  error {w x h} holds run := by
    have kept := same w
    rw [run] at kept
    exact ⟨kept.symm ▸ holds, bad w h holds (by rw [run])⟩

theorem keeps_pure {a : α} (h : P a) : Keeps I P B (pure a) := by
  apply keeps_of_store
  · exact fun _ => rfl
  · intro _ _ _ same
    cases same
    exact h
  · intro _ _ _ same
    cases same

theorem keeps_ofExcept {e : Except Halt α} (ok : ∀ a, e = .ok a → P a)
    (bad : ∀ h, e = .error h → B h) : Keeps I P B (ofExcept e) := by
  apply keeps_of_store
  · exact fun _ => rfl
  · exact fun _ a _ same => ok a same
  · exact fun _ h _ same => bad h same

theorem keeps_halt {h : Halt} (bad : B h) : Keeps I P B (halt h) := by
  apply keeps_of_store
  · exact fun _ => rfl
  · intro _ _ _ same
    cases same
  · intro _ _ _ same
    cases same
    exact bad

theorem Keeps.bind {r : Run α} {f : α → Run β} (first : r.Keeps I P B)
    (next : ∀ a, P a → (f a).Keeps I Q B) : (r >>= f).Keeps I Q B where
  ok {w x b} holds run := by
    cases here : r w with
    | mk answer y =>
      cases answer with
      | ok a =>
        rw [bind_ok here] at run
        obtain ⟨kept, known⟩ := first.ok holds here
        exact (next a known).ok kept run
      | error e =>
        rw [bind_error here] at run
        cases run
  error {w x e} holds run := by
    cases here : r w with
    | mk answer y =>
      cases answer with
      | ok a =>
        rw [bind_ok here] at run
        obtain ⟨kept, known⟩ := first.ok holds here
        exact (next a known).error kept run
      | error e =>
        rw [bind_error here] at run
        cases run
        exact first.error holds here

theorem Keeps.mono {r : Run α} {C : Halt → Prop} (h : r.Keeps I P B) (weaker : ∀ a, P a → R a)
    (worse : ∀ e, B e → C e) : r.Keeps I R C where
  ok holds run := ⟨(h.ok holds run).1, weaker _ (h.ok holds run).2⟩
  error holds run := ⟨(h.error holds run).1, worse _ (h.error holds run).2⟩

theorem keeps_store : Keeps I I B store := by
  apply keeps_of_store
  · exact fun _ => rfl
  · intro w s holds same
    cases same
    exact holds
  · intro _ _ _ same
    cases same

theorem keeps_aside {r : Run α} (same : ∀ w, (r w).2.store = w.store)
    (answers : ∀ w, ∃ a, (r w).1 = .ok a) : Keeps I (fun _ => True) B r := by
  apply keeps_of_store same
  · exact fun _ _ _ _ => trivial
  · intro w h _ halted
    obtain ⟨a, answered⟩ := answers w
    rw [answered] at halted
    cases halted

theorem keeps_loading : Keeps I (fun _ => True) B loading :=
  keeps_aside (fun _ => rfl) fun _ => ⟨_, rfl⟩

theorem keeps_write (s : String) : Keeps I (fun _ => True) B (write s) :=
  keeps_aside (fun _ => rfl) fun _ => ⟨_, rfl⟩

theorem keeps_note (e : LogEvent) : Keeps I (fun _ => True) B (note e) :=
  keeps_aside (fun _ => rfl) fun _ => ⟨_, rfl⟩

theorem keeps_newFrame {outer : Option FrameId} (made : ∀ s, I s → I (s.newFrame outer)) :
    Keeps I (fun _ => True) B (newFrame outer) where
  ok holds run := by
    cases run
    exact ⟨made _ holds, trivial⟩
  error _ run := by cases run

theorem keeps_assign {i : FrameId} {name : String} {v : Value}
    (bound : v.isControl = false → ∀ s, I s → I (s.bind i name v))
    (refused : v.isControl = true → B (.controlBound v.describe name)) :
    Keeps I (fun _ => True) B (assign i name v) where
  ok {w x a} holds run := by
    unfold assign at run
    split at run
    · cases run
    · rename_i data
      cases run
      exact ⟨bound (by simpa using data) _ holds, trivial⟩
  error {w x h} holds run := by
    unfold assign at run
    split at run
    · rename_i control
      cases run
      exact ⟨holds, refused control⟩
    · cases run

theorem keeps_parse (text : String) : Keeps I (TernLang.parse text = ·) B (Run.parse text) := by
  unfold Run.parse
  by_cases clean : (TernLang.parse text).errors.isEmpty
  · simp only [clean, if_true]
    exact keeps_pure rfl
  · simp only [clean]
    exact (keeps_note _).bind fun _ _ => keeps_pure rfl

theorem keeps_whileLoading {r : Run α} {p : Path} (h : r.Keeps I P B) :
    (whileLoading p r).Keeps I P B where
  ok {w x a} holds run := by
    cases here : r { w with loading := p :: w.loading } with
    | mk answer y =>
      rw [whileLoading, here] at run
      cases run
      have kept := h.ok (w := { w with loading := p :: w.loading }) holds here
      exact kept
  error {w x e} holds run := by
    cases here : r { w with loading := p :: w.loading } with
    | mk answer y =>
      rw [whileLoading, here] at run
      cases run
      have kept := h.error (w := { w with loading := p :: w.loading }) holds here
      exact kept

theorem keeps_module? {host : Host} {name : String} (halts : ∀ h : Halt, ¬ h.IsTypeError → B h) :
    Keeps I (fun _ => True) B (Run.module? host name) := by
  unfold Run.module?
  apply keeps_loading.bind
  intro files _
  apply keeps_ofExcept
  · exact fun _ _ => trivial
  · exact fun h refused => halts h (Host.module?_error refused)

end Run

/-- What can be said of runs in a place, if it is said by a property of what they answer: it can be
said of runs in which nothing is evaluated, and of all that runs are put together from. -/
structure Rules {m : Type → Type} [Monad m] [MonadRun m] (I : Store → Prop) (B : Halt → Prop)
    (H : (α : Type) → (α → Prop) → m α → Prop) : Prop where
  pure {α : Type} {P : α → Prop} {a : α} (h : P a) : H α P (Pure.pure a)
  bind {α β : Type} {P : α → Prop} {Q : β → Prop} {r : m α} {f : α → m β} (first : H α P r)
    (next : ∀ a, P a → H β Q (f a)) : H β Q (r >>= f)
  lift {α : Type} {P : α → Prop} {r : Run α} (kept : r.Keeps I P B) : H α P (liftM r)
  whileLoading {P : Value → Prop} {r : m Value} (p : Path) (h : H Value P r) :
    H Value P (MonadRun.whileLoading p r)

namespace Rules
variable {m : Type → Type} [Monad m] [MonadRun m] {I : Store → Prop} {B : Halt → Prop}
  {H : (α : Type) → (α → Prop) → m α → Prop} {P Q : Value → Prop} {rec : EvaluatorIn m}
  {i : FrameId}

theorem onData (rules : Rules I B H) {r : m Value} {k : Value → m Value} (h : H _ P r)
    (control : ∀ v, P v → v.isControl = true → Q v)
    (data : ∀ v, P v → v.isControl = false → H _ Q (k v)) : H _ Q (TernLang.onData r k) := by
  apply rules.bind h
  intro v known
  cases kind : v.isControl with
  | true => exact rules.pure (control v known kind)
  | false => exact data v known kind

theorem all (rules : Rules I B H) {es : List Expr} (h : ∀ e ∈ es, H _ P (rec (.expr e) i)) :
    H _ (fun r => match r with
      | .ok vs => ∀ v ∈ vs, P v ∧ v.isControl = false
      | .error c => P c ∧ c.isControl = true) (Eval.all rec i es) := by
  induction es with
  | nil => exact rules.pure (by simp)
  | cons e es ih =>
    apply rules.bind (h e (by simp))
    intro v known
    cases kind : v.isControl with
    | true => exact rules.pure ⟨known, kind⟩
    | false =>
      apply rules.bind (ih fun e member => h e (by simp [member]))
      intro rest others
      cases rest with
      | ok vs =>
        apply rules.pure
        intro u member
        cases member with
        | head => exact ⟨known, kind⟩
        | tail _ later => exact others u later
      | error c => exact rules.pure others

theorem onAll (rules : Rules I B H) {es : List Expr} {k : List Value → m Value}
    (h : ∀ e ∈ es, H _ P (rec (.expr e) i)) (control : ∀ v, P v → v.isControl = true → Q v)
    (data : ∀ vs : List Value, (∀ v ∈ vs, P v ∧ v.isControl = false) → H _ Q (k vs)) :
    H _ Q (Eval.onAll rec i es k) := by
  apply rules.bind (rules.all h)
  intro r known
  cases r with
  | ok vs => exact data vs known
  | error c => exact rules.pure (control c known.1 known.2)

theorem loop (rules : Rules I B H) {body : Block} {rounds : Nat} (h : H _ P (rec (.block body) i))
    (halts : B .unfinished) (null : Q .null) (ret : ∀ v, P (.ret v) → Q (.ret v))
    (err : ∀ m, P (.err m) → Q (.err m)) : H _ Q (Eval.loop rec body i rounds) := by
  induction rounds with
  | zero => exact rules.lift (Run.keeps_halt halts)
  | succ n ih =>
    apply rules.bind h
    intro v known
    cases v with
    | brk => exact rules.pure null
    | ret v => exact rules.pure (ret v known)
    | err m => exact rules.pure (err m known)
    | int | bool | str | null | array | hash | fn | builtin => exact ih

theorem block (rules : Rules I B H) {ss : List Stmt} {last : Value} (start : P last)
    (h : ∀ s ∈ ss, H _ P (rec (.stmt s) i)) : H _ P (Eval.block rec i last ss) := by
  induction ss generalizing last with
  | nil => exact rules.pure start
  | cons s ss ih =>
    apply rules.onData (h s (by simp))
    · exact fun v known _ => known
    · exact fun v known _ => ih known fun s member => h s (by simp [member])

theorem loadModule (rules : Rules I B H) {host : Host} {evaluate : Program → m Value}
    {name : String} (program : ∀ text, H _ P (evaluate (parse text).program))
    (fail : ∀ f, P (.fail f)) (halts : ∀ h : Halt, ¬ h.IsTypeError → B h) :
    H _ P (Run.loadModule host evaluate name) := by
  unfold Run.loadModule
  apply rules.bind (rules.lift (Run.keeps_module? halts))
  intro path _
  cases path with
  | none => exact rules.pure (fail _)
  | some path =>
    apply rules.bind (rules.lift Run.keeps_loading)
    intro files _
    split
    · exact rules.pure (fail _)
    · apply rules.bind (rules.lift (Run.keeps_note _))
      intro _ _
      split
      · exact rules.pure (fail _)
      · rename_i h _ refused
        exact rules.lift (Run.keeps_halt (halts h (Host.readText_error refused)))
      · rename_i text _
        apply rules.bind (rules.lift (Run.keeps_parse text))
        rintro parsed rfl
        split
        · exact rules.whileLoading path (program text)
        · exact rules.pure (fail _)

end Rules

theorem Run.keeps_rules (I : Store → Prop) (B : Halt → Prop) :
    Rules I B fun α P (r : Run α) => r.Keeps I P B where
  pure := keeps_pure
  bind := Keeps.bind
  lift kept := kept
  whileLoading _ := keeps_whileLoading

namespace Eval
variable {I : Store → Prop} {B : Halt → Prop}

theorem keeps_ident {Q : Value → Prop} {name : String} {i : FrameId}
    (bound : ∀ s v, I s → s.get name i = some v → Q v) (builtin : ∀ b, Q (.builtin b))
    (fail : ∀ f, Q (.fail f)) : (ident name i).Keeps I Q B := by
  unfold ident
  apply Run.keeps_store.bind
  intro s holds
  cases found : s.get name i with
  | some v => exact Run.keeps_pure (bound s v holds found)
  | none =>
    cases Builtin.ofName? name with
    | some b => exact Run.keeps_pure (builtin b)
    | none => exact Run.keeps_pure (fail _)

theorem keeps_bindAll {i : FrameId} {ps : List Ident} {args : List Value}
    (assign : ∀ v ∈ args, ∀ name, (Run.assign i name v).Keeps I (fun _ => True) B) :
    (bindAll i ps args).Keeps I (fun _ => True) B := by
  induction ps generalizing args with
  | nil => exact Run.keeps_pure trivial
  | cons p ps ih =>
    cases args with
    | nil => exact Run.keeps_pure trivial
    | cons v vs =>
      obtain ⟨first, others⟩ := List.forall_mem_cons.mp assign
      exact (first p.name).bind fun _ _ => ih others

theorem keeps_callFrame {ps : List Ident} {home : FrameId} {args : List Value}
    (frame : (Run.newFrame (some home)).Keeps I (fun _ => True) B)
    (assign : ∀ v ∈ args, ∀ i name, (Run.assign i name v).Keeps I (fun _ => True) B) :
    (callFrame ps home args).Keeps I (fun _ => True) B := by
  apply frame.bind
  intro i _
  apply (keeps_bindAll fun v member name => assign v member i name).bind
  exact fun _ _ => Run.keeps_pure trivial

end Eval
end TernLang
