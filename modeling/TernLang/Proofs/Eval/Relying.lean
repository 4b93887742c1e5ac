import TernLang.Proofs.Eval.Keeps
import TernLang.Proofs.Eval.Watching

/-!
Watched runs that rely on something. If all that is answered on the way can be relied on to have one
property, then at each moment what is answered has another and the bindings keep an invariant.
-/
namespace TernLang

def Moment.Answers (V : Value → Prop) (n : Moment) : Prop := ∀ v, n.event = .answers v → V v

/-- The bindings of the moment keep the invariant, and what is answered has the property. -/
structure Moment.Grants (I : Store → Prop) (V : Value → Prop) (n : Moment) : Prop where
  store : I n.world.store
  answer : n.Answers V

namespace Watched
variable {α β : Type} {I : Store → Prop} {S V : Value → Prop} {P : α → Prop} {Q : β → Prop}
  {w : World}

/-- From this world, each moment of the run, its end and its answer are as they should be. -/
structure Grants (I : Store → Prop) (V : Value → Prop) (P : α → Prop) (r : Watched α) (w : World) :
    Prop where
  moments : ∀ n ∈ (r w).1, n.Grants I V
  store : I (r w).2.2.store
  answer : ∀ a, (r w).2.1 = .ok a → P a

/-- The run is as it should be if its answers can be relied on. -/
def Relies (I : Store → Prop) (S V : Value → Prop) (α : Type) (P : α → Prop) (r : Watched α) :
    Prop :=
  ∀ w, I w.store → (∀ n ∈ (r w).1, n.Answers S) → r.Grants I V P w

theorem relies_pure {a : α} (h : P a) : Relies I S V α P (Pure.pure a) := by
  intro w holds _
  constructor
  · exact fun _ none => nomatch none
  · exact holds
  · intro b same
    cases same
    exact h

theorem Relies.bind {r : Watched α} {f : α → Watched β} (first : Relies I S V α P r)
    (next : ∀ a, P a → Relies I S V β Q (f a)) : Relies I S V β Q (r >>= f) := by
  intro w holds given
  rcases run : r w with ⟨ms, h | a, x⟩
  · rw [bind_error run] at given
    obtain ⟨moments, store, -⟩ := first w holds (by rw [run]; exact given)
    rw [run] at moments store
    constructor
    · rw [bind_error run]
      exact moments
    · rw [bind_error run]
      exact store
    · rw [bind_error run]
      exact nofun
  · rw [bind_ok run] at given
    obtain ⟨before, after⟩ := List.forall_mem_append.mp given
    obtain ⟨moments, store, answer⟩ := first w holds (by rw [run]; exact before)
    rw [run] at moments store answer
    have rest := next a (answer a rfl) x store after
    constructor
    · rw [bind_ok run]
      exact List.forall_mem_append.mpr ⟨moments, rest.moments⟩
    · rw [bind_ok run]
      exact rest.store
    · rw [bind_ok run]
      exact rest.answer

theorem Relies.mono {R : α → Prop} {r : Watched α} (h : Relies I S V α P r)
    (weaker : ∀ a, P a → R a) : Relies I S V α R r := by
  intro w holds given
  obtain ⟨moments, store, answer⟩ := h w holds given
  exact ⟨moments, store, fun a answered => weaker a (answer a answered)⟩

theorem relies_lift {r : Run α} (kept : r.Keeps I P fun _ => True) :
    Relies I S V α P (liftM r : Watched α) := by
  intro w holds _
  constructor
  · exact fun _ none => nomatch none
  · exact kept.store holds
  · exact fun a answered => (kept.ok (x := (r w).2) holds (Prod.ext answered rfl)).2

theorem Relies.whileLoading {r : Watched α} (p : Path) (h : Relies I S V α P r) :
    Relies I S V α P (MonadRun.whileLoading p r) := by
  intro w holds given
  obtain ⟨moments, store, answer⟩ := h { w with loading := p :: w.loading } holds given
  exact ⟨moments, store, answer⟩

theorem relies_rules (I : Store → Prop) (S V : Value → Prop) :
    Rules I (fun _ => True) (Relies I S V) where
  pure := relies_pure
  bind := Relies.bind
  lift := relies_lift
  whileLoading p h := h.whileLoading p

theorem relies_moment {e : Event} (h : ∀ v, e = .answers v → V v) :
    Relies I S V Unit (fun _ => ∀ v, e = .answers v → S v) (moment e) := by
  intro w holds given
  have here : ∀ v, e = .answers v → S v := given ⟨e, w⟩ (List.mem_singleton_self _)
  constructor
  · intro n member
    obtain rfl := List.mem_singleton.mp member
    exact ⟨holds, h⟩
  · exact holds
  · exact fun _ _ => here

theorem relies_answer {v : Value} (h : V v) :
    Relies I S V Value (fun u => V u ∧ S u) (answer v) := by
  apply (relies_moment (by rintro u ⟨⟩; exact h)).bind
  intro _ given
  exact relies_pure ⟨h, given v rfl⟩

end Watched

open Watched

theorem watch_relies {I : Store → Prop} {S V : Value → Prop} {written : Node → Prop} {cx : Context}
    (step : ∀ rec : EvaluatorIn Watched,
      (∀ node i, written node → Relies I S V Value (fun v => V v ∧ S v) (rec node i)) →
      ∀ node i, written node → Relies I S V Value V (evalStep cx rec node i))
    (depth : Nat) (node : Node) (i : FrameId) (here : written node) :
    Relies I S V Value (fun v => V v ∧ S v) (watch cx depth node i) := by
  -- What a part answers is known to be `V` from the level below, and to be `S` since all the
  -- moments of the run are relied on, those of the part among them.
  induction depth generalizing node i with
  | zero =>
    apply (relies_moment (e := .starts node i) nofun).bind
    exact fun _ _ => relies_lift (Run.keeps_halt trivial)
  | succ depth ih =>
    apply (relies_moment (e := .starts node i) nofun).bind
    intro _ _
    apply (step (watch cx depth) ih node i here).bind
    exact fun v known => relies_answer known

end TernLang
