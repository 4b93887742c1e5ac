import TernLang.Proofs.Eval.Loading
import TernLang.Proofs.Eval.Mirroring

/-!
Calls repeat. A call changes no frame that was there and leaves the files that are being loaded as
they are, so the world after it is the world before it with more frames and more output. The same
call from there goes the same way.
-/
namespace TernLang

/-- The places of frames after a second run, if the first made the frames that it made: frames that
were there at the start stand still, and each other is so many places further on. -/
def Run.renaming (r : Run Value) (w : World) : Likeness :=
  .again w.store.next ((r w).2.store.next - w.store.next)

/-- Two runs one after the other write the same and end the same way: they halt for the same reason,
or the second answer is the first with other frames, so that it has its type and its text. The
frames of the second run are those of the first in other places. -/
structure Run.Repeats (r : Run Value) (w : World) : Prop where
  output : ∃ written, (r w).2.output = w.output ++ written ∧
    (r (r w).2).2.output = (r w).2.output ++ written
  halt : ∀ h, (r w).1 = .error h ↔ (r (r w).2).1 = .error h
  answer : ∀ v, (r w).1 = .ok v → ∃ u, (r (r w).2).1 = .ok u ∧
    (r.renaming w).Alike (r w).2.store.next v u ∧ u.tag = v.tag ∧ u.text = v.text
  frames : (r.renaming w).Frames (r w).2.store (r (r w).2).2.store

theorem Run.repeats_of_ends {r : Run Value} {w : World} {k : FrameId}
    (h : Run.Ends ((r.renaming w).Worlds (r.renaming w).Frames (w.output, (r w).2.output))
      (r.renaming w).Alike k (r w) (r (r w).2)) : r.Repeats w where
  output := h.worlds.output
  halt := h.halt
  answer v answered := by
    obtain ⟨u, again, alike⟩ := h.answer answered
    exact ⟨u, again, alike, alike.tag, (alike.text (Likeness.again_sound _ _)).symm⟩
  frames := h.worlds.store

namespace Machine
variable (m : Machine) {w : World} {f : Value} {args : List Value}

theorem apply_worlds (closed : w.store.Closed) (f : Value) (args : List Value) :
    ((m.apply f args).renaming w).Worlds ((m.apply f args).renaming w).Frames
      (w.output, (m.apply f args w).2.output) w (m.apply f args w).2 where
  store := by
    have confined := eval_confined m.context m.depth
    have added := (Eval.apply_adds confined w.store f args).store (.refl w.store)
    apply Likeness.frames_of_extends closed (fun _ => rfl) rfl added
    exact (Nat.add_sub_of_le added.grows).symm
  output := ⟨"", String.append_empty.symm, String.append_empty.symm⟩
  loading _ := (apply_bare (eval_bare m.context m.depth) f args).loading w

end Machine

/-- In a store where references are to frames that are there, a call to anything can be repeated:
the same call right after it, whether the first has answered, halted, gone round too often or nested
too deep, does the same again. -/
theorem call_repeats (m : Machine) (w : World) (closed : w.store.Closed) (f : Value)
    (args : List Value) (callee : f.Closed w.store.next)
    (values : ∀ v ∈ args, v.Closed w.store.next) : (m.apply f args).Repeats w := by
  have same : ∀ v : Value, v.Closed w.store.next →
      ((m.apply f args).renaming w).Alike w.store.next v v :=
    fun v known => .refl known (fun _ => rfl) (Nat.le_refl _)
  have sound : ((m.apply f args).renaming w).Sound := Likeness.again_sound _ _
  have stores := Likeness.stores_frames ((m.apply f args).renaming w)
  have ended := Likeness.apply_like sound stores
    (Likeness.eval_like sound stores m.context m.depth) (same f callee)
    (List.forall₂_same.mpr fun v member => same v (values v member)) w _
    (m.apply_worlds closed f args) (Nat.le_refl _)
  exact Run.repeats_of_ends ended

theorem call_repeats_closure :
    World.start.store.Closed ∧
      ((Machine.ofHost default 5000).apply (.fn [] (.mk ⟨.lbrace, "\x7b"⟩
        [.expr ⟨.fnWord, "fn"⟩ (.fn ⟨.fnWord, "fn"⟩ [] (.mk ⟨.lbrace, "\x7b"⟩ []))]) globalFrame)
        []).Repeats World.start := by
  have there : globalFrame < World.start.store.next := by decide
  refine ⟨start_closed, ?_⟩
  apply call_repeats
  · exact start_closed
  · exact .fn _ _ there
  · exact fun v member => nomatch member

end TernLang
