import TernLang.Proofs.Eval.Places

/-!
Limits. How deep nodes may nest and how often a loop may go round decide only whether a run is cut
short. A run that is not goes the same way under higher limits, and what one that is has written is
the beginning of what is written then.
-/
namespace TernLang

namespace Run
variable {α β : Type} {stops : Halt → Prop} {r s : Run α}

/-- The first end comes too early on the way to the second. -/
structure CutShort (stops : Halt → Prop) (e f : Except Halt α × World) : Prop where
  halt : ∃ h, e.1 = .error h ∧ stops h
  output : ∃ more, f.2.output = e.2.output ++ more

/-- The first run goes the way of the second to its end, or is cut short on it. -/
structure Follows (stops : Halt → Prop) (r s : Run α) : Prop where
  bare : s.Bare
  ends : ∀ w, r w = s w ∨ CutShort stops (r w) (s w)

theorem follows_refl (bare : r.Bare) : Follows stops r r where
  bare := bare
  ends _ := .inl rfl

theorem follows_halt {h : Halt} (stop : stops h) (bare : s.Bare) : Follows stops (halt h) s where
  bare := bare
  ends w := .inr ⟨⟨h, rfl, stop⟩, bare.output w⟩

theorem output_bind {f : α → Run β} (next : ∀ a, (f a).Bare) (w : World) :
    ∃ more, ((r >>= f) w).2.output = (r w).2.output ++ more := by
  rcases run : r w with ⟨h | a, x⟩
  · rw [bind_error run]
    exact ⟨"", String.append_empty.symm⟩
  · rw [bind_ok run]
    exact (next a).output x

theorem Follows.bind {f g : α → Run β} (first : Follows stops r s)
    (next : ∀ a, Follows stops (f a) (g a)) : Follows stops (r >>= f) (s >>= g) where
  bare := first.bare.bind fun a => (next a).bare
  ends w := by
    rcases first.ends w with same | ⟨⟨h, halted, stop⟩, more, written⟩
    · rcases run : r w with ⟨h | a, x⟩
      · rw [run] at same
        rw [bind_error run, bind_error same.symm]
        exact .inl rfl
      · rw [run] at same
        rw [bind_ok run, bind_ok same.symm]
        exact (next a).ends x
    · -- Nothing follows in the first run; what follows in the second only adds to its output.
      obtain ⟨rest, after⟩ := output_bind (r := s) (fun a => (next a).bare) w
      rw [bind_error (Prod.ext halted rfl)]
      rw [written, String.append_assoc] at after
      exact .inr ⟨⟨h, rfl, stop⟩, more ++ rest, after⟩

theorem Follows.whileLoading (p : Path) (h : Follows stops r s) :
    Follows stops (whileLoading p r) (whileLoading p s) where
  bare := h.bare.whileLoading p
  ends w := by
    rcases h.ends { w with loading := p :: w.loading } with same | ⟨halt, output⟩
    · exact .inl (by simp only [Run.whileLoading, same])
    · exact .inr ⟨halt, output⟩

end Run

open Run

section
variable {stops : Halt → Prop}

theorem respected_follows (stops : Halt → Prop) :
    Respected fun α (r s : Run α) => Follows stops r s where
  pure a := follows_refl (bare_pure a)
  bind := Follows.bind
  lift := follows_refl
  answer v := follows_refl (bare_pure v)

theorem loop_follows {rec sec : Evaluator} (parts : ∀ node i, Follows stops (rec node i) (sec node i))
    {rounds longer : Nat} (long : rounds ≤ longer) (unfinished : rounds < longer → stops .unfinished)
    (b : Block) (i : FrameId) :
    Follows stops (Eval.loop rec b i rounds) (Eval.loop sec b i longer) := by
  apply (respected_follows stops).loops parts b long
  have bare := loop_bare (fun node i => (parts node i).bare) b i (longer - rounds)
  by_cases less : rounds < longer
  · exact follows_halt (unfinished less) bare
  · have same : longer - rounds = 0 := by omega
    rw [same] at bare ⊢
    exact follows_refl (bare_halt _)

theorem eval_follows (stops : Halt → Prop) (host : Host) {depth deeper rounds longer : Nat} (deep : depth ≤ deeper)
    (long : rounds ≤ longer) (tooDeep : depth < deeper → stops .tooDeep)
    (unfinished : rounds < longer → stops .unfinished) (node : Node) (i : FrameId) :
    Follows stops (eval ⟨host, rounds⟩ depth node i) (eval ⟨host, longer⟩ deeper node i) := by
  -- On the lower limit: where it is used up, the other run may go on, and all that is left to know
  -- of that one is that it takes back nothing.
  induction depth generalizing deeper node i with
  | zero =>
    by_cases less : 0 < deeper
    · exact follows_halt (tooDeep less) (eval_bare _ _ node i)
    · obtain rfl : deeper = 0 := by omega
      exact follows_refl (bare_halt _)
  | succ depth ih =>
    obtain ⟨deeper, rfl⟩ : ∃ n, deeper = n + 1 := Nat.exists_eq_add_one.mpr (by omega)
    have parts := ih (Nat.le_of_succ_le_succ deep) fun less => tooDeep (Nat.succ_lt_succ less)
    have respected := respected_follows stops
    change Follows stops (evalStep _ (eval _ depth) node i) (evalStep _ (eval _ deeper) node i)
    apply respected.evalStep parts
    · exact loop_follows parts long unfinished
    · intro name i
      apply respected.loadModule
      · exact fun p _ _ same => same.whileLoading p
      · exact fun p => parts (.program p) i

end

section
variable {host : Host} {depth deeper rounds longer : Nat}

theorem eval_deeper (deep : depth ≤ deeper) (rounds : Nat) (node : Node) (i : FrameId) :
    Follows (Eq .tooDeep) (eval ⟨host, rounds⟩ depth node i) (eval ⟨host, rounds⟩ deeper node i) :=
  eval_follows _ host deep (Nat.le_refl _) (fun _ => rfl)
    (fun less => absurd less (Nat.lt_irrefl _)) node i

theorem eval_longer (long : rounds ≤ longer) (depth : Nat) (node : Node) (i : FrameId) :
    Follows (Eq .unfinished) (eval ⟨host, rounds⟩ depth node i)
      (eval ⟨host, longer⟩ depth node i) :=
  eval_follows _ host (Nat.le_refl _) long (fun less => absurd less (Nat.lt_irrefl _))
    (fun _ => rfl) node i

end

/-- Evaluation with nodes nested so deep at most ends so: after enough rounds of each loop. -/
structure Host.Ends (host : Host) (depth : Nat) (node : Node) (i : FrameId) (w : World)
    (e : Except Halt Value × World) : Prop where
  finished : e.1 ≠ .error .unfinished
  reached : ∃ rounds, eval ⟨host, rounds⟩ depth node i w = e

namespace Host.Ends
variable {host : Host} {depth deeper : Nat} {node : Node} {i : FrameId} {w : World}
  {e f : Except Halt Value × World}

theorem from_some (h : host.Ends depth node i w e) :
    ∃ rounds, ∀ longer, rounds ≤ longer → eval ⟨host, longer⟩ depth node i w = e := by
  obtain ⟨finished, rounds, reached⟩ := h
  exists rounds
  intro longer long
  rcases (eval_longer long depth node i).ends w with same | cut
  · exact same.symm.trans reached
  · obtain ⟨h, halted, rfl⟩ := cut.halt
    rw [reached] at halted
    exact absurd halted finished

theorem together (h : host.Ends depth node i w e) (other : host.Ends deeper node i w f) :
    ∃ rounds, eval ⟨host, rounds⟩ depth node i w = e ∧ eval ⟨host, rounds⟩ deeper node i w = f := by
  obtain ⟨some, reached⟩ := h.from_some
  obtain ⟨others, ended⟩ := other.from_some
  exists max some others
  exact ⟨reached _ (Nat.le_max_left _ _), ended _ (Nat.le_max_right _ _)⟩

theorem unique (h : host.Ends depth node i w e) (other : host.Ends depth node i w f) : e = f := by
  obtain ⟨rounds, reached, ended⟩ := h.together other
  exact reached.symm.trans ended

theorem in_deeper (h : host.Ends depth node i w e) (deep : depth ≤ deeper)
    (short : e.1 ≠ .error .tooDeep) : host.Ends deeper node i w e := by
  obtain ⟨finished, rounds, reached⟩ := h
  rcases (eval_deeper deep rounds node i).ends w with same | cut
  · exact ⟨finished, rounds, same.symm.trans reached⟩
  · obtain ⟨h, halted, rfl⟩ := cut.halt
    rw [reached] at halted
    exact absurd halted short

theorem written_first (h : host.Ends depth node i w e) (deep : depth ≤ deeper)
    (other : host.Ends deeper node i w f) : ∃ more, f.2.output = e.2.output ++ more := by
  obtain ⟨rounds, rfl, rfl⟩ := h.together other
  rcases (eval_deeper deep rounds node i).ends w with same | cut
  · rw [same]
    exact ⟨"", String.append_empty.symm⟩
  · exact cut.output

end Host.Ends

/-- The limit of the nesting decides only whether a run fails. A run that ends within it ends the
same way, in the same world, within every higher limit; what one that fails has written is where
the output of every run begins that ends within a higher limit. -/
theorem limit_only_cuts_short (host : Host) {depth deeper : Nat} (deep : depth ≤ deeper)
    (node : Node) (i : FrameId) (w : World) (e : Except Halt Value × World)
    (ended : host.Ends depth node i w e) :
    (e.1 ≠ .error .tooDeep → ∀ f, host.Ends deeper node i w f ↔ f = e) ∧
      (e.1 = .error .tooDeep → ∀ f, host.Ends deeper node i w f →
        ∃ more, f.2.output = e.2.output ++ more) := by
  constructor
  · intro short f
    have same := ended.in_deeper deep short
    constructor
    · exact fun other => other.unique same
    · rintro rfl
      exact same
  · exact fun _ f other => ended.written_first deep other

def nestedProgram : Program :=
  let bang : Token := .symbol .bang
  ⟨[.expr ⟨.ident, "puts"⟩ (.call (.symbol .lparen) (.ident ⟨⟨.ident, "puts"⟩, "puts"⟩)
      [.str ⟨⟨.string, "a"⟩, "a"⟩]),
    .expr bang (.unary bang "!" (.unary bang "!" (.unary bang "!"
      (.bool ⟨.trueWord, "true"⟩ true))))]⟩

def nestedEnd (depth : Nat) : Except Halt Value × World :=
  eval ⟨default, 1⟩ depth (.program nestedProgram) globalFrame World.start

theorem limit_only_cuts_short_nested :
    (nestedEnd 4).1 = .error .tooDeep ∧ (nestedEnd 4).2.output = "a\n" ∧
      (nestedEnd 6).1 = .ok (.bool false) ∧
      (∃ more, (nestedEnd 6).2.output = (nestedEnd 4).2.output ++ more) ∧
      ∀ f, Host.Ends default 9 (.program nestedProgram) globalFrame World.start f ↔
        f = nestedEnd 6 := by
  have short : (nestedEnd 4).1 = .error .tooDeep := by with_unfolding_all rfl
  have whole : (nestedEnd 6).1 = .ok (.bool false) := by with_unfolding_all rfl
  have fails : Host.Ends default 4 (.program nestedProgram) globalFrame World.start (nestedEnd 4) :=
    ⟨by rw [short]; nofun, 1, rfl⟩
  have ends : Host.Ends default 6 (.program nestedProgram) globalFrame World.start (nestedEnd 6) :=
    ⟨by rw [whole]; nofun, 1, rfl⟩
  refine ⟨short, by decide +kernel, whole, ?_, ?_⟩
  · exact (limit_only_cuts_short default (by decide) _ _ _ _ fails).2 short _ ends
  · exact (limit_only_cuts_short default (by decide) _ _ _ _ ends).1 (by rw [whole]; nofun)

end TernLang
