import Brewin.Proofs.RunPrefix

namespace Brewin

/-- The same options with another limit on the steps. -/
def Options.limited (o : Options) (limit : Int) : Options :=
  { o with maxSteps := limit }

section

variable {p : Program} {o : Options} {st : State}

theorem exhausted_limited_iff {n : Nat} (hn : 0 < n) :
    st.exhausted (o.limited n) = true ↔ n ≤ st.steps := by
  unfold State.exhausted
  rw [decide_eq_true_iff]
  simp only [Options.limited]
  omega

/-- A step that its limit allows is the step that is made without a limit. -/
theorem step_limited {limit : Int} (h : st.exhausted (o.limited limit) = false) :
    st.step p (o.limited limit) = st.step p (o.limited 0) := by
  have hfree : st.exhausted (o.limited 0) = false := exhausted_of_nonpositive (Int.le_refl 0)
  simp only [State.step, h, hfree]
  rfl

theorem advance_of_nonpositive {limit : Int} (hl : limit ≤ 0) (k : Nat) :
    st.advance p (o.limited limit) k = st.advance p (o.limited 0) k := by
  induction k generalizing st with
  | zero => rfl
  | succ k ih => simp only [State.advance, step_limited (exhausted_of_nonpositive hl), ih]

/-- While there are steps left, the limit makes no difference. -/
theorem advance_limited {n k : Nat} (h : st.steps + k ≤ n) :
    st.advance p (o.limited n) k = st.advance p (o.limited 0) k := by
  induction k generalizing st with
  | zero => rfl
  | succ k ih =>
    have hallowed : st.exhausted (o.limited n) = false := by
      rw [← Bool.not_eq_true, exhausted_limited_iff (by omega)]
      omega
    have hstep := step_limited (p := p) hallowed
    have hsteps : (st.step p (o.limited 0)).state.steps = st.steps + 1 :=
      steps_step (exhausted_of_nonpositive (Int.le_refl 0))
    have hleft : (st.step p (o.limited 0)).state.steps + k ≤ n := by omega
    simp only [State.advance, hstep, ih hleft]

/-- The step behind the last one that the limit allows is forbidden. -/
theorem advance_cut {n fuel : Nat} (hs : st.steps = 0) (hn : 0 < n) (hf : n < fuel)
    (hr : (st.advance p (o.limited 0) n).signal = .running) :
    (st.advance p (o.limited n) fuel).state = (st.advance p (o.limited 0) n).state ∧
      (st.advance p (o.limited n) fuel).signal =
        .failed ⟨(st.advance p (o.limited 0) n).state.ip, .stepLimit n⟩ ∧
      (st.advance p (o.limited n) fuel).records = (st.advance p (o.limited 0) n).records := by
  have hsame : st.advance p (o.limited n) n = st.advance p (o.limited 0) n :=
    advance_limited (by omega)
  have hr' : (st.advance p (o.limited n) n).signal = .running := by rw [hsame, hr]
  obtain ⟨k, rfl⟩ : ∃ k, fuel = n + (k + 1) := ⟨fuel - n - 1, by omega⟩
  obtain ⟨hstate, hsignal, hrecords⟩ := advance_add hr' (k + 1)
  rw [hstate, hsignal, hrecords, hsame]
  have hsteps := steps_advance hr
  generalize (st.advance p (o.limited 0) n).state = last at hsteps ⊢
  have hlast : last.steps = n := by omega
  have hx : last.exhausted (o.limited n) = true := (exhausted_limited_iff hn).mpr (by omega)
  have hstep : last.step p (o.limited n) = last.fail (.stepLimit n) := by
    simp only [State.step, hx, hlast, ↓reduceIte]
  rw [advance_stopped (by rw [hstep]; simp [State.fail]), hstep]
  exact ⟨rfl, rfl, by simp [State.fail]⟩

/-- What a limited run has written when it stops is what the first steps of the unlimited run
write. -/
theorem written_limited {n fuel : Nat} (hs : st.steps = 0) (hn : 0 < n) (hf : n < fuel) :
    (st.advance p (o.limited n) fuel).state.console.written =
      (st.advance p (o.limited 0) n).state.console.written := by
  by_cases hr : (st.advance p (o.limited 0) n).signal = .running
  · rw [(advance_cut hs hn hf hr).1]
  · have hsame : st.advance p (o.limited n) n = st.advance p (o.limited 0) n :=
      advance_limited (by omega)
    have hr' : (st.advance p (o.limited n) n).signal ≠ .running := by rwa [hsame]
    rw [advance_of_stopped hr' (by omega), hsame]

end

theorem steps_start {p : Program} {console : Console} {st : State}
    (h : p.start console = .ok st) : st.steps = 0 := by
  unfold Program.start at h
  split at h
  next => cases h
  next =>
    cases h
    rfl

/-- The step limit only cuts a run off: a run that ends within the limit ends as it does without
one, any other stops behind as many steps as the limit allows, with what they have written. -/
theorem runFor_limited (p : Program) (o : Options) (console : Console) {n : Nat} (hn : 0 < n) :
    ((p.runFor (o.limited 0) console n).ending ≠ .unfinished → ∀ fuel fuel', n < fuel →
      n ≤ fuel' → p.runFor (o.limited n) console fuel = p.runFor (o.limited 0) console fuel') ∧
    ((p.runFor (o.limited 0) console n).ending = .unfinished →
      ∃ st, p.start console = .ok st ∧ ∀ fuel, n < fuel → ∃ fault,
        p.runFor (o.limited n) console fuel =
          { p.runFor (o.limited 0) console n with ending := .failed fault } ∧
        fault.line = (st.advance p (o.limited 0) n).state.ip ∧
        fault.kind.label = "RuntimeError" ∧
        fault.problem.message = "stopped after " ++ toString n ++ " steps" ∧
        fault.problem.cause?.map Cause.text = some "maximum steps exceeded") ∧
    (∀ fuel, n < fuel → (p.runFor (o.limited n) console fuel).ending ≠ .unfinished) ∧
    (∀ m fuel fuel', n ≤ m → n < fuel → m < fuel' → ∃ rest,
      (p.runFor (o.limited m) console fuel').console.written =
        (p.runFor (o.limited n) console fuel).console.written ++ rest) ∧
    ∀ limit : Int, limit ≤ 0 → ∀ fuel,
      p.runFor (o.limited limit) console fuel = p.runFor (o.limited 0) console fuel := by
  cases hstart : p.start console with
  | error fault =>
    have hrun : ∀ o fuel, p.runFor o console fuel = ⟨console, 0, #[], .failed fault⟩ := by
      intro o fuel
      simp only [Program.runFor, hstart]
    refine ⟨fun _ _ _ _ _ => by rw [hrun, hrun], fun h => ?_, fun fuel _ h => ?_,
      fun _ _ _ _ _ _ => ⟨"", by rw [hrun, hrun, String.append_empty]⟩,
      fun _ _ _ => by rw [hrun, hrun]⟩
    · rw [hrun] at h
      cases h
    · rw [hrun] at h
      cases h
  | ok st =>
    have hs := steps_start hstart
    have hrun : ∀ o fuel, p.runFor o console fuel = (st.advance p o fuel).run #[] := by
      intro o fuel
      simp only [Program.runFor, hstart, runFor_eq_advance]
    have hsame : st.advance p (o.limited n) n = st.advance p (o.limited 0) n :=
      advance_limited (by omega)
    simp only [hrun, ne_eq, ending_run, console_run]
    refine ⟨?_, ?_, ?_, ?_, ?_⟩
    · intro hstop fuel fuel' hf hf'
      rw [advance_of_stopped (by rwa [hsame]) (Nat.le_of_lt hf), hsame,
        advance_of_stopped hstop hf']
    · intro hr
      refine ⟨st, rfl, fun fuel hf => ?_⟩
      obtain ⟨hstate, hsignal, hrecords⟩ := advance_cut hs hn hf hr
      have hsteps := steps_advance hr
      refine ⟨⟨(st.advance p (o.limited 0) n).state.ip, .stepLimit n⟩, ?_, rfl, rfl, rfl, rfl⟩
      simp only [Transition.run, hsignal, hr, hstate, hrecords]
    · intro fuel hf hr
      by_cases hr0 : (st.advance p (o.limited 0) n).signal = .running
      · rw [(advance_cut hs hn hf hr0).2.1] at hr
        cases hr
      · rw [advance_of_stopped (by rwa [hsame]) (Nat.le_of_lt hf), hsame] at hr
        exact hr0 hr
    · intro m fuel fuel' hle hf hf'
      rw [written_limited hs hn hf, written_limited hs (by omega) hf']
      exact written_advance_le hle p (o.limited 0) st
    · intro limit hl fuel
      rw [advance_of_nonpositive hl]

/-- A loop without an end. -/
def endless : Program :=
  .ofStream [["func", "main", "void"], ["while", "True"], ["funccall", "print", "\"x\""],
    ["endwhile"], ["endfunc"]]

theorem runFor_limited_endless :
    0 < 5 ∧ ∃ fault, (endless.runFor (Options.limited {} 5) (.ofInput "") 100).ending =
        .failed fault ∧
      (endless.runFor (Options.limited {} 5) (.ofInput "") 100).console.written = "x\n" ∧
      fault.line = 2 ∧ fault.problem.message = "stopped after " ++ toString 5 ++ " steps" := by
  obtain ⟨-, hcut, -, -, -⟩ := runFor_limited endless {} (.ofInput "") (n := 5) (by decide)
  obtain ⟨st, hstart, hall⟩ := hcut (by decide +kernel)
  obtain ⟨fault, hrun, hline, -, hmessage, -⟩ := hall 100 (by decide)
  have hmain : endless.functions.entryLine? mainFunction = some 0 := by
    decide +kernel
  simp only [Program.start, hmain, Except.ok.injEq] at hstart
  subst hstart
  have hwritten : (endless.runFor (Options.limited {} 0) (.ofInput "") 5).console.written =
      "x\n" := by
    decide +kernel
  have hlimit : ((5 : Nat) : Int) = 5 := rfl
  rw [hlimit] at hrun
  refine ⟨by decide, fault, by rw [hrun], ?_, ?_, hmessage⟩
  · rw [hrun]
    exact hwritten
  · rw [hline]
    decide +kernel

end Brewin
