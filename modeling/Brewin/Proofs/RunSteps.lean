import Brewin.Run

namespace Brewin

/-- Steps that all go on lead from one state to another. -/
inductive Goes (p : Program) (o : Options) : Nat → State → State → Prop
  | here {st : State} : Goes p o 0 st st
  | next {n : Nat} {st st' : State} : (st.step p o).signal = .running →
      Goes p o n (st.step p o).state st' → Goes p o (n + 1) st st'

/-- A run from a state comes to an end: what is on the console then, and how it ends. -/
inductive Ends (p : Program) (o : Options) : State → Console → Ending → Prop
  | halted {st : State} : (st.step p o).signal = .halted →
      Ends p o st (st.step p o).state.console .finished
  | failed {st : State} {fault : Fault} : (st.step p o).signal = .failed fault →
      Ends p o st (st.step p o).state.console (.failed fault)
  | next {st : State} {c : Console} {e : Ending} : (st.step p o).signal = .running →
      Ends p o (st.step p o).state c e → Ends p o st c e

variable {p : Program} {o : Options}

theorem Goes.trans {n m : Nat} {st st' st'' : State} (h : Goes p o n st st')
    (h' : Goes p o m st' st'') : Goes p o (n + m) st st'' := by
  induction h with
  | here => rwa [Nat.zero_add]
  | next hs _ ih =>
    rw [Nat.add_right_comm]
    exact .next hs (ih h')

theorem Goes.ends {n : Nat} {st st' : State} {c : Console} {e : Ending} (h : Goes p o n st st')
    (h' : Ends p o st' c e) : Ends p o st c e := by
  induction h with
  | here => exact h'
  | next hs _ ih => exact .next hs (ih h')

/-- A run that ends cannot go on for ever. -/
theorem Ends.bound {st : State} {c : Console} {e : Ending} (h : Ends p o st c e) :
    ∃ limit, ∀ n st', Goes p o n st st' → n ≤ limit := by
  induction h with
  | halted hs =>
    refine ⟨0, fun n st' hg => ?_⟩
    cases hg with
    | here => exact Nat.le_refl 0
    | next hr _ => simp [hs] at hr
  | failed hs =>
    refine ⟨0, fun n st' hg => ?_⟩
    cases hg with
    | here => exact Nat.le_refl 0
    | next hr _ => simp [hs] at hr
  | next hs _ ih =>
    obtain ⟨limit, hl⟩ := ih
    refine ⟨limit + 1, fun n st' hg => ?_⟩
    cases hg with
    | here => omega
    | next _ hg =>
      have := hl _ _ hg
      omega

/-- Running with a bound on the steps finds every end, once the bound is large enough. -/
theorem ends_iff_runFor {st : State} {c : Console} {e : Ending} (log : Array LogRecord) :
    Ends p o st c e ↔
      e ≠ .unfinished ∧ ∃ fuel, (st.runFor p o fuel log).console = c ∧
        (st.runFor p o fuel log).ending = e := by
  constructor
  · intro h
    induction h generalizing log with
    | halted hs => exact ⟨by simp, 1, by simp [State.runFor, hs], by simp [State.runFor, hs]⟩
    | failed hs => exact ⟨by simp, 1, by simp [State.runFor, hs], by simp [State.runFor, hs]⟩
    | @next st c e hs _ ih =>
      obtain ⟨hu, fuel, hc, he⟩ := ih (log ++ (st.step p o).records)
      refine ⟨hu, fuel + 1, ?_, ?_⟩
      · simpa only [State.runFor, hs] using hc
      · simpa only [State.runFor, hs] using he
  · rintro ⟨hu, fuel, hc, he⟩
    induction fuel generalizing st log with
    | zero => exact absurd he.symm hu
    | succ fuel ih =>
      cases hs : (st.step p o).signal with
      | running =>
        simp only [State.runFor, hs] at hc he
        exact .next hs (ih _ hc he)
      | halted =>
        simp only [State.runFor, hs] at hc he
        subst hc he
        exact .halted hs
      | failed fault =>
        simp only [State.runFor, hs] at hc he
        subst hc he
        exact .failed hs

/-- A run from a state comes to a line with a workspace. -/
def Reaches (p : Program) (o : Options) (n : Nat) (st : State) (line : Int) (w : Workspace) :
    Prop :=
  ∃ st', Goes p o n st st' ∧ st'.ip = line ∧ st'.workspace = w

section

variable {st : State} {here : Nat} {statement : Statement}

theorem step_of_unlimited (ho : o.maxSteps ≤ 0) (hip : st.ip = here)
    (hat : p.at? here = some statement) :
    (st.step p o).state = (st.execute p here statement).state.tick ∧
      (st.step p o).signal = (st.execute p here statement).signal := by
  have hx : st.exhausted o = false := by
    simp only [State.exhausted, decide_eq_false_iff_not]
    omega
  simp only [State.step, hx, hip, hat]
  exact ⟨rfl, rfl⟩

theorem reaches_of_execute (ho : o.maxSteps ≤ 0) (hip : st.ip = here)
    (hat : p.at? here = some statement)
    (hs : (st.execute p here statement).signal = .running) :
    Reaches p o 1 st (st.execute p here statement).state.ip
      (st.execute p here statement).state.workspace := by
  obtain ⟨he, hg⟩ := step_of_unlimited ho hip hat
  refine ⟨(st.step p o).state, .next (hg.trans hs) .here, ?_, ?_⟩
  · rw [he]
    rfl
  · rw [he]
    rfl

theorem ends_of_failure (ho : o.maxSteps ≤ 0) (hip : st.ip = here)
    (hat : p.at? here = some statement) {fault : Fault}
    (hs : (st.execute p here statement).signal = .failed fault) :
    Ends p o st (st.execute p here statement).state.console (.failed fault) := by
  obtain ⟨he, hg⟩ := step_of_unlimited ho hip hat
  have := Ends.failed (hg.trans hs)
  rwa [he] at this

theorem ends_of_halt (ho : o.maxSteps ≤ 0) (hip : st.ip = here)
    (hat : p.at? here = some statement)
    (hs : (st.execute p here statement).signal = .halted) :
    Ends p o st (st.execute p here statement).state.console .finished := by
  obtain ⟨he, hg⟩ := step_of_unlimited ho hip hat
  have := Ends.halted (hg.trans hs)
  rwa [he] at this

end

end Brewin
