import Brewin.Run

namespace Brewin

/-- Executing a statement counts no step, and writes behind what has been written. -/
structure State.Extends (st st' : State) : Prop where
  steps : st'.steps = st.steps
  written : ∃ text, st'.console.written = st.console.written ++ text

section

variable {p : Program} {st st' : State} {here : Nat}

theorem extends_of_console (hs : st'.steps = st.steps) (hc : st'.console = st.console) :
    st.Extends st' :=
  ⟨hs, "", by rw [hc, String.append_empty]⟩

theorem extends_settle {f : Workspace → Effect}
    (h : ∃ text, (f st.workspace).workspace.console.written =
      st.workspace.console.written ++ text) :
    st.Extends (st.settle here f).state := by
  unfold State.settle
  rcases he : f st.workspace with ⟨w, problem?⟩
  rw [he] at h
  cases problem? with
  | none => exact ⟨rfl, h⟩
  | some problem => exact ⟨rfl, h⟩

theorem console_declare (w : Workspace) (type : String) (names : List String) :
    (w.declare type names).workspace.console = w.console := by
  unfold Workspace.declare
  split
  next => rfl
  next => rfl

theorem console_assign (w : Workspace) (target : String) (expr : List String) :
    (w.assign target expr).workspace.console = w.console := by
  unfold Workspace.assign
  split
  next => rfl
  next => rfl

theorem written_readLine (c : Console) : c.readLine.2.written = c.written := by
  unfold Console.readLine
  dsimp only
  split
  next => rfl
  next =>
    split
    next => rfl
    next => rfl

theorem written_builtin (w : Workspace) (b : Builtin) (args : List String) :
    ∃ text, (w.builtin b args).workspace.console.written = w.console.written ++ text := by
  have same : ∃ text, w.console.written = w.console.written ++ text :=
    ⟨"", String.append_empty.symm⟩
  have line : ∀ prompt, ∃ text,
      (w.console.writeLine prompt).written = w.console.written ++ text :=
    fun prompt => ⟨prompt ++ "\n", String.append_assoc⟩
  cases b with
  | print =>
    simp only [Workspace.builtin, Workspace.print]
    split
    next => exact same
    next text _ =>
      split
      next => exact line text
      next => exact same
  | input =>
    simp only [Workspace.builtin, Workspace.input]
    split
    next => exact same
    next prompt _ =>
      obtain ⟨text, ht⟩ := line prompt
      have hw := written_readLine (w.console.writeLine prompt)
      split
      next =>
        split
        next hr =>
          rw [hr] at hw
          exact ⟨text, hw.trans ht⟩
        next hr =>
          rw [hr] at hw
          exact ⟨text, hw.trans ht⟩
      next => exact same
  | strToInt =>
    simp only [Workspace.builtin, Workspace.strToInt]
    (repeat' split) <;> exact same

theorem extends_giveBack (result? : Option Value) : st.Extends (st.giveBack result?).state := by
  obtain ⟨ip, steps, ⟨⟨frame, callers, cells⟩, console⟩⟩ := st
  cases callers <;> cases result? <;> exact extends_of_console rfl rfl

theorem extends_ret (functions : FunctionTable) (expr : List String) :
    st.Extends (st.ret functions expr).state := by
  unfold State.ret
  dsimp only
  split
  next => exact extends_of_console rfl rfl
  next =>
    split
    next => exact extends_giveBack _
    next =>
      split
      next => exact extends_of_console rfl rfl
      next => exact extends_giveBack _

theorem extends_execute (p : Program) (st : State) (here : Nat) (statement : Statement) :
    st.Extends (st.execute p here statement).state := by
  cases statement with
  | var type names =>
    refine extends_settle ⟨"", ?_⟩
    rw [console_declare, String.append_empty]
  | assign target expr =>
    refine extends_settle ⟨"", ?_⟩
    rw [console_assign, String.append_empty]
  | call name args =>
    simp only [State.execute]
    split
    next b _ => exact extends_settle (written_builtin st.workspace b args)
    next =>
      unfold State.call
      (repeat' split) <;> exact extends_of_console rfl rfl
  | endFunc => exact extends_giveBack _
  | ret expr => exact extends_ret _ expr
  | func name => exact extends_of_console rfl rfl
  | nop => exact extends_of_console rfl rfl
  | malformed omission => exact extends_of_console rfl rfl
  | ifThen cond =>
    simp only [State.execute, State.ifThen]
    (repeat' split) <;> exact extends_of_console rfl rfl
  | orElse =>
    simp only [State.execute, State.orElse]
    split <;> exact extends_of_console rfl rfl
  | endIf =>
    simp only [State.execute, State.endIf]
    split <;> exact extends_of_console rfl rfl
  | whileDo cond =>
    simp only [State.execute, State.whileDo]
    (repeat' split) <;> exact extends_of_console rfl rfl
  | endWhile =>
    simp only [State.execute, State.endWhile]
    (repeat' split) <;> exact extends_of_console rfl rfl

end

section

variable {p : Program} {o : Options} {st : State}

theorem written_step (p : Program) (o : Options) (st : State) :
    ∃ text, (st.step p o).state.console.written = st.console.written ++ text := by
  unfold State.step
  split
  next => exact ⟨"", String.append_empty.symm⟩
  next =>
    split
    next => exact ⟨"", String.append_empty.symm⟩
    next statement _ => exact (extends_execute p st st.ip.toNat statement).written

theorem steps_step (h : st.exhausted o = false) :
    (st.step p o).state.steps = st.steps + 1 := by
  simp only [State.step, h]
  cases p.at? st.ip with
  | none => rfl
  | some statement => exact congrArg (· + 1) (extends_execute p st st.ip.toNat statement).steps

theorem exhausted_of_nonpositive (ho : o.maxSteps ≤ 0) : st.exhausted o = false := by
  unfold State.exhausted
  rw [decide_eq_false_iff_not]
  omega

theorem exhausted_of_running (h : (st.step p o).signal = .running) : st.exhausted o = false := by
  cases hx : st.exhausted o with
  | false => rfl
  | true => simp [State.step, hx, State.fail] at h

theorem advance_running (h : (st.step p o).signal = .running) (n : Nat) :
    (st.advance p o (n + 1)).state = ((st.step p o).state.advance p o n).state ∧
      (st.advance p o (n + 1)).signal = ((st.step p o).state.advance p o n).signal ∧
      (st.advance p o (n + 1)).records =
        (st.step p o).records ++ ((st.step p o).state.advance p o n).records := by
  simp only [State.advance, h, and_self]

theorem advance_stopped (h : (st.step p o).signal ≠ .running) (n : Nat) :
    st.advance p o (n + 1) = st.step p o := by
  cases hs : (st.step p o).signal with
  | running => exact absurd hs h
  | halted => simp only [State.advance, hs]
  | failed fault => simp only [State.advance, hs]

/-- The run that a transition from its start makes up. -/
def Transition.run (t : Transition) (log : Array LogRecord) : Run :=
  match t.signal with
  | .running => ⟨t.state.console, t.state.steps, log ++ t.records, .unfinished⟩
  | .halted =>
    ⟨t.state.console, t.state.steps, (log ++ t.records).push (.finished t.state.steps), .finished⟩
  | .failed fault => ⟨t.state.console, t.state.steps, log ++ t.records, .failed fault⟩

theorem console_run (t : Transition) (log : Array LogRecord) :
    (t.run log).console = t.state.console := by
  unfold Transition.run
  split <;> rfl

theorem ending_run (t : Transition) (log : Array LogRecord) :
    (t.run log).ending = .unfinished ↔ t.signal = .running := by
  unfold Transition.run
  split <;> simp_all

/-- A bounded run is what its steps lead to. -/
theorem runFor_eq_advance (p : Program) (o : Options) (n : Nat) (st : State)
    (log : Array LogRecord) : st.runFor p o n log = (st.advance p o n).run log := by
  induction n generalizing st log with
  | zero =>
    have hlog : log ++ ([] : List LogRecord) = log := by simp
    simp only [State.runFor, State.advance, Transition.run, hlog]
  | succ n ih =>
    by_cases hs : (st.step p o).signal = .running
    · obtain ⟨hstate, hsignal, hrecords⟩ := advance_running hs n
      have hlog : ∀ rs : List LogRecord,
          log ++ (st.step p o).records ++ rs = log ++ ((st.step p o).records ++ rs) := by
        intro rs
        apply Array.ext'
        simp
      simp only [State.runFor, hs, ih, Transition.run, hstate, hsignal, hrecords, hlog]
    · rw [advance_stopped hs]
      unfold State.runFor Transition.run
      split <;> simp_all

/-- Steps that follow a run that goes on add to it. -/
theorem advance_add {n : Nat} (h : (st.advance p o n).signal = .running) (m : Nat) :
    (st.advance p o (n + m)).state = ((st.advance p o n).state.advance p o m).state ∧
      (st.advance p o (n + m)).signal = ((st.advance p o n).state.advance p o m).signal ∧
      (st.advance p o (n + m)).records =
        (st.advance p o n).records ++ ((st.advance p o n).state.advance p o m).records := by
  induction n generalizing st with
  | zero => simp [State.advance]
  | succ n ih =>
    by_cases hs : (st.step p o).signal = .running
    · obtain ⟨hstate, hsignal, hrecords⟩ := advance_running hs n
      rw [hsignal] at h
      obtain ⟨ihstate, ihsignal, ihrecords⟩ := ih h
      obtain ⟨hstate', hsignal', hrecords'⟩ := advance_running hs (n + m)
      rw [show n + 1 + m = n + m + 1 by omega, hstate', hsignal', hrecords', hstate, hrecords,
        ihstate, ihsignal, ihrecords, List.append_assoc]
      exact ⟨rfl, rfl, rfl⟩
    · rw [advance_stopped hs] at h
      exact absurd h hs

theorem advance_succ {n : Nat} (h : (st.advance p o n).signal = .running) :
    (st.advance p o (n + 1)).state = ((st.advance p o n).state.step p o).state ∧
      (st.advance p o (n + 1)).signal = ((st.advance p o n).state.step p o).signal := by
  obtain ⟨hstate, hsignal, -⟩ := advance_add h 1
  rw [hstate, hsignal]
  by_cases hs : ((st.advance p o n).state.step p o).signal = .running
  · obtain ⟨hstate', hsignal', -⟩ := advance_running hs 0
    exact ⟨hstate', hsignal'.trans hs.symm⟩
  · rw [advance_stopped hs]
    exact ⟨rfl, rfl⟩

/-- A run that has stopped stays as it is. -/
theorem advance_of_stopped {n m : Nat} (h : (st.advance p o n).signal ≠ .running) (hle : n ≤ m) :
    st.advance p o m = st.advance p o n := by
  induction n generalizing st m with
  | zero => exact absurd rfl h
  | succ n ih =>
    obtain ⟨m, rfl⟩ : ∃ k, m = k + 1 := ⟨m - 1, by omega⟩
    by_cases hs : (st.step p o).signal = .running
    · rw [(advance_running hs n).2.1] at h
      have hrest := ih h (by omega : n ≤ m)
      simp only [State.advance, hs, hrest]
    · rw [advance_stopped hs, advance_stopped hs]

theorem steps_advance {n : Nat} (h : (st.advance p o n).signal = .running) :
    (st.advance p o n).state.steps = st.steps + n := by
  induction n generalizing st with
  | zero => rfl
  | succ n ih =>
    by_cases hs : (st.step p o).signal = .running
    · obtain ⟨hstate, hsignal, -⟩ := advance_running hs n
      rw [hsignal] at h
      have hstep : (st.step p o).state.steps = st.steps + 1 :=
        steps_step (exhausted_of_running hs)
      rw [hstate, ih h, hstep]
      omega
    · rw [advance_stopped hs] at h
      exact absurd h hs

theorem written_advance (p : Program) (o : Options) (n : Nat) (st : State) :
    ∃ text, (st.advance p o n).state.console.written = st.console.written ++ text := by
  induction n generalizing st with
  | zero => exact ⟨"", String.append_empty.symm⟩
  | succ n ih =>
    obtain ⟨first, hfirst⟩ := written_step p o st
    by_cases hs : (st.step p o).signal = .running
    · obtain ⟨rest, hrest⟩ := ih (st.step p o).state
      refine ⟨first ++ rest, ?_⟩
      rw [(advance_running hs n).1, hrest, hfirst, String.append_assoc]
    · rw [advance_stopped hs]
      exact ⟨first, hfirst⟩

theorem written_advance_le {n m : Nat} (hle : n ≤ m) (p : Program) (o : Options) (st : State) :
    ∃ text, (st.advance p o m).state.console.written =
      (st.advance p o n).state.console.written ++ text := by
  by_cases hr : (st.advance p o n).signal = .running
  · obtain ⟨k, rfl⟩ := Nat.exists_eq_add_of_le hle
    rw [(advance_add hr k).1]
    exact written_advance p o k _
  · rw [advance_of_stopped hr hle]
    exact ⟨"", String.append_empty.symm⟩

end

end Brewin
