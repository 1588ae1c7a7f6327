import Brewin.Machine

namespace Brewin

/-- How a run ends, if it does. -/
inductive Ending
  | finished
  | failed (fault : Fault)
  | unfinished
  deriving DecidableEq, Repr

/-- What a run leaves behind. -/
structure Run where
  console : Console
  steps : Nat
  log : Array LogRecord
  ending : Ending
  deriving DecidableEq, Repr

/-- Runs on from a state for at most `fuel` steps; the log is added to what was logged before. -/
def State.runFor (p : Program) (o : Options) : Nat → State → Array LogRecord → Run
  | 0, st, log => ⟨st.console, st.steps, log, .unfinished⟩
  | fuel + 1, st, log =>
    let t := st.step p o
    match t.signal with
    | .running => t.state.runFor p o fuel (log ++ t.records)
    | .halted =>
      ⟨t.state.console, t.state.steps, (log ++ t.records).push (.finished t.state.steps), .finished⟩
    | .failed fault => ⟨t.state.console, t.state.steps, log ++ t.records, .failed fault⟩

/-- Runs a program from its main function. -/
def Program.runFor (p : Program) (o : Options) (console : Console) (fuel : Nat) : Run :=
  match p.start console with
  | .error fault => ⟨console, 0, #[], .failed fault⟩
  | .ok st => st.runFor p o fuel #[]

end Brewin
