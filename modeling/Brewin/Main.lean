import Brewin.CommandLine

namespace Brewin

/-- The system's code of an error, which may come with its sign turned. -/
def hasCode (n code : UInt32) : Bool :=
  code == n || code == 0 - n

/-- Reads a file, or tells why it cannot be read. -/
def readSource (name : String) : IO (Except FileError String) := do
  try
    return .ok (← IO.FS.readFile name)
  catch error =>
    match error with
    | .noFileOrDirectory .. => return .error .missing
    | .permissionDenied .. => return .error .denied
    | .inappropriateType _ code _ =>
      return .error (if hasCode 20 code then .notDirectory else .directory)
    | .invalidArgument _ code _ =>
      return .error (if hasCode 36 code then .nameTooLong else .badName)
    | _ => return .error .directory

/-- Looks up what the command needs of its surroundings. -/
def observe (args : List String) : IO Surroundings := do
  let files ← (CommandLine.filesRead args).mapM fun name => return (name, ← readSource name)
  let env ← CommandLine.variablesRead.mapM fun name => return (name, ← IO.getEnv name)
  return {
    read := fun name => (files.lookup name).getD (.error .missing)
    env? := fun name => (env.lookup name).join }

/-- Whether the next step reads a line. -/
def State.awaitsInput (p : Program) (st : State) : Bool :=
  match p.at? st.ip with
  | some (.call name _) => Builtin.ofName? name == some .input
  | _ => false

/-- Prints what a step has written. -/
def emit (t : Transition) : IO Unit := do
  IO.print t.state.console.written
  (← IO.getStdout).flush

/-- Makes a step that reads a line: without a line it comes as far as the prompt, which is shown;
then it is made again with the line. -/
def stepReading (p : Program) (o : Options) (st : State) : IO Transition := do
  let t := st.step p o
  emit t
  match t.signal with
  | .failed ⟨_, .readFailed _⟩ =>
    let line ← (← IO.getStdin).getLine
    if line.isEmpty then return t
    return { st with workspace.console.unread := line.toList }.step p o
  | _ => return t

def stepWriting (p : Program) (o : Options) (st : State) : IO Transition := do
  let t := st.step p o
  emit t
  return t

/-- Runs step by step, so that prompts appear before their lines are read. -/
partial def follow (job : Job) (p : Program) (st : State) : IO (Option Fault) := do
  let options := job.session.options
  let t ← if st.awaitsInput p then stepReading p options st else stepWriting p options st
  IO.eprint (job.logText t.records)
  match t.signal with
  | .running => follow job p { t.state with workspace.console := t.state.console.drain.2 }
  | .halted =>
    IO.eprint (job.logText [.finished t.state.steps])
    return none
  | .failed fault => return some fault

/-- Runs a session on the terminal and gives its exit code. -/
def perform (job : Job) : IO UInt32 := do
  let session := job.session
  IO.eprint (job.logText [.processing session.file])
  match session.text with
  | .error error =>
    IO.eprint (job.failure (.unreadable session.file error))
    return 1
  | .ok text =>
    let source := splitLines text
    let p := Program.load source
    IO.print (session.header p)
    let fault? ←
      match p.start {} with
      | .error fault => pure (some fault)
      | .ok st => follow job p st
    match fault? with
    | none => return 0
    | some fault =>
      IO.eprint (session.report source fault)
      IO.eprint (job.failure (.failed fault))
      return 1

end Brewin

open Brewin in
def main (args : List String) : IO UInt32 := do
  match CommandLine.plan (← observe args) args with
  | .stop outcome =>
    IO.print outcome.stdout
    IO.eprint outcome.stderr
    return outcome.code.toUInt32
  | .run job => perform job
