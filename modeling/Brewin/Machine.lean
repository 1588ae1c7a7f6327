import Brewin.LogRecord
import Brewin.Program
import Brewin.Workspace

namespace Brewin

/-- How a program is run. A limit that is not positive is no limit. -/
structure Options where
  maxSteps : Int := 0
  trace : Bool := false
  deriving DecidableEq, Repr

/-- Everything that changes while a program runs. -/
structure State where
  ip : Int
  steps : Nat := 0
  workspace : Workspace
  deriving DecidableEq, Repr

/-- Whether a run goes on after a step. -/
inductive Signal
  | running
  | halted
  | failed (fault : Fault)
  deriving DecidableEq, Repr

/-- What one step leads to, and what it logs. -/
structure Transition where
  state : State
  signal : Signal
  records : List LogRecord := []
  deriving DecidableEq, Repr

/-- The function that a run starts in. -/
def mainFunction : String := "main"

namespace State

def scopes (st : State) : Scopes :=
  st.workspace.scopes

def console (st : State) : Console :=
  st.workspace.console

/-- Goes on at a line. -/
def proceed (st : State) (line : Nat) : Transition :=
  ⟨{ st with ip := line }, .running, []⟩

/-- Goes on at a line inside a new block. -/
def proceedInside (st : State) (line : Nat) : Transition :=
  { st with workspace.scopes := st.workspace.scopes.pushBlock }.proceed line

def halt (st : State) : Transition :=
  ⟨st, .halted, []⟩

/-- Stops with a fault at the current line. -/
def fail (st : State) (problem : Problem) : Transition :=
  ⟨st, .failed ⟨st.ip, problem⟩, []⟩

/-- Takes over an effect on the workspace, and goes on at the next line unless it failed. -/
def settle (st : State) (here : Nat) (f : Workspace → Effect) : Transition :=
  match f st.workspace with
  | ⟨workspace, none⟩ => { st with workspace }.proceed (here + 1)
  | ⟨workspace, some problem⟩ => { st with workspace }.fail problem

/-- Goes to the func line of a function, in a new frame. -/
def call (functions : FunctionTable) (st : State) (here : Nat) (name : String)
    (args : List String) : Transition :=
  match functions.find? name with
  | none => st.fail (.unknownFunction name)
  | some f =>
    match st.scopes.arguments f args with
    | .error problem => st.fail problem
    | .ok values =>
      let resume : Int := here + 1
      ⟨{ st with
          ip := f.line
          workspace.scopes := st.workspace.scopes.enter f args values resume },
        .running, [.enter f.name f.line resume]⟩

/-- Goes back to the caller; the bottom frame has none, and the run is over. -/
def giveBack (st : State) (result? : Option Value) : Transition :=
  let done := st.scopes.frame
  let st :=
    match result? with
    | some v => { st with workspace.scopes := st.workspace.scopes.setCallerResult v }
    | none => st
  match st.scopes.popFrame? with
  | none => st.halt
  | some scopes =>
    ⟨{ st with ip := done.resume, workspace.scopes := scopes }, .running,
      [.leave done.function done.resume]⟩

def ret (functions : FunctionTable) (st : State) (expr : List String) : Transition :=
  let function := st.scopes.frame.function
  if st.scopes.callers.isEmpty then st.halt
  else if expr.isEmpty then st.giveBack (functions.defaultResult? function)
  else
    match st.scopes.evaluate expr >>= functions.checkResult function with
    | .error problem => st.fail problem
    | .ok v => st.giveBack (some v)

/-- A true condition enters the block behind the if, a false one the block behind the else. -/
def ifThen (flow : Flow) (st : State) (here : Nat) (cond : List String) : Transition :=
  match st.scopes.condition cond with
  | .error problem => st.fail problem
  | .ok true => st.proceedInside (here + 1)
  | .ok false =>
    match flow.branch? here with
    | none => st.fail .ifWithoutEndIf
    | some ⟨some elseLine, _⟩ => st.proceedInside (elseLine + 1)
    | some ⟨none, endLine⟩ => st.proceed (endLine + 1)

/-- An else is reached at the end of a true branch, which goes on at the endif. -/
def orElse (flow : Flow) (st : State) (here : Nat) : Transition :=
  match flow.elseEnd? here with
  | none => st.fail .elseWithoutEndIf
  | some endLine => st.proceed endLine

def endIf (st : State) (here : Nat) : Transition :=
  match st.scopes.popBlock? with
  | none => st.fail .endIfWithoutBlock
  | some scopes => { st with workspace.scopes := scopes }.proceed (here + 1)

/-- A true condition enters the block behind the while, a false one passes the endwhile. -/
def whileDo (flow : Flow) (st : State) (here : Nat) (cond : List String) : Transition :=
  match st.scopes.condition cond with
  | .error problem => st.fail problem
  | .ok true => st.proceedInside (here + 1)
  | .ok false =>
    match flow.loopPartner? here with
    | none => st.fail .whileWithoutEndWhile
    | some endLine => st.proceed (endLine + 1)

/-- An endwhile closes the block and goes back to its while. -/
def endWhile (flow : Flow) (st : State) (here : Nat) : Transition :=
  match flow.loopPartner? here with
  | none => st.fail .endWhileWithoutWhile
  | some start =>
    match st.scopes.popBlock? with
    | none => st.fail .endWhileWithoutBlock
    | some scopes => { st with workspace.scopes := scopes }.proceed start

/-- Executes the statement of the line `here`, at which the state stands. -/
def execute (p : Program) (st : State) (here : Nat) : Statement → Transition
  | .func _ | .nop => st.proceed (here + 1)
  | .var type names => st.settle here (·.declare type names)
  | .assign target expr => st.settle here (·.assign target expr)
  | .call name args =>
    match Builtin.ofName? name with
    | some b => st.settle here (·.builtin b args)
    | none => st.call p.functions here name args
  | .endFunc => st.giveBack (p.functions.defaultResult? st.scopes.frame.function)
  | .ret expr => st.ret p.functions expr
  | .ifThen cond => st.ifThen p.flow here cond
  | .orElse => st.orElse p.flow here
  | .endIf => st.endIf here
  | .whileDo cond => st.whileDo p.flow here cond
  | .endWhile => st.endWhile p.flow here
  | .malformed omission => st.fail (.malformed omission)

/-- Counts a step. -/
def tick (st : State) : State :=
  { st with steps := st.steps + 1 }

/-- The step limit has been reached. -/
def exhausted (o : Options) (st : State) : Bool :=
  decide (0 < o.maxSteps ∧ o.maxSteps ≤ st.steps)

def trace (o : Options) (st : State) (statement : Statement) : List LogRecord :=
  if o.trace then [.step st.ip statement st.scopes.depth] else []

/-- Executes one statement. A pointer outside the program ends the run. Every step counts, except
one that the step limit forbids. -/
def step (p : Program) (o : Options) (st : State) : Transition :=
  if st.exhausted o then st.fail (.stepLimit st.steps)
  else
    match p.at? st.ip with
    | none => st.tick.halt
    | some statement =>
      let records := st.trace o statement
      let t := st.execute p st.ip.toNat statement
      ⟨t.state.tick, t.signal, records ++ t.records⟩

/-- Makes up to `n` steps, and stops early with the run. -/
def advance (p : Program) (o : Options) : Nat → State → Transition
  | 0, st => ⟨st, .running, []⟩
  | n + 1, st =>
    let t := st.step p o
    match t.signal with
    | .running =>
      let u := advance p o n t.state
      ⟨u.state, u.signal, t.records ++ u.records⟩
    | .halted | .failed _ => t

end State

/-- The state in which a run starts, on the line of the main function. -/
def Program.start (p : Program) (console : Console) : Except Fault State :=
  match p.functions.entryLine? mainFunction with
  | none => .error { problem := .unknownFunction mainFunction }
  | some line =>
    .ok { ip := line, workspace := { scopes := .start mainFunction noLine, console } }

end Brewin
