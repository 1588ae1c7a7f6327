import Brewin.Proofs.Outline
import Brewin.Proofs.Suspended
import Brewin.Run

namespace Brewin

/-- How a body is left: at its end, by a return, or by a fault. -/
inductive Exit
  | through
  | back (result? : Option Value)
  | fault (fault : Fault)
  deriving DecidableEq, Repr

def Exit.ending : Exit → Ending
  | through | back _ => .finished
  | fault f => .failed f

/-- The function that a body belongs to, and whether it is the one that the program began with. -/
structure Activation where
  definition : Definition
  outermost : Bool
  deriving DecidableEq, Repr

/-- What a simple line leads to. -/
inductive Action
  | next (w : Workspace)
  | leave (w : Workspace) (exit : Exit)
  | invoke (r : Routine) (callee : Workspace)
  deriving DecidableEq, Repr

/-- The result of a function that does not name one. -/
def Definition.zeroResult? (f : Definition) : Option Value :=
  (Kind.ofName? f.returnType).bind Kind.zero?

namespace Workspace

def openBlock (w : Workspace) : Workspace :=
  { w with scopes := w.scopes.pushBlock }

def closeBlock (w : Workspace) : Workspace :=
  { w with scopes := w.scopes.popBlock?.getD w.scopes }

/-- The workspace in which a callee starts: a frame of its own on the same cells. -/
def callee (w : Workspace) (f : Definition) (args : List String) (values : List Value) :
    Workspace :=
  { w with scopes := w.scopes.callee f args values }

/-- The caller goes on with the cells and the console that its callee leaves. -/
def resume (w done : Workspace) (result? : Option Value) : Workspace :=
  { scopes := .handOver w.scopes.frame [] done.scopes.cells result?, console := done.console }

end Workspace

/-- Goes on behind a line unless its effect failed. -/
def Effect.action (e : Effect) (here : Nat) : Action :=
  match e.problem? with
  | none => .next e.workspace
  | some problem => .leave e.workspace (.fault ⟨here, problem⟩)

/-- A return leaves the program or the function; its result must have the declared kind. -/
def Activation.giveBack (a : Activation) (here : Nat) (w : Workspace) (expr : List String) :
    Action :=
  if a.outermost then .leave w (.back none)
  else if expr.isEmpty then .leave w (.back a.definition.zeroResult?)
  else
    match w.scopes.evaluate expr with
    | .error problem => .leave w (.fault ⟨here, problem⟩)
    | .ok v =>
      if Kind.ofName? a.definition.returnType = some v.kind then .leave w (.back (some v))
      else
        .leave w (.fault ⟨here,
          .returnMismatch a.definition.name a.definition.returnType v.kind⟩)

/-- A call of a function that is not built in. -/
def Outline.invoke (t : Outline) (here : Nat) (w : Workspace) (name : String)
    (args : List String) : Action :=
  match t.find? name with
  | none => .leave w (.fault ⟨here, .unknownFunction name⟩)
  | some r =>
    match w.scopes.arguments r.definition args with
    | .error problem => .leave w (.fault ⟨here, problem⟩)
    | .ok values => .invoke r (w.callee r.definition args values)

def Simple.act (t : Outline) (a : Activation) (here : Nat) (w : Workspace) : Simple → Action
  | var type names => (w.declare type names).action here
  | assign target expr => (w.assign target expr).action here
  | call name args =>
    match Builtin.ofName? name with
    | some b => (w.builtin b args).action here
    | none => t.invoke here w name args
  | ret expr => a.giveBack here w expr
  | nop => .next w
  | malformed omission => .leave w (.fault ⟨here, .malformed omission⟩)

/-- Where the inside of a block has come to its end, drops the block and goes on. -/
def afterBlock (r : Option (Workspace × Exit))
    (next : Workspace → Option (Workspace × Exit)) : Option (Workspace × Exit) :=
  match r with
  | some (w, .through) => next w.closeBlock
  | other => other

/-- Where a callee has come back, goes on in its caller. -/
def afterCall (r : Option (Workspace × Exit)) (w : Workspace) (f : Definition)
    (next : Workspace → Option (Workspace × Exit)) : Option (Workspace × Exit) :=
  match r with
  | some (done, .through) => next (w.resume done f.zeroResult?)
  | some (done, .back result?) => next (w.resume done result?)
  | other => other

/-- Runs a body as a tree: a branch in a block of its own, a loop once more behind each round, a
called function by its own body. Nothing comes of a run that has not ended after `fuel` rounds. -/
def Outline.run (t : Outline) (fuel : Nat) (a : Activation) (b : Body) (w : Workspace) :
    Option (Workspace × Exit) :=
  match fuel, b with
  | 0, _ => none
  | _ + 1, .done => some (w, .through)
  | fuel + 1, .line here simple rest =>
    match simple.act t a here w with
    | .next w => t.run fuel a rest w
    | .leave w exit => some (w, exit)
    | .invoke r callee =>
      afterCall (t.run fuel ⟨r.definition, false⟩ r.body callee) w r.definition fun w =>
        t.run fuel a rest w
  | fuel + 1, .branch here cond yes rest =>
    match w.scopes.condition cond with
    | .error problem => some (w, .fault ⟨here, problem⟩)
    | .ok false => t.run fuel a rest w
    | .ok true => afterBlock (t.run fuel a yes w.openBlock) fun w => t.run fuel a rest w
  | fuel + 1, .fork here cond yes no rest =>
    match w.scopes.condition cond with
    | .error problem => some (w, .fault ⟨here, problem⟩)
    | .ok c =>
      afterBlock (t.run fuel a (if c then yes else no) w.openBlock) fun w => t.run fuel a rest w
  | fuel + 1, .loop here cond inside rest =>
    match w.scopes.condition cond with
    | .error problem => some (w, .fault ⟨here, problem⟩)
    | .ok false => t.run fuel a rest w
    | .ok true =>
      afterBlock (t.run fuel a inside w.openBlock) fun w =>
        t.run fuel a (.loop here cond inside rest) w

/-- Runs a program from its main function: what is on the console, and how the run ends. -/
def Outline.runMain (t : Outline) (console : Console) (fuel : Nat) : Option (Console × Ending) :=
  match t.find? mainFunction with
  | none => some (console, .failed { problem := .unknownFunction mainFunction })
  | some r =>
    (t.run fuel ⟨r.definition, true⟩ r.body
      { scopes := .start mainFunction noLine, console }).map
      fun (w, exit) => (w.console, exit.ending)

end Brewin
