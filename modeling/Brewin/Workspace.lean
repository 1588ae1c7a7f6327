import Brewin.Call
import Brewin.Console

namespace Brewin

/-- What the statements of a run read and change: its variables and its console. -/
structure Workspace where
  scopes : Scopes
  console : Console := {}
  deriving DecidableEq, Repr

/-- What a statement that does not jump does to the workspace, and the problem that stopped it. -/
structure Effect where
  workspace : Workspace
  problem? : Option Problem := none
  deriving DecidableEq, Repr

namespace Workspace

/-- Stops without a change. -/
def fail (w : Workspace) (problem : Problem) : Effect :=
  ⟨w, some problem⟩

/-- Declares variables with the zero of their type. -/
def declare (w : Workspace) (type : String) (names : List String) : Effect :=
  match (Kind.ofName? type).bind Kind.zero? with
  | none => w.fail (.unknownType type)
  | some v =>
    let (scopes, problem?) := w.scopes.declareAll v names
    ⟨{ w with scopes }, problem?⟩

def assign (w : Workspace) (target : String) (expr : List String) : Effect :=
  match w.scopes.assignment target expr with
  | .error problem => w.fail problem
  | .ok (slot, v) => ⟨{ w with scopes := w.scopes.store slot v }, none⟩

/-- Writes the arguments as a line. -/
def print (w : Workspace) (args : List String) : Effect :=
  match w.scopes.joined args with
  | .error problem => w.fail problem
  | .ok text =>
    if w.console.canWrite then ⟨{ w with console := w.console.writeLine text }, none⟩
    else w.fail .writeFailed

/-- Writes the arguments as a prompt and reads a line. -/
def input (w : Workspace) (args : List String) : Effect :=
  match w.scopes.joined args with
  | .error problem => w.fail problem
  | .ok prompt =>
    if w.console.canWrite then
      match (w.console.writeLine prompt).readLine with
      | (.ok line, console) => ⟨{ scopes := w.scopes.setResult (.string line), console }, none⟩
      | (.error failure, console) => { w with console }.fail (.readFailed failure)
    else w.fail .writeFailed

/-- Reads the number that a text holds between blanks. -/
def strToInt (w : Workspace) (args : List String) : Effect :=
  match args with
  | [token] =>
    match w.scopes.operand token with
    | .error problem => w.fail problem
    | .ok (.string text) =>
      match readInt64? (trim text) with
      | none => w.fail (.notANumber text)
      | some n => ⟨{ w with scopes := w.scopes.setResult (.int n) }, none⟩
    | .ok v => w.fail (.conversionMismatch v.kind)
  | _ => w.fail (.conversionCount args.length)

def builtin (w : Workspace) : Builtin → List String → Effect
  | .print, args => w.print args
  | .input, args => w.input args
  | .strToInt, args => w.strToInt args

end Workspace

end Brewin
