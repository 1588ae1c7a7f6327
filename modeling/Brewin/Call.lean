import Brewin.Expression
import Brewin.FunctionTable

namespace Brewin

namespace Scopes

/-- Declares variables one after the other; those in front of a duplicate stay declared. -/
def declareAll (s : Scopes) (v : Value) : List String → Scopes × Option Problem
  | [] => (s, none)
  | name :: names =>
    if s.frame.innermost.binds name then (s, some (.duplicateName name))
    else (s.bind name v).declareAll v names

/-- The binding that an assignment goes to and the value that it brings. -/
def assignment (s : Scopes) (target : String) (expr : List String) :
    Except Problem (Slot × Value) :=
  match s.evaluate expr with
  | .error problem => .error problem
  | .ok v =>
    match s.lookup? target with
    | none => .error (.unknownVariable target)
    | some slot =>
      if (s.value slot).kind = v.kind then .ok (slot, v)
      else .error (.assignmentMismatch v.kind (s.value slot).kind target)

/-- The values of the arguments of a call, if they suit the parameters. -/
def arguments (s : Scopes) (f : Definition) (args : List String) : Except Problem (List Value) :=
  match s.operands args with
  | .error problem => .error problem
  | .ok values =>
    if values.length ≠ f.params.length then
      .error (.argumentCount f.name f.params.length values.length)
    else
      match (f.params.zip values).find? fun (p, v) => Kind.ofName? p.type != some v.kind with
      | some (p, v) => .error (.argumentMismatch p.name f.name p.type v.kind)
      | none => .ok values

/-- Binds one parameter in the running frame. By reference it shares the cell of the caller's
variable that the argument names; an argument that names none is copied. -/
def bindParam (caller : Frame) (s : Scopes) (p : Param) (token : String) (v : Value) : Scopes :=
  match if p.byRef then caller.find? token else none with
  | some owner => s.bindAlias p.name owner token
  | none => s.bind p.name v

/-- Starts a function on top of its caller. -/
def enter (s : Scopes) (f : Definition) (args : List String) (values : List Value)
    (resume : Int) : Scopes :=
  let caller := s.frame
  (f.params.zip (args.zip values)).foldl (fun s (p, token, v) => s.bindParam caller p token v)
    (s.pushFrame { function := f.name, resume })

end Scopes

namespace FunctionTable

/-- What a function gives back when it does not say: the zero of its return type. -/
def defaultResult? (t : FunctionTable) (function : String) : Option Value :=
  (Kind.ofName? (t.returnType function)).bind Kind.zero?

/-- The result of an explicit return, which must have the declared kind. -/
def checkResult (t : FunctionTable) (function : String) (v : Value) : Except Problem Value :=
  if Kind.ofName? (t.returnType function) = some v.kind then .ok v
  else .error (.returnMismatch function (t.returnType function) v.kind)

end FunctionTable

end Brewin
