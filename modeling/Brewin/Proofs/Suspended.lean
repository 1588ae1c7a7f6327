import Brewin.Machine

namespace Brewin

/-- The same running function on top of other frames, to which it goes back at another line. -/
def Scopes.above (s : Scopes) (resume : Int) (callers : List Frame) : Scopes :=
  { s with frame := { s.frame with resume }, callers }

def Workspace.above (w : Workspace) (resume : Int) (callers : List Frame) : Workspace :=
  { w with scopes := w.scopes.above resume callers }

def Effect.above (e : Effect) (resume : Int) (callers : List Frame) : Effect :=
  ⟨e.workspace.above resume callers, e.problem?⟩

/-- The frame of a callee alone, on the cells that it shares with its caller. -/
def Scopes.callee (s : Scopes) (f : Definition) (args : List String) (values : List Value) :
    Scopes :=
  { s.enter f args values noLine with callers := [] }

/-- A caller goes on with the cells and the result that its callee leaves. -/
def Scopes.handOver (caller : Frame) (callers : List Frame) (cells : Array Value) :
    Option Value → Scopes
  | none => ⟨caller, callers, cells⟩
  | some v => Scopes.setResult ⟨caller, callers, cells⟩ v

namespace Scopes

variable (s : Scopes) (resume : Int) (callers : List Frame)

@[simp]
theorem operand_above (token : String) :
    (s.above resume callers).operand token = s.operand token :=
  rfl

theorem reduce_above (expr : List String) :
    (s.above resume callers).reduce expr = s.reduce expr := by
  induction expr with
  | nil => rfl
  | cons token rest ih =>
    simp only [reduce, ih]
    rfl

@[simp]
theorem evaluate_above (expr : List String) :
    (s.above resume callers).evaluate expr = s.evaluate expr := by
  simp only [evaluate, reduce_above]

@[simp]
theorem condition_above (cond : List String) :
    (s.above resume callers).condition cond = s.condition cond := by
  simp only [condition, evaluate_above]

theorem operands_above (args : List String) :
    (s.above resume callers).operands args = s.operands args :=
  rfl

@[simp]
theorem joined_above (args : List String) :
    (s.above resume callers).joined args = s.joined args :=
  rfl

@[simp]
theorem assignment_above (target : String) (expr : List String) :
    (s.above resume callers).assignment target expr = s.assignment target expr := by
  simp only [assignment, evaluate_above]
  rfl

@[simp]
theorem arguments_above (f : Definition) (args : List String) :
    (s.above resume callers).arguments f args = s.arguments f args := by
  simp only [arguments, operands_above]

theorem bind_above (name : String) (v : Value) :
    (s.above resume callers).bind name v = (s.bind name v).above resume callers := by
  cases hi : s.frame.inner with
  | nil => simp [bind, above, Frame.insert, hi]
  | cons b bs => simp [bind, above, Frame.insert, hi]

theorem bindAlias_above (name : String) (owner : Slot) (ownerName : String) :
    (s.above resume callers).bindAlias name owner ownerName =
      (s.bindAlias name owner ownerName).above resume callers := by
  cases hi : s.frame.inner with
  | nil => simp [bindAlias, above, Frame.insert, hi]
  | cons b bs => simp [bindAlias, above, Frame.insert, hi]

theorem declareAll_above (v : Value) (names : List String) :
    (s.above resume callers).declareAll v names =
      ((s.declareAll v names).1.above resume callers, (s.declareAll v names).2) := by
  induction names generalizing s with
  | nil => rfl
  | cons name names ih =>
    have hb : (s.above resume callers).frame.innermost.binds name =
        s.frame.innermost.binds name := rfl
    simp only [declareAll, hb, bind_above, ih]
    split
    next => rfl
    next => rfl

theorem placeResult_resume (f : Frame) (cells : Array Value) (v : Value) :
    placeResult { f with resume } cells v =
      ({ (placeResult f cells v).1 with resume }, (placeResult f cells v).2) := by
  cases hn : resultName? v.kind with
  | none => simp only [placeResult, hn]
  | some name =>
    cases hf : f.base.find? name with
    | none => simp only [placeResult, hn, hf]
    | some slot =>
      simp only [placeResult, hn, hf]
      split
      next => rfl
      next => rfl

theorem setResult_above (v : Value) :
    (s.above resume callers).setResult v = (s.setResult v).above resume callers := by
  simp only [setResult, above, placeResult_resume]

theorem handOver_above (caller : Frame) (cells : Array Value) (result? : Option Value) :
    (handOver caller [] cells result?).above resume callers =
      handOver { caller with resume } callers cells result? := by
  cases result? with
  | none => rfl
  | some v => exact (setResult_above ⟨caller, [], cells⟩ resume callers v).symm

theorem bindParam_above (caller : Frame) (p : Param) (token : String) (v : Value) :
    (s.above resume callers).bindParam caller p token v =
      (s.bindParam caller p token v).above resume callers := by
  unfold bindParam
  split
  next owner _ => exact bindAlias_above s resume callers p.name owner token
  next => exact bind_above s resume callers p.name v

theorem foldl_bindParam_above (caller : Frame) (params : List (Param × String × Value)) :
    params.foldl (fun s (p, token, v) => s.bindParam caller p token v) (s.above resume callers) =
      (params.foldl (fun s (p, token, v) => s.bindParam caller p token v) s).above resume
        callers := by
  induction params generalizing s with
  | nil => rfl
  | cons entry params ih =>
    obtain ⟨p, token, v⟩ := entry
    simp only [List.foldl_cons, bindParam_above, ih]

theorem enter_above (f : Definition) (args : List String) (values : List Value) (line : Int) :
    (s.above resume callers).enter f args values line =
      (s.callee f args values).above line ({ s.frame with resume } :: callers) := by
  change _ = (s.enter f args values noLine).above line ({ s.frame with resume } :: callers)
  unfold enter
  exact foldl_bindParam_above (s.pushFrame { function := f.name, resume := noLine }) line
    ({ s.frame with resume } :: callers) s.frame (f.params.zip (args.zip values))

end Scopes

namespace Workspace

variable (w : Workspace) (resume : Int) (callers : List Frame)

theorem declare_above (type : String) (names : List String) :
    (w.above resume callers).declare type names = (w.declare type names).above resume callers := by
  unfold declare
  split
  next => rfl
  next v _ =>
    change (⟨{ w.above resume callers with
      scopes := ((w.scopes.above resume callers).declareAll v names).1 },
      ((w.scopes.above resume callers).declareAll v names).2⟩ : Effect) = _
    rw [Scopes.declareAll_above]
    rfl

theorem assign_above (target : String) (expr : List String) :
    (w.above resume callers).assign target expr =
      (w.assign target expr).above resume callers := by
  have ha : (w.above resume callers).scopes.assignment target expr =
      w.scopes.assignment target expr := Scopes.assignment_above _ _ _ _ _
  unfold assign
  rw [ha]
  split
  next => rfl
  next => rfl

theorem print_above (args : List String) :
    (w.above resume callers).print args = (w.print args).above resume callers := by
  have hj : (w.above resume callers).scopes.joined args = w.scopes.joined args := rfl
  have hc : (w.above resume callers).console = w.console := rfl
  simp only [print, hj, hc]
  cases w.scopes.joined args with
  | error problem => rfl
  | ok text =>
    cases hw : w.console.canWrite with
    | false => rfl
    | true => rfl

theorem input_above (args : List String) :
    (w.above resume callers).input args = (w.input args).above resume callers := by
  have hj : (w.above resume callers).scopes.joined args = w.scopes.joined args := rfl
  have hc : (w.above resume callers).console = w.console := rfl
  simp only [input, hj, hc]
  cases w.scopes.joined args with
  | error problem => rfl
  | ok prompt =>
    cases hw : w.console.canWrite with
    | false => rfl
    | true =>
      rcases hr : (w.console.writeLine prompt).readLine with ⟨failure | line, console⟩
      · simp only [hr]
        rfl
      · simp only [hr, ↓reduceIte]
        change (⟨⟨(w.scopes.above resume callers).setResult (.string line), console⟩, none⟩ : Effect) = _
        rw [Scopes.setResult_above]
        rfl

theorem strToInt_above (args : List String) :
    (w.above resume callers).strToInt args = (w.strToInt args).above resume callers := by
  match args with
  | [] => rfl
  | _ :: _ :: _ => rfl
  | [token] =>
    have ho : (w.above resume callers).scopes.operand token = w.scopes.operand token := rfl
    simp only [strToInt, ho]
    cases w.scopes.operand token with
    | error problem => rfl
    | ok v =>
      cases v with
      | string text =>
        dsimp only
        cases readInt64? (trim text) with
        | none => rfl
        | some n =>
          change (⟨{ w.above resume callers with
            scopes := (w.scopes.above resume callers).setResult (.int n) }, none⟩ : Effect) = _
          rw [Scopes.setResult_above]
          rfl
      | _ => rfl

theorem builtin_above (b : Builtin) (args : List String) :
    (w.above resume callers).builtin b args = (w.builtin b args).above resume callers := by
  cases b with
  | print => exact print_above w resume callers args
  | input => exact input_above w resume callers args
  | strToInt => exact strToInt_above w resume callers args

end Workspace

namespace State

variable {st : State}

theorem giveBack_bottom (hc : st.scopes.callers = []) (result? : Option Value) :
    st.giveBack result? = st.halt := by
  obtain ⟨ip, steps, ⟨⟨frame, callers, cells⟩, console⟩⟩ := st
  cases hc
  cases result? with
  | none => rfl
  | some v => rfl

theorem giveBack_caller {caller : Frame} {callers : List Frame}
    (hc : st.scopes.callers = caller :: callers) (result? : Option Value) :
    st.giveBack result? =
      ⟨{ st with
          ip := st.scopes.frame.resume
          workspace := ⟨.handOver caller callers st.scopes.cells result?, st.console⟩ },
        .running, [.leave st.scopes.frame.function st.scopes.frame.resume]⟩ := by
  obtain ⟨ip, steps, ⟨⟨frame, callers, cells⟩, console⟩⟩ := st
  cases hc
  cases result? with
  | none => rfl
  | some v => rfl

/-- Giving back ends the run exactly in the bottom frame. -/
theorem giveBack_halted_iff (result? : Option Value) :
    (st.giveBack result?).signal = .halted ↔ st.scopes.callers = [] := by
  cases hc : st.scopes.callers with
  | nil => simp [giveBack_bottom hc, halt]
  | cons caller callers => simp [giveBack_caller hc]

end State

end Brewin
