import Brewin.Proofs.CallStack
import Brewin.Proofs.RunPrefix
import Brewin.Session

namespace Brewin

namespace LogRecord

def isStep : LogRecord → Bool
  | .step _ _ _ => true
  | _ => false

/-- The calls that are open behind a record, the last one first. -/
def track (calls : List (String × Int)) : LogRecord → List (String × Int)
  | .enter function _ resume => (function, resume) :: calls
  | .leave _ _ => calls.tail
  | _ => calls

end LogRecord

/-- The calls of a log that no return belongs to, the last one first. -/
def openCalls (log : List LogRecord) : List (String × Int) :=
  log.foldl LogRecord.track []

/-- What the records in front of a record demand of it: a return belongs to the last open call, a
step is as deep as the calls are, and directly behind a return it is where that leads. -/
def LogRecord.Fits (before : List LogRecord) : LogRecord → Prop
  | .leave function resume => (openCalls before).head? = some (function, resume)
  | .step line _ depth => depth = 1 + (openCalls before).length ∧
      ∀ function resume, before.getLast? = some (.leave function resume) → line = resume
  | _ => True

/-- All records of a log fit those in front of them. -/
def Faithful (log : List LogRecord) : Prop :=
  ∀ before record after, log = before ++ record :: after → record.Fits before

theorem openCalls_concat (log : List LogRecord) (record : LogRecord) :
    openCalls (log ++ [record]) = record.track (openCalls log) :=
  List.foldl_append

theorem concat_eq_append_cons {α : Type} {xs before after : List α} {x y : α}
    (h : xs ++ [x] = before ++ y :: after) :
    (before = xs ∧ y = x ∧ after = []) ∨
      ∃ rest, after = rest ++ [x] ∧ xs = before ++ y :: rest := by
  rcases List.eq_nil_or_concat after with rfl | ⟨rest, z, hz⟩
  · obtain ⟨hxs, hx⟩ := List.append_inj' h rfl
    cases hx
    exact Or.inl ⟨hxs.symm, rfl, rfl⟩
  · rw [List.concat_eq_append] at hz
    rw [hz, ← List.cons_append, ← List.append_assoc] at h
    obtain ⟨hxs, hx⟩ := List.append_inj' h rfl
    cases hx
    exact Or.inr ⟨rest, hz, hxs⟩

theorem faithful_nil : Faithful [] := by
  intro before record after h
  simp at h

theorem Faithful.concat {log : List LogRecord} {record : LogRecord} (h : Faithful log)
    (hr : record.Fits log) : Faithful (log ++ [record]) := by
  intro before other after hsplit
  rcases concat_eq_append_cons hsplit with ⟨rfl, rfl, -⟩ | ⟨rest, -, hlog⟩
  · exact hr
  · exact h before other rest hlog

namespace Scopes

/-- The calls that have not come back, the last one first; the bottom frame is none. -/
def openCalls (s : Scopes) : List (String × Int) :=
  s.frames.dropLast.map fun f => (f.function, f.resume)

theorem length_openCalls (s : Scopes) : s.depth = 1 + s.openCalls.length := by
  rw [openCalls, List.length_map, List.length_dropLast, depth, frames, List.length_cons]
  omega

theorem openCalls_of_caller {s : Scopes} {caller : Frame} {callers : List Frame}
    (hc : s.callers = caller :: callers) (cells : Array Value) :
    s.openCalls =
      (s.frame.function, s.frame.resume) :: Scopes.openCalls ⟨caller, callers, cells⟩ := by
  rw [openCalls, frames, hc]
  rfl

theorem openCalls_congr {s s' : Scopes} (hf : s'.frame.function = s.frame.function)
    (hr : s'.frame.resume = s.frame.resume) (hc : s'.callers = s.callers) :
    s'.openCalls = s.openCalls := by
  cases hs : s.callers with
  | nil => rw [openCalls, openCalls, frames, frames, hc, hs]; rfl
  | cons caller callers =>
    rw [openCalls_of_caller hs #[], openCalls_of_caller (hc.trans hs) #[], hf, hr]

end Scopes

theorem Edits.openCalls {s s' : Scopes} (h : Edits s s') : s'.openCalls = s.openCalls := by
  obtain ⟨hf, hr⟩ := h.header
  exact Scopes.openCalls_congr hf hr h.callers

/-- What a transition logs apart from the trace, and how the open calls change with it. -/
inductive Transition.Notes (st : State) (t : Transition) : Prop
  | nothing : t.records = [] → t.state.scopes.openCalls = st.scopes.openCalls → Notes st t
  | enter {function : String} {line : Nat} {resume : Int} :
      t.records = [.enter function line resume] →
      t.state.scopes.openCalls = (function, resume) :: st.scopes.openCalls → Notes st t
  | leave {function : String} {resume : Int} :
      t.records = [.leave function resume] →
      st.scopes.openCalls = (function, resume) :: t.state.scopes.openCalls →
      t.state.ip = resume → Notes st t

section

variable {p : Program} {st : State} {here : Nat}

theorem notes_fail (problem : Problem) : (st.fail problem).Notes st :=
  .nothing rfl rfl

theorem notes_proceed (line : Nat) : (st.proceed line).Notes st :=
  .nothing rfl rfl

theorem notes_proceedInside (line : Nat) : (st.proceedInside line).Notes st :=
  .nothing rfl (Scopes.openCalls_congr rfl rfl rfl)

theorem notes_settle {f : Workspace → Effect}
    (hf : Edits st.scopes (f st.workspace).workspace.scopes) : (st.settle here f).Notes st := by
  unfold State.settle
  rcases hw : f st.workspace with ⟨w, problem?⟩
  rw [hw] at hf
  cases problem? with
  | none => exact .nothing rfl hf.openCalls
  | some problem => exact .nothing rfl hf.openCalls

theorem notes_declare (type : String) (names : List String) :
    (st.settle here (·.declare type names)).Notes st := by
  refine notes_settle ?_
  unfold Workspace.declare
  split
  next => exact .refl
  next v _ => exact st.scopes.edits_declareAll v names

theorem notes_assign (target : String) (expr : List String) :
    (st.settle here (·.assign target expr)).Notes st := by
  refine notes_settle ?_
  unfold Workspace.assign
  split
  next => exact .refl
  next slot v ha =>
    have hslot := (Scopes.lookup?_of_assignment ha).2
    exact .single (.store v (Frame.binds_of_find? hslot))

theorem notes_builtin (b : Builtin) (args : List String) :
    (st.settle here (·.builtin b args)).Notes st := by
  refine notes_settle ?_
  rcases st.workspace.scopes_builtin b args with hs | ⟨-, v, -, hs⟩
  · rw [hs]
    exact .refl
  · rw [hs]
    exact st.scopes.edits_setResult v

theorem notes_call (functions : FunctionTable) (name : String) (args : List String) :
    (st.call functions here name args).Notes st := by
  unfold State.call
  split
  next => exact notes_fail _
  next f _ =>
    split
    next => exact notes_fail _
    next values _ =>
      obtain ⟨hshape, hcallers⟩ := st.scopes.shape_enter f args values (here + 1)
      obtain ⟨hfunction, hresume, -⟩ := Frame.shape_eq.mp hshape
      have hcalls := Scopes.openCalls_of_caller hcallers st.scopes.cells
      rw [hfunction, hresume] at hcalls
      exact .enter rfl hcalls

theorem notes_giveBack (result? : Option Value) : (st.giveBack result?).Notes st := by
  cases hc : st.scopes.callers with
  | nil =>
    rw [State.giveBack_bottom hc]
    exact .nothing rfl rfl
  | cons caller callers =>
    rw [State.giveBack_caller hc]
    have hedits := Scopes.edits_handOver caller callers st.scopes.cells result?
    refine .leave rfl ?_ rfl
    rw [Scopes.openCalls_of_caller hc st.scopes.cells]
    exact congrArg (List.cons _) hedits.openCalls.symm

theorem notes_ret (functions : FunctionTable) (expr : List String) :
    (st.ret functions expr).Notes st := by
  unfold State.ret
  dsimp only
  split
  next => exact .nothing rfl rfl
  next =>
    split
    next => exact notes_giveBack _
    next =>
      split
      next => exact notes_fail _
      next => exact notes_giveBack _

theorem notes_popBlock {scopes : Scopes} (hp : st.scopes.popBlock? = some scopes) (line : Nat) :
    (State.proceed { st with workspace.scopes := scopes } line).Notes st := by
  have hedits : Edits st.scopes scopes := .single (.popBlock hp)
  exact .nothing rfl hedits.openCalls

theorem execute_notes (p : Program) (st : State) (here : Nat) (statement : Statement) :
    (st.execute p here statement).Notes st := by
  cases statement with
  | func name => exact notes_proceed _
  | nop => exact notes_proceed _
  | malformed omission => exact notes_fail _
  | var type names => exact notes_declare type names
  | assign target expr => exact notes_assign target expr
  | call name args =>
    simp only [State.execute]
    split
    next b _ => exact notes_builtin b args
    next => exact notes_call p.functions name args
  | endFunc => exact notes_giveBack _
  | ret expr => exact notes_ret p.functions expr
  | ifThen cond =>
    simp only [State.execute, State.ifThen]
    split
    next => exact notes_fail _
    next => exact notes_proceedInside _
    next =>
      split
      next => exact notes_fail _
      next => exact notes_proceedInside _
      next => exact notes_proceed _
  | orElse =>
    simp only [State.execute, State.orElse]
    split
    next => exact notes_fail _
    next => exact notes_proceed _
  | endIf =>
    simp only [State.execute, State.endIf]
    split
    next => exact notes_fail _
    next scopes hp => exact notes_popBlock hp _
  | whileDo cond =>
    simp only [State.execute, State.whileDo]
    split
    next => exact notes_fail _
    next => exact notes_proceedInside _
    next =>
      split
      next => exact notes_fail _
      next => exact notes_proceed _
  | endWhile =>
    simp only [State.execute, State.endWhile]
    split
    next => exact notes_fail _
    next =>
      split
      next => exact notes_fail _
      next scopes hp => exact notes_popBlock hp _

end

/-- A log up to a state: it is faithful, its open calls are those of the state, and where steps
are traced, a return that comes last has led to the line of the state. -/
structure State.Logged (o : Options) (st : State) (log : List LogRecord) : Prop where
  faithful : Faithful log
  calls : openCalls log = st.scopes.openCalls
  resumed : o.trace = true →
    ∀ function resume, log.getLast? = some (.leave function resume) → st.ip = resume
  unfinished : ∀ n, .finished n ∉ log

section

variable {p : Program} {o : Options} {st : State} {log : List LogRecord}

/-- The record of a step fits a log up to its state, and no return comes last behind it. -/
theorem State.Logged.trace (h : st.Logged o log) (statement : Statement) :
    Faithful (log ++ st.trace o statement) ∧
      openCalls (log ++ st.trace o statement) = st.scopes.openCalls ∧
      (o.trace = true → ∀ function resume,
        (log ++ st.trace o statement).getLast? ≠ some (.leave function resume)) ∧
      ∀ n, .finished n ∉ log ++ st.trace o statement := by
  unfold State.trace
  cases ht : o.trace with
  | false =>
    simp only [Bool.false_eq_true, ↓reduceIte, List.append_nil]
    exact ⟨h.faithful, h.calls, fun hn => hn.elim, h.unfinished⟩
  | true =>
    have hfits : (LogRecord.step st.ip statement st.scopes.depth).Fits log := by
      refine ⟨?_, h.resumed ht⟩
      rw [h.calls]
      exact st.scopes.length_openCalls
    simp only [↓reduceIte]
    refine ⟨h.faithful.concat hfits, ?_, fun _ function resume => by simp, fun n => ?_⟩
    · rw [openCalls_concat, h.calls]
      rfl
    · have hn := h.unfinished n
      simp [hn]

theorem State.Logged.step (h : st.Logged o log) :
    (st.step p o).state.Logged o (log ++ (st.step p o).records) := by
  unfold State.step
  split
  next =>
    rw [show (st.fail (.stepLimit st.steps)).records = [] from rfl, List.append_nil]
    exact h
  next =>
    split
    next =>
      rw [show st.tick.halt.records = [] from rfl, List.append_nil]
      exact ⟨h.faithful, h.calls, h.resumed, h.unfinished⟩
    next statement _ =>
      obtain ⟨hfaithful, hcalls, hlast, hunfinished⟩ := h.trace statement
      have hnotes := execute_notes p st st.ip.toNat statement
      simp only [← List.append_assoc]
      cases hnotes with
      | nothing hrecords hopen =>
        rw [hrecords, List.append_nil]
        -- Where steps are traced, the record of this step stands behind any return.
        refine ⟨hfaithful, hcalls.trans hopen.symm, fun ht function resume hl => ?_, hunfinished⟩
        exact absurd hl (hlast ht function resume)
      | enter hrecords hopen =>
        rw [hrecords]
        refine ⟨hfaithful.concat trivial, ?_, fun _ function resume => by simp, ?_⟩
        · rw [openCalls_concat, hcalls]
          exact hopen.symm
        · simpa using hunfinished
      | leave hrecords hopen hip =>
        rw [hrecords]
        refine ⟨hfaithful.concat ?_, ?_, fun _ function resume hl => ?_, ?_⟩
        · rw [LogRecord.Fits, hcalls, hopen]
          rfl
        · rw [openCalls_concat, hcalls, hopen]
          rfl
        · rw [List.getLast?_concat] at hl
          cases hl
          exact hip
        · simpa using hunfinished

theorem State.Logged.advance (h : st.Logged o log) (n : Nat) :
    (st.advance p o n).state.Logged o (log ++ (st.advance p o n).records) := by
  induction n generalizing st log with
  | zero =>
    rw [show (st.advance p o 0).records = [] from rfl, List.append_nil]
    exact h
  | succ n ih =>
    by_cases hs : (st.step p o).signal = .running
    · obtain ⟨hstate, -, hrecords⟩ := advance_running hs n
      rw [hstate, hrecords, ← List.append_assoc]
      exact ih h.step
    · rw [advance_stopped hs]
      exact h.step

theorem logged_start {console : Console} (hs : p.start console = .ok st) : st.Logged o [] := by
  unfold Program.start at hs
  split at hs
  next => cases hs
  next =>
    cases hs
    exact ⟨faithful_nil, rfl, by simp, by simp⟩

end

/-- The log of a run is faithful, and it says that the run has finished exactly if it has, and
then last. -/
structure Run.WellLogged (r : Run) : Prop where
  faithful : Faithful r.log.toList
  finished : (∃ n, .finished n ∈ r.log.toList) ↔ r.ending = .finished
  last : ∀ before n after, r.log.toList = before ++ .finished n :: after →
    after = [] ∧ n = r.steps

section

variable {p : Program} {o : Options} {st : State}

theorem State.Logged.stopped {log : Array LogRecord} (h : st.Logged o log.toList)
    (console : Console) (steps : Nat) {ending : Ending} (he : ending ≠ .finished) :
    Run.WellLogged ⟨console, steps, log, ending⟩ := by
  refine ⟨h.faithful, ⟨?_, fun hf => absurd hf he⟩, ?_⟩
  · rintro ⟨n, hn⟩
    exact absurd hn (h.unfinished n)
  · intro before n after hsplit
    have hmem : .finished n ∈ log.toList := by
      rw [hsplit]
      simp
    exact absurd hmem (h.unfinished n)

theorem State.Logged.finished {log : Array LogRecord} (h : st.Logged o log.toList)
    (console : Console) (steps : Nat) :
    Run.WellLogged ⟨console, steps, log.push (.finished steps), .finished⟩ := by
  have hlog : (log.push (.finished steps)).toList = log.toList ++ [.finished steps] :=
    Array.toList_push
  refine ⟨?_, ⟨fun _ => rfl, fun _ => ⟨steps, ?_⟩⟩, ?_⟩
  · rw [hlog]
    exact h.faithful.concat trivial
  · rw [hlog]
    exact List.mem_concat_self
  · intro before n after hsplit
    rw [hlog] at hsplit
    rcases concat_eq_append_cons hsplit with ⟨-, hrecord, hafter⟩ | ⟨rest, -, hbefore⟩
    · cases hrecord
      exact ⟨hafter, rfl⟩
    · have hmem : .finished n ∈ log.toList := by
        rw [hbefore]
        simp
      exact absurd hmem (h.unfinished n)

theorem wellLogged_runFor (p : Program) (o : Options) (console : Console) (fuel : Nat) :
    (p.runFor o console fuel).WellLogged := by
  unfold Program.runFor
  split
  next fault _ =>
    refine ⟨faithful_nil, ⟨by simp, Ending.noConfusion⟩, ?_⟩
    intro before n after hsplit
    simp at hsplit
  next st hs =>
    have hlogged : (st.advance p o fuel).state.Logged o
        ((#[] : Array LogRecord) ++ (st.advance p o fuel).records).toList := by
      rw [Array.toList_appendList]
      exact (logged_start hs).advance fuel
    rw [runFor_eq_advance]
    unfold Transition.run
    split
    next => exact hlogged.stopped _ _ Ending.noConfusion
    next => exact hlogged.finished _ _
    next => exact hlogged.stopped _ _ Ending.noConfusion

/-- Tracing adds records of steps and does nothing else. -/
theorem step_trace (p : Program) (limit : Int) (st : State) :
    (st.step p ⟨limit, true⟩).state = (st.step p ⟨limit, false⟩).state ∧
      (st.step p ⟨limit, true⟩).signal = (st.step p ⟨limit, false⟩).signal ∧
      (st.step p ⟨limit, false⟩).records =
        (st.step p ⟨limit, true⟩).records.filter (fun r => !r.isStep) := by
  have hexhausted : st.exhausted ⟨limit, true⟩ = st.exhausted ⟨limit, false⟩ := rfl
  unfold State.step
  rw [hexhausted]
  split
  next => exact ⟨rfl, rfl, rfl⟩
  next =>
    split
    next => exact ⟨rfl, rfl, rfl⟩
    next statement _ =>
      have hrecords : (st.execute p st.ip.toNat statement).records.filter (fun r => !r.isStep) =
          (st.execute p st.ip.toNat statement).records := by
        cases execute_notes p st st.ip.toNat statement with
        | nothing hrecords => rw [hrecords]; rfl
        | enter hrecords => rw [hrecords]; rfl
        | leave hrecords => rw [hrecords]; rfl
      exact ⟨rfl, rfl, hrecords.symm⟩

/-- The second run has logged its steps too; nothing else sets the two apart. -/
structure Run.TracedAs (plain traced : Run) : Prop where
  console : traced.console = plain.console
  steps : traced.steps = plain.steps
  ending : traced.ending = plain.ending
  log : plain.log = traced.log.filter fun r => !r.isStep

theorem runFor_tracedAs (p : Program) (limit : Int) (fuel : Nat) (st : State)
    (log : Array LogRecord) :
    (st.runFor p ⟨limit, false⟩ fuel (log.filter fun r => !r.isStep)).TracedAs
      (st.runFor p ⟨limit, true⟩ fuel log) := by
  induction fuel generalizing st log with
  | zero => exact ⟨rfl, rfl, rfl, rfl⟩
  | succ fuel ih =>
    obtain ⟨hstate, hsignal, hrecords⟩ := step_trace p limit st
    have hlog : (log.filter fun r => !r.isStep) ++ (st.step p ⟨limit, false⟩).records =
        (log ++ (st.step p ⟨limit, true⟩).records).filter fun r => !r.isStep := by
      rw [hrecords]
      apply Array.ext'
      simp
    cases hs : (st.step p ⟨limit, false⟩).signal with
    | running =>
      simp only [State.runFor, hsignal, hs, hstate, hlog]
      exact ih _ _
    | halted =>
      simp only [State.runFor, hsignal, hs, hstate, hlog]
      refine ⟨rfl, rfl, rfl, ?_⟩
      apply Array.ext'
      simp [LogRecord.isStep]
    | failed fault =>
      simp only [State.runFor, hsignal, hs, hstate, hlog]
      exact ⟨rfl, rfl, rfl, rfl⟩

end

/-- A verbose session writes the listing of its program and a heading first. -/
theorem Session.run_verbose (file text : String) (colored : Bool) (o : Options) (input : String)
    (fuel : Nat) :
    run ⟨file, .ok text, true, colored, o⟩ input fuel =
      { run ⟨file, .ok text, false, colored, o⟩ input fuel with
        stdout := listing colored (Program.load (splitLines text)) ++
          paint colored .green "\n=== Program Output ===" ++ "\n" ++
          (run ⟨file, .ok text, false, colored, o⟩ input fuel).stdout } := by
  have hsilent : ∀ p, header ⟨file, .ok text, false, colored, o⟩ p = "" := fun p => rfl
  simp only [run, hsilent, String.empty_append]
  cases ((Program.load (splitLines text)).runFor o (.ofInput input) fuel).ending with
  | finished => rfl
  | unfinished => rfl
  | failed fault => rfl

/-- Watching a run does not change it: with and without a trace it comes to the same, and its log
tells of the calls as they are. A verbose session adds what it writes in front, and only that. -/
theorem run_observed (limit : Int) (fuel : Nat) :
    (∀ (p : Program) (console : Console),
      (p.runFor ⟨limit, false⟩ console fuel).TracedAs (p.runFor ⟨limit, true⟩ console fuel) ∧
      ∀ trace, (p.runFor ⟨limit, trace⟩ console fuel).WellLogged ∧
        ∀ st, p.start console = .ok st →
          openCalls (st.advance p ⟨limit, trace⟩ fuel).records =
            (st.advance p ⟨limit, trace⟩ fuel).state.scopes.openCalls) ∧
    ∀ (file text : String) (colored trace : Bool) (input : String),
      (Session.run ⟨file, .ok text, true, colored, ⟨limit, trace⟩⟩ input fuel).stdout =
        listing colored (Program.load (splitLines text)) ++
          paint colored .green "\n=== Program Output ===" ++ "\n" ++
          (Session.run ⟨file, .ok text, false, colored, ⟨limit, trace⟩⟩ input fuel).stdout ∧
      (Session.run ⟨file, .ok text, true, colored, ⟨limit, trace⟩⟩ input fuel).error? =
        (Session.run ⟨file, .ok text, false, colored, ⟨limit, trace⟩⟩ input fuel).error? ∧
      (Session.run ⟨file, .ok text, true, colored, ⟨limit, trace⟩⟩ input fuel).stderr =
        (Session.run ⟨file, .ok text, false, colored, ⟨limit, trace⟩⟩ input fuel).stderr ∧
      (Session.run ⟨file, .ok text, true, colored, ⟨limit, trace⟩⟩ input fuel).log =
        (Session.run ⟨file, .ok text, false, colored, ⟨limit, trace⟩⟩ input fuel).log := by
  refine ⟨fun p console => ⟨?_, fun trace => ⟨?_, fun st hs => ?_⟩⟩, ?_⟩
  · unfold Program.runFor
    cases p.start console with
    | error fault => exact ⟨rfl, rfl, rfl, rfl⟩
    | ok st => exact runFor_tracedAs p limit fuel st #[]
  · exact wellLogged_runFor p ⟨limit, trace⟩ console fuel
  · exact ((logged_start hs).advance fuel).calls
  · intro file text colored trace input
    rw [Session.run_verbose]
    exact ⟨rfl, rfl, rfl, rfl⟩

/-- The state in which the sample with a call starts. -/
def addOneStart : State :=
  { ip := 0, workspace := { scopes := .start mainFunction noLine, console := .ofInput "" } }

theorem run_observed_addOne :
    addOne.start (.ofInput "") = .ok addOneStart ∧
      openCalls (addOneStart.advance addOne ⟨0, true⟩ 4).records = [("take", 3)] := by
  have hmain : addOne.functions.entryLine? mainFunction = some 0 := by
    decide +kernel
  have hstart : addOne.start (.ofInput "") = .ok addOneStart := by
    rw [Program.start, hmain]
    rfl
  have hcalls := (((run_observed 0 4).1 addOne (.ofInput "")).2 true).2 _ hstart
  refine ⟨hstart, hcalls.trans ?_⟩
  decide +kernel

end Brewin
