import Brewin.Proofs.FrameShape
import Brewin.Proofs.Suspended

namespace Brewin

/-- The states that a run can come to. Each step leads on, also one that fails or halts. -/
inductive Reachable (p : Program) (o : Options) (console : Console) : State → Prop
  | start {st : State} : p.start console = .ok st → Reachable p o console st
  | next {st : State} : Reachable p o console st → Reachable p o console (st.step p o).state

theorem reachable_main {p : Program} {line : Nat} (o : Options) (console : Console)
    (h : p.functions.entryLine? mainFunction = some line) :
    Reachable p o console
      { ip := line, workspace := { scopes := .start mainFunction noLine, console } } :=
  .start (by simp only [Program.start, h])

theorem Reachable.advance {p : Program} {o : Options} {console : Console} {st : State}
    (h : Reachable p o console st) (n : Nat) :
    Reachable p o console (st.advance p o n).state := by
  induction n generalizing st with
  | zero => exact h
  | succ n ih =>
    unfold State.advance
    cases hs : (st.step p o).signal with
    | running => simpa only [hs] using ih h.next
    | halted => simpa only [hs] using h.next
    | failed fault => simpa only [hs] using h.next

theorem exists_line_of_at? {p : Program} {ip : Int} {statement : Statement}
    (h : p.at? ip = some statement) : ∃ here : Nat, ip = here := by
  cases ip with
  | ofNat n => exact ⟨n, rfl⟩
  | negSucc n => cases h

/-- What a function gives back: the value of a return, or the zero of its type. -/
inductive GivenBack (p : Program) (s : Scopes) : Statement → Option Value → Prop
  | atEnd : GivenBack p s .endFunc (p.functions.defaultResult? s.frame.function)
  | bare : GivenBack p s (.ret []) (p.functions.defaultResult? s.frame.function)
  | value {expr : List String} {v : Value} : expr ≠ [] → s.evaluate expr = .ok v →
      Kind.ofName? (p.functions.returnType s.frame.function) = some v.kind →
      GivenBack p s (.ret expr) (some v)

/-- All that a step can do to the variables, and the line to which it leads. -/
inductive Move (p : Program) (here : Nat) (s : Scopes) : Statement → Int → Scopes → Prop
  | pass : Move p here s .nop (here + 1) s
  | func {name : String} : Move p here s (.func name) (here + 1) s
  | declare {type : String} {names : List String} {v : Value} :
      (Kind.ofName? type).bind Kind.zero? = some v → (s.declareAll v names).2 = none →
      Move p here s (.var type names) (here + 1) (s.declareAll v names).1
  | declareSome {type : String} {names : List String} {v : Value} {problem : Problem} :
      (Kind.ofName? type).bind Kind.zero? = some v → (s.declareAll v names).2 = some problem →
      Move p here s (.var type names) here (s.declareAll v names).1
  | assign {target : String} {expr : List String} {slot : Slot} {v : Value} :
      s.assignment target expr = .ok (slot, v) →
      Move p here s (.assign target expr) (here + 1) (s.store slot v)
  | builtin {name : String} {args : List String} {b : Builtin} :
      Builtin.ofName? name = some b → Move p here s (.call name args) (here + 1) s
  | result {name : String} {args : List String} {b : Builtin} {v : Value} :
      Builtin.ofName? name = some b → v.kind = .string ∨ v.kind = .int →
      Move p here s (.call name args) (here + 1) (s.setResult v)
  | enter {name : String} {args : List String} {f : Definition} {values : List Value} :
      Builtin.ofName? name = none → p.functions.find? name = some f →
      s.arguments f args = .ok values →
      Move p here s (.call name args) f.line (s.enter f args values (here + 1))
  | leave {statement : Statement} {result? : Option Value} {caller : Frame}
      {callers : List Frame} :
      s.callers = caller :: callers → GivenBack p s statement result? →
      Move p here s statement s.frame.resume (.handOver caller callers s.cells result?)
  | intoThen {cond : List String} : Move p here s (.ifThen cond) (here + 1) s.pushBlock
  | intoElse {cond : List String} {elseLine endLine : Nat} :
      p.flow.branch? here = some ⟨some elseLine, endLine⟩ →
      Move p here s (.ifThen cond) (elseLine + 1 : Nat) s.pushBlock
  | pastIf {cond : List String} {endLine : Nat} :
      p.flow.branch? here = some ⟨none, endLine⟩ →
      Move p here s (.ifThen cond) (endLine + 1 : Nat) s
  | orElse {endLine : Nat} :
      p.flow.elseEnd? here = some endLine → Move p here s .orElse endLine s
  | endIf {s' : Scopes} : s.popBlock? = some s' → Move p here s .endIf (here + 1) s'
  | intoLoop {cond : List String} : Move p here s (.whileDo cond) (here + 1) s.pushBlock
  | pastLoop {cond : List String} {endLine : Nat} :
      p.flow.loopPartner? here = some endLine →
      Move p here s (.whileDo cond) (endLine + 1 : Nat) s
  | endWhile {start : Nat} {s' : Scopes} :
      p.flow.loopPartner? here = some start → s.popBlock? = some s' →
      Move p here s .endWhile start s'

/-- A transition from a state changes nothing that a later step can see. -/
def Transition.Stays (t : Transition) (st : State) : Prop :=
  t.state.ip = st.ip ∧ t.state.scopes = st.scopes ∧ t.signal ≠ .running

section

variable {p : Program} {st : State} {here : Nat}

theorem fail_stays (problem : Problem) : (st.fail problem).Stays st :=
  ⟨rfl, rfl, by simp [State.fail]⟩

theorem settle_moves {statement : Statement} {f : Workspace → Effect}
    (hs : (f st.workspace).problem? ≠ none → (f st.workspace).workspace.scopes = st.scopes)
    (hm : (f st.workspace).problem? = none →
      Move p here st.scopes statement (here + 1) (f st.workspace).workspace.scopes) :
    (st.settle here f).Stays st ∨
      Move p here st.scopes statement (st.settle here f).state.ip
        (st.settle here f).state.scopes := by
  unfold State.settle
  rcases hf : f st.workspace with ⟨w, problem?⟩
  rw [hf] at hs hm
  cases problem? with
  | none => exact Or.inr (hm rfl)
  | some problem => exact Or.inl ⟨rfl, hs (by simp), by simp [State.fail]⟩

theorem declare_moves (hip : st.ip = here) (type : String) (names : List String) :
    (st.settle here (·.declare type names)).Stays st ∨
      Move p here st.scopes (.var type names) (st.settle here (·.declare type names)).state.ip
        (st.settle here (·.declare type names)).state.scopes := by
  unfold State.settle Workspace.declare
  cases hz : (Kind.ofName? type).bind Kind.zero? with
  | none => exact Or.inl (fail_stays _)
  | some v =>
    right
    rcases hd : st.workspace.scopes.declareAll v names with ⟨s', problem?⟩
    have h1 : s' = (st.scopes.declareAll v names).1 := (congrArg Prod.fst hd).symm
    have h2 : (st.scopes.declareAll v names).2 = problem? := congrArg Prod.snd hd
    cases problem? with
    | none =>
      simp only [hd]
      rw [h1]
      exact .declare hz h2
    | some problem =>
      simp only [hd]
      rw [h1]
      change Move p here st.scopes _ st.ip _
      rw [hip]
      exact .declareSome hz h2

theorem giveBack_moves {statement : Statement} {result? : Option Value}
    (hg : GivenBack p st.scopes statement result?) :
    (st.giveBack result?).Stays st ∨
      Move p here st.scopes statement (st.giveBack result?).state.ip
        (st.giveBack result?).state.scopes := by
  cases hc : st.scopes.callers with
  | nil =>
    rw [State.giveBack_bottom hc]
    exact Or.inl ⟨rfl, rfl, by simp [State.halt]⟩
  | cons caller callers =>
    rw [State.giveBack_caller hc]
    exact Or.inr (.leave hc hg)

theorem exists_of_bind_eq_ok {α β : Type} {r : Except Problem α} {f : α → Except Problem β} {b : β}
    (h : (r >>= f) = .ok b) : ∃ a, r = .ok a ∧ f a = .ok b := by
  cases r with
  | error problem => cases h
  | ok a => exact ⟨a, rfl, h⟩

theorem ret_moves (expr : List String) :
    (st.ret p.functions expr).Stays st ∨
      Move p here st.scopes (.ret expr) (st.ret p.functions expr).state.ip
        (st.ret p.functions expr).state.scopes := by
  unfold State.ret
  dsimp only
  split
  next => exact Or.inl ⟨rfl, rfl, by simp [State.halt]⟩
  next =>
    split
    next he =>
      cases List.isEmpty_iff.mp he
      exact giveBack_moves .bare
    next he =>
      split
      next problem _ => exact Or.inl (fail_stays problem)
      next v hv =>
        obtain ⟨w, hw, hc⟩ := exists_of_bind_eq_ok hv
        unfold FunctionTable.checkResult at hc
        split at hc
        next hk =>
          cases hc
          exact giveBack_moves (.value (by simpa using he) hw hk)
        next => cases hc

theorem call_moves {name : String} (hb : Builtin.ofName? name = none) (args : List String) :
    (st.call p.functions here name args).Stays st ∨
      Move p here st.scopes (.call name args) (st.call p.functions here name args).state.ip
        (st.call p.functions here name args).state.scopes := by
  unfold State.call
  split
  next => exact Or.inl (fail_stays _)
  next f hf =>
    split
    next => exact Or.inl (fail_stays _)
    next values hv => exact Or.inr (.enter hb hf hv)

theorem execute_moves (hip : st.ip = here) (statement : Statement) :
    (st.execute p here statement).Stays st ∨
      Move p here st.scopes statement (st.execute p here statement).state.ip
        (st.execute p here statement).state.scopes := by
  cases statement with
  | func name => exact Or.inr .func
  | nop => exact Or.inr .pass
  | endFunc => exact giveBack_moves .atEnd
  | ret expr => exact ret_moves expr
  | malformed omission => exact Or.inl (fail_stays _)
  | var type names => exact declare_moves hip type names
  | assign target expr =>
    simp only [State.execute, State.settle, Workspace.assign]
    cases ha : st.workspace.scopes.assignment target expr with
    | error problem => exact Or.inl (fail_stays problem)
    | ok result => exact Or.inr (.assign ha)
  | call name args =>
    simp only [State.execute]
    split
    next b hb =>
      rcases st.workspace.scopes_builtin b args with hs | ⟨hn, v, hk, hs⟩
      · refine settle_moves (fun _ => hs) fun _ => ?_
        rw [hs]
        exact .builtin hb
      · refine settle_moves (fun h => absurd hn h) fun _ => ?_
        rw [hs]
        exact .result hb hk
    next hb => exact call_moves hb args
  | ifThen cond =>
    simp only [State.execute, State.ifThen]
    split
    next => exact Or.inl (fail_stays _)
    next => exact Or.inr .intoThen
    next =>
      split
      next => exact Or.inl (fail_stays _)
      next elseLine endLine hf => exact Or.inr (.intoElse hf)
      next endLine hf => exact Or.inr (.pastIf hf)
  | orElse =>
    simp only [State.execute, State.orElse]
    split
    next => exact Or.inl (fail_stays _)
    next endLine hf => exact Or.inr (.orElse hf)
  | endIf =>
    simp only [State.execute, State.endIf]
    split
    next => exact Or.inl (fail_stays _)
    next scopes hs => exact Or.inr (.endIf hs)
  | whileDo cond =>
    simp only [State.execute, State.whileDo]
    split
    next => exact Or.inl (fail_stays _)
    next => exact Or.inr .intoLoop
    next =>
      split
      next => exact Or.inl (fail_stays _)
      next endLine hf => exact Or.inr (.pastLoop hf)
  | endWhile =>
    simp only [State.execute, State.endWhile]
    split
    next => exact Or.inl (fail_stays _)
    next start hf =>
      split
      next => exact Or.inl (fail_stays _)
      next scopes hs => exact Or.inr (.endWhile hf hs)

/-- A step changes neither line nor variables, or it makes one of the moves. -/
theorem step_moves (p : Program) (o : Options) (st : State) :
    (st.step p o).Stays st ∨ ∃ (here : Nat) (statement : Statement), st.ip = here ∧
      p.at? here = some statement ∧
      Move p here st.scopes statement (st.step p o).state.ip (st.step p o).state.scopes := by
  unfold State.step
  split
  next => exact Or.inl (fail_stays _)
  next =>
    split
    next => exact Or.inl ⟨rfl, rfl, by simp [State.halt]⟩
    next statement hat =>
      obtain ⟨here, hip⟩ := exists_line_of_at? hat
      have hto : st.ip.toNat = here := by rw [hip]; rfl
      rw [hto]
      rcases execute_moves (p := p) hip statement with ⟨h1, h2, h3⟩ | h
      · exact Or.inl ⟨h1, h2, h3⟩
      · exact Or.inr ⟨here, statement, hip, by rwa [hip] at hat, h⟩

end

end Brewin
