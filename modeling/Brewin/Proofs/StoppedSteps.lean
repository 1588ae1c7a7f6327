import Brewin.Proofs.CallStack
import Brewin.Proofs.FaultOrigins
import Brewin.Proofs.RunPrefix
import Brewin.Proofs.Spots

namespace Brewin

theorem Frame.innermost_insert (f : Frame) (name : String) (slot : Slot) :
    (f.insert name slot).innermost = f.innermost.insert name slot := by
  cases hi : f.inner with
  | nil => simp [insert, innermost, hi]
  | cons b bs => simp [insert, innermost, hi]

theorem Frame.binds_innermost_insert (f : Frame) (name other : String) (slot : Slot) :
    (f.insert name slot).innermost.binds other =
      (decide (other = name) || f.innermost.binds other) := by
  rw [innermost_insert, Block.binds, Block.find?_insert]
  by_cases h : other = name
  · simp [h]
  · simp [h, Block.binds]

/-- The names have been declared in the running block, each with the value in a cell of its own,
and nothing else is different. -/
structure Scopes.Declares (s s' : Scopes) (names : List String) (v : Value) : Prop where
  callers : s'.callers = s.callers
  shape : s'.frame.shape = s.frame.shape
  declared : ∀ x ∈ names, ∃ slot, s'.frame.slotAt? s.frame.inner.length x = some slot ∧
    slot.alias? = none ∧ s.cells.size ≤ slot.cell ∧ s'.cells[slot.cell]? = some v
  others : ∀ level x, ¬ (level = s.frame.inner.length ∧ x ∈ names) →
    s'.frame.slotAt? level x = s.frame.slotAt? level x
  cells : ∀ c < s.cells.size, s'.cells[c]? = s.cells[c]?

namespace Scopes

theorem Declares.refl (s : Scopes) (v : Value) : s.Declares s [] v :=
  ⟨rfl, rfl, by simp, fun _ _ _ => rfl, fun _ _ => rfl⟩

theorem Declares.cons {s s' : Scopes} {name : String} {names : List String} {v : Value}
    (h : (s.bind name v).Declares s' names v) : s.Declares s' (name :: names) v := by
  have hsize : (s.bind name v).cells.size = s.cells.size + 1 := Array.size_push v
  have hshape : (s.bind name v).frame.shape = s.frame.shape := s.frame.shape_insert name _
  obtain ⟨-, -, hinner⟩ := Frame.shape_eq.mp hshape
  have hslot := s.frame.slotAt?_insert name (.fresh s.cells)
  have hdeclared := h.declared
  have hothers := h.others
  have hcells := h.cells
  rw [hinner] at hdeclared hothers
  refine ⟨h.callers, h.shape.trans hshape, ?_, ?_, ?_⟩
  · intro x hx
    by_cases hmem : x ∈ names
    · obtain ⟨slot, hs, ha, hc, hv⟩ := hdeclared x hmem
      exact ⟨slot, hs, ha, by omega, hv⟩
    · -- The first name is not declared again behind, so it keeps the cell that it gets here.
      have hname : x = name := (List.mem_cons.mp hx).resolve_right hmem
      subst hname
      refine ⟨.fresh s.cells, ?_, rfl, Nat.le_refl _, ?_⟩
      · have hfirst := hslot s.frame.inner.length x
        rw [if_pos ⟨rfl, rfl⟩] at hfirst
        exact (hothers _ x (by simp [hmem])).trans hfirst
      · have hlast : (s.cells.push v)[s.cells.size]? = some v := by simp
        exact (hcells s.cells.size (by omega)).trans hlast
  · intro level x hx
    have hnot : ¬ (level = s.frame.inner.length ∧ x = name) :=
      fun hspot => hx ⟨hspot.1, by simp [hspot.2]⟩
    have hold := hslot level x
    rw [if_neg hnot] at hold
    exact (hothers level x fun hspot => hx ⟨hspot.1, List.mem_cons_of_mem _ hspot.2⟩).trans hold
  · intro c hc
    have hold : (s.cells.push v)[c]? = s.cells[c]? := by
      rw [Array.getElem?_push, if_neg (by omega)]
    exact (hcells c (by omega)).trans hold

/-- A declaration that fails has declared the names in front of the first duplicate. -/
theorem declareAll_duplicate {s : Scopes} {v : Value} {names : List String} {problem : Problem}
    (h : (s.declareAll v names).2 = some problem) :
    ∃ before name after, names = before ++ name :: after ∧ problem = .duplicateName name ∧
      before.Nodup ∧ (∀ x ∈ before, s.frame.innermost.binds x = false) ∧
      (name ∈ before ∨ s.frame.innermost.binds name = true) ∧
      s.Declares (s.declareAll v names).1 before v := by
  induction names generalizing s with
  | nil => cases h
  | cons x names ih =>
    unfold declareAll at h ⊢
    split
    next hx =>
      rw [if_pos hx] at h
      cases h
      exact ⟨[], x, names, rfl, rfl, .nil, by simp, Or.inr hx, .refl s v⟩
    next hx =>
      rw [if_neg hx] at h
      obtain ⟨before, name, after, rfl, rfl, hnodup, hfresh, hdup, hdecl⟩ := ih h
      have hbinds := s.frame.binds_innermost_insert x
      have hfree : ∀ y ∈ before, y ≠ x ∧ s.frame.innermost.binds y = false := by
        intro y hy
        have hy' : (s.frame.insert x (.fresh s.cells)).innermost.binds y = false := hfresh y hy
        simpa [hbinds] using hy'
      refine ⟨x :: before, name, after, rfl, rfl, ?_, ?_, ?_, hdecl.cons⟩
      · exact List.nodup_cons.mpr ⟨fun hmem => (hfree x hmem).1 rfl, hnodup⟩
      · intro y hy
        rcases List.mem_cons.mp hy with rfl | hy
        · simpa using hx
        · exact (hfree y hy).2
      · rcases hdup with hmem | hdup
        · exact Or.inl (List.mem_cons_of_mem _ hmem)
        · have hname : (s.frame.insert x (.fresh s.cells)).innermost.binds name = true := hdup
          rw [hbinds, Bool.or_eq_true, decide_eq_true_iff] at hname
          rcases hname with rfl | hname
          · exact Or.inl (by simp)
          · exact Or.inr hname

end Scopes

/-- An effect that fails changes nothing. -/
def Effect.Clean (e : Effect) (w : Workspace) : Prop :=
  e.problem? = none ∨ e.workspace = w

namespace Workspace

variable (w : Workspace)

theorem clean_assign (target : String) (expr : List String) :
    (w.assign target expr).Clean w := by
  unfold assign
  split
  next => exact Or.inr rfl
  next => exact Or.inl rfl

theorem clean_print (args : List String) : (w.print args).Clean w := by
  unfold print
  split
  next => exact Or.inr rfl
  next =>
    split
    next => exact Or.inl rfl
    next => exact Or.inr rfl

theorem clean_strToInt (args : List String) : (w.strToInt args).Clean w := by
  unfold strToInt
  split
  next =>
    split
    next => exact Or.inr rfl
    next =>
      split
      next => exact Or.inr rfl
      next => exact Or.inl rfl
    next => exact Or.inr rfl
  next => exact Or.inr rfl

end Workspace

/-- The ways in which a statement can stop the run. -/
inductive Stop (st : State) : Statement → Transition → Prop
  | halt {statement : Statement} : st.scopes.callers = [] →
      statement = .endFunc ∨ (∃ expr, statement = .ret expr) → Stop st statement st.halt
  | fail {statement : Statement} {problem : Problem} : problem.late = false →
      (∀ n, problem ≠ .stepLimit n) → Stop st statement (st.fail problem)
  | duplicate {type : String} {names : List String} {v : Value} {problem : Problem} :
      (Kind.ofName? type).bind Kind.zero? = some v →
      (st.scopes.declareAll v names).2 = some problem →
      Stop st (.var type names)
        ({ st with workspace.scopes := (st.scopes.declareAll v names).1 }.fail problem)
  | unread {name prompt : String} {args : List String} {failure : ReadFailure}
      {console : Console} : Builtin.ofName? name = some .input →
      st.scopes.joined args = .ok prompt →
      (st.console.writeLine prompt).readLine = (.error failure, console) →
      Stop st (.call name args)
        ({ st with workspace.console := console }.fail (.readFailed failure))

section

variable {p : Program} {st : State} {here : Nat} {statement : Statement}

theorem stop_early {problem : Problem} (h : problem.early = true) :
    Stop st statement (st.fail problem) :=
  .fail (Problem.late_of_early h) (Problem.ne_stepLimit (Problem.plain_of_early h))

/-- The transition goes on, or it stops the run in one of the ways. -/
def Transition.GoesOrStops (t : Transition) (st : State) (statement : Statement) : Prop :=
  t.signal = .running ∨ Stop st statement t

theorem declare_stops (type : String) (names : List String) :
    (st.settle here (·.declare type names)).GoesOrStops st (.var type names) := by
  unfold State.settle Workspace.declare
  cases hz : (Kind.ofName? type).bind Kind.zero? with
  | none => exact Or.inr (stop_early rfl)
  | some v =>
    rcases hd : st.workspace.scopes.declareAll v names with ⟨s', problem?⟩
    cases problem? with
    | none =>
      left
      simp only [hd]
      rfl
    | some problem =>
      right
      have h1 : (st.scopes.declareAll v names).1 = s' := congrArg Prod.fst hd
      have h2 : (st.scopes.declareAll v names).2 = some problem := congrArg Prod.snd hd
      have hstop : Stop st _ _ := .duplicate hz h2
      rw [h1] at hstop
      simp only [hd]
      exact hstop

theorem settle_stops {f : Workspace → Effect} (hp : (f st.workspace).Early)
    (hc : (f st.workspace).Clean st.workspace) :
    (st.settle here f).GoesOrStops st statement := by
  unfold State.settle
  rcases he : f st.workspace with ⟨w, problem?⟩
  rw [he] at hp hc
  cases problem? with
  | none => exact Or.inl rfl
  | some problem =>
    have hw : w = st.workspace := hc.resolve_left (by simp)
    subst hw
    exact Or.inr (stop_early (hp problem rfl))

theorem input_stops {name : String} (hb : Builtin.ofName? name = some .input)
    (args : List String) :
    (st.settle here (·.input args)).GoesOrStops st (.call name args) := by
  have hp := st.workspace.scopes.early_joined args
  simp only [State.settle, Workspace.input]
  cases hj : st.workspace.scopes.joined args with
  | error problem => exact Or.inr (stop_early (hp problem hj))
  | ok prompt =>
    cases hw : st.workspace.console.canWrite with
    | false => exact Or.inr (stop_early rfl)
    | true =>
      rcases hr : (st.workspace.console.writeLine prompt).readLine with ⟨failure | line, console⟩
      · right
        simp only [hr]
        exact .unread hb hj hr
      · left
        simp only [hr, ↓reduceIte]
        rfl

theorem giveBack_stops (result? : Option Value)
    (h : statement = .endFunc ∨ ∃ expr, statement = .ret expr) :
    (st.giveBack result?).GoesOrStops st statement := by
  cases hc : st.scopes.callers with
  | nil =>
    rw [State.giveBack_bottom hc]
    exact Or.inr (.halt hc h)
  | cons caller callers =>
    rw [State.giveBack_caller hc]
    exact Or.inl rfl

theorem ret_stops (expr : List String) :
    (st.ret p.functions expr).GoesOrStops st (.ret expr) := by
  have hp : Early (st.scopes.evaluate expr >>=
      p.functions.checkResult st.scopes.frame.function) :=
    (st.scopes.early_evaluate expr).bind fun v => early_checkResult _ _ v
  unfold State.ret
  dsimp only
  split
  next hc => exact Or.inr (.halt (List.isEmpty_iff.mp hc) (Or.inr ⟨expr, rfl⟩))
  next =>
    split
    next => exact giveBack_stops _ (Or.inr ⟨expr, rfl⟩)
    next =>
      split
      next problem he => exact Or.inr (stop_early (hp problem he))
      next => exact giveBack_stops _ (Or.inr ⟨expr, rfl⟩)

theorem call_stops (name : String) (args : List String) :
    (st.call p.functions here name args).GoesOrStops st statement := by
  unfold State.call
  split
  next => exact Or.inr (stop_early rfl)
  next f _ =>
    split
    next problem ha => exact Or.inr (stop_early (st.scopes.early_arguments f args problem ha))
    next => exact Or.inl rfl

theorem execute_stops (p : Program) (st : State) (here : Nat) (statement : Statement) :
    (st.execute p here statement).GoesOrStops st statement := by
  have hc := st.scopes.early_condition
  cases statement with
  | func name => exact Or.inl rfl
  | nop => exact Or.inl rfl
  | var type names => exact declare_stops type names
  | assign target expr =>
    exact settle_stops (st.workspace.early_assign target expr) (st.workspace.clean_assign _ _)
  | call name args =>
    simp only [State.execute]
    split
    next b hb =>
      cases b with
      | print =>
        exact settle_stops (st.workspace.early_print args) (st.workspace.clean_print args)
      | input => exact input_stops hb args
      | strToInt =>
        exact settle_stops (st.workspace.early_strToInt args) (st.workspace.clean_strToInt args)
    next => exact call_stops name args
  | endFunc => exact giveBack_stops _ (Or.inl rfl)
  | ret expr => exact ret_stops expr
  | malformed omission => exact Or.inr (stop_early rfl)
  | ifThen cond =>
    simp only [State.execute, State.ifThen]
    split
    next problem he => exact Or.inr (stop_early (hc cond problem he))
    next => exact Or.inl rfl
    next =>
      split
      next => exact Or.inr (.fail rfl (by simp))
      next => exact Or.inl rfl
      next => exact Or.inl rfl
  | orElse =>
    simp only [State.execute, State.orElse]
    split
    next => exact Or.inr (.fail rfl (by simp))
    next => exact Or.inl rfl
  | endIf =>
    simp only [State.execute, State.endIf]
    split
    next => exact Or.inr (.fail rfl (by simp))
    next => exact Or.inl rfl
  | whileDo cond =>
    simp only [State.execute, State.whileDo]
    split
    next problem he => exact Or.inr (stop_early (hc cond problem he))
    next => exact Or.inl rfl
    next =>
      split
      next => exact Or.inr (.fail rfl (by simp))
      next => exact Or.inl rfl
  | endWhile =>
    simp only [State.execute, State.endWhile]
    split
    next => exact Or.inr (.fail rfl (by simp))
    next =>
      split
      next => exact Or.inr (.fail rfl (by simp))
      next => exact Or.inl rfl

/-- A step that stops is forbidden by the limit, stands behind the program, or is stopped by its
statement. -/
theorem step_stops {o : Options} (h : (st.step p o).signal ≠ .running) :
    (st.exhausted o = true ∧ st.step p o = st.fail (.stepLimit st.steps)) ∨
      st.exhausted o = false ∧ p.at? st.ip = none ∧ st.step p o = st.tick.halt ∨
      ∃ statement t, p.at? st.ip = some statement ∧ Stop st statement t ∧
        (st.step p o).state = t.state.tick ∧ (st.step p o).signal = t.signal := by
  unfold State.step at h ⊢
  cases hx : st.exhausted o with
  | true => exact Or.inl ⟨rfl, rfl⟩
  | false =>
    right
    cases hat : p.at? st.ip with
    | none => exact Or.inl ⟨rfl, rfl, rfl⟩
    | some statement =>
      rcases execute_stops p st st.ip.toNat statement with hr | hs
      · simp only [hx, hat] at h
        exact absurd hr h
      · exact Or.inr ⟨statement, _, rfl, hs, rfl, rfl⟩

variable {t : Transition}

theorem Stop.ip_steps (h : Stop st statement t) :
    t.state.ip = st.ip ∧ t.state.steps = st.steps := by
  cases h <;> exact ⟨rfl, rfl⟩

theorem Stop.fault (h : Stop st statement t) {fault : Fault} (hf : t.signal = .failed fault) :
    fault.line = st.ip ∧ ∀ n, fault.problem ≠ .stepLimit n := by
  cases h with
  | halt => cases hf
  | fail _ hp =>
    cases hf
    exact ⟨rfl, hp⟩
  | duplicate _ hd =>
    cases hf
    exact ⟨rfl, Problem.ne_stepLimit (st.scopes.plain_declareAll _ _ _ hd)⟩
  | unread =>
    cases hf
    exact ⟨rfl, by simp⟩

theorem Stop.halted (h : Stop st statement t) (ht : t.signal = .halted) :
    t.state = st ∧ st.scopes.callers = [] ∧
      (statement = .endFunc ∨ ∃ expr, statement = .ret expr) := by
  cases h with
  | halt hc hs => exact ⟨rfl, hc, hs⟩
  | fail => cases ht
  | duplicate => cases ht
  | unread => cases ht

/-- Only a declaration with a duplicate changes variables. -/
theorem Stop.scopes (h : Stop st statement t)
    (hd : ∀ line name, t.signal ≠ .failed ⟨line, .duplicateName name⟩) :
    t.state.scopes = st.scopes := by
  cases h with
  | halt => rfl
  | fail => rfl
  | unread => rfl
  | duplicate _ hdup =>
    obtain ⟨_, name, _, _, rfl, -⟩ := Scopes.declareAll_duplicate hdup
    exact absurd rfl (hd st.ip name)

/-- A duplicate comes from a declaration, which has declared the names in front of it. -/
theorem Stop.duplicated (h : Stop st statement t) {line : Int} {name : String}
    (hf : t.signal = .failed ⟨line, .duplicateName name⟩) :
    ∃ type before after v, statement = .var type (before ++ name :: after) ∧
      (Kind.ofName? type).bind Kind.zero? = some v ∧
      before.Nodup ∧ (∀ x ∈ before, st.scopes.frame.innermost.binds x = false) ∧
      (name ∈ before ∨ st.scopes.frame.innermost.binds name = true) ∧
      st.scopes.Declares t.state.scopes before v := by
  cases h with
  | halt => cases hf
  | fail hp =>
    cases hf
    cases hp
  | unread => cases hf
  | @duplicate type names v _ hz hdup =>
    obtain ⟨before, _, after, rfl, rfl, hnodup, hfresh, hrepeat, hdecl⟩ :=
      Scopes.declareAll_duplicate hdup
    cases hf
    exact ⟨type, before, after, v, rfl, hz, hnodup, hfresh, hrepeat, hdecl⟩

/-- Only an input that cannot be read writes. -/
theorem Stop.written (h : Stop st statement t)
    (hr : ∀ line failure, t.signal ≠ .failed ⟨line, .readFailed failure⟩) :
    t.state.console.written = st.console.written := by
  cases h with
  | halt => rfl
  | fail => rfl
  | duplicate => rfl
  | unread => exact absurd rfl (hr st.ip _)

/-- A failed read comes from an input, which has written its prompt. -/
theorem Stop.prompted (h : Stop st statement t) {line : Int} {failure : ReadFailure}
    (hf : t.signal = .failed ⟨line, .readFailed failure⟩) :
    ∃ name args prompt, statement = .call name args ∧ Builtin.ofName? name = some .input ∧
      st.scopes.joined args = .ok prompt ∧
      t.state.console.written = st.console.written ++ prompt ++ "\n" := by
  cases h with
  | halt => cases hf
  | fail hp =>
    cases hf
    cases hp
  | duplicate _ hdup =>
    obtain ⟨_, _, _, _, rfl, -⟩ := Scopes.declareAll_duplicate hdup
    cases hf
  | @unread name prompt args _ console hb hj hr =>
    have hw := written_readLine (st.console.writeLine prompt)
    rw [hr] at hw
    exact ⟨name, args, prompt, rfl, hb, hj, hw⟩

/-- In the bottom frame the end of the function ends the run. -/
theorem halted_of_bottom (hc : st.scopes.callers = [])
    (hs : statement = .endFunc ∨ ∃ expr, statement = .ret expr) :
    (st.execute p here statement).signal = .halted := by
  rcases hs with rfl | ⟨expr, rfl⟩
  · exact (State.giveBack_halted_iff _).mpr hc
  · simp [State.execute, State.ret, hc, State.halt]

end

/-- A step that fails or halts changes no variable, except that a declaration with a duplicate has
declared the names in front of it, and writes nothing, except that an input that cannot be read has
written its prompt. It counts unless the limit forbids it, a halt stays one, and a fault has the
line of its statement. -/
theorem stopped_step {p : Program} {o : Options} {st : State}
    (h : (st.step p o).signal ≠ .running) :
    (st.step p o).state.ip = st.ip ∧
    ((∀ line name, (st.step p o).signal ≠ .failed ⟨line, .duplicateName name⟩) →
      (st.step p o).state.scopes = st.scopes) ∧
    (∀ line name, (st.step p o).signal = .failed ⟨line, .duplicateName name⟩ →
      ∃ type before after v,
        p.at? st.ip = some (.var type (before ++ name :: after)) ∧
        (Kind.ofName? type).bind Kind.zero? = some v ∧
        before.Nodup ∧ (∀ x ∈ before, st.scopes.frame.innermost.binds x = false) ∧
        (name ∈ before ∨ st.scopes.frame.innermost.binds name = true) ∧
        st.scopes.Declares (st.step p o).state.scopes before v) ∧
    ((∀ line failure, (st.step p o).signal ≠ .failed ⟨line, .readFailed failure⟩) →
      (st.step p o).state.console.written = st.console.written) ∧
    (∀ line failure, (st.step p o).signal = .failed ⟨line, .readFailed failure⟩ →
      ∃ name args prompt, p.at? st.ip = some (.call name args) ∧
        Builtin.ofName? name = some .input ∧ st.scopes.joined args = .ok prompt ∧
        (st.step p o).state.console.written = st.console.written ++ prompt ++ "\n") ∧
    (∀ line n, (st.step p o).signal = .failed ⟨line, .stepLimit n⟩ →
      (st.step p o).state.steps = st.steps) ∧
    ((∀ line n, (st.step p o).signal ≠ .failed ⟨line, .stepLimit n⟩) →
      (st.step p o).state.steps = st.steps + 1) ∧
    ((st.step p o).signal = .halted → (st.step p o).state.exhausted o = false →
      ((st.step p o).state.step p o).signal = .halted) ∧
    ∀ fault, (st.step p o).signal = .failed fault → (∀ n, fault.problem ≠ .stepLimit n) →
      fault.line = st.ip ∧ 0 ≤ st.ip ∧ st.ip < p.size := by
  rcases step_stops h with ⟨hx, hs⟩ | ⟨hx, hat, hs⟩ | ⟨statement, t, hat, hstop, hstate, hsignal⟩
  · rw [hs]
    refine ⟨rfl, fun _ => rfl, by simp [State.fail], fun _ => rfl, by simp [State.fail],
      fun _ _ _ => rfl, ?_, by simp [State.fail], ?_⟩
    · intro hn
      exact absurd rfl (hn st.ip st.steps)
    · rintro _ ⟨⟩ hn
      exact absurd rfl (hn st.steps)
  · rw [hs]
    refine ⟨rfl, fun _ => rfl, by simp [State.halt], fun _ => rfl, by simp [State.halt],
      by simp [State.halt], fun _ => rfl, fun _ hx' => ?_, by simp [State.halt]⟩
    have hnone : p.at? st.tick.ip = none := hat
    simp only [State.halt] at hx' ⊢
    simp only [State.step, hx', hnone]
    rfl
  · obtain ⟨hip, hsteps⟩ := hstop.ip_steps
    obtain ⟨here, hline⟩ := exists_line_of_at? hat
    have hlimit : ∀ line n, t.signal ≠ .failed ⟨line, .stepLimit n⟩ :=
      fun line n hf => (hstop.fault hf).2 n rfl
    rw [hstate, hsignal]
    refine ⟨hip, hstop.scopes, ?_, hstop.written, ?_, ?_, ?_, ?_, ?_⟩
    · intro line name hf
      obtain ⟨type, before, after, v, rfl, hdeclared⟩ := hstop.duplicated hf
      exact ⟨type, before, after, v, hat, hdeclared⟩
    · intro line failure hf
      obtain ⟨name, args, prompt, rfl, hprompted⟩ := hstop.prompted hf
      exact ⟨name, args, prompt, hat, hprompted⟩
    · intro line n hf
      exact absurd hf (hlimit line n)
    · intro _
      exact congrArg (· + 1) hsteps
    · intro ht hx'
      obtain ⟨hsame, hc, hs⟩ := hstop.halted ht
      rw [hsame] at hx' ⊢
      have hat' : p.at? st.tick.ip = some statement := hat
      have hbottom : st.tick.scopes.callers = [] := hc
      simp only [State.step, hx', hat']
      exact halted_of_bottom hbottom hs
    · intro fault hf _
      have hlt := lt_size_of_at? (hline ▸ hat)
      exact ⟨(hstop.fault hf).1, by omega, by omega⟩

/-- A declaration whose last name repeats its first. -/
def twiceDeclared : Program :=
  .ofStream [["func", "main", "void"], ["var", "int", "a", "b", "a"], ["endfunc"]]

/-- A question that has no answer. -/
def unanswered : Program :=
  .ofStream [["func", "main", "void"], ["funccall", "input", "\"name?\""], ["endfunc"]]

/-- Both programs stand so on their second line. -/
def secondLine : State :=
  { ip := 1, steps := 1, workspace :=
      { scopes := .start "main" (-1), console := .ofInput "" } }

theorem reachable_secondLine {p : Program} (hmain : p.functions.entryLine? mainFunction = some 0)
    (hstep : (State.advance p {} 1 { ip := 0, workspace :=
      { scopes := .start mainFunction noLine, console := .ofInput "" } }).state = secondLine) :
    Reachable p {} (.ofInput "") secondLine :=
  hstep ▸ (reachable_main {} (.ofInput "") hmain).advance 1

/-- A declaration that stops behind `a` and `b`, and an input that stops behind its prompt. -/
theorem stopped_step_halfway :
    Reachable twiceDeclared {} (.ofInput "") secondLine ∧
    (secondLine.step twiceDeclared {}).signal = .failed ⟨1, .duplicateName "a"⟩ ∧
    (secondLine.step twiceDeclared {}).state.steps = 2 ∧
    secondLine.scopes.Declares (secondLine.step twiceDeclared {}).state.scopes
      ["a", "b"] (.int 0) ∧
    (secondLine.step twiceDeclared {}).state.scopes.valueOf? "a" = some (.int 0) ∧
    (secondLine.step twiceDeclared {}).state.scopes.valueOf? "b" = some (.int 0) ∧
    (secondLine.step twiceDeclared {}).state.console.written = "" ∧
    Reachable unanswered {} (.ofInput "") secondLine ∧
    (secondLine.step unanswered {}).signal = .failed ⟨1, .readFailed .ended⟩ ∧
    (secondLine.step unanswered {}).state.scopes = secondLine.scopes ∧
    (secondLine.step unanswered {}).state.console.written = "name?\n" := by
  have hduplicate : (secondLine.step twiceDeclared {}).signal =
      .failed ⟨1, .duplicateName "a"⟩ := by
    decide +kernel
  have hunread : (secondLine.step unanswered {}).signal = .failed ⟨1, .readFailed .ended⟩ := by
    decide +kernel
  have hdstops : (secondLine.step twiceDeclared {}).signal ≠ .running := by simp [hduplicate]
  have hustops : (secondLine.step unanswered {}).signal ≠ .running := by simp [hunread]
  obtain ⟨-, -, hdeclared, hsilent, -, -, hsteps, -, -⟩ := stopped_step hdstops
  obtain ⟨-, hsame, -, -, hprompted, -, -, -, -⟩ := stopped_step hustops
  refine ⟨reachable_secondLine (by decide +kernel) (by decide +kernel), hduplicate,
    hsteps (by simp [hduplicate]), ?_, by decide +kernel, by decide +kernel,
    hsilent (by simp [hduplicate]), reachable_secondLine (by decide +kernel) (by decide +kernel),
    hunread, hsame (by simp [hunread]), ?_⟩
  · obtain ⟨type, before, after, v, hat, hzero, -, -, hrepeat, hdecl⟩ := hdeclared 1 "a" hduplicate
    have hvar : twiceDeclared.at? secondLine.ip = some (.var "int" ["a", "b", "a"]) := by
      decide +kernel
    rw [hvar] at hat
    injection hat with hat
    injection hat with htype hnames
    subst htype
    cases hzero
    -- The name is bound nowhere in front of the step, so it stands among the declared ones.
    have hmem : "a" ∈ before := hrepeat.resolve_right (by decide +kernel)
    rcases before with _ | ⟨x, _ | ⟨y, _ | ⟨z, rest⟩⟩⟩
    · cases hmem
    · simp at hnames
    · injection hnames with hx hnames
      injection hnames with hy _
      rwa [← hx, ← hy] at hdecl
    · simp at hnames
  · obtain ⟨name, args, prompt, hat, -, hjoined, hwritten⟩ := hprompted 1 .ended hunread
    have hcall : unanswered.at? secondLine.ip = some (.call "input" ["\"name?\""]) := by
      decide +kernel
    rw [hcall] at hat
    injection hat with hat
    injection hat with hname hargs
    subst hargs
    cases hjoined
    exact hwritten

end Brewin
