import Mathlib.Data.List.Forall2
import Brewin.Proofs.InsertedLine
import Brewin.Proofs.Moves
import Brewin.Proofs.RunPrefix
import Brewin.Proofs.StructuredMain

namespace Brewin

/-- The number of a line after another line has been put in front of the line `k`; a number that
belongs to no line stays as it is. -/
def movedIp (k : Nat) (ip : Int) : Int :=
  if ip < k then ip else ip + 1

theorem movedIp_natCast (k n : Nat) : movedIp k n = (movedLine k n : Nat) := by
  unfold movedIp movedLine
  by_cases h : n < k
  · rw [if_pos h, if_pos (by omega)]
  · rw [if_neg h, if_neg (by omega)]
    rfl

def Fault.moved (k : Nat) (f : Fault) : Fault :=
  { f with line := movedIp k f.line }

def Signal.moved (k : Nat) : Signal → Signal
  | .failed fault => .failed (fault.moved k)
  | signal => signal

def Ending.moved (k : Nat) : Ending → Ending
  | .failed fault => .failed (fault.moved k)
  | ending => ending

/-- The longer program is at the same line as the shorter one, or on the new line in front of
it. -/
def TracksLine (k : Nat) (ip ip' : Int) : Prop :=
  ip' = movedIp k ip ∨ ip = k ∧ ip' = k

theorem tracksLine_moved (k n : Nat) : TracksLine k n (movedLine k n : Nat) :=
  Or.inl (movedIp_natCast k n).symm

/-- The line behind the line in front of `k` is the new one. -/
theorem tracksLine_succ (k n : Nat) : TracksLine k (n + 1 : Nat) (movedLine k n + 1 : Nat) := by
  by_cases hn : n + 1 = k
  · have hline : movedLine k n = n := movedLine_of_lt (by omega)
    rw [hline, hn]
    exact Or.inr ⟨rfl, rfl⟩
  · have hline : movedLine k n + 1 = movedLine k (n + 1) := by
      unfold movedLine
      by_cases hlt : n < k
      · rw [if_pos hlt, if_pos (by omega)]
      · rw [if_neg hlt, if_neg (by omega)]
    rw [hline]
    exact tracksLine_moved k (n + 1)

/-- The frames differ at most in where their callers go on. -/
def Frame.Tracks (k : Nat) (f g : Frame) : Prop :=
  ∃ resume, TracksLine k f.resume resume ∧ g = { f with resume }

def Workspace.Tracks (k : Nat) (w w' : Workspace) : Prop :=
  ∃ resume callers, TracksLine k w.scopes.frame.resume resume ∧
    List.Forall₂ (Frame.Tracks k) w.scopes.callers callers ∧ w' = w.above resume callers

structure State.Tracks (k : Nat) (s t : State) : Prop where
  ip : TracksLine k s.ip t.ip
  workspace : s.workspace.Tracks k t.workspace

/-- The states stand on the same line. -/
structure State.Aligned (k : Nat) (s t : State) : Prop where
  ip : t.ip = movedIp k s.ip
  workspace : s.workspace.Tracks k t.workspace

structure Transition.Tracks (k : Nat) (x y : Transition) : Prop where
  state : x.state.Tracks k y.state
  signal : y.signal = x.signal.moved k

theorem signal_of_moved {k : Nat} {signal signal' : Signal} (h : signal' = signal.moved k) :
    (signal = .running ∧ signal' = .running) ∨ (signal = .halted ∧ signal' = .halted) ∨
      ∃ fault, signal = .failed fault ∧ signal' = .failed (fault.moved k) := by
  subst h
  cases signal with
  | running => exact Or.inl ⟨rfl, rfl⟩
  | halted => exact Or.inr (Or.inl ⟨rfl, rfl⟩)
  | failed fault => exact Or.inr (Or.inr ⟨fault, rfl, rfl⟩)

namespace Workspace.Tracks

variable {k : Nat} {w w' : Workspace}

theorem console (h : w.Tracks k w') : w'.console = w.console := by
  obtain ⟨resume, callers, -, -, rfl⟩ := h
  rfl

theorem function (h : w.Tracks k w') : w'.scopes.frame.function = w.scopes.frame.function := by
  obtain ⟨resume, callers, -, -, rfl⟩ := h
  rfl

theorem evaluate (h : w.Tracks k w') : w'.scopes.evaluate = w.scopes.evaluate := by
  obtain ⟨resume, callers, -, -, rfl⟩ := h
  funext expr
  exact w.scopes.evaluate_above resume callers expr

theorem condition (h : w.Tracks k w') : w'.scopes.condition = w.scopes.condition := by
  obtain ⟨resume, callers, -, -, rfl⟩ := h
  funext cond
  exact w.scopes.condition_above resume callers cond

theorem callers_isEmpty (h : w.Tracks k w') :
    w'.scopes.callers.isEmpty = w.scopes.callers.isEmpty := by
  obtain ⟨resume, callers, -, hcallers, rfl⟩ := h
  change callers.isEmpty = w.scopes.callers.isEmpty
  generalize w.scopes.callers = below at hcallers ⊢
  cases hcallers with
  | nil => rfl
  | cons => rfl

theorem pushBlock (h : w.Tracks k w') :
    Workspace.Tracks k { w with scopes := w.scopes.pushBlock }
      { w' with scopes := w'.scopes.pushBlock } := by
  obtain ⟨resume, callers, hresume, hcallers, rfl⟩ := h
  exact ⟨resume, callers, hresume, hcallers, rfl⟩

theorem popBlock (h : w.Tracks k w') :
    (w.scopes.popBlock? = none ∧ w'.scopes.popBlock? = none) ∨
      ∃ s s', w.scopes.popBlock? = some s ∧ w'.scopes.popBlock? = some s' ∧
        Workspace.Tracks k { w with scopes := s } { w' with scopes := s' } := by
  obtain ⟨resume, callers, hresume, hcallers, rfl⟩ := h
  have habove : (w.above resume callers).scopes.popBlock? =
      w.scopes.popBlock?.map (·.above resume callers) := popBlock?_above w.scopes
  rw [habove]
  cases hp : w.scopes.popBlock? with
  | none => exact Or.inl ⟨rfl, rfl⟩
  | some s =>
    obtain ⟨g, hg, rfl⟩ := Scopes.frame_of_popBlock? hp
    obtain ⟨-, hline, -⟩ := Frame.shape_popBlock hg
    refine Or.inr ⟨_, _, rfl, rfl, resume, callers, ?_, hcallers, rfl⟩
    change TracksLine k g.resume resume
    rwa [hline]

/-- What does not depend on the frames below does not change them. -/
theorem effect (h : w.Tracks k w') {f : Workspace → Effect}
    (hf : ∀ w resume callers, f (Workspace.above w resume callers) = (f w).above resume callers) :
    (f w).workspace.Tracks k (f w').workspace ∧ (f w').problem? = (f w).problem? := by
  obtain ⟨resume, callers, hresume, hcallers, rfl⟩ := h
  have hself := hf w w.scopes.frame.resume w.scopes.callers
  have hframe : (f w).workspace.scopes.frame.resume = w.scopes.frame.resume :=
    congrArg (·.workspace.scopes.frame.resume) hself
  have hbelow : (f w).workspace.scopes.callers = w.scopes.callers :=
    congrArg (·.workspace.scopes.callers) hself
  rw [hf w resume callers]
  refine ⟨⟨resume, callers, ?_, ?_, rfl⟩, rfl⟩
  · rwa [hframe]
  · rwa [hbelow]

theorem handOver {caller : Frame} {callers callers' : List Frame} {resume : Int}
    (hresume : TracksLine k caller.resume resume)
    (hcallers : List.Forall₂ (Frame.Tracks k) callers callers') (cells : Array Value)
    (console : Console) (result? : Option Value) :
    Workspace.Tracks k ⟨.handOver caller callers cells result?, console⟩
      ⟨.handOver { caller with resume } callers' cells result?, console⟩ := by
  have hhere := Scopes.handOver_above caller.resume callers caller cells result?
  have hthere := Scopes.handOver_above resume callers' caller cells result?
  change _ = Scopes.handOver caller callers cells result? at hhere
  rw [← hhere, ← hthere]
  exact ⟨resume, callers', hresume, hcallers, rfl⟩

theorem enter (h : w.Tracks k w') (f : Definition) (args : List String) (values : List Value)
    {line line' : Int} (hline : TracksLine k line line') :
    Workspace.Tracks k { w with scopes := w.scopes.enter f args values line }
      { w' with scopes := w'.scopes.enter f args values line' } := by
  obtain ⟨resume, callers, hresume, hcallers, rfl⟩ := h
  have hframe := w.scopes.enter_above w.scopes.frame.resume w.scopes.callers f args values line
  have hframe' := w.scopes.enter_above resume callers f args values line'
  change w.scopes.enter f args values line = _ at hframe
  rw [hframe]
  refine ⟨line', { w.scopes.frame with resume } :: callers, hline, ?_, ?_⟩
  · exact .cons ⟨resume, hresume, rfl⟩ hcallers
  · exact congrArg (Workspace.mk · w.console) hframe'

end Workspace.Tracks

namespace State

variable {k : Nat} {p q : Program} {s t : State}

theorem Aligned.tracks (h : s.Aligned k t) : s.Tracks k t :=
  ⟨Or.inl h.ip, h.workspace⟩

theorem Aligned.fail (h : s.Aligned k t) (problem : Problem) :
    (s.fail problem).Tracks k (t.fail problem) := by
  refine ⟨h.tracks, ?_⟩
  change Signal.failed ⟨t.ip, problem⟩ = Signal.failed ⟨movedIp k s.ip, problem⟩
  rw [h.ip]

theorem Aligned.halt (h : s.Aligned k t) : s.halt.Tracks k t.halt :=
  ⟨h.tracks, rfl⟩

theorem tracks_proceed (hw : s.workspace.Tracks k t.workspace) {line line' : Nat}
    (hl : TracksLine k line line') : (s.proceed line).Tracks k (t.proceed line') :=
  ⟨⟨hl, hw⟩, rfl⟩

theorem tracks_proceedInside (hw : s.workspace.Tracks k t.workspace) {line line' : Nat}
    (hl : TracksLine k line line') :
    (s.proceedInside line).Tracks k (t.proceedInside line') :=
  ⟨⟨hl, hw.pushBlock⟩, rfl⟩

theorem Aligned.settle (h : s.Aligned k t) (here : Nat) {f : Workspace → Effect}
    (hf : ∀ w resume callers, f (Workspace.above w resume callers) = (f w).above resume callers) :
    (s.settle here f).Tracks k (t.settle (movedLine k here) f) := by
  obtain ⟨hw, hproblem⟩ := h.workspace.effect hf
  unfold State.settle
  rcases hs : f s.workspace with ⟨w, problem?⟩
  rcases ht : f t.workspace with ⟨x, problem?'⟩
  rw [hs, ht] at hw hproblem
  cases hproblem
  have hnext : State.Aligned k { s with workspace := w } { t with workspace := x } := ⟨h.ip, hw⟩
  cases problem? with
  | none => exact tracks_proceed hw (tracksLine_succ k here)
  | some problem => exact hnext.fail problem

theorem Aligned.call (h : s.Aligned k t) (functions : FunctionTable) (here : Nat) (name : String)
    (args : List String) :
    (s.call functions here name args).Tracks k
      (t.call (functions.moved k) (movedLine k here) name args) := by
  have harguments : ∀ f : Definition, t.scopes.arguments (f.moved k) args =
      s.scopes.arguments f args := by
    intro f
    obtain ⟨resume, callers, -, -, hw⟩ := h.workspace
    rw [State.scopes, hw]
    exact s.scopes.arguments_above resume callers f args
  unfold State.call
  rw [FunctionTable.find?_moved]
  cases functions.find? name with
  | none => exact h.fail _
  | some f =>
    simp only [Option.map_some, harguments]
    cases s.scopes.arguments f args with
    | error problem => exact h.fail problem
    | ok values =>
      have henter := h.workspace.enter f args values (tracksLine_succ k here)
      exact ⟨⟨tracksLine_moved k f.line, henter⟩, rfl⟩

theorem Aligned.giveBack (h : s.Aligned k t) (result? : Option Value) :
    (s.giveBack result?).Tracks k (t.giveBack result?) := by
  obtain ⟨resume, callers, hresume, hcallers, hw⟩ := h.workspace
  have hbelow : t.scopes.callers = callers := congrArg (·.scopes.callers) hw
  have hline : t.scopes.frame.resume = resume := congrArg (·.scopes.frame.resume) hw
  have hcells : t.scopes.cells = s.scopes.cells := congrArg (·.scopes.cells) hw
  have hconsole : t.console = s.console := congrArg (·.console) hw
  change List.Forall₂ (Frame.Tracks k) s.scopes.callers callers at hcallers
  cases hs : s.scopes.callers with
  | nil =>
    rw [hs] at hcallers
    have hnil : callers = [] := List.forall₂_nil_left_iff.mp hcallers
    rw [giveBack_bottom hs, giveBack_bottom (hbelow.trans hnil)]
    exact h.halt
  | cons caller rest =>
    rw [hs] at hcallers
    obtain ⟨caller', rest', ⟨back, hback, rfl⟩, hrest, hcons⟩ :=
      List.forall₂_cons_left_iff.mp hcallers
    rw [giveBack_caller hs, giveBack_caller (hbelow.trans hcons), hline, hcells, hconsole]
    exact ⟨⟨hresume, Workspace.Tracks.handOver hback hrest _ _ result?⟩, rfl⟩

theorem Aligned.ret (h : s.Aligned k t) (functions : FunctionTable) (expr : List String) :
    (s.ret functions expr).Tracks k (t.ret (functions.moved k) expr) := by
  have hfunction : t.scopes.frame.function = s.scopes.frame.function := h.workspace.function
  have hevaluate : t.scopes.evaluate = s.scopes.evaluate := h.workspace.evaluate
  have hcallers : t.scopes.callers.isEmpty = s.scopes.callers.isEmpty :=
    h.workspace.callers_isEmpty
  simp only [State.ret, hfunction, hevaluate, hcallers, FunctionTable.defaultResult?_moved,
    FunctionTable.checkResult_moved]
  split
  next => exact h.halt
  next =>
    split
    next => exact h.giveBack _
    next =>
      split
      next => exact h.fail _
      next => exact h.giveBack _

theorem Aligned.ifThen (h : s.Aligned k t) (flow : Flow) (here : Nat) (cond : List String) :
    (s.ifThen flow here cond).Tracks k (t.ifThen (flow.moved k) (movedLine k here) cond) := by
  have hcondition : t.scopes.condition = s.scopes.condition := h.workspace.condition
  simp only [State.ifThen, hcondition, Flow.branch?_moved]
  split
  next => exact h.fail _
  next => exact tracks_proceedInside h.workspace (tracksLine_succ k here)
  next =>
    rcases flow.branch? here with _ | ⟨_ | elseLine, endLine⟩
    · exact h.fail _
    · exact tracks_proceed h.workspace (tracksLine_succ k endLine)
    · exact tracks_proceedInside h.workspace (tracksLine_succ k elseLine)

theorem Aligned.orElse (h : s.Aligned k t) (flow : Flow) (here : Nat) :
    (s.orElse flow here).Tracks k (t.orElse (flow.moved k) (movedLine k here)) := by
  simp only [State.orElse, Flow.elseEnd?_moved]
  cases flow.elseEnd? here with
  | none => exact h.fail _
  | some endLine => exact tracks_proceed h.workspace (tracksLine_moved k endLine)

theorem Aligned.endIf (h : s.Aligned k t) (here : Nat) :
    (s.endIf here).Tracks k (t.endIf (movedLine k here)) := by
  unfold State.endIf State.scopes
  rcases h.workspace.popBlock with ⟨hs, ht⟩ | ⟨u, u', hs, ht, hw⟩
  · rw [hs, ht]
    exact h.fail _
  · rw [hs, ht]
    exact tracks_proceed hw (tracksLine_succ k here)

theorem Aligned.whileDo (h : s.Aligned k t) (flow : Flow) (here : Nat) (cond : List String) :
    (s.whileDo flow here cond).Tracks k (t.whileDo (flow.moved k) (movedLine k here) cond) := by
  have hcondition : t.scopes.condition = s.scopes.condition := h.workspace.condition
  simp only [State.whileDo, hcondition, Flow.loopPartner?_moved]
  split
  next => exact h.fail _
  next => exact tracks_proceedInside h.workspace (tracksLine_succ k here)
  next =>
    cases flow.loopPartner? here with
    | none => exact h.fail _
    | some endLine => exact tracks_proceed h.workspace (tracksLine_succ k endLine)

theorem Aligned.endWhile (h : s.Aligned k t) (flow : Flow) (here : Nat) :
    (s.endWhile flow here).Tracks k (t.endWhile (flow.moved k) (movedLine k here)) := by
  simp only [State.endWhile, State.scopes, Flow.loopPartner?_moved]
  cases flow.loopPartner? here with
  | none => exact h.fail _
  | some start =>
    rcases h.workspace.popBlock with ⟨hs, ht⟩ | ⟨u, u', hs, ht, hw⟩
    · simp only [Option.map_some, hs, ht]
      exact h.fail _
    · simp only [Option.map_some, hs, ht]
      exact tracks_proceed hw (tracksLine_moved k start)

theorem Aligned.execute (h : s.Aligned k t) (hp : p.Widened k q) (here : Nat)
    (statement : Statement) :
    (s.execute p here statement).Tracks k (t.execute q (movedLine k here) statement) := by
  have hflow := hp.flow
  have hfunctions := hp.functions
  cases statement with
  | func name => exact tracks_proceed h.workspace (tracksLine_succ k here)
  | nop => exact tracks_proceed h.workspace (tracksLine_succ k here)
  | malformed omission => exact h.fail _
  | var type names =>
    simp only [State.execute]
    refine h.settle here fun w resume callers => ?_
    exact w.declare_above resume callers type names
  | assign target expr =>
    simp only [State.execute]
    refine h.settle here fun w resume callers => ?_
    exact w.assign_above resume callers target expr
  | call name args =>
    simp only [State.execute, hfunctions]
    split
    next b _ =>
      refine h.settle here fun w resume callers => ?_
      exact w.builtin_above resume callers b args
    next => exact h.call p.functions here name args
  | endFunc =>
    have hfunction : t.scopes.frame.function = s.scopes.frame.function := h.workspace.function
    simp only [State.execute, hfunctions, hfunction, FunctionTable.defaultResult?_moved]
    exact h.giveBack _
  | ret expr =>
    simp only [State.execute, hfunctions]
    exact h.ret p.functions expr
  | ifThen cond =>
    simp only [State.execute, hflow]
    exact h.ifThen p.flow here cond
  | orElse =>
    simp only [State.execute, hflow]
    exact h.orElse p.flow here
  | endIf => exact h.endIf here
  | whileDo cond =>
    simp only [State.execute, hflow]
    exact h.whileDo p.flow here cond
  | endWhile =>
    simp only [State.execute, hflow]
    exact h.endWhile p.flow here

variable {o : Options}

theorem Aligned.step (h : s.Aligned k t) (hp : p.Widened k q) (ho : o.maxSteps ≤ 0) :
    (s.step p o).Tracks k (t.step q o) := by
  have hs : s.exhausted o = false := exhausted_of_nonpositive ho
  have ht : t.exhausted o = false := exhausted_of_nonpositive ho
  have hat : q.at? t.ip = p.at? s.ip := by
    rw [h.ip]
    cases s.ip with
    | ofNat n => exact (congrArg q.at? (movedIp_natCast k n)).trans (hp.line n)
    | negSucc n =>
      have hneg : Int.negSucc n < k := by omega
      rw [movedIp, if_pos hneg]
      rfl
  simp only [State.step, hs, ht, hat]
  cases hstatement : p.at? s.ip with
  | none => exact ⟨⟨Or.inl h.ip, h.workspace⟩, rfl⟩
  | some statement =>
    obtain ⟨here, hip⟩ := exists_line_of_at? hstatement
    have hto : s.ip.toNat = here := by rw [hip]; rfl
    have hto' : t.ip.toNat = movedLine k here := by
      rw [h.ip, hip, movedIp_natCast]
      rfl
    have hexecute := h.execute hp here statement
    rw [← hto'] at hexecute
    simp only [hto]
    exact ⟨⟨hexecute.state.ip, hexecute.state.workspace⟩, hexecute.signal⟩

/-- On the new line the longer program makes a step that the shorter one does not. -/
theorem Tracks.catchUp (h : s.Tracks k t) (hp : p.Widened k q) (ho : o.maxSteps ≤ 0) :
    s.Aligned k t ∨ (t.step q o).signal = .running ∧ s.Aligned k (t.step q o).state := by
  rcases h.ip with hip | ⟨hs, ht⟩
  · exact Or.inl ⟨hip, h.workspace⟩
  · obtain ⟨hstate, hsignal⟩ := step_of_unlimited ho ht hp.added
    refine Or.inr ⟨hsignal, ?_⟩
    rw [hstate]
    refine ⟨?_, h.workspace⟩
    rw [hs, movedIp_natCast, movedLine_of_le (Nat.le_refl k)]
    rfl

end State

section

variable {k : Nat} {p q : Program} {o : Options} {s t : State} {c : Console} {e : Ending}

theorem Transition.Tracks.console {x y : Transition} (h : x.Tracks k y) :
    y.state.console = x.state.console :=
  h.state.workspace.console

/-- It is enough to know the end from the line that both programs have. -/
theorem State.Tracks.ends (h : s.Tracks k t) (hp : p.Widened k q) (ho : o.maxSteps ≤ 0)
    (hends : ∀ u, s.Aligned k u → Ends q o u c e) : Ends q o t c e := by
  rcases h.catchUp hp ho with ha | ⟨hrunning, ha⟩
  · exact hends t ha
  · exact .next hrunning (hends _ ha)

theorem Ends.widen (h : Ends p o s c e) (hp : p.Widened k q) (ho : o.maxSteps ≤ 0)
    (ht : s.Tracks k t) : Ends q o t c (e.moved k) := by
  induction h generalizing t with
  | halted hs =>
    refine ht.ends hp ho fun u hu => ?_
    have hstep := hu.step hp ho
    have hsignal := hstep.signal.trans (congrArg (Signal.moved k) hs)
    exact hstep.console ▸ .halted hsignal
  | failed hs =>
    refine ht.ends hp ho fun u hu => ?_
    have hstep := hu.step hp ho
    have hsignal := hstep.signal.trans (congrArg (Signal.moved k) hs)
    exact hstep.console ▸ .failed hsignal
  | next hs _ ih =>
    refine ht.ends hp ho fun u hu => ?_
    have hstep := hu.step hp ho
    have hsignal := hstep.signal.trans (congrArg (Signal.moved k) hs)
    exact .next hsignal (ih hstep.state)

theorem Ends.narrow (h : Ends q o t c e) (hp : p.Widened k q) (ho : o.maxSteps ≤ 0)
    (ht : s.Tracks k t) : ∃ e', e = e'.moved k ∧ Ends p o s c e' := by
  -- The induction is on the longer run; while it is on the new line, the shorter one waits.
  induction h generalizing s with
  | @halted t hs =>
    rcases ht.catchUp hp ho with ha | ⟨hrunning, -⟩
    · have hstep := ha.step hp ho
      rcases signal_of_moved hstep.signal with ⟨-, hy⟩ | ⟨hx, -⟩ | ⟨fault, -, hy⟩
      · cases hs.symm.trans hy
      · exact ⟨.finished, rfl, hstep.console ▸ .halted hx⟩
      · cases hs.symm.trans hy
    · cases hs.symm.trans hrunning
  | @failed t fault hs =>
    rcases ht.catchUp hp ho with ha | ⟨hrunning, -⟩
    · have hstep := ha.step hp ho
      rcases signal_of_moved hstep.signal with ⟨-, hy⟩ | ⟨-, hy⟩ | ⟨fault', hx, hy⟩
      · cases hs.symm.trans hy
      · cases hs.symm.trans hy
      · cases hs.symm.trans hy
        exact ⟨.failed fault', rfl, hstep.console ▸ .failed hx⟩
    · cases hs.symm.trans hrunning
  | @next t c e hs hrest ih =>
    rcases ht.catchUp hp ho with ha | ⟨-, ha⟩
    · have hstep := ha.step hp ho
      rcases signal_of_moved hstep.signal with ⟨hx, -⟩ | ⟨-, hy⟩ | ⟨fault', -, hy⟩
      · obtain ⟨e', he, hends⟩ := ih hstep.state
        exact ⟨e', he, .next hx hends⟩
      · cases hs.symm.trans hy
      · cases hs.symm.trans hy
    · exact ih ha.tracks

theorem start_widened (hp : p.Widened k q) (console : Console) :
    (∃ fault : Fault, fault.moved k = fault ∧ p.start console = .error fault ∧
        q.start console = .error fault) ∨
      ∃ s t, p.start console = .ok s ∧ q.start console = .ok t ∧ s.Tracks k t := by
  have hentry : q.functions.entryLine? mainFunction =
      (p.functions.entryLine? mainFunction).map (movedLine k) := by
    rw [hp.functions, FunctionTable.entryLine?, FunctionTable.find?_moved,
      FunctionTable.entryLine?]
    cases p.functions.find? mainFunction with
    | none => rfl
    | some f => rfl
  have hno : movedIp k noLine = noLine := if_pos (by unfold noLine; omega)
  unfold Program.start
  rw [hentry]
  cases p.functions.entryLine? mainFunction with
  | none =>
    refine Or.inl ⟨{ problem := .unknownFunction mainFunction }, ?_, rfl, rfl⟩
    exact congrArg (Fault.mk · _) hno
  | some line =>
    have hline := tracksLine_moved k line
    exact Or.inr ⟨_, _, rfl, rfl, hline, noLine, [], Or.inl hno.symm, .nil, rfl⟩

theorem ends_of_runFor {console : Console} (hs : p.start console = .ok s) {fuel : Nat}
    (hu : (p.runFor o console fuel).ending ≠ .unfinished) :
    Ends p o s (p.runFor o console fuel).console (p.runFor o console fuel).ending := by
  rw [runFor_start hs] at hu ⊢
  exact (ends_iff_runFor #[]).mpr ⟨hu, fuel, rfl, rfl⟩

theorem exists_runFor_of_ends {console : Console} (hs : p.start console = .ok s)
    (h : Ends p o s c e) : ∃ fuel, (p.runFor o console fuel).ending ≠ .unfinished := by
  obtain ⟨hu, fuel, -, he⟩ := (ends_iff_runFor #[]).mp h
  refine ⟨fuel, ?_⟩
  rw [runFor_start hs, he]
  exact hu

/-- Both programs come to an end, alike but for the numbers of the lines, or none does. -/
theorem runFor_widened (hp : p.Widened k q) (ho : o.maxSteps ≤ 0) (console : Console) :
    ((∃ fuel, (q.runFor o console fuel).ending ≠ .unfinished) ↔
        ∃ fuel, (p.runFor o console fuel).ending ≠ .unfinished) ∧
      ∀ fuel fuel', (p.runFor o console fuel).ending ≠ .unfinished →
        (q.runFor o console fuel').ending ≠ .unfinished →
        (q.runFor o console fuel').console = (p.runFor o console fuel).console ∧
          (q.runFor o console fuel').ending = (p.runFor o console fuel).ending.moved k := by
  rcases start_widened hp console with ⟨fault, hfault, hs, ht⟩ | ⟨s, t, hs, ht, htracks⟩
  · have hp : ∀ fuel, p.runFor o console fuel = ⟨console, 0, #[], .failed fault⟩ := by
      intro fuel
      simp only [Program.runFor, hs]
    have hq : ∀ fuel, q.runFor o console fuel = ⟨console, 0, #[], .failed fault⟩ := by
      intro fuel
      simp only [Program.runFor, ht]
    constructor
    · simp only [hp, hq]
    · intro fuel fuel' _ _
      rw [hp, hq]
      exact ⟨rfl, congrArg Ending.failed hfault.symm⟩
  · refine ⟨⟨?_, ?_⟩, ?_⟩
    · rintro ⟨fuel, hu⟩
      obtain ⟨e, -, hends⟩ := (ends_of_runFor ht hu).narrow hp ho htracks
      exact exists_runFor_of_ends hs hends
    · rintro ⟨fuel, hu⟩
      exact exists_runFor_of_ends ht ((ends_of_runFor hs hu).widen hp ho htracks)
    · intro fuel fuel' hu hu'
      have hends := (ends_of_runFor hs hu).widen hp ho htracks
      exact (ends_of_runFor ht hu').unique hends

end

/-- A new line that does nothing changes nothing but line numbers: without a step limit the
program comes to an end exactly if it did so before, with the same console and in the same way. -/
theorem runFor_insertIdx {source : List String} {k : Nat} (hk : k ≤ source.length) {text : String}
    (ht : Statement.decode (tokenize text) = .nop) {o : Options} (ho : o.maxSteps ≤ 0)
    (console : Console) :
    ((∃ fuel, ((Program.load (source.insertIdx k text)).runFor o console fuel).ending ≠
          .unfinished) ↔
        ∃ fuel, ((Program.load source).runFor o console fuel).ending ≠ .unfinished) ∧
      ∀ fuel fuel',
        ((Program.load source).runFor o console fuel).ending ≠ .unfinished →
        ((Program.load (source.insertIdx k text)).runFor o console fuel').ending ≠ .unfinished →
        ((Program.load (source.insertIdx k text)).runFor o console fuel').console =
            ((Program.load source).runFor o console fuel).console ∧
          ((Program.load (source.insertIdx k text)).runFor o console fuel').ending =
            ((Program.load source).runFor o console fuel).ending.moved k := by
  have hwidened := widened_insertIdx hk ht
  exact runFor_widened hwidened ho console

/-- A program that prints a variable without a declaration. -/
def undeclared : List String :=
  ["func main void", "funccall print \"a\"", "funccall print x", "endfunc"]

theorem runFor_insertIdx_undeclared :
    Statement.decode (tokenize "# note") = .nop ∧
      ∃ fuel,
        ((Program.load (undeclared.insertIdx 1 "# note")).runFor {} (.ofInput "") fuel).console =
            { written := "a\n" } ∧
          ((Program.load (undeclared.insertIdx 1 "# note")).runFor {} (.ofInput "") fuel).ending =
            .failed ⟨3, .unknownVariable "x"⟩ := by
  have htext : Statement.decode (tokenize "# note") = .nop := by decide +kernel
  have hrun : ((Program.load undeclared).runFor {} (.ofInput "") 3).console =
        { written := "a\n" } ∧
      ((Program.load undeclared).runFor {} (.ofInput "") 3).ending =
        .failed ⟨2, .unknownVariable "x"⟩ := by decide +kernel
  obtain ⟨hconsole, hending⟩ := hrun
  have hends : ((Program.load undeclared).runFor {} (.ofInput "") 3).ending ≠ .unfinished := by
    rw [hending]
    exact Ending.noConfusion
  obtain ⟨hiff, hsame⟩ := @runFor_insertIdx undeclared 1 (by decide) "# note" htext {}
    (by decide) (.ofInput "")
  obtain ⟨fuel, hu⟩ := hiff.mpr ⟨3, hends⟩
  obtain ⟨hc, he⟩ := hsame 3 fuel hends hu
  refine ⟨htext, fuel, hc.trans hconsole, ?_⟩
  rw [he, hending]
  rfl

end Brewin
