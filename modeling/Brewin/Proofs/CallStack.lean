import Brewin.Proofs.CallSegment
import Brewin.Proofs.DefinitionLines
import Brewin.Proofs.FlowBounds

namespace Brewin

theorem Edit.header {s s' : Scopes} (h : Edit s s') :
    s'.frame.function = s.frame.function ∧ s'.frame.resume = s.frame.resume := by
  cases h with
  | bind name v =>
    obtain ⟨hf, hr, -⟩ := Frame.shape_eq.mp (s.frame.shape_insert name (.fresh s.cells))
    exact ⟨hf, hr⟩
  | bindResult => exact ⟨rfl, rfl⟩
  | store => exact ⟨rfl, rfl⟩
  | pushBlock => exact ⟨rfl, rfl⟩
  | popBlock hp =>
    obtain ⟨g, hg, rfl⟩ := Scopes.frame_of_popBlock? hp
    obtain ⟨hf, hr, -⟩ := Frame.shape_popBlock hg
    exact ⟨hf, hr⟩

theorem Edits.header {s s' : Scopes} (h : Edits s s') :
    s'.frame.function = s.frame.function ∧ s'.frame.resume = s.frame.resume := by
  induction h with
  | refl => exact ⟨rfl, rfl⟩
  | tail _ he ih =>
    obtain ⟨hf, hr⟩ := he.header
    exact ⟨hf.trans ih.1, hr.trans ih.2⟩

/-- A move that adds a frame is a call of a function that is defined. -/
theorem Move.enters {p : Program} {here : Nat} {s s' : Scopes} {name : String}
    {args : List String} {ip' : Int} (h : Move p here s (.call name args) ip' s')
    (hc : s'.callers = s.frame :: s.callers) :
    ∃ f, p.functions.find? name = some f ∧ s'.frame.function = name ∧
      s'.frame.resume = here + 1 ∧ ip' = f.line := by
  cases h with
  | builtin => simp at hc
  | @result _ _ _ v =>
    have hsame : (s.setResult v).callers = s.callers := rfl
    simp [hsame] at hc
  | @enter _ _ f values _ hf _ =>
    obtain ⟨hfun, hres, -⟩ := Frame.shape_eq.mp (s.shape_enter f args values (here + 1)).1
    exact ⟨f, hf, hfun.trans (name_of_find? hf), hres, rfl⟩
  | leave _ hg => cases hg

section

variable {p : Program}

theorem lt_size_of_at? {line : Nat} {statement : Statement} (h : p.at? line = some statement) :
    line < p.size := by
  obtain ⟨l, hl, -⟩ := Option.map_eq_some_iff.mp h
  exact (Array.getElem?_eq_some_iff.mp hl).1

theorem size_le_of_at? {line : Nat} (h : p.at? line = none) : p.size ≤ line := by
  have hl : p.lines[line]? = none := Option.map_eq_none_iff.mp h
  exact Array.getElem?_eq_none_iff.mp hl

/-- The frame stands for a call: the line in front of the one at which its caller goes on calls
its function, and that is defined. -/
def Frame.Called (p : Program) (f : Frame) : Prop :=
  (∃ d, p.functions.find? f.function = some d) ∧ ∃ (line : Nat) (args : List String),
    f.resume = line + 1 ∧ p.at? line = some (.call f.function args)

/-- The main function at the bottom, and calls above it. -/
inductive Rooted (p : Program) : List Frame → Prop
  | main {f : Frame} : f.function = mainFunction → f.resume = noLine → Rooted p [f]
  | call {f g : Frame} {fs : List Frame} : f.Called p → Rooted p (g :: fs) →
      Rooted p (f :: g :: fs)

theorem Rooted.replace {f g : Frame} {fs : List Frame} (h : Rooted p (f :: fs))
    (hf : g.function = f.function) (hr : g.resume = f.resume) : Rooted p (g :: fs) := by
  cases h with
  | main hm hn => exact .main (hf.trans hm) (hr.trans hn)
  | call hc hfs =>
    refine .call ?_ hfs
    unfold Frame.Called at hc ⊢
    rwa [hf, hr]

theorem Rooted.edits {s s' : Scopes} (h : Rooted p s.frames) (he : Edits s s') :
    Rooted p s'.frames := by
  obtain ⟨hf, hr⟩ := he.header
  rw [Scopes.frames, he.callers]
  exact h.replace hf hr

theorem Rooted.pop {s : Scopes} {caller : Frame} {callers : List Frame}
    (h : Rooted p s.frames) (hc : s.callers = caller :: callers) :
    s.frame.Called p ∧ Rooted p (caller :: callers) := by
  rw [Scopes.frames, hc] at h
  cases h with
  | call hcall hfs => exact ⟨hcall, hfs⟩

theorem Rooted.move {here : Nat} {s s' : Scopes} {statement : Statement} {ip' : Int}
    (h : Rooted p s.frames) (hat : p.at? here = some statement)
    (hm : Move p here s statement ip' s') : Rooted p s'.frames := by
  have hp := hm.passage
  cases hp with
  | edits he => exact h.edits he
  | @enter name args _ f values resume =>
    have hc := (s.shape_enter f args values resume).2
    obtain ⟨d, hd, hfun, hres, -⟩ := hm.enters hc
    rw [Scopes.frames, hc]
    refine .call ⟨⟨d, by rw [hfun, hd]⟩, here, args, hres, ?_⟩ h
    rw [hfun, hat]
  | @leave _ caller callers result? hc _ =>
    have hbelow : Rooted p (Scopes.mk caller callers s.cells).frames := (h.pop hc).2
    exact hbelow.edits (Scopes.edits_handOver caller callers s.cells result?)

theorem Rooted.exists_bottom {fs : List Frame} (h : Rooted p fs) :
    ∃ bottom, fs.getLast? = some bottom ∧ bottom.function = mainFunction ∧
      bottom.resume = noLine := by
  induction h with
  | main hf hr => exact ⟨_, rfl, hf, hr⟩
  | call _ _ ih =>
    obtain ⟨bottom, hb, hfr⟩ := ih
    exact ⟨bottom, by rw [List.getLast?_cons_cons, hb], hfr⟩

theorem Rooted.called {fs : List Frame} (h : Rooted p fs) : ∀ f ∈ fs.dropLast, f.Called p := by
  induction h with
  | main => simp
  | call hc _ ih =>
    intro f hf
    rw [List.dropLast_cons_cons] at hf
    rcases List.mem_cons.mp hf with rfl | hf
    · exact hc
    · exact ih f hf

theorem Frame.Called.resume_bounds {f : Frame} (h : f.Called p) :
    1 ≤ f.resume ∧ f.resume ≤ p.size ∧
      ∃ args, p.at? (f.resume - 1) = some (.call f.function args) := by
  obtain ⟨-, line, args, hr, hat⟩ := h
  have hlt := lt_size_of_at? hat
  refine ⟨by omega, by omega, args, ?_⟩
  rw [hr, Int.add_sub_cancel]
  exact hat

/-- All lines to which the program can lead on are its own. -/
structure Program.Closed (p : Program) : Prop where
  flow : p.flow.Within p.size
  line_lt : ∀ {name : String} {f : Definition}, p.functions.find? name = some f →
    f.line < p.size

theorem Program.closed_load (source : List String) : (Program.load source).Closed := by
  have hsize : (Program.load source).size = (source.map tokenize).length := by
    change ((source.map tokenize).map Line.ofTokens).toArray.size = _
    simp
  refine ⟨?_, fun hf => lt_size_of_at? (line_of_find? hf).2⟩
  rw [hsize]
  exact Flow.within_resolve (source.map tokenize)

/-- A move leads to a line of the program or to its end; a return goes where the frame says. -/
theorem Move.target_le {here : Nat} {s s' : Scopes} {statement : Statement} {ip' : Int}
    (hm : Move p here s statement ip' s') (hp : p.Closed) (hlt : here < p.size) :
    (0 ≤ ip' ∧ ip' ≤ p.size) ∨
      ∃ caller callers, s.callers = caller :: callers ∧ ip' = s.frame.resume := by
  have next : (0 : Int) ≤ here + 1 ∧ (here : Int) + 1 ≤ p.size := ⟨by omega, by omega⟩
  cases hm with
  | leave hc _ => exact Or.inr ⟨_, _, hc, rfl⟩
  | declareSome => exact Or.inl ⟨by omega, by omega⟩
  | enter _ hf _ =>
    have := hp.line_lt hf
    exact Or.inl ⟨by omega, by omega⟩
  | intoElse hf =>
    have := hp.flow.elseLine hf
    exact Or.inl ⟨by omega, by omega⟩
  | pastIf hf =>
    have : _ < p.size := hp.flow.endLine hf
    exact Or.inl ⟨by omega, by simp only at this; omega⟩
  | orElse hf =>
    have := hp.flow.elseEnd hf
    exact Or.inl ⟨by omega, by omega⟩
  | pastLoop hf =>
    have := hp.flow.partner hf
    exact Or.inl ⟨by omega, by omega⟩
  | endWhile hf _ =>
    have := hp.flow.partner hf
    exact Or.inl ⟨by omega, by omega⟩
  | _ => exact Or.inl next

/-- The run stands inside the program, on a stack of calls above the main function. -/
structure Grounded (p : Program) (ip : Int) (s : Scopes) : Prop where
  low : 0 ≤ ip
  high : ip ≤ p.size
  rooted : Rooted p s.frames

theorem Grounded.move {here : Nat} {s s' : Scopes} {statement : Statement} {ip' : Int}
    (hp : p.Closed) (h : Grounded p here s) (hat : p.at? here = some statement)
    (hm : Move p here s statement ip' s') : Grounded p ip' s' := by
  have hrooted := h.rooted.move hat hm
  rcases hm.target_le hp (lt_size_of_at? hat) with ⟨h1, h2⟩ | ⟨caller, callers, hc, rfl⟩
  · exact ⟨h1, h2, hrooted⟩
  · obtain ⟨h1, h2, -⟩ := (h.rooted.pop hc).1.resume_bounds
    exact ⟨by omega, h2, hrooted⟩

theorem Grounded.step (hp : p.Closed) (o : Options) {st : State}
    (h : Grounded p st.ip st.scopes) :
    Grounded p (st.step p o).state.ip (st.step p o).state.scopes := by
  rcases step_moves p o st with ⟨hip, hs, -⟩ | ⟨here, statement, hip, hat, hm⟩
  · rwa [hip, hs]
  · rw [hip] at h
    exact h.move hp hat hm

theorem Grounded.start (hp : p.Closed) {console : Console} {st : State}
    (h : p.start console = .ok st) : Grounded p st.ip st.scopes := by
  unfold Program.start at h
  split at h
  next => cases h
  next line hl =>
    cases h
    obtain ⟨f, hf, rfl⟩ := Option.map_eq_some_iff.mp hl
    have hlt := hp.line_lt hf
    exact ⟨by simp only; omega, by simp only; omega, .main rfl rfl⟩

theorem Reachable.grounded (hp : p.Closed) {o : Options} {console : Console} {st : State}
    (h : Reachable p o console st) : Grounded p st.ip st.scopes := by
  induction h with
  | start h => exact .start hp h
  | next _ ih => exact ih.step hp o

end

theorem exists_start {source : List String} (h : .func mainFunction ∈ decoded source)
    (console : Console) : ∃ st, (Program.load source).start console = .ok st := by
  obtain ⟨f, hf⟩ := exists_find?_of_func h
  simp only [Program.start, FunctionTable.entryLine?, hf, Option.map_some]
  exact ⟨_, rfl⟩

/-- Whatever the source, a run of its main function always stands inside the program, on frames
with blocks: the main function at the bottom, and above it calls that go on behind the lines that
made them. So the only line without a statement at which it can stand is the end. That there is a
frame, and a block in every frame, is carried by the types `Scopes` and `Frame`; `popFrame?` and
`popBlock?` refuse to drop the last one. -/
theorem reachable_grounded {source : List String} (h : .func mainFunction ∈ decoded source)
    (o : Options) (console : Console) :
    (∃ st, (Program.load source).start console = .ok st) ∧
    ∀ st, Reachable (Program.load source) o console st →
      (∃ bottom, st.scopes.frames.getLast? = some bottom ∧ bottom.function = mainFunction ∧
        bottom.resume = -1) ∧
      (∀ f ∈ st.scopes.frames, f.blocks ≠ []) ∧
      0 ≤ st.ip ∧ st.ip ≤ (Program.load source).size ∧
      (∀ f ∈ st.scopes.frames.dropLast,
        ((Program.load source).functions.find? f.function).isSome ∧
        1 ≤ f.resume ∧ f.resume ≤ (Program.load source).size ∧
        ∃ args, (Program.load source).at? (f.resume - 1) = some (.call f.function args)) ∧
      ((Program.load source).at? st.ip = none → st.ip = (Program.load source).size) := by
  refine ⟨exists_start h console, fun st hst => ?_⟩
  obtain ⟨hlow, hhigh, hrooted⟩ := hst.grounded (Program.closed_load source)
  refine ⟨hrooted.exists_bottom, fun f _ => by simp [Frame.blocks], hlow, hhigh, ?_, ?_⟩
  · intro f hf
    have hcalled := hrooted.called f hf
    obtain ⟨d, hd⟩ := hcalled.1
    exact ⟨by rw [hd]; rfl, hcalled.resume_bounds⟩
  · intro hnone
    obtain ⟨line, hline⟩ := Int.eq_ofNat_of_zero_le hlow
    rw [hline] at hnone
    have := size_le_of_at? hnone
    omega

/-- A call of a function that is defined twice and never closed, between a stray endif and an open
loop. -/
def looseEnds : List String :=
  ["func main void", "funccall f", "endif", "func f void", "while True", "func f void"]

/-- The sample runs off its end inside the call. -/
def looseEndsOver : State :=
  { ip := 6, steps := 3, workspace :=
      { scopes := ⟨{ function := "f", resume := 2 }, [{ function := "main", resume := -1 }], #[]⟩
        console := .ofInput "" } }

theorem reachable_grounded_looseEnds :
    .func mainFunction ∈ decoded looseEnds ∧
    Reachable (Program.load looseEnds) {} (.ofInput "") looseEndsOver ∧
    (Program.load looseEnds).at? looseEndsOver.ip = none ∧
    looseEndsOver.ip = (Program.load looseEnds).size ∧
    ∃ args, (Program.load looseEnds).at? 1 = some (.call "f" args) := by
  have hmem : .func mainFunction ∈ decoded looseEnds := by
    decide +kernel
  have hst : Reachable (Program.load looseEnds) {} (.ofInput "") looseEndsOver := by
    have hmain : (Program.load looseEnds).functions.entryLine? mainFunction = some 0 := by
      decide +kernel
    have h := (reachable_main {} (.ofInput "") hmain).advance 3
    rwa [show (State.advance _ _ 3 _).state = looseEndsOver by decide +kernel] at h
  have hnone : (Program.load looseEnds).at? looseEndsOver.ip = none := by
    decide +kernel
  obtain ⟨-, -, -, -, hcalls, hend⟩ := (reachable_grounded hmem {} (.ofInput "")).2 _ hst
  obtain ⟨-, -, -, hcall⟩ := hcalls { function := "f", resume := 2 } (by decide)
  exact ⟨hmem, hst, hnone, hend hnone, hcall⟩

end Brewin
