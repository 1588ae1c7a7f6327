import Brewin.Proofs.FaultOrigins
import Brewin.Proofs.Nesting

namespace Brewin

/-- The problems that come from the way in which branches and loops are nested. -/
def Problem.structural : Problem → Bool
  | ifWithoutEndIf | elseWithoutEndIf | endIfWithoutBlock => true
  | whileWithoutEndWhile | endWhileWithoutWhile | endWhileWithoutBlock => true
  | _ => false

theorem structural_of_plain {problem : Problem} (h : problem.plain = true) :
    problem.structural = false := by
  cases problem <;> first | rfl | cases h

/-- A line whose statement cannot be executed for want of its partner or of a block to close. -/
inductive Unpaired (p : Program) (here : Nat) (s : Scopes) : Statement → Prop
  | ifThen {cond : List String} : p.flow.branch? here = none → Unpaired p here s (.ifThen cond)
  | orElse : p.flow.elseEnd? here = none → Unpaired p here s .orElse
  | endIf : s.popBlock? = none → Unpaired p here s .endIf
  | whileDo {cond : List String} : p.flow.loopPartner? here = none →
      Unpaired p here s (.whileDo cond)
  | endWhile : p.flow.loopPartner? here = none ∨ s.popBlock? = none → Unpaired p here s .endWhile

/-- The transition fails over the nesting of the program. -/
def Transition.Breaks (t : Transition) : Prop :=
  ∃ fault, t.signal = .failed fault ∧ fault.problem.structural = true

section

variable {p : Program} {st : State} {here : Nat}

theorem not_breaks_fail {problem : Problem} (h : problem.structural = false) :
    ¬ (st.fail problem).Breaks := by
  rintro ⟨_, ⟨⟩, hs⟩
  exact absurd (h.symm.trans hs) (by decide)

theorem not_breaks_plain {problem : Problem} (h : problem.plain = true) :
    ¬ (st.fail problem).Breaks :=
  not_breaks_fail (structural_of_plain h)

theorem not_breaks_early {problem : Problem} (h : problem.early = true) :
    ¬ (st.fail problem).Breaks :=
  not_breaks_plain (Problem.plain_of_early h)

theorem not_breaks_proceed (line : Nat) : ¬ (st.proceed line).Breaks := by
  rintro ⟨_, ⟨⟩, -⟩

theorem not_breaks_settle {f : Workspace → Effect} (h : (f st.workspace).Plain) :
    ¬ (st.settle here f).Breaks := by
  unfold State.settle
  split
  next => exact not_breaks_proceed _
  next workspace problem hf => exact not_breaks_plain (h problem (by rw [hf]))

theorem not_breaks_giveBack (result? : Option Value) : ¬ (st.giveBack result?).Breaks := by
  unfold State.giveBack
  dsimp only
  split
  next => rintro ⟨_, ⟨⟩, -⟩
  next => rintro ⟨_, ⟨⟩, -⟩

theorem not_breaks_ret (functions : FunctionTable) (expr : List String) :
    ¬ (st.ret functions expr).Breaks := by
  have hr : Early (st.scopes.evaluate expr >>= functions.checkResult st.scopes.frame.function) :=
    (st.scopes.early_evaluate expr).bind fun v => early_checkResult _ _ v
  unfold State.ret
  dsimp only
  split
  next => rintro ⟨_, ⟨⟩, -⟩
  next =>
    split
    next => exact not_breaks_giveBack _
    next =>
      split
      next problem h => exact not_breaks_early (hr problem h)
      next => exact not_breaks_giveBack _

theorem not_breaks_call (functions : FunctionTable) (name : String) (args : List String) :
    ¬ (st.call functions here name args).Breaks := by
  unfold State.call
  split
  next => exact not_breaks_fail rfl
  next f _ =>
    split
    next problem h => exact not_breaks_early (st.scopes.early_arguments f args problem h)
    next => rintro ⟨_, ⟨⟩, -⟩

/-- Only a statement without its partner or its block fails over the nesting. -/
theorem execute_unpaired {statement : Statement} (h : (st.execute p here statement).Breaks) :
    Unpaired p here st.scopes statement := by
  have hc := st.scopes.early_condition
  cases statement with
  | func name => exact absurd h (not_breaks_proceed _)
  | nop => exact absurd h (not_breaks_proceed _)
  | var type names => exact absurd h (not_breaks_settle (st.workspace.plain_declare _ _))
  | assign target expr => exact absurd h (not_breaks_settle (st.workspace.early_assign _ _).plain)
  | call name args =>
    simp only [State.execute] at h
    split at h
    next => exact absurd h (not_breaks_settle (st.workspace.plain_builtin _ _))
    next => exact absurd h (not_breaks_call _ _ _)
  | endFunc => exact absurd h (not_breaks_giveBack _)
  | ret expr => exact absurd h (not_breaks_ret _ _)
  | malformed omission => exact absurd h (not_breaks_fail rfl)
  | ifThen cond =>
    simp only [State.execute, State.ifThen] at h
    split at h
    next problem he => exact absurd h (not_breaks_early (hc cond problem he))
    next => exact absurd h (not_breaks_proceed _)
    next =>
      split at h
      next hf => exact .ifThen hf
      next => exact absurd h (not_breaks_proceed _)
      next => exact absurd h (not_breaks_proceed _)
  | orElse =>
    simp only [State.execute, State.orElse] at h
    split at h
    next hf => exact .orElse hf
    next => exact absurd h (not_breaks_proceed _)
  | endIf =>
    simp only [State.execute, State.endIf] at h
    split at h
    next hs => exact .endIf hs
    next => exact absurd h (not_breaks_proceed _)
  | whileDo cond =>
    simp only [State.execute, State.whileDo] at h
    split at h
    next problem he => exact absurd h (not_breaks_early (hc cond problem he))
    next => exact absurd h (not_breaks_proceed _)
    next =>
      split at h
      next hf => exact .whileDo hf
      next => exact absurd h (not_breaks_proceed _)
  | endWhile =>
    simp only [State.execute, State.endWhile] at h
    split at h
    next hf => exact .endWhile (Or.inl hf)
    next =>
      split at h
      next hs => exact .endWhile (Or.inr hs)
      next => exact absurd h (not_breaks_proceed _)

theorem step_unpaired {o : Options} (h : (st.step p o).Breaks) :
    ∃ (here : Nat) (statement : Statement), st.ip = here ∧ p.at? here = some statement ∧
      Unpaired p here st.scopes statement := by
  unfold State.step at h
  split at h
  next => exact absurd h (not_breaks_fail rfl)
  next =>
    split at h
    next =>
      obtain ⟨_, h, -⟩ := h
      cases h
    next statement hat =>
      obtain ⟨here, hip⟩ := exists_line_of_at? hat
      have hto : st.ip.toNat = here := by rw [hip]; rfl
      rw [hto] at h
      exact ⟨here, statement, hip, by rwa [hip] at hat, execute_unpaired h⟩

/-- A statement of a body is paired, if the frame has a block for each construct around it. -/
theorem not_unpaired_of_site {depth : Nat → Nat} {first last : Nat} {statement : Statement}
    {s : Scopes} (hsite : Site p.flow depth first last here statement)
    (hd : s.frame.inner.length = depth here) : ¬ Unpaired p here s statement := by
  have hpop : 0 < depth here → s.popBlock? ≠ none := by
    intro h hp
    have hi : s.frame.inner = [] := by
      cases hi : s.frame.inner with
      | nil => rfl
      | cons b bs => simp [Scopes.popBlock?, Frame.popBlock?, hi] at hp
    rw [hi, List.length_nil] at hd
    omega
  intro hu
  cases hsite with
  | simple simple _ => cases simple <;> cases hu
  | branch hf =>
    cases hu with
    | ifThen h => cases hf.symm.trans h
  | fork hf =>
    cases hu with
    | ifThen h => cases hf.symm.trans h
  | orElse hf =>
    cases hu with
    | orElse h => cases hf.symm.trans h
  | endIf hd' =>
    cases hu with
    | endIf h => exact hpop (by omega) h
  | loop hf =>
    cases hu with
    | whileDo h => cases hf.symm.trans h
  | endWhile hf _ _ hd' =>
    cases hu with
    | endWhile h =>
      rcases h with h | h
      · cases hf.symm.trans h
      · exact hpop (by omega) h

/-- Where all frames stand in place, the next statement exists and is paired. -/
theorem Nested.paired {t : Outline} (ht : t.Charts p) {ip : Int} {s : Scopes}
    (h : Nested p t ip s) : ∃ (here : Nat) (statement : Statement), ip = here ∧
      p.at? here = some statement ∧ ¬ Unpaired p here s statement := by
  obtain ⟨r, hr, -, here, rfl, h1, h2, hb⟩ := h.top
  rw [ht.enclosing r hr here h1 h2, Frame.length_blocks] at hb
  rcases installed_line (ht.installed r hr) h1 h2 with ⟨-, hf⟩ | ⟨-, he⟩ | ⟨-, s', hs, hsite⟩
  · exact ⟨here, _, rfl, hf, fun hu => by cases hu⟩
  · exact ⟨here, _, rfl, he, fun hu => by cases hu⟩
  · exact ⟨here, s', rfl, hs, not_unpaired_of_site hsite (by omega)⟩

end

/-- In a properly nested program all frames of a reachable state have a block for the function and
one for each construct around the line where they go on. So every step finds a statement, and none
fails over the nesting. -/
theorem reachable_stands {source : List String} (h : WellNested (decoded source)) :
    (∃ t : Outline, t.Describes source) ∧
      ∀ t : Outline, t.Describes source → ∀ (o : Options) (console : Console) (st : State),
        Reachable (Program.load source) o console st →
        st.scopes.frame.StandsAt (Program.load source) t st.ip ∧
        st.scopes.frames.IsChain
          (fun upper lower => lower.StandsAt (Program.load source) t upper.resume) ∧
        ((Program.load source).at? st.ip).isSome ∧
        ∀ fault, (st.step (Program.load source) o).signal = .failed fault →
          fault.problem.structural = false := by
  refine ⟨exists_describes h, fun t ht o console st hst => ?_⟩
  have hn := hst.nested ht.charts
  obtain ⟨here, statement, hip, hat, hp⟩ := hn.paired ht.charts
  refine ⟨hn.top, hn.below, by rw [hip, hat]; rfl, fun fault hf => ?_⟩
  by_contra hs
  obtain ⟨here', statement', hip', hat', hu⟩ := step_unpaired ⟨fault, hf, by simpa using hs⟩
  cases Int.ofNat.inj (hip.symm.trans hip')
  cases hat.symm.trans hat'
  exact hp hu

/-- Seven steps into the sample the main function waits inside its loop. -/
theorem reachable_stands_twoRounds :
    WellNested (decoded twoRounds) ∧
    ∃ st, Reachable (Program.load twoRounds) {} (.ofInput "") st ∧ st.ip = 13 ∧
      st.scopes.frames.map (fun f => (f.function, f.blocks.length)) = [("grow", 1), ("main", 2)] ∧
      twoRoundsOutline.enclosing 9 = 1 ∧
      st.scopes.frames.IsChain
        (fun upper lower => lower.StandsAt (Program.load twoRounds) twoRoundsOutline
          upper.resume) := by
  have hmain : (Program.load twoRounds).functions.entryLine? mainFunction = some 0 := by
    rw [load_twoRounds]
    decide +kernel
  have hst := (reachable_main {} (.ofInput "") hmain).advance 7
  obtain ⟨-, hbelow, -, -⟩ := (reachable_stands wellNested_twoRounds).2 twoRoundsOutline
    describes_twoRounds {} (.ofInput "") _ hst
  refine ⟨wellNested_twoRounds, _, hst, ?_, ?_, by decide, hbelow⟩
  · rw [load_twoRounds]
    decide +kernel
  · rw [load_twoRounds]
    decide +kernel

end Brewin
