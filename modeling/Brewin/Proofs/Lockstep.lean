import Brewin.Proofs.PairedWorkspaces
import Brewin.Proofs.RunPrefix

namespace Brewin

/-- The states stand on one line and agree above their backdrops; their steps may be counted from
different starts. -/
structure State.Paired (a b : Backdrop) (s t : State) : Prop where
  ip : s.ip = t.ip
  workspace : s.workspace.Paired a b t.workspace

structure Transition.Paired (a b : Backdrop) (x y : Transition) : Prop where
  state : x.state.Paired a b y.state
  signal : x.signal = y.signal

/-- The transition ends the running function: its caller goes on behind the call, with the cells
and the result that the function leaves. -/
structure Transition.Leaves (x : Transition) (p : Program) (st : State) (statement : Statement)
    (result? : Option Value) : Prop where
  given : GivenBack p st.scopes statement result?
  signal : x.signal = .running
  ip : x.state.ip = st.scopes.frame.resume
  console : x.state.console = st.console
  scopes : ∃ caller callers, st.scopes.callers = caller :: callers ∧
    x.state.scopes = .handOver caller callers st.scopes.cells result?

/-- Two transitions that keep what agrees above the backdrops, or that both leave it for them with
the same result. -/
inductive Joint (p : Program) (a b : Backdrop) (s t : State) (statement : Statement)
    (x y : Transition) : Prop
  | on : x.Paired a b y → Joint p a b s t statement x y
  | back (result? : Option Value) : s.scopes.callers = a.frames → t.scopes.callers = b.frames →
      x.Leaves p s statement result? → y.Leaves p t statement result? →
      Joint p a b s t statement x y

section

variable {p : Program} {a b : Backdrop} {s t : State} {here : Nat} {statement : Statement}

theorem leaves_giveBack {st : State} {caller : Frame} {callers : List Frame}
    {result? : Option Value} (hc : st.scopes.callers = caller :: callers)
    (hg : GivenBack p st.scopes statement result?) :
    (st.giveBack result?).Leaves p st statement result? := by
  rw [State.giveBack_caller hc]
  exact ⟨hg, rfl, rfl, rfl, caller, callers, hc, rfl⟩

namespace State.Paired

theorem like (h : s.Paired a b t) : ∃ R, s.scopes.Like R t.scopes :=
  h.workspace.scopes.like

theorem fail (h : s.Paired a b t) (problem : Problem) :
    (s.fail problem).Paired a b (t.fail problem) :=
  ⟨h, by rw [State.fail, State.fail, h.ip]⟩

theorem proceed (h : s.Paired a b t) (line : Nat) : (s.proceed line).Paired a b (t.proceed line) :=
  ⟨⟨rfl, h.workspace⟩, rfl⟩

theorem withScopes (h : s.Paired a b t) {s' t' : Scopes} (hs : s'.Paired a b t') :
    State.Paired a b { s with workspace.scopes := s' } { t with workspace.scopes := t' } :=
  ⟨h.ip, hs, h.workspace.console⟩

theorem proceedInside (h : s.Paired a b t) (line : Nat) :
    (s.proceedInside line).Paired a b (t.proceedInside line) :=
  (h.withScopes h.workspace.scopes.pushBlock).proceed line

theorem settle (h : s.Paired a b t) {f : Workspace → Effect}
    (hf : (f s.workspace).Paired a b (f t.workspace)) :
    (s.settle here f).Paired a b (t.settle here f) := by
  obtain ⟨hw, hproblem⟩ := hf
  unfold State.settle
  rcases hs : f s.workspace with ⟨w, problem?⟩
  rcases ht : f t.workspace with ⟨x, problem?'⟩
  rw [hs, ht] at hw hproblem
  cases hproblem
  have hnext : State.Paired a b { s with workspace := w } { t with workspace := x } := ⟨h.ip, hw⟩
  cases problem? with
  | none => exact hnext.proceed _
  | some problem => exact hnext.fail problem

theorem condition (h : s.Paired a b t) : s.scopes.condition = t.scopes.condition := by
  obtain ⟨R, hl⟩ := h.like
  exact Scopes.condition_congr hl.valueOf?

theorem call (h : s.Paired a b t) (name : String) (args : List String) :
    (s.call p.functions here name args).Paired a b (t.call p.functions here name args) := by
  obtain ⟨R, hl⟩ := h.like
  unfold State.call
  rw [Scopes.arguments_congr hl.valueOf?]
  split
  next => exact h.fail _
  next f _ =>
    split
    next => exact h.fail _
    next values _ =>
      exact ⟨⟨rfl, h.workspace.scopes.enter f args values _, h.workspace.console⟩, rfl⟩

/-- Functions that give back the same give it to callers that agree, or to the backdrops. -/
theorem giveBack (h : s.Paired a b t) (ha : a.frames ≠ []) (hb : b.frames ≠ [])
    {result? : Option Value} (hs : GivenBack p s.scopes statement result?)
    (ht : GivenBack p t.scopes statement result?) :
    Joint p a b s t statement (s.giveBack result?) (t.giveBack result?) := by
  rcases h.workspace.scopes.below with ⟨hcs, hct⟩ | ⟨f, fs, g, gs, hcs, hct, hresume, hbelow⟩
  · obtain ⟨f, fs, hf⟩ := List.exists_cons_of_ne_nil ha
    obtain ⟨g, gs, hg⟩ := List.exists_cons_of_ne_nil hb
    exact .back result? hcs hct (leaves_giveBack (hcs.trans hf) hs)
      (leaves_giveBack (hct.trans hg) ht)
  · obtain ⟨-, hsignal, hip, hconsole, caller, callers, hc, hscopes⟩ := leaves_giveBack hcs hs
    obtain ⟨-, hsignal', hip', hconsole', caller', callers', hc', hscopes'⟩ :=
      leaves_giveBack hct ht
    cases hcs.symm.trans hc
    cases hct.symm.trans hc'
    obtain ⟨c, hw, hx⟩ := h.workspace.console
    refine .on ⟨⟨?_, ?_, c, hconsole.trans hw, hconsole'.trans hx⟩, hsignal.trans hsignal'.symm⟩
    · rw [hip, hip']
      exact hresume
    · change (s.giveBack result?).state.scopes.Paired a b (t.giveBack result?).state.scopes
      rw [hscopes, hscopes']
      exact hbelow.handOver result?

theorem callers_ne_nil (h : s.Paired a b t) (ha : a.frames ≠ []) (hb : b.frames ≠ []) :
    s.scopes.callers ≠ [] ∧ t.scopes.callers ≠ [] := by
  rcases h.workspace.scopes.below with ⟨hs, ht⟩ | ⟨f, fs, g, gs, hs, ht, -⟩
  · exact ⟨fun hn => ha (hs.symm.trans hn), fun hn => hb (ht.symm.trans hn)⟩
  · simp [State.scopes, hs, ht]

theorem ret (h : s.Paired a b t) (ha : a.frames ≠ []) (hb : b.frames ≠ []) (expr : List String) :
    Joint p a b s t (.ret expr) (s.ret p.functions expr) (t.ret p.functions expr) := by
  obtain ⟨R, hl⟩ := h.like
  have hfun := hl.frame.function
  have hevaluate := Scopes.evaluate_congr hl.valueOf?
  -- There are frames below in both runs, so no return halts here.
  obtain ⟨hcs, hct⟩ := h.callers_ne_nil ha hb
  simp only [State.ret, List.isEmpty_iff, hcs, hct, ↓reduceIte]
  by_cases he : expr = []
  · subst he
    simp only [↓reduceIte, hfun]
    have hbare : GivenBack p s.scopes (.ret [])
        (p.functions.defaultResult? t.scopes.frame.function) := hfun ▸ .bare
    exact h.giveBack ha hb hbare .bare
  · simp only [he, ↓reduceIte, hfun, hevaluate]
    split
    next => exact .on (h.fail _)
    next v hv =>
      obtain ⟨w, hw, hc⟩ := exists_of_bind_eq_ok hv
      unfold FunctionTable.checkResult at hc
      split at hc
      next hk =>
        cases hc
        refine h.giveBack ha hb (.value he ?_ ?_) (.value he hw hk)
        · rwa [hevaluate]
        · rwa [hfun]
      next => cases hc

/-- One statement keeps two runs in step. -/
theorem execute (h : s.Paired a b t) (ha : a.frames ≠ []) (hb : b.frames ≠ []) (here : Nat)
    (statement : Statement) :
    Joint p a b s t statement (s.execute p here statement) (t.execute p here statement) := by
  have hpop := h.workspace.scopes.popBlock
  cases statement with
  | func name => exact .on (h.proceed _)
  | nop => exact .on (h.proceed _)
  | malformed omission => exact .on (h.fail _)
  | var type names =>
    simp only [State.execute]
    exact .on (h.settle (h.workspace.declare type names))
  | assign target expr =>
    simp only [State.execute]
    exact .on (h.settle (h.workspace.assign target expr))
  | call name args =>
    simp only [State.execute]
    split
    next f _ => exact .on (h.settle (h.workspace.builtin f args))
    next => exact .on (h.call name args)
  | endFunc =>
    obtain ⟨R, hl⟩ := h.like
    have hfun := hl.frame.function
    have hend : GivenBack p s.scopes .endFunc
        (p.functions.defaultResult? t.scopes.frame.function) := hfun ▸ .atEnd
    simp only [State.execute, hfun]
    exact h.giveBack ha hb hend .atEnd
  | ret expr => exact h.ret ha hb expr
  | ifThen cond =>
    simp only [State.execute, State.ifThen, h.condition]
    split
    next => exact .on (h.fail _)
    next => exact .on (h.proceedInside _)
    next =>
      split
      next => exact .on (h.fail _)
      next => exact .on (h.proceedInside _)
      next => exact .on (h.proceed _)
  | orElse =>
    simp only [State.execute, State.orElse]
    split
    next => exact .on (h.fail _)
    next => exact .on (h.proceed _)
  | endIf =>
    simp only [State.execute, State.endIf, State.scopes]
    generalize s.workspace.scopes.popBlock? = s?, t.workspace.scopes.popBlock? = t? at hpop
    cases hpop with
    | none => exact .on (h.fail _)
    | some hs => exact .on ((h.withScopes hs).proceed _)
  | whileDo cond =>
    simp only [State.execute, State.whileDo, h.condition]
    split
    next => exact .on (h.fail _)
    next => exact .on (h.proceedInside _)
    next =>
      split
      next => exact .on (h.fail _)
      next => exact .on (h.proceed _)
  | endWhile =>
    simp only [State.execute, State.endWhile, State.scopes]
    cases p.flow.loopPartner? here with
    | none => exact .on (h.fail _)
    | some start =>
      simp only
      generalize s.workspace.scopes.popBlock? = s?, t.workspace.scopes.popBlock? = t? at hpop
      cases hpop with
      | none => exact .on (h.fail _)
      | some hs => exact .on ((h.withScopes hs).proceed _)

/-- Without a limit, one step of each run keeps them in step, or ends the function in both. -/
theorem step {o : Options} (ho : o.maxSteps ≤ 0) (h : s.Paired a b t) (ha : a.frames ≠ [])
    (hb : b.frames ≠ []) :
    (s.step p o).Paired a b (t.step p o) ∨
      ∃ statement result?, p.at? s.ip = some statement ∧ s.scopes.callers = a.frames ∧
        t.scopes.callers = b.frames ∧ (s.step p o).Leaves p s statement result? ∧
        (t.step p o).Leaves p t statement result? := by
  have hs : s.exhausted o = false := exhausted_of_nonpositive ho
  have ht : t.exhausted o = false := exhausted_of_nonpositive ho
  simp only [State.step, hs, ht, ← h.ip]
  cases p.at? s.ip with
  | none => exact Or.inl ⟨⟨h.ip, h.workspace⟩, rfl⟩
  | some statement =>
    rcases h.execute (p := p) ha hb s.ip.toNat statement with
      hon | ⟨result?, hcs, hct, hls, hlt⟩
    · exact Or.inl ⟨⟨hon.state.ip, hon.state.workspace⟩, hon.signal⟩
    · refine Or.inr ⟨statement, result?, rfl, hcs, hct, ?_, ?_⟩
      · exact ⟨hls.given, hls.signal, hls.ip, hls.console, hls.scopes⟩
      · exact ⟨hlt.given, hlt.signal, hlt.ip, hlt.console, hlt.scopes⟩

end State.Paired

theorem Transition.Leaves.congr {x y : Transition} {st : State} {result? : Option Value}
    (h : x.Leaves p st statement result?) (hstate : y.state = x.state)
    (hsignal : y.signal = x.signal) : y.Leaves p st statement result? := by
  obtain ⟨hgiven, hrunning, hip, hconsole, hscopes⟩ := h
  rw [← hstate] at hip hconsole hscopes
  exact ⟨hgiven, hsignal.trans hrunning, hip, hconsole, hscopes⟩

theorem Transition.Leaves.depth {x : Transition} {st : State} {result? : Option Value}
    (h : x.Leaves p st statement result?) : x.state.scopes.depth + 1 = st.scopes.depth := by
  obtain ⟨caller, callers, hc, hs⟩ := h.scopes
  rw [hs, Scopes.depth, Scopes.depth, Scopes.callers_handOver, hc]
  rfl

end

/-- The first `n` steps go on without the end of the function that runs at first. -/
def State.Keeps (p : Program) (o : Options) (st : State) (n : Nat) : Prop :=
  ∀ k ≤ n, (st.advance p o k).signal = .running ∧
    st.scopes.depth ≤ (st.advance p o k).state.scopes.depth

section

variable {p : Program} {o : Options} {s t : State}

theorem State.keeps_succ {st : State} {n : Nat} :
    st.Keeps p o (n + 1) ↔ st.Keeps p o n ∧ (st.advance p o (n + 1)).signal = .running ∧
      st.scopes.depth ≤ (st.advance p o (n + 1)).state.scopes.depth := by
  constructor
  · intro h
    exact ⟨fun k hk => h k (by omega), h (n + 1) (Nat.le_refl _)⟩
  · rintro ⟨hn, hlast⟩ k hk
    by_cases hk' : k ≤ n
    · exact hn k hk'
    · have hk'' : k = n + 1 := by omega
      rw [hk'']
      exact hlast

/-- What a state has below its running frame. -/
def State.backdrop (st : State) : Backdrop :=
  ⟨st.scopes.callers, st.console.written⟩

theorem State.backdrop_ne_nil {st : State} (h : 2 ≤ st.scopes.depth) :
    st.backdrop.frames ≠ [] := by
  intro hn
  rw [Scopes.depth, show st.scopes.callers = [] from hn] at h
  simp at h

theorem State.Paired.depth {u v : State} (h : u.Paired s.backdrop t.backdrop v) :
    ∃ n, u.scopes.depth = s.scopes.depth + n ∧ v.scopes.depth = t.scopes.depth + n :=
  h.workspace.scopes.depth

theorem State.Paired.written {u v : State} (h : u.Paired s.backdrop t.backdrop v) :
    ∃ text, u.console.written = s.console.written ++ text ∧
      v.console.written = t.console.written ++ text := by
  obtain ⟨c, hu, hv⟩ := h.workspace.console
  exact ⟨c.written, congrArg Console.written hu, congrArg Console.written hv⟩

theorem State.paired_of_alike (hip : s.ip = t.ip) (htop : s.scopes.Alike t.scopes)
    (hunread : s.console.unread = t.console.unread)
    (hending : s.console.ending = t.console.ending)
    (hwrites : s.console.writesLeft? = t.console.writesLeft?) :
    s.Paired s.backdrop t.backdrop t := by
  obtain ⟨R, hl⟩ := Scopes.alike_iff.mp htop
  refine ⟨hip, ⟨R, hl.pairing, .bottom hl.frame⟩, { s.console with written := "" }, ?_, ?_⟩
  · simp [Console.behind, State.backdrop, State.console]
  · simp only [Console.behind, State.backdrop, String.append_empty, hunread, hending, hwrites]
    rfl

/-- Two runs stay in step as long as the first of them keeps its function. -/
theorem State.Paired.advance (ho : o.maxSteps ≤ 0) (hs : 2 ≤ s.scopes.depth)
    (ht : 2 ≤ t.scopes.depth) (h : s.Paired s.backdrop t.backdrop t) {n : Nat}
    (hkeeps : s.Keeps p o n) :
    t.Keeps p o n ∧
      (s.advance p o n).state.Paired s.backdrop t.backdrop (t.advance p o n).state := by
  induction n with
  | zero =>
    refine ⟨fun k hk => ?_, h⟩
    cases Nat.le_zero.mp hk
    exact ⟨rfl, Nat.le_refl _⟩
  | succ n ih =>
    obtain ⟨hn, hsignal, hdepth⟩ := State.keeps_succ.mp hkeeps
    obtain ⟨hkeeps', hpaired⟩ := ih hn
    obtain ⟨hstate, hsig⟩ := advance_succ (hn n (Nat.le_refl _)).1
    obtain ⟨hstate', hsig'⟩ := advance_succ (hkeeps' n (Nat.le_refl _)).1
    rcases hpaired.step (p := p) ho (backdrop_ne_nil hs) (backdrop_ne_nil ht) with
      hon | ⟨statement, result?, -, hcs, -, hleaves, -⟩
    · rw [hstate, hstate']
      obtain ⟨k, -, hdt⟩ := hon.state.depth
      refine ⟨State.keeps_succ.mpr ⟨hkeeps', ?_, ?_⟩, hon.state⟩
      · rw [hsig', ← hon.signal, ← hsig, hsignal]
      · rw [hstate', hdt]
        exact Nat.le_add_right _ _
    · -- The end of the function would have left the depth at which it started.
      have hlow := hleaves.depth
      have hat : (s.advance p o n).state.scopes.depth = s.scopes.depth := by
        rw [Scopes.depth, hcs]
        rfl
      rw [hstate] at hdepth
      omega

/-- Behind the end of both functions, their slots still have the same values, but for those that
share the cell of the result. -/
theorem State.Paired.value_of_leaves {a b : Backdrop} {x y : Transition} {statement : Statement}
    {result? : Option Value} (h : s.Paired a b t) (hx : x.Leaves p s statement result?)
    (hy : y.Leaves p t statement result?) {level : Nat} {name : String} {slot slot' : Slot}
    (hs : s.scopes.frame.slotAt? level name = some slot)
    (ht : t.scopes.frame.slotAt? level name = some slot')
    (hrs : ¬ x.state.scopes.HoldsResult result? slot.cell)
    (hrt : ¬ y.state.scopes.HoldsResult result? slot'.cell) :
    x.state.scopes.value slot = y.state.scopes.value slot' := by
  obtain ⟨R, hl⟩ := h.like
  obtain ⟨-, -, hslots⟩ := Frame.like_iff.mp hl.frame
  have hr : Option.Rel (Slot.Like R) (some slot) (some slot') := hs ▸ ht ▸ hslots level name
  cases hr with
  | some hxy =>
    obtain ⟨hlt, hlt'⟩ := hl.pairing.lt_size hxy
    obtain ⟨caller, callers, -, hscopes⟩ := hx.scopes
    obtain ⟨caller', callers', -, hscopes'⟩ := hy.scopes
    rw [hscopes] at hrs ⊢
    rw [hscopes'] at hrt ⊢
    rw [value_of_handOver _ _ _ _ hlt hrs, value_of_handOver _ _ _ _ hlt' hrt]
    exact hl.pairing.getD hxy _

/-- What a function does depends on nothing in the frames below its own. Two runs in which the
running frames agree but for the choice of cells go on in step until the function ends: they pass
the same lines, write the same text, and stop with the same fault, or give back the same result in
the same step. The slots of the function hold the same values in the state in which the returning
statement executes; behind that statement only the cell of its own result may differ. -/
theorem callee_lockstep (ho : o.maxSteps ≤ 0) (hip : s.ip = t.ip) (hs : 2 ≤ s.scopes.depth)
    (ht : 2 ≤ t.scopes.depth) (htop : s.scopes.Alike t.scopes)
    (hunread : s.console.unread = t.console.unread)
    (hending : s.console.ending = t.console.ending)
    (hwrites : s.console.writesLeft? = t.console.writesLeft?) {n : Nat}
    (hkeeps : s.Keeps p o n) :
    t.Keeps p o n ∧
    (s.advance p o n).state.ip = (t.advance p o n).state.ip ∧
    (s.advance p o n).state.scopes.Alike (t.advance p o n).state.scopes ∧
    (s.advance p o (n + 1)).signal = (t.advance p o (n + 1)).signal ∧
    (∃ text, (s.advance p o (n + 1)).state.console.written = s.console.written ++ text ∧
      (t.advance p o (n + 1)).state.console.written = t.console.written ++ text) ∧
    (((s.advance p o (n + 1)).state.ip = (t.advance p o (n + 1)).state.ip ∧
        (s.advance p o (n + 1)).state.scopes.Alike (t.advance p o (n + 1)).state.scopes ∧
        ((s.advance p o (n + 1)).signal = .running →
          s.Keeps p o (n + 1) ∧ t.Keeps p o (n + 1))) ∨
      ∃ statement result?, p.at? (s.advance p o n).state.ip = some statement ∧
        (s.advance p o n).state.scopes.depth = s.scopes.depth ∧
        (t.advance p o n).state.scopes.depth = t.scopes.depth ∧
        (s.advance p o (n + 1)).Leaves p (s.advance p o n).state statement result? ∧
        (t.advance p o (n + 1)).Leaves p (t.advance p o n).state statement result? ∧
        ∀ level name slot slot',
          (s.advance p o n).state.scopes.frame.slotAt? level name = some slot →
          (t.advance p o n).state.scopes.frame.slotAt? level name = some slot' →
          ¬ (s.advance p o (n + 1)).state.scopes.HoldsResult result? slot.cell →
          ¬ (t.advance p o (n + 1)).state.scopes.HoldsResult result? slot'.cell →
          (s.advance p o (n + 1)).state.scopes.value slot =
            (t.advance p o (n + 1)).state.scopes.value slot') := by
  obtain ⟨hkeeps', hpaired⟩ :=
    (State.paired_of_alike hip htop hunread hending hwrites).advance ho hs ht hkeeps
  obtain ⟨hstate, hsignal⟩ := advance_succ (hkeeps n (Nat.le_refl _)).1
  obtain ⟨hstate', hsignal'⟩ := advance_succ (hkeeps' n (Nat.le_refl _)).1
  refine ⟨hkeeps', hpaired.ip, Scopes.alike_iff.mpr hpaired.like, ?_⟩
  rcases hpaired.step (p := p) ho (State.backdrop_ne_nil hs) (State.backdrop_ne_nil ht) with
    hon | ⟨statement, result?, hat, hcs, hct, hls, hlt⟩
  · obtain ⟨k, hds, hdt⟩ := hon.state.depth
    rw [← hstate] at hds
    rw [← hstate'] at hdt
    have hsame : (s.advance p o (n + 1)).signal = (t.advance p o (n + 1)).signal := by
      rw [hsignal, hsignal', hon.signal]
    refine ⟨hsame, ?_, Or.inl ⟨?_, ?_, fun hrunning => ⟨?_, ?_⟩⟩⟩
    · rw [hstate, hstate']
      exact hon.state.written
    · rw [hstate, hstate']
      exact hon.state.ip
    · rw [hstate, hstate']
      exact Scopes.alike_iff.mpr hon.state.like
    · exact State.keeps_succ.mpr ⟨hkeeps, hrunning, by omega⟩
    · exact State.keeps_succ.mpr ⟨hkeeps', hsame ▸ hrunning, by omega⟩
  · have hback := hls.congr hstate hsignal
    have hback' := hlt.congr hstate' hsignal'
    refine ⟨hback.signal.trans hback'.signal.symm, ?_, Or.inr ⟨statement, result?, hat, ?_, ?_,
      hback, hback', ?_⟩⟩
    · rw [hback.console, hback'.console]
      exact hpaired.written
    · rw [Scopes.depth, hcs]
      rfl
    · rw [Scopes.depth, hct]
      rfl
    · intro level name slot slot' hslot hslot' hr hr'
      exact hpaired.value_of_leaves hback hback' hslot hslot' hr hr'

end

/-- The function of the sample, called by its main function. -/
def addOneInside : State :=
  { ip := 5, workspace :=
      { scopes :=
          { frame :=
              { function := "take", resume := 3
                base := (Block.insert {} "y" ⟨2, none⟩).insert "x" ⟨0, some "a"⟩ }
            callers := [⟨"main", -1, ⟨[("b", ⟨1, none⟩), ("a", ⟨0, none⟩)]⟩, []⟩]
            cells := #[.int 0, .int 0, .int 0] }
        console := .ofInput "" } }

/-- The same function on top of other frames and cells, where its reference stands for the
variable in which its caller finds the result. -/
def addOneElsewhere : State :=
  { ip := 5, steps := 40, workspace :=
      { scopes :=
          { frame :=
              { function := "take", resume := 7
                base := (Block.insert {} "y" ⟨0, none⟩).insert "x" ⟨2, some "resulti"⟩ }
            callers := [⟨"take", 3, ⟨[("resulti", ⟨2, none⟩)]⟩, [⟨[]⟩]⟩, ⟨"main", -1, ⟨[]⟩, []⟩]
            cells := #[.int 0, .bool true, .int 0] }
        console := { written := "x" } } }

theorem callee_lockstep_addOne :
    addOneInside.scopes.Alike addOneElsewhere.scopes ∧ addOneInside.Keeps addOne {} 1 ∧
    addOneElsewhere.Keeps addOne {} 1 ∧
    ∃ statement result?,
      (addOneInside.advance addOne {} 2).Leaves addOne (addOneInside.advance addOne {} 1).state
        statement result? ∧
      (addOneElsewhere.advance addOne {} 2).Leaves addOne
        (addOneElsewhere.advance addOne {} 1).state statement result? := by
  have halike : addOneInside.scopes.Alike addOneElsewhere.scopes := by
    refine Scopes.alike_iff.mpr ⟨fun c d => (c = 0 ∧ d = 2) ∨ (c = 2 ∧ d = 0), ⟨?_, ?_⟩, rfl, ?_,
      .nil⟩
    · intro c d c' d'
      omega
    · rintro c d (⟨rfl, rfl⟩ | ⟨rfl, rfl⟩)
      · exact ⟨.int 0, rfl, rfl⟩
      · exact ⟨.int 0, rfl, rfl⟩
    · refine Block.Like.insert (Block.Like.insert .empty "y" ?_) "x" ?_
      · exact Or.inr ⟨rfl, rfl⟩
      · exact Or.inl ⟨rfl, rfl⟩
  have hkeeps : addOneInside.Keeps addOne {} 1 := by
    intro k hk
    rcases (by omega : k = 0 ∨ k = 1) with rfl | rfl
    · decide +kernel
    · decide +kernel
  have hip : addOneInside.ip = addOneElsewhere.ip := rfl
  obtain ⟨hkeeps', -, -, -, -, hlast⟩ := callee_lockstep (Int.le_refl 0) hip (by decide)
    (by decide) halike rfl rfl rfl hkeeps
  rcases hlast with ⟨-, -, hmore⟩ | ⟨statement, result?, -, -, -, hs, ht, -⟩
  · have hlonger := (hmore (by decide +kernel)).1
    exact absurd (hlonger 2 (Nat.le_refl _)).2 (by decide +kernel)
  · exact ⟨halike, hkeeps, hkeeps', statement, result?, hs, ht⟩

end Brewin
