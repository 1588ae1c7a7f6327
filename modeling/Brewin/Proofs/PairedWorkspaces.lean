import Brewin.Proofs.CallStack
import Brewin.Proofs.CellPairing

namespace Brewin

/-- What a function finds when it starts: the frames below its own, and the text written so far. -/
structure Backdrop where
  frames : List Frame
  written : String

/-- Frames above two backdrops that agree one by one. Only the lowest of them, which go back into
the backdrops, may go back to different lines. -/
inductive Abreast (R : Nat → Nat → Prop) (a b : Backdrop) :
    Frame → List Frame → Frame → List Frame → Prop
  | bottom {f g : Frame} : f.Like R g → Abreast R a b f a.frames g b.frames
  | above {f f' g g' : Frame} {fs gs : List Frame} : f.Like R g → f.resume = g.resume →
      Abreast R a b f' fs g' gs → Abreast R a b f (f' :: fs) g (g' :: gs)

/-- All that two runs have above their backdrops agrees but for the choice of cells. -/
def Scopes.Paired (a b : Backdrop) (s t : Scopes) : Prop :=
  ∃ R, Pairing R s.cells t.cells ∧ Abreast R a b s.frame s.callers t.frame t.callers

/-- The console of a run that wrote a text before. -/
def Console.behind (c : Console) (text : String) : Console :=
  { c with written := text ++ c.written }

/-- The workspaces agree above their backdrops, down to the text written since. -/
structure Workspace.Paired (a b : Backdrop) (w x : Workspace) : Prop where
  scopes : w.scopes.Paired a b x.scopes
  console : ∃ c : Console, w.console = c.behind a.written ∧ x.console = c.behind b.written

structure Effect.Paired (a b : Backdrop) (e e' : Effect) : Prop where
  workspace : e.workspace.Paired a b e'.workspace
  problem? : e.problem? = e'.problem?

section

variable {a b : Backdrop} {R R' : Nat → Nat → Prop} {f f' g g' : Frame} {fs gs : List Frame}

theorem Abreast.top (h : Abreast R a b f fs g gs) : f.Like R g := by
  cases h with
  | bottom hfg => exact hfg
  | above hfg _ _ => exact hfg

theorem Abreast.mono (h : Abreast R a b f fs g gs) (hr : Subrelation R R') :
    Abreast R' a b f fs g gs := by
  induction h with
  | bottom hfg => exact .bottom (hfg.mono hr)
  | above hfg hresume _ ih => exact .above (hfg.mono hr) hresume ih

theorem Abreast.replace (h : Abreast R a b f fs g gs) (hfg : f'.Like R g')
    (hf : f'.resume = f.resume) (hg : g'.resume = g.resume) : Abreast R a b f' fs g' gs := by
  cases h with
  | bottom _ => exact .bottom hfg
  | above _ hresume h => exact .above hfg (by rw [hf, hg, hresume]) h

theorem Abreast.length (h : Abreast R a b f fs g gs) :
    ∃ n, fs.length = a.frames.length + n ∧ gs.length = b.frames.length + n := by
  induction h with
  | bottom => exact ⟨0, rfl, rfl⟩
  | above _ _ _ ih =>
    obtain ⟨n, hf, hg⟩ := ih
    exact ⟨n + 1, congrArg (· + 1) hf, congrArg (· + 1) hg⟩

end

namespace Scopes.Paired

variable {a b : Backdrop} {s s' t t' : Scopes}

theorem like (h : s.Paired a b t) : ∃ R, s.Like R t := by
  obtain ⟨R, hp, hf⟩ := h
  exact ⟨R, hp, hf.top⟩

/-- Edits that keep the running frames alike change nothing below. -/
theorem edits (h : s.Paired a b t) (hs : Edits s s') (ht : Edits t t')
    (hl : ∀ {R}, s.Like R t → s'.LikeBeyond R t') : s'.Paired a b t' := by
  obtain ⟨R, hp, hf⟩ := h
  obtain ⟨R', hr, hp', hf'⟩ := hl ⟨hp, hf.top⟩
  refine ⟨R', hp', ?_⟩
  rw [hs.callers, ht.callers]
  exact (hf.mono hr).replace hf' hs.header.2 ht.header.2

theorem pushBlock (h : s.Paired a b t) : s.pushBlock.Paired a b t.pushBlock :=
  h.edits (.single .pushBlock) (.single .pushBlock) fun hl => hl.pushBlock.beyond

theorem popBlock (h : s.Paired a b t) :
    Option.Rel (Scopes.Paired a b) s.popBlock? t.popBlock? := by
  obtain ⟨R, hp, hf⟩ := h
  have hr := Like.popBlock ⟨hp, hf.top⟩
  generalize hs : s.popBlock? = s?, ht : t.popBlock? = t? at hr
  cases hr with
  | none => exact .none
  | @some s' t' hl =>
    have hes : Edits s s' := .single (.popBlock hs)
    have het : Edits t t' := .single (.popBlock ht)
    refine .some ⟨R, hl.pairing, ?_⟩
    rw [hes.callers, het.callers]
    exact hf.replace hl.frame hes.header.2 het.header.2

theorem handOver {f g : Frame} {fs gs : List Frame} {cs ds : Array Value}
    (h : Scopes.Paired a b ⟨f, fs, cs⟩ ⟨g, gs, ds⟩) (result? : Option Value) :
    (handOver f fs cs result?).Paired a b (.handOver g gs ds result?) := by
  refine h.edits (edits_handOver f fs cs result?) (edits_handOver g gs ds result?) fun hl => ?_
  cases result? with
  | none => exact hl.beyond
  | some v => exact hl.setResult v

theorem enter (h : s.Paired a b t) (f : Definition) (args : List String) (values : List Value)
    (resume : Int) :
    (s.enter f args values resume).Paired a b (t.enter f args values resume) := by
  obtain ⟨R, hp, hf⟩ := h
  obtain ⟨R', hr, hp', hf'⟩ := Like.enter ⟨hp, hf.top⟩ f args values resume resume
  obtain ⟨hshape, hcallers⟩ := s.shape_enter f args values resume
  obtain ⟨hshape', hcallers'⟩ := t.shape_enter f args values resume
  obtain ⟨-, hresume, -⟩ := Frame.shape_eq.mp hshape
  obtain ⟨-, hresume', -⟩ := Frame.shape_eq.mp hshape'
  refine ⟨R', hp', ?_⟩
  rw [hcallers, hcallers']
  exact .above hf' (hresume.trans hresume'.symm) (hf.mono hr)

/-- The running frames stand right above the backdrops, or on frames that agree too. -/
theorem below (h : s.Paired a b t) :
    (s.callers = a.frames ∧ t.callers = b.frames) ∨
      ∃ f fs g gs, s.callers = f :: fs ∧ t.callers = g :: gs ∧
        s.frame.resume = t.frame.resume ∧ Scopes.Paired a b ⟨f, fs, s.cells⟩ ⟨g, gs, t.cells⟩ := by
  obtain ⟨R, hp, hf⟩ := h
  generalize hs : s.callers = fs, ht : t.callers = gs at hf
  cases hf with
  | bottom _ => exact Or.inl ⟨rfl, rfl⟩
  | above _ hresume hf => exact Or.inr ⟨_, _, _, _, rfl, rfl, hresume, R, hp, hf⟩

theorem depth (h : s.Paired a b t) :
    ∃ n, s.depth = a.frames.length + 1 + n ∧ t.depth = b.frames.length + 1 + n := by
  obtain ⟨R, -, hf⟩ := h
  obtain ⟨n, hs, ht⟩ := hf.length
  exact ⟨n, by rw [Scopes.depth]; omega, by rw [Scopes.depth]; omega⟩

end Scopes.Paired

namespace Console

theorem writeLine_behind (c : Console) (text line : String) :
    (c.behind text).writeLine line = (c.writeLine line).behind text := by
  simp [behind, writeLine, String.append_assoc]

theorem readLine_behind (c : Console) (text : String) :
    (c.behind text).readLine = (c.readLine.1, c.readLine.2.behind text) := by
  unfold readLine
  dsimp only [behind]
  split
  next => rfl
  next =>
    by_cases hc : c.ending = .ended ∧ c.unread ≠ []
    · simp [hc]
    · simp [hc]

end Console

namespace Workspace.Paired

variable {a b : Backdrop} {w x : Workspace}

theorem fail (h : w.Paired a b x) (problem : Problem) :
    (w.fail problem).Paired a b (x.fail problem) :=
  ⟨h, rfl⟩

theorem canWrite (h : w.Paired a b x) : w.console.canWrite = x.console.canWrite := by
  obtain ⟨c, hw, hx⟩ := h.console
  rw [hw, hx]
  rfl

theorem setResult (h : w.Paired a b x) (v : Value) :
    (w.scopes.setResult v).Paired a b (x.scopes.setResult v) :=
  h.scopes.edits (w.scopes.edits_setResult v) (x.scopes.edits_setResult v) fun hl => hl.setResult v

theorem declare (h : w.Paired a b x) (type : String) (names : List String) :
    (w.declare type names).Paired a b (x.declare type names) := by
  unfold Workspace.declare
  cases (Kind.ofName? type).bind Kind.zero? with
  | none => exact h.fail _
  | some v =>
    obtain ⟨R, hl⟩ := h.scopes.like
    refine ⟨⟨?_, h.console⟩, (hl.declareAll v names).1⟩
    exact h.scopes.edits (w.scopes.edits_declareAll v names) (x.scopes.edits_declareAll v names)
      fun hl => (hl.declareAll v names).2

theorem assign (h : w.Paired a b x) (target : String) (expr : List String) :
    (w.assign target expr).Paired a b (x.assign target expr) := by
  obtain ⟨R, hp, hf⟩ := h.scopes
  have hl : w.scopes.Like R x.scopes := ⟨hp, hf.top⟩
  unfold Workspace.assign
  rcases hl.assignment target expr with ⟨problem, hw, hx⟩ | ⟨slot, slot', v, hxy, hw, hx⟩
  · rw [hw, hx]
    exact h.fail problem
  · rw [hw, hx]
    exact ⟨⟨⟨R, hp.set hxy v, hf⟩, h.console⟩, rfl⟩

theorem print (h : w.Paired a b x) (args : List String) :
    (w.print args).Paired a b (x.print args) := by
  obtain ⟨R, hl⟩ := h.scopes.like
  obtain ⟨c, hw, hx⟩ := h.console
  simp only [Workspace.print, Scopes.joined_congr hl.valueOf?, h.canWrite]
  cases x.scopes.joined args with
  | error problem => exact h.fail problem
  | ok text =>
    cases x.console.canWrite with
    | false => exact h.fail _
    | true =>
      refine ⟨⟨h.scopes, c.writeLine text, ?_, ?_⟩, rfl⟩
      · rw [← Console.writeLine_behind, ← hw]
        rfl
      · rw [← Console.writeLine_behind, ← hx]
        rfl

theorem input (h : w.Paired a b x) (args : List String) :
    (w.input args).Paired a b (x.input args) := by
  obtain ⟨R, hl⟩ := h.scopes.like
  obtain ⟨c, hw, hx⟩ := h.console
  simp only [Workspace.input, Scopes.joined_congr hl.valueOf?, h.canWrite]
  cases x.scopes.joined args with
  | error problem => exact h.fail problem
  | ok prompt =>
    cases x.console.canWrite with
    | false => exact h.fail _
    | true =>
      -- Both sides read the same line, behind their own texts.
      simp only [↓reduceIte, hw, hx, Console.writeLine_behind, Console.readLine_behind]
      rcases (c.writeLine prompt).readLine with ⟨failure | line, c'⟩
      · exact ⟨⟨h.scopes, c', rfl, rfl⟩, rfl⟩
      · exact ⟨⟨h.setResult _, c', rfl, rfl⟩, rfl⟩

theorem strToInt (h : w.Paired a b x) (args : List String) :
    (w.strToInt args).Paired a b (x.strToInt args) := by
  obtain ⟨R, hl⟩ := h.scopes.like
  unfold Workspace.strToInt
  split
  next token =>
    rw [Scopes.operand_congr hl.valueOf?]
    split
    next => exact h.fail _
    next text _ =>
      cases readInt64? (trim text) with
      | none => exact h.fail _
      | some n => exact ⟨⟨h.setResult _, h.console⟩, rfl⟩
    next => exact h.fail _
  next => exact h.fail _

theorem builtin (h : w.Paired a b x) (f : Builtin) (args : List String) :
    (w.builtin f args).Paired a b (x.builtin f args) := by
  cases f with
  | print => exact h.print args
  | input => exact h.input args
  | strToInt => exact h.strToInt args

end Workspace.Paired

end Brewin
