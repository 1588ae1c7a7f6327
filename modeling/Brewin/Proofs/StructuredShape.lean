import Brewin.Proofs.FrameShape
import Brewin.Proofs.StructuredRun

namespace Brewin

variable {t : Outline} {w : Workspace}

theorem shape_act {a : Activation} {here : Nat} {simple : Simple} {w' : Workspace}
    (h : simple.act t a here w = .next w' ∨ ∃ exit, simple.act t a here w = .leave w' exit) :
    w'.scopes.frame.shape = w.scopes.frame.shape := by
  have effect : ∀ {e : Effect}, e.workspace.scopes.frame.shape = w.scopes.frame.shape →
      (e.action here = .next w' ∨ ∃ exit, e.action here = .leave w' exit) →
      w'.scopes.frame.shape = w.scopes.frame.shape := by
    intro e hs he
    unfold Effect.action at he
    split at he
    next => rcases he with he | ⟨exit, he⟩ <;> cases he; exact hs
    next => rcases he with he | ⟨exit, he⟩ <;> cases he; exact hs
  cases simple with
  | var type names => exact effect (w.shape_declare type names) h
  | assign target expr => exact effect (w.shape_assign target expr) h
  | call name args =>
    simp only [Simple.act] at h
    split at h
    next b hb => exact effect (w.shape_builtin b args) h
    next =>
      unfold Outline.invoke at h
      (repeat' split at h) <;> rcases h with h | ⟨exit, h⟩ <;> cases h <;> rfl
  | ret expr =>
    simp only [Simple.act, Activation.giveBack] at h
    (repeat' split at h) <;> rcases h with h | ⟨exit, h⟩ <;> cases h <;> rfl
  | nop => rcases h with h | ⟨exit, h⟩ <;> cases h; rfl
  | malformed omission => rcases h with h | ⟨exit, h⟩ <;> cases h; rfl

theorem shape_closeBlock {w' : Workspace}
    (h : w'.scopes.frame.shape = w.openBlock.scopes.frame.shape) :
    w'.closeBlock.scopes.frame.shape = w.scopes.frame.shape ∧
      w'.scopes.popBlock? = some w'.closeBlock.scopes := by
  obtain ⟨⟨⟨function, line, base, inner⟩, callers, cells⟩, console⟩ := w'
  cases inner with
  | nil => simp [Frame.shape, Workspace.openBlock, Scopes.pushBlock, Frame.pushBlock] at h
  | cons b bs =>
    refine ⟨?_, rfl⟩
    simpa [Frame.shape, Workspace.openBlock, Scopes.pushBlock, Frame.pushBlock,
      Workspace.closeBlock, Scopes.popBlock?, Frame.popBlock?] using h

theorem shape_resume (w done : Workspace) (result? : Option Value) :
    (w.resume done result?).scopes.frame.shape = w.scopes.frame.shape := by
  cases result? with
  | none => rfl
  | some v => exact Scopes.shape_setResult _ v

theorem afterBlock_eq_through {r : Option (Workspace × Exit)} {w' : Workspace}
    {next : Workspace → Option (Workspace × Exit)}
    (h : afterBlock r next = some (w', .through)) :
    ∃ done, r = some (done, .through) ∧ next done.closeBlock = some (w', .through) := by
  unfold afterBlock at h
  split at h
  next done => exact ⟨done, rfl, h⟩
  next hn => exact absurd h (hn w')

theorem afterCall_eq_through {r : Option (Workspace × Exit)} {w' : Workspace} {f : Definition}
    {next : Workspace → Option (Workspace × Exit)}
    (h : afterCall r w f next = some (w', .through)) :
    ∃ done result?, next (w.resume done result?) = some (w', .through) := by
  unfold afterCall at h
  split at h
  next done => exact ⟨done, f.zeroResult?, h⟩
  next done result? => exact ⟨done, result?, h⟩
  next hn _ => exact absurd h (hn w')

/-- A body that comes to its end leaves the blocks around it open. -/
theorem run_through_shape {fuel : Nat} {a : Activation} {b : Body} {w w' : Workspace}
    (h : t.run fuel a b w = some (w', .through)) :
    w'.scopes.frame.shape = w.scopes.frame.shape := by
  induction fuel generalizing a b w w' with
  | zero => simp [Outline.run] at h
  | succ fuel ih =>
    have block : ∀ {w' : Workspace} {inside rest : Body},
        (afterBlock (t.run fuel a inside w.openBlock) fun w => t.run fuel a rest w) =
          some (w', .through) → w'.scopes.frame.shape = w.scopes.frame.shape := by
      intro w' inside rest h
      obtain ⟨done, hd, hn⟩ := afterBlock_eq_through h
      exact (ih hn).trans (shape_closeBlock (ih hd)).1
    cases b with
    | done =>
      simp only [Outline.run, Option.some.injEq, Prod.mk.injEq, and_true] at h
      rw [h]
    | line here simple rest =>
      simp only [Outline.run] at h
      split at h
      next w₁ ha => exact (ih h).trans (shape_act (Or.inl ha))
      next w₁ exit ha =>
        simp only [Option.some.injEq, Prod.mk.injEq] at h
        rw [← h.1]
        exact shape_act (Or.inr ⟨exit, ha⟩)
      next r callee ha =>
        obtain ⟨done, result?, hn⟩ := afterCall_eq_through h
        exact (ih hn).trans (shape_resume w done result?)
    | branch here cond yes rest =>
      simp only [Outline.run] at h
      split at h
      next => simp at h
      next => exact ih h
      next => exact block h
    | fork here cond yes no rest =>
      simp only [Outline.run] at h
      split at h
      next => simp at h
      next => exact block h
    | loop here cond inside rest =>
      simp only [Outline.run] at h
      split at h
      next => simp at h
      next => exact ih h
      next => exact block h

end Brewin
