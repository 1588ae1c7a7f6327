import Brewin.Workspace

namespace Brewin

/-- What binding variables leaves as it is: the function, the line to go back to, and the number
of blocks opened inside. -/
def Frame.shape (f : Frame) : String × Int × Nat :=
  (f.function, f.resume, f.inner.length)

@[simp]
theorem Frame.shape_insert (f : Frame) (name : String) (slot : Slot) :
    (f.insert name slot).shape = f.shape := by
  cases hi : f.inner with
  | nil => simp [insert, shape, hi]
  | cons b bs => simp [insert, shape, hi]

theorem Frame.shape_eq {f : Frame} {function : String} {resume : Int} {n : Nat} :
    f.shape = (function, resume, n) ↔
      f.function = function ∧ f.resume = resume ∧ f.inner.length = n := by
  simp [shape]

theorem Frame.shape_popBlock {f g : Frame} (h : f.popBlock? = some g) :
    g.function = f.function ∧ g.resume = f.resume ∧ g.inner.length + 1 = f.inner.length := by
  unfold popBlock? at h
  split at h
  next => cases h
  next top rest hi =>
    cases h
    exact ⟨rfl, rfl, by rw [hi]; rfl⟩

namespace Scopes

theorem frame_of_popBlock? {s s' : Scopes} (h : s.popBlock? = some s') :
    ∃ g, s.frame.popBlock? = some g ∧ s' = { s with frame := g } := by
  unfold popBlock? at h
  split at h
  next g hg =>
    cases h
    exact ⟨g, hg, rfl⟩
  next => cases h

theorem shape_placeResult (f : Frame) (cells : Array Value) (v : Value) :
    (placeResult f cells v).1.shape = f.shape := by
  unfold placeResult
  split
  next => rfl
  next =>
    split
    next =>
      split
      next => rfl
      next => rfl
    next => rfl

theorem shape_setResult (s : Scopes) (v : Value) :
    (s.setResult v).frame.shape = s.frame.shape :=
  shape_placeResult s.frame s.cells v

theorem shape_declareAll (s : Scopes) (v : Value) (names : List String) :
    (s.declareAll v names).1.frame.shape = s.frame.shape ∧
      (s.declareAll v names).1.callers = s.callers := by
  induction names generalizing s with
  | nil => exact ⟨rfl, rfl⟩
  | cons name names ih =>
    unfold declareAll
    split
    next => exact ⟨rfl, rfl⟩
    next =>
      obtain ⟨hs, hc⟩ := ih (s.bind name v)
      exact ⟨hs.trans (s.frame.shape_insert name _), hc⟩

theorem shape_bindParam (s : Scopes) (caller : Frame) (p : Param) (token : String) (v : Value) :
    (s.bindParam caller p token v).frame.shape = s.frame.shape ∧
      (s.bindParam caller p token v).callers = s.callers := by
  unfold bindParam
  split
  next => exact ⟨s.frame.shape_insert _ _, rfl⟩
  next => exact ⟨s.frame.shape_insert _ _, rfl⟩

/-- A call puts a frame without inner blocks on top of its caller. -/
theorem shape_enter (s : Scopes) (f : Definition) (args : List String) (values : List Value)
    (resume : Int) :
    (s.enter f args values resume).frame.shape = (f.name, resume, 0) ∧
      (s.enter f args values resume).callers = s.frame :: s.callers := by
  unfold enter
  refine List.foldlRecOn (motive := fun (t : Scopes) =>
    t.frame.shape = (f.name, resume, 0) ∧ t.callers = s.frame :: s.callers) _ _ ⟨rfl, rfl⟩ ?_
  rintro t ⟨hs, hc⟩ ⟨p, token, v⟩ -
  obtain ⟨hs', hc'⟩ := t.shape_bindParam s.frame p token v
  exact ⟨hs'.trans hs, hc'.trans hc⟩

end Scopes

namespace Workspace

theorem shape_declare (w : Workspace) (type : String) (names : List String) :
    (w.declare type names).workspace.scopes.frame.shape = w.scopes.frame.shape := by
  unfold declare
  split
  next => rfl
  next v _ => exact (w.scopes.shape_declareAll v names).1

theorem shape_assign (w : Workspace) (target : String) (expr : List String) :
    (w.assign target expr).workspace.scopes.frame.shape = w.scopes.frame.shape := by
  unfold assign
  split
  next => rfl
  next => rfl

/-- A builtin function changes at most a result variable, and only if it succeeds. -/
theorem scopes_builtin (w : Workspace) (b : Builtin) (args : List String) :
    (w.builtin b args).workspace.scopes = w.scopes ∨
      (w.builtin b args).problem? = none ∧ ∃ v : Value, (v.kind = .string ∨ v.kind = .int) ∧
        (w.builtin b args).workspace.scopes = w.scopes.setResult v := by
  cases b with
  | print =>
    left
    simp only [builtin, print]
    split
    next => rfl
    next =>
      split
      next => rfl
      next => rfl
  | input =>
    simp only [builtin, input]
    split
    next => exact Or.inl rfl
    next =>
      split
      next =>
        split
        next line _ _ => exact Or.inr ⟨rfl, .string line, Or.inl rfl, rfl⟩
        next => exact Or.inl rfl
      next => exact Or.inl rfl
  | strToInt =>
    simp only [builtin, strToInt]
    split
    next =>
      split
      next => exact Or.inl rfl
      next =>
        split
        next => exact Or.inl rfl
        next n _ => exact Or.inr ⟨rfl, .int n, Or.inr rfl, rfl⟩
      next => exact Or.inl rfl
    next => exact Or.inl rfl

theorem shape_builtin (w : Workspace) (b : Builtin) (args : List String) :
    (w.builtin b args).workspace.scopes.frame.shape = w.scopes.frame.shape := by
  rcases w.scopes_builtin b args with h | ⟨-, v, -, h⟩
  · rw [h]
  · rw [h, Scopes.shape_setResult]

end Workspace

end Brewin
