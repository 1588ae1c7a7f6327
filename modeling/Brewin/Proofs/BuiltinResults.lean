import Brewin.Machine

namespace Brewin

/-- The function level of the running function has a variable with the value. -/
def Scopes.HoldsAtBase (s : Scopes) (name : String) (v : Value) : Prop :=
  ∃ slot, s.frame.base.find? name = some slot ∧ s.value slot = v

theorem Scopes.HoldsAtBase.unique {s : Scopes} {name : String} {v w : Value}
    (h : s.HoldsAtBase name v) (h' : s.HoldsAtBase name w) : v = w := by
  obtain ⟨slot, hslot, hv⟩ := h
  obtain ⟨slot', hslot', hw⟩ := h'
  cases hslot.symm.trans hslot'
  exact hv.symm.trans hw

/-- A result can be read under its name, whatever the name was bound to before. -/
theorem Scopes.holds_setResult (s : Scopes) {v : Value} {name : String}
    (h : resultName? v.kind = some name) : (s.setResult v).HoldsAtBase name v := by
  have hfresh : HoldsAtBase
      { s with
        frame := { s.frame with base := s.frame.base.insert name (.fresh s.cells) }
        cells := s.cells.push v } name v := by
    refine ⟨.fresh s.cells, ?_, ?_⟩
    · rw [Block.find?_insert, if_pos rfl]
    · simp [value, Slot.fresh]
  unfold setResult placeResult
  simp only [h]
  cases hslot : s.frame.base.find? name with
  | none => exact hfresh
  | some slot =>
    by_cases hk : (s.cells.getD slot.cell .unknown).kind = v.kind
    · -- No result is unknown, so the cell of a variable with its kind exists.
      have hlt : slot.cell < s.cells.size := by
        apply Nat.lt_of_not_le
        intro hge
        rw [Array.getD_eq_getD_getElem?, Array.getElem?_eq_none hge] at hk
        rw [← hk] at h
        cases h
      simp only [if_pos hk]
      refine ⟨slot, hslot, ?_⟩
      simp [value, hlt]
    · simp only [if_neg hk]
      exact hfresh

theorem Builtin.ofName?_spelling (b : Builtin) : ofName? b.spelling = some b := by
  cases b <;> decide

theorem Builtin.spelling_of_ofName? {name : String} {b : Builtin} (h : ofName? name = some b) :
    name = b.spelling := by
  unfold ofName? at h
  split at h
  next c hc =>
    cases h
    exact (name_of_reserved? hc).symm
  next => cases h

section

variable {p : Program} {o : Options} {st : State}

theorem step_of_allowed {statement : Statement} (hx : st.exhausted o = false)
    (hat : p.at? st.ip = some statement) :
    (st.step p o).state = (st.execute p st.ip.toNat statement).state.tick ∧
      (st.step p o).signal = (st.execute p st.ip.toNat statement).signal := by
  simp only [State.step, hx, hat]
  exact ⟨rfl, rfl⟩

/-- A call of a builtin takes over its effect on the workspace. -/
theorem step_of_builtin {name : String} {args : List String} {b : Builtin}
    (hx : st.exhausted o = false) (hat : p.at? st.ip = some (.call name args))
    (hb : Builtin.ofName? name = some b) :
    (st.step p o).state.workspace = (st.workspace.builtin b args).workspace ∧
      ((st.workspace.builtin b args).problem? = none → (st.step p o).signal = .running) ∧
      ∀ problem, (st.workspace.builtin b args).problem? = some problem →
        (st.step p o).signal = .failed ⟨st.ip, problem⟩ := by
  obtain ⟨hstate, hsignal⟩ := step_of_allowed hx hat
  have hexecute : st.execute p st.ip.toNat (.call name args) =
      st.settle st.ip.toNat (·.builtin b args) := by
    simp only [State.execute, hb]
  rw [hstate, hsignal, hexecute]
  simp only [State.settle]
  rcases he : st.workspace.builtin b args with ⟨w, problem?⟩
  cases problem? with
  | none => exact ⟨rfl, fun _ => rfl, by simp⟩
  | some problem =>
    refine ⟨rfl, by simp, fun problem' h => ?_⟩
    cases h
    rfl

end

end Brewin
