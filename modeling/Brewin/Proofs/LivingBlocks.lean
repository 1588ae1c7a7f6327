import Brewin.Proofs.BlockScoping

namespace Brewin

/-- A run from a state on along which all states have a property. -/
inductive Along (p : Program) (o : Options) (P : State → Prop) (st : State) : State → Prop
  | refl : P st → Along p o P st st
  | next {u : State} : Along p o P st u → P (u.step p o).state → Along p o P st (u.step p o).state

/-- The frame at a height is there, and it has the block at a level. -/
def Scopes.Lives (s : Scopes) (height level : Nat) : Prop :=
  ∃ f, s.frameAt? height = some f ∧ level ≤ f.inner.length

namespace Frame

variable {f : Frame}

theorem slotAt?_innermost (f : Frame) (name : String) :
    f.slotAt? f.inner.length name = f.innermost.find? name := by
  unfold slotAt? innermost
  rw [block?_eq]
  cases hi : f.inner with
  | nil => rfl
  | cons b bs => simp

theorem level_le_of_slotAt? {level : Nat} {name : String} {slot : Slot}
    (h : f.slotAt? level name = some slot) : level ≤ f.inner.length := by
  obtain ⟨b, hb, -⟩ := Option.bind_eq_some_iff.mp h
  rw [block?_eq] at hb
  have hlt := (List.getElem?_eq_some_iff.mp hb).1
  simp only [List.length_cons, List.length_reverse] at hlt
  omega

theorem slotAt?_pushBlock {level : Nat} {name : String} {slot : Slot}
    (h : f.slotAt? level name = some slot) : f.pushBlock.slotAt? level name = some slot := by
  have hle := level_le_of_slotAt? h
  unfold slotAt? at h ⊢
  rw [block?_eq] at h ⊢
  have hlt : level < (f.base :: f.inner.reverse).length := by
    simp only [List.length_cons, List.length_reverse]
    omega
  simp only [pushBlock, List.reverse_cons, ← List.cons_append]
  rwa [List.getElem?_append_left hlt]

theorem slotAt?_popBlock {g : Frame} (hp : f.popBlock? = some g) {level : Nat} {name : String}
    {slot : Slot} (h : f.slotAt? level name = some slot) (hl : level ≤ g.inner.length) :
    g.slotAt? level name = some slot := by
  unfold popBlock? at hp
  split at hp
  next => cases hp
  next top rest hi =>
    cases hp
    unfold slotAt? at h ⊢
    rw [block?_eq] at h ⊢
    have hlt : level < (f.base :: rest.reverse).length := by
      simp only [List.length_cons, List.length_reverse]
      simp only at hl
      omega
    rw [hi, List.reverse_cons, ← List.cons_append, List.getElem?_append_left hlt] at h
    exact h

end Frame

namespace Scopes

variable {s s' : Scopes} {a : Spot} {slot : Slot}

/-- Where the callers are the same, only the running frame has to be looked at. -/
theorem slot?_keep_of_top (h : s.slot? a = some slot) (hc : s'.callers = s.callers)
    (ht : a.height = s.callers.length → s.frame.slotAt? a.level a.name = some slot →
      s'.frame.slotAt? a.level a.name = some slot) : s'.slot? a = some slot := by
  by_cases hh : a.height = s.callers.length
  · have hold := (slot?_top hh).symm.trans h
    have hnew := ht hh hold
    exact (slot?_top (by rw [hh, hc])).trans hnew
  · unfold slot? at h ⊢
    rw [frameAt?_eq, if_neg hh] at h
    rw [frameAt?_eq, hc, if_neg hh]
    exact h

theorem level_le_of_lives (hl : s.Lives a.height a.level) (hh : a.height = s.callers.length) :
    a.level ≤ s.frame.inner.length := by
  obtain ⟨f, hf, hle⟩ := hl
  rw [frameAt?_eq, if_pos hh] at hf
  cases hf
  exact hle

theorem height_le_of_lives {height level : Nat} (hl : s.Lives height level) :
    height ≤ s.callers.length := by
  obtain ⟨f, hf, -⟩ := hl
  have hlt : height < s.frames.reverse.length := (List.getElem?_eq_some_iff.mp hf).1
  simp only [frames, List.length_reverse, List.length_cons] at hlt
  omega

/-- A declaration keeps all bindings, since it refuses names that the block has. -/
theorem slotAt?_declareAll {v : Value} {names : List String} {level : Nat} {name : String}
    (h : s.frame.slotAt? level name = some slot) :
    (s.declareAll v names).1.frame.slotAt? level name = some slot := by
  induction names generalizing s with
  | nil => exact h
  | cons x names ih =>
    unfold declareAll
    split
    next => exact h
    next hx =>
      apply ih
      have hfree : ¬ (level = s.frame.inner.length ∧ name = x) := by
        rintro ⟨rfl, rfl⟩
        rw [Frame.slotAt?_innermost] at h
        simp [Block.binds, h] at hx
      have hinsert := s.frame.slotAt?_insert x (.fresh s.cells) level name
      rw [if_neg hfree] at hinsert
      exact hinsert.trans h

theorem slotAt?_setResult {v : Value} {level : Nat} {name : String}
    (h : s.frame.slotAt? level name = some slot)
    (hn : ¬ (level = 0 ∧ name ∈ resultNames)) :
    (s.setResult v).frame.slotAt? level name = some slot := by
  have hgrows : s.frame.Grows (s.setResult v).frame := (Frame.Grows.refl s.frame).setResult v
  have hinner : (s.setResult v).frame.inner.length = s.frame.inner.length :=
    (Frame.shape_eq.mp (s.shape_setResult v)).2.2
  rw [hgrows.slotAt?_eq hinner hn]
  exact h

theorem slot?_setResult {v : Value} (h : s.slot? a = some slot)
    (hn : ¬ (a.level = 0 ∧ a.name ∈ resultNames)) : (s.setResult v).slot? a = some slot :=
  slot?_keep_of_top h rfl fun _ ht => slotAt?_setResult ht hn

theorem slot?_enter {f : Definition} {args : List String} {values : List Value} {resume : Int}
    (h : s.slot? a = some slot) : (s.enter f args values resume).slot? a = some slot := by
  have hc := (s.shape_enter f args values resume).2
  unfold slot? at h ⊢
  obtain ⟨g, hg, hs⟩ := Option.bind_eq_some_iff.mp h
  have hlt : a.height < s.frames.reverse.length := (List.getElem?_eq_some_iff.mp hg).1
  have hlength : s.frames.reverse.length = s.callers.length + 1 := by
    simp [frames]
  rw [frameAt?_eq, hc, List.length_cons, if_neg (by omega)]
  exact h

theorem slot?_popFrame {caller : Frame} {callers : List Frame}
    (hc : s.callers = caller :: callers) (h : s.slot? a = some slot)
    (hh : a.height ≤ callers.length) : slot? ⟨caller, callers, s.cells⟩ a = some slot := by
  unfold slot? at h ⊢
  rw [frameAt?_eq, hc, List.length_cons, if_neg (by omega)] at h
  exact h

theorem slot?_handOver {caller : Frame} {callers : List Frame} {result? : Option Value}
    (hc : s.callers = caller :: callers) (h : s.slot? a = some slot)
    (hh : a.height ≤ callers.length) (hn : ¬ (a.level = 0 ∧ a.name ∈ resultNames)) :
    (handOver caller callers s.cells result?).slot? a = some slot := by
  have hpop := slot?_popFrame hc h hh
  cases result? with
  | none => exact hpop
  | some v => exact slot?_setResult hpop hn

end Scopes

/-- As long as its block lives a variable keeps its binding, unless it is one for results. -/
theorem Move.keeps_slot {p : Program} {here : Nat} {s s' : Scopes} {statement : Statement}
    {ip' : Int} (hm : Move p here s statement ip' s') {a : Spot} {slot : Slot}
    (h : s.slot? a = some slot) (hl : s'.Lives a.height a.level)
    (hn : ¬ (a.level = 0 ∧ a.name ∈ resultNames)) : s'.slot? a = some slot := by
  have pushed : s.pushBlock.slot? a = some slot :=
    Scopes.slot?_keep_of_top h rfl fun _ ht => Frame.slotAt?_pushBlock ht
  have popped : ∀ {s'}, s.popBlock? = some s' → s'.Lives a.height a.level →
      s'.slot? a = some slot := by
    intro s' hp hl
    obtain ⟨g, hg, rfl⟩ := Scopes.frame_of_popBlock? hp
    exact Scopes.slot?_keep_of_top h rfl fun hh ht =>
      Frame.slotAt?_popBlock hg ht (Scopes.level_le_of_lives hl hh)
  cases hm with
  | pass => exact h
  | func => exact h
  | @declare _ names v _ _ =>
    exact Scopes.slot?_keep_of_top h (s.shape_declareAll v names).2 fun _ ht =>
      Scopes.slotAt?_declareAll ht
  | @declareSome _ names v _ _ _ =>
    exact Scopes.slot?_keep_of_top h (s.shape_declareAll v names).2 fun _ ht =>
      Scopes.slotAt?_declareAll ht
  | assign _ => exact h
  | builtin _ => exact h
  | result _ _ => exact Scopes.slot?_setResult h hn
  | enter _ _ _ => exact Scopes.slot?_enter h
  | @leave _ result? caller callers hc _ =>
    have hh := Scopes.height_le_of_lives hl
    rw [Scopes.callers_handOver] at hh
    exact Scopes.slot?_handOver hc h hh hn
  | intoThen => exact pushed
  | intoElse _ => exact pushed
  | pastIf _ => exact h
  | orElse _ => exact h
  | endIf hp => exact popped hp hl
  | intoLoop => exact pushed
  | pastLoop _ => exact h
  | endWhile _ hp => exact popped hp hl

theorem step_keeps_slot {p : Program} {o : Options} {st : State} {a : Spot} {slot : Slot}
    (h : st.scopes.slot? a = some slot)
    (hl : (st.step p o).state.scopes.Lives a.height a.level)
    (hn : ¬ (a.level = 0 ∧ a.name ∈ resultNames)) :
    (st.step p o).state.scopes.slot? a = some slot := by
  rcases step_moves p o st with ⟨-, hs, -⟩ | ⟨here, statement, -, -, hm⟩
  · rwa [hs]
  · exact hm.keeps_slot h hl hn

theorem Along.keeps_slot {p : Program} {o : Options} {a : Spot} {st u : State} {slot : Slot}
    (hu : Along p o (fun w => w.scopes.Lives a.height a.level) st u)
    (h : st.scopes.slot? a = some slot) (hn : ¬ (a.level = 0 ∧ a.name ∈ resultNames)) :
    u.scopes.slot? a = some slot := by
  induction hu with
  | refl => exact h
  | next _ hl ih => exact step_keeps_slot ih hl hn

namespace Scopes

variable {s : Scopes} {v : Value} {names : List String}

theorem cells_declareAll {c : Nat} (h : c < s.cells.size) :
    (s.declareAll v names).1.cells[c]? = s.cells[c]? := by
  induction names generalizing s with
  | nil => rfl
  | cons x names ih =>
    unfold declareAll
    split
    next => rfl
    next =>
      have hsize : (s.bind x v).cells.size = s.cells.size + 1 := Array.size_push v
      have hnext : (s.bind x v).cells[c]? = s.cells[c]? := by
        simp only [bind]
        rw [Array.getElem?_push, if_neg (by omega)]
      rw [ih (by omega), hnext]

/-- The bindings that a declaration adds have cells with its value. -/
theorem slotAt?_of_declareAll {level : Nat} {name : String} {slot : Slot}
    (h : (s.declareAll v names).1.frame.slotAt? level name = some slot) :
    s.frame.slotAt? level name = some slot ∨
      (s.declareAll v names).1.cells[slot.cell]? = some v := by
  induction names generalizing s with
  | nil => exact Or.inl h
  | cons x names ih =>
    unfold declareAll at h ⊢
    split
    next hx =>
      rw [if_pos hx] at h
      exact Or.inl h
    next hx =>
      rw [if_neg hx] at h
      rcases ih h with hold | hcell
      · have hinsert := s.frame.slotAt?_insert x (.fresh s.cells) level name
        rw [show (s.frame.insert x (.fresh s.cells)).slotAt? level name = some slot from hold]
          at hinsert
        split at hinsert
        next =>
          cases hinsert
          have hsize : (s.bind x v).cells.size = s.cells.size + 1 := Array.size_push v
          have hnew : (s.bind x v).cells[s.cells.size]? = some v := by
            simp [bind]
          have hlt : s.cells.size < (s.bind x v).cells.size := by omega
          exact Or.inr ((cells_declareAll hlt).trans hnew)
        next => exact Or.inl hinsert.symm
      · exact Or.inr hcell

/-- A declaration that succeeds adds all its names, none of which the block had. -/
theorem declareAll_adds (h : (s.declareAll v names).2 = none) {name : String}
    (hn : name ∈ names) :
    s.frame.slotAt? s.frame.inner.length name = none ∧
      ∃ slot, (s.declareAll v names).1.frame.slotAt? s.frame.inner.length name = some slot := by
  induction names generalizing s with
  | nil => cases hn
  | cons x names ih =>
    unfold declareAll at h ⊢
    split
    next hx =>
      rw [if_pos hx] at h
      cases h
    next hx =>
      rw [if_neg hx] at h
      have hshape := s.frame.shape_insert x (.fresh s.cells)
      have hlength : (s.bind x v).frame.inner.length = s.frame.inner.length :=
        (Frame.shape_eq.mp hshape).2.2
      have hinsert := s.frame.slotAt?_insert x (.fresh s.cells) s.frame.inner.length
      have hfree : s.frame.slotAt? s.frame.inner.length x = none := by
        rw [Frame.slotAt?_innermost]
        simpa [Block.binds] using hx
      by_cases hname : name = x
      · subst hname
        have hslot := hinsert name
        rw [if_pos ⟨rfl, rfl⟩] at hslot
        exact ⟨hfree, _, slotAt?_declareAll hslot⟩
      · have hmem : name ∈ names := (List.mem_cons.mp hn).resolve_left hname
        obtain ⟨hnone, hsome⟩ := ih h hmem
        rw [hlength] at hnone hsome
        refine ⟨?_, hsome⟩
        have hold := hinsert name
        rw [if_neg (fun hspot => hname hspot.2)] at hold
        exact hold.symm.trans hnone

end Scopes

end Brewin
