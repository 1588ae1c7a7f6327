import Mathlib.Logic.Relation
import Brewin.Proofs.Moves

namespace Brewin

/-- Some block of the frame has the slot. -/
def Frame.Binds (f : Frame) (slot : Slot) : Prop :=
  ∃ b ∈ f.blocks, ∃ name, b.find? name = some slot

namespace Frame

variable {f : Frame} {slot : Slot}

theorem binds_of_find? {name : String} (h : f.find? name = some slot) : f.Binds slot := by
  obtain ⟨b, hb, hs⟩ := List.exists_of_findSome?_eq_some h
  exact ⟨b, hb, name, hs⟩

theorem binds_of_base {name : String} (h : f.base.find? name = some slot) : f.Binds slot :=
  ⟨f.base, by simp [blocks], name, h⟩

theorem Binds.of_insertBlock {b : Block} {name : String} {new : Slot}
    (h : ∃ other, (b.insert name new).find? other = some slot) :
    slot = new ∨ ∃ other, b.find? other = some slot := by
  obtain ⟨other, h⟩ := h
  rw [Block.find?_insert] at h
  split at h
  next => exact Or.inl (Option.some.inj h).symm
  next => exact Or.inr ⟨other, h⟩

theorem Binds.of_base_insert {name : String} {new : Slot}
    (h : ({ f with base := f.base.insert name new } : Frame).Binds slot) :
    slot = new ∨ f.Binds slot := by
  obtain ⟨b, hb, hs⟩ := h
  rcases List.mem_append.mp hb with hb | hb
  · obtain ⟨other, hs⟩ := hs
    exact Or.inr ⟨b, List.mem_append_left _ hb, other, hs⟩
  · cases List.mem_singleton.mp hb
    rcases Binds.of_insertBlock hs with rfl | ⟨other, hs⟩
    · exact Or.inl rfl
    · exact Or.inr (binds_of_base hs)

/-- Binding a name adds at most the new slot. -/
theorem Binds.of_insert {name : String} {new : Slot} (h : (f.insert name new).Binds slot) :
    slot = new ∨ f.Binds slot := by
  unfold insert at h
  split at h
  next => exact h.of_base_insert
  next top rest hi =>
    obtain ⟨b, hb, hs⟩ := h
    simp only [blocks, List.cons_append, List.mem_cons] at hb
    rcases hb with rfl | hb
    · rcases Binds.of_insertBlock hs with rfl | ⟨other, hs⟩
      · exact Or.inl rfl
      · exact Or.inr ⟨top, by simp [blocks, hi], other, hs⟩
    · obtain ⟨other, hs⟩ := hs
      refine Or.inr ⟨b, ?_, other, hs⟩
      rw [blocks, hi]
      exact List.mem_cons_of_mem _ hb

theorem Binds.of_pushBlock (h : f.pushBlock.Binds slot) : f.Binds slot := by
  obtain ⟨b, hb, other, hs⟩ := h
  simp only [blocks, pushBlock, List.cons_append, List.mem_cons] at hb
  rcases hb with rfl | hb
  · cases hs
  · exact ⟨b, hb, other, hs⟩

theorem Binds.of_popBlock {g : Frame} (hp : f.popBlock? = some g) (h : g.Binds slot) :
    f.Binds slot := by
  unfold popBlock? at hp
  split at hp
  next => cases hp
  next top rest hi =>
    cases hp
    obtain ⟨b, hb, hs⟩ := h
    refine ⟨b, ?_, hs⟩
    rw [blocks, hi]
    exact List.mem_cons_of_mem _ hb

theorem not_binds_new (function : String) (resume : Int) :
    ¬ ({ function, resume } : Frame).Binds slot := by
  rintro ⟨b, hb, other, hs⟩
  cases List.mem_singleton.mp hb
  cases hs

end Frame

/-- The ways to change the running frame and the cells that its function has at hand. -/
inductive Edit (s : Scopes) : Scopes → Prop
  | bind (name : String) (v : Value) : Edit s (s.bind name v)
  | bindResult (name : String) (v : Value) :
      Edit s { s with
        frame.base := s.frame.base.insert name (.fresh s.cells), cells := s.cells.push v }
  | store {slot : Slot} (v : Value) : s.frame.Binds slot → Edit s (s.store slot v)
  | pushBlock : Edit s s.pushBlock
  | popBlock {s' : Scopes} : s.popBlock? = some s' → Edit s s'

abbrev Edits : Scopes → Scopes → Prop :=
  Relation.ReflTransGen Edit

namespace Scopes

theorem placeResult_none {v : Value} (h : resultName? v.kind = none) (frame : Frame)
    (cells : Array Value) : placeResult frame cells v = (frame, cells) := by
  unfold placeResult
  rw [h]

/-- A result goes into the variable that has its name, or into a new one. -/
theorem placeResult_some {v : Value} {name : String} (h : resultName? v.kind = some name)
    (frame : Frame) (cells : Array Value) :
    (∃ slot, frame.base.find? name = some slot ∧
      placeResult frame cells v = (frame, cells.setIfInBounds slot.cell v)) ∨
    placeResult frame cells v =
      ({ frame with base := frame.base.insert name (.fresh cells) }, cells.push v) := by
  cases hs : frame.base.find? name with
  | none => exact Or.inr (by simp only [placeResult, h, hs])
  | some slot =>
    by_cases hk : (cells.getD slot.cell .unknown).kind = v.kind
    · exact Or.inl ⟨slot, rfl, by simp only [placeResult, h, hs, if_pos hk]⟩
    · exact Or.inr (by simp only [placeResult, h, hs, if_neg hk])

theorem edits_setResult (s : Scopes) (v : Value) : Edits s (s.setResult v) := by
  unfold setResult
  cases hn : resultName? v.kind with
  | none =>
    rw [placeResult_none hn]
  | some name =>
    rcases placeResult_some hn s.frame s.cells with ⟨slot, hs, he⟩ | he
    · rw [he]
      exact .single (.store v (Frame.binds_of_base hs))
    · rw [he]
      exact .single (.bindResult name v)

theorem edits_declareAll (s : Scopes) (v : Value) (names : List String) :
    Edits s (s.declareAll v names).1 := by
  induction names generalizing s with
  | nil => exact .refl
  | cons name names ih =>
    unfold declareAll
    split
    next => exact .refl
    next => exact .head (.bind name v) (ih (s.bind name v))

theorem edits_handOver (caller : Frame) (callers : List Frame) (cells : Array Value)
    (result? : Option Value) :
    Edits ⟨caller, callers, cells⟩ (.handOver caller callers cells result?) := by
  cases result? with
  | none => exact .refl
  | some v => exact edits_setResult ⟨caller, callers, cells⟩ v

theorem lookup?_of_assignment {s : Scopes} {target : String} {expr : List String} {slot : Slot}
    {v : Value} (h : s.assignment target expr = .ok (slot, v)) :
    s.evaluate expr = .ok v ∧ s.lookup? target = some slot := by
  unfold assignment at h
  split at h
  next => cases h
  next w he =>
    split at h
    next => cases h
    next found hf =>
      split at h
      next =>
        cases h
        exact ⟨he, hf⟩
      next => cases h

theorem mem_zip_of_mem_zip_zip {α β γ : Type} {as : List α} {bs : List β} {cs : List γ} {a : α}
    {b : β} {c : γ} (h : (a, b, c) ∈ as.zip (bs.zip cs)) : (a, b) ∈ as.zip bs := by
  obtain ⟨i, hi⟩ := List.mem_iff_getElem?.mp h
  obtain ⟨ha, hbc⟩ := List.getElem?_zip_eq_some.mp hi
  obtain ⟨hb, -⟩ := List.getElem?_zip_eq_some.mp hbc
  exact List.mem_iff_getElem?.mpr ⟨i, List.getElem?_zip_eq_some.mpr ⟨ha, hb⟩⟩

/-- A call binds its parameters one by one, each to a new cell or to the cell of a variable of
the caller. -/
theorem enter_induction {motive : Scopes → Prop} (s : Scopes) (f : Definition)
    (args : List String) (values : List Value) (resume : Int)
    (push : motive (s.pushFrame { function := f.name, resume }))
    (bind : ∀ t name v, motive t → motive (t.bind name v))
    (share : ∀ t param token owner, t.callers = s.frames → (param, token) ∈ f.params.zip args →
      param.byRef = true → s.frame.find? token = some owner → motive t →
      motive (t.bindAlias param.name owner token)) :
    motive (s.enter f args values resume) := by
  unfold enter
  refine (List.foldlRecOn (motive := fun (t : Scopes) => t.callers = s.frames ∧ motive t) _ _
    ⟨rfl, push⟩ ?_).2
  rintro t ⟨hc, ht⟩ ⟨param, token, v⟩ hmem
  refine ⟨(t.shape_bindParam s.frame param token v).2.trans hc, ?_⟩
  change motive (t.bindParam s.frame param token v)
  unfold bindParam
  split
  next owner ho =>
    split at ho
    next hr =>
      exact share t param token owner hc (mem_zip_of_mem_zip_zip hmem) hr ho ht
    next => cases ho
  next => exact bind t param.name v ht

end Scopes

/-- Every move edits the running frame, or enters or leaves a function. -/
inductive Passage (p : Program) (s : Scopes) : Statement → Int → Scopes → Prop
  | edits {statement : Statement} {ip' : Int} {s' : Scopes} : Edits s s' →
      Passage p s statement ip' s'
  | enter {name : String} {args : List String} {ip' : Int} (f : Definition) (values : List Value)
      (resume : Int) : Passage p s (.call name args) ip' (s.enter f args values resume)
  | leave {statement : Statement} {caller : Frame} {callers : List Frame}
      {result? : Option Value} : s.callers = caller :: callers →
      GivenBack p s statement result? →
      Passage p s statement s.frame.resume (.handOver caller callers s.cells result?)

theorem Move.passage {p : Program} {here : Nat} {s s' : Scopes} {statement : Statement} {ip' : Int}
    (h : Move p here s statement ip' s') : Passage p s statement ip' s' := by
  cases h with
  | pass => exact .edits .refl
  | func => exact .edits .refl
  | @declare _ names v _ _ => exact .edits (s.edits_declareAll v names)
  | @declareSome _ names v _ _ _ => exact .edits (s.edits_declareAll v names)
  | @assign _ _ _ v ha =>
    have hs := (Scopes.lookup?_of_assignment ha).2
    exact .edits (.single (.store v (Frame.binds_of_find? hs)))
  | builtin _ => exact .edits .refl
  | @result _ _ _ v _ _ => exact .edits (s.edits_setResult v)
  | enter _ _ _ => exact .enter _ _ _
  | leave hc hg => exact .leave hc hg
  | intoThen => exact .edits (.single .pushBlock)
  | intoElse _ => exact .edits (.single .pushBlock)
  | pastIf _ => exact .edits .refl
  | orElse _ => exact .edits .refl
  | endIf hp => exact .edits (.single (.popBlock hp))
  | intoLoop => exact .edits (.single .pushBlock)
  | pastLoop _ => exact .edits .refl
  | endWhile _ hp => exact .edits (.single (.popBlock hp))

theorem Edits.preserve {P : Scopes → Prop} (edit : ∀ {s s'}, Edit s s' → P s → P s')
    {s s' : Scopes} (h : Edits s s') (hs : P s) : P s' := by
  induction h with
  | refl => exact hs
  | tail _ he ih => exact edit he ih

/-- What the start has, and what edits, calls and the end of a call keep, holds throughout. -/
theorem Reachable.scopes_induction {p : Program} {o : Options} {console : Console} {st : State}
    (h : Reachable p o console st) {P : Scopes → Prop}
    (start : ∀ function resume, P (.start function resume))
    (edit : ∀ {s s'}, Edit s s' → P s → P s')
    (enter : ∀ {s name args} (f values resume) {line : Int},
      p.at? line = some (.call name args) → P s → P (s.enter f args values resume))
    (pop : ∀ {s caller callers}, s.callers = caller :: callers → P s →
      P ⟨caller, callers, s.cells⟩) : P st.scopes := by
  induction h with
  | start h =>
    unfold Program.start at h
    split at h
    next => cases h
    next =>
      cases h
      exact start _ _
  | @next st _ ih =>
    rcases step_moves p o st with ⟨-, hs, -⟩ | ⟨here, statement, -, hat, hm⟩
    · rwa [hs]
    · have hp := hm.passage
      generalize (st.step p o).state.scopes = s', (st.step p o).state.ip = ip' at hp ⊢
      cases hp with
      | edits he => exact he.preserve edit ih
      | enter f values resume => exact enter f values resume hat ih
      | leave hc _ => exact (Scopes.edits_handOver _ _ _ _).preserve edit (pop hc ih)

/-- Every slot of a frame leads to a cell. -/
def Scopes.Bounded (s : Scopes) : Prop :=
  ∀ f ∈ s.frames, ∀ slot, f.Binds slot → slot.cell < s.cells.size

namespace Scopes.Bounded

variable {s s' : Scopes}

theorem of_top (h : s.Bounded) (hc : s'.callers = s.callers)
    (hs : s.cells.size ≤ s'.cells.size)
    (ht : ∀ slot, s'.frame.Binds slot → slot.cell < s'.cells.size) : s'.Bounded := by
  intro f hf slot hb
  rw [frames, hc] at hf
  rcases List.mem_cons.mp hf with rfl | hf
  · exact ht slot hb
  · have := h f (List.mem_cons_of_mem _ hf) slot hb
    omega

theorem edit (he : Edit s s') (h : s.Bounded) : s'.Bounded := by
  have top : ∀ slot, s.frame.Binds slot → slot.cell < s.cells.size :=
    fun slot hb => h s.frame (by simp [frames]) slot hb
  cases he with
  | bind name v =>
    refine h.of_top rfl (by simp [Scopes.bind]) fun slot hb => ?_
    have hsize : (s.bind name v).cells.size = s.cells.size + 1 := Array.size_push v
    rcases Frame.Binds.of_insert hb with rfl | hb
    · exact Nat.lt_of_lt_of_eq (Nat.lt_succ_self _) hsize.symm
    · have := top slot hb
      omega
  | bindResult name v =>
    have hsize : (s.cells.push v).size = s.cells.size + 1 := Array.size_push v
    refine h.of_top rfl (by simp) fun slot hb => ?_
    rcases Frame.Binds.of_base_insert hb with rfl | hb
    · exact Nat.lt_of_lt_of_eq (Nat.lt_succ_self _) hsize.symm
    · have := top slot hb
      simp only
      omega
  | store v _ =>
    refine h.of_top rfl (by simp [Scopes.store]) fun slot hb => ?_
    have := top slot hb
    simpa [Scopes.store] using this
  | pushBlock => exact h.of_top rfl (Nat.le_refl _) fun slot hb => top slot hb.of_pushBlock
  | popBlock hp =>
    obtain ⟨g, hg, rfl⟩ := frame_of_popBlock? hp
    exact h.of_top rfl (Nat.le_refl _) fun slot hb => top slot (.of_popBlock hg hb)

theorem pushFrame (h : s.Bounded) (function : String) (resume : Int) :
    (s.pushFrame { function, resume }).Bounded := by
  intro g hg slot hb
  rcases List.mem_cons.mp hg with rfl | hg
  · exact absurd hb (Frame.not_binds_new _ _)
  · exact h g hg slot hb

theorem bindAlias (h : s.Bounded) {caller : Frame} {callers : List Frame}
    (hc : s.callers = caller :: callers) {token : String} {owner : Slot}
    (ho : caller.find? token = some owner) (name : String) :
    (s.bindAlias name owner token).Bounded := by
  refine h.of_top rfl (Nat.le_refl _) fun slot hb => ?_
  rcases Frame.Binds.of_insert hb with rfl | hb
  · exact h caller (by simp [frames, hc]) owner (Frame.binds_of_find? ho)
  · exact h s.frame (by simp [frames]) slot hb

theorem popFrame (h : s.Bounded) {caller : Frame} {callers : List Frame}
    (hc : s.callers = caller :: callers) : Scopes.Bounded ⟨caller, callers, s.cells⟩ := by
  intro f hf slot hb
  refine h f ?_ slot hb
  rw [frames, hc]
  exact List.mem_cons_of_mem _ hf

end Scopes.Bounded

theorem Reachable.bounded {p : Program} {o : Options} {console : Console} {st : State}
    (h : Reachable p o console st) : st.scopes.Bounded := by
  refine h.scopes_induction (P := Scopes.Bounded) ?_ Scopes.Bounded.edit ?_ ?_
  · intro function resume f hf slot hb
    cases List.mem_singleton.mp hf
    exact absurd hb (Frame.not_binds_new _ _)
  · intro s name args f values resume line _ hs
    refine Scopes.enter_induction s f args values resume (hs.pushFrame _ _) ?_ ?_
    · intro t name v ht
      exact ht.edit (.bind name v)
    · intro t param token owner hc _ _ ho ht
      exact ht.bindAlias hc ho param.name
  · intro s caller callers hc hs
    exact hs.popFrame hc

end Brewin
