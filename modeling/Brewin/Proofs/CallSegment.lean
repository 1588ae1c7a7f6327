import Brewin.Proofs.Bindings

namespace Brewin

/-- The cell belongs to a variable of the running function that a call passes by reference. -/
def Scopes.Passes (s : Scopes) (f : Definition) (args : List String) (cell : Nat) : Prop :=
  ∃ param token owner, (param, token) ∈ f.params.zip args ∧ param.byRef = true ∧
    s.frame.find? token = some owner ∧ owner.cell = cell

/-- A run from a state on during which the depth stays above `d`. -/
inductive Inside (p : Program) (o : Options) (d : Nat) (st : State) : State → Prop
  | refl : d < st.scopes.depth → Inside p o d st st
  | next {u : State} : Inside p o d st u → d < (u.step p o).state.scopes.depth →
      Inside p o d st (u.step p o).state

/-- Frames on top of those of `b`. The lowest of them is that of the function called there, and
the slots of all of them are good. -/
inductive Stacked (b : Scopes) (function : String) (resume : Int) (good : Slot → Prop) :
    Frame → List Frame → Prop
  | bottom {f : Frame} : f.function = function → f.resume = resume →
      (∀ slot, f.Binds slot → good slot) → Stacked b function resume good f b.frames
  | above {f g : Frame} {gs : List Frame} : (∀ slot, f.Binds slot → good slot) →
      Stacked b function resume good g gs → Stacked b function resume good f (g :: gs)

/-- What holds while a call from `b` runs: the frames above have slots only for cells that the
call passes on and for cells made since, and all other cells are as they were. -/
structure OnTop (b : Scopes) (function : String) (resume : Int) (passed : Nat → Prop)
    (s : Scopes) : Prop where
  frames : Stacked b function resume (fun slot => passed slot.cell ∨ b.cells.size ≤ slot.cell)
    s.frame s.callers
  size : b.cells.size ≤ s.cells.size
  cells : ∀ c < b.cells.size, ¬ passed c → s.cells[c]? = b.cells[c]?

section

variable {b : Scopes} {function : String} {resume : Int} {good : Slot → Prop}

theorem Stacked.slots {f : Frame} {gs : List Frame} (h : Stacked b function resume good f gs) :
    ∀ slot, f.Binds slot → good slot := by
  cases h with
  | bottom _ _ hs => exact hs
  | above hs _ => exact hs

theorem Stacked.replace {f g : Frame} {gs : List Frame}
    (h : Stacked b function resume good f gs) (hf : g.function = f.function)
    (hr : g.resume = f.resume) (hs : ∀ slot, g.Binds slot → good slot) :
    Stacked b function resume good g gs := by
  cases h with
  | bottom hf' hr' _ => exact .bottom (hf.trans hf') (hr.trans hr') hs
  | above _ h => exact .above hs h

theorem Stacked.length {f : Frame} {gs : List Frame} (h : Stacked b function resume good f gs) :
    b.frames.length ≤ gs.length := by
  induction h with
  | bottom => exact Nat.le_refl _
  | above _ _ ih => exact Nat.le_succ_of_le ih

variable {passed : Nat → Prop} {s s' : Scopes}

theorem OnTop.depth (h : OnTop b function resume passed s) : b.depth < s.depth :=
  Nat.lt_succ_of_le h.frames.length

theorem OnTop.bindFresh (h : OnTop b function resume passed s) {f : Frame} (v : Value)
    (hf : f.function = s.frame.function) (hr : f.resume = s.frame.resume)
    (hs : ∀ slot, f.Binds slot → slot = .fresh s.cells ∨ s.frame.Binds slot) :
    OnTop b function resume passed { s with frame := f, cells := s.cells.push v } := by
  refine ⟨h.frames.replace hf hr fun slot hb => ?_, ?_, fun c hc hn => ?_⟩
  · rcases hs slot hb with rfl | hb
    · exact Or.inr h.size
    · exact h.frames.slots slot hb
  · have := h.size
    simp only [Array.size_push]
    omega
  · have := h.size
    rw [← h.cells c hc hn, Array.getElem?_push, if_neg (by omega)]

theorem OnTop.edit (he : Edit s s') (h : OnTop b function resume passed s) :
    OnTop b function resume passed s' := by
  cases he with
  | bind name v =>
    obtain ⟨hf, hr, -⟩ := Frame.shape_eq.mp (s.frame.shape_insert name (.fresh s.cells))
    exact h.bindFresh v hf hr fun slot hb => hb.of_insert
  | bindResult name v => exact h.bindFresh v rfl rfl fun slot hb => hb.of_base_insert
  | @store slot v hb =>
    refine ⟨h.frames, by simpa [Scopes.store] using h.size, fun c hc hn => ?_⟩
    -- The cell of a slot above is none of the cells that have to stay.
    have hne : slot.cell ≠ c := by
      rintro rfl
      rcases h.frames.slots slot hb with hp | hp
      · exact hn hp
      · omega
    rw [← h.cells c hc hn]
    exact Array.getElem?_setIfInBounds_ne hne
  | pushBlock =>
    exact ⟨h.frames.replace rfl rfl fun slot hb => h.frames.slots slot hb.of_pushBlock, h.size,
      h.cells⟩
  | popBlock hp =>
    obtain ⟨g, hg, rfl⟩ := Scopes.frame_of_popBlock? hp
    obtain ⟨hf, hr, -⟩ := Frame.shape_popBlock hg
    exact ⟨h.frames.replace hf hr fun slot hb => h.frames.slots slot (.of_popBlock hg hb), h.size,
      h.cells⟩

theorem OnTop.bindAlias (h : OnTop b function resume passed s) (name ownerName : String)
    {owner : Slot} (ho : passed owner.cell ∨ b.cells.size ≤ owner.cell) :
    OnTop b function resume passed (s.bindAlias name owner ownerName) := by
  obtain ⟨hf, hr, -⟩ := Frame.shape_eq.mp (s.frame.shape_insert name (owner.aliasOf ownerName))
  refine ⟨h.frames.replace hf hr fun slot hb => ?_, h.size, h.cells⟩
  rcases hb.of_insert with rfl | hb
  · exact ho
  · exact h.frames.slots slot hb

/-- A call from above gets only slots that are good already. -/
theorem OnTop.enter (h : OnTop b function resume passed s) (f : Definition) (args : List String)
    (values : List Value) (line : Int) :
    OnTop b function resume passed (s.enter f args values line) := by
  refine Scopes.enter_induction s f args values line ?_ ?_ ?_
  · exact ⟨.above (fun slot hb => absurd hb (Frame.not_binds_new _ _)) h.frames, h.size, h.cells⟩
  · intro t name v ht
    exact ht.edit (.bind name v)
  · intro t param token owner _ _ _ ho ht
    exact ht.bindAlias _ _ (h.frames.slots owner (Frame.binds_of_find? ho))

/-- The call itself passes on the cells that its parameters take by reference. -/
theorem onTop_call (b : Scopes) (f : Definition) (args : List String) (values : List Value)
    (resume : Int) :
    OnTop b f.name resume (b.Passes f args) (b.enter f args values resume) := by
  refine Scopes.enter_induction b f args values resume ?_ ?_ ?_
  · exact ⟨.bottom rfl rfl fun slot hb => absurd hb (Frame.not_binds_new _ _), Nat.le_refl _,
      fun _ _ _ => rfl⟩
  · intro t name v ht
    exact ht.edit (.bind name v)
  · intro t param token owner _ hmem hr ho ht
    exact ht.bindAlias _ _ (Or.inl ⟨param, token, owner, hmem, hr, ho, rfl⟩)

theorem Edits.callers (h : Edits s s') : s'.callers = s.callers := by
  induction h with
  | refl => rfl
  | tail _ he ih =>
    cases he with
    | bind => exact ih
    | bindResult => exact ih
    | store => exact ih
    | pushBlock => exact ih
    | popBlock hp =>
      obtain ⟨g, -, rfl⟩ := Scopes.frame_of_popBlock? hp
      exact ih

theorem Scopes.callers_handOver (caller : Frame) (callers : List Frame) (cells : Array Value)
    (result? : Option Value) : (handOver caller callers cells result?).callers = callers :=
  (edits_handOver caller callers cells result?).callers

/-- A step that leads back to `b` leaves the function that was called there. Any other keeps what
holds during the call. -/
theorem OnTop.passage {p : Program} {statement : Statement} {ip' : Int}
    (h : OnTop b function resume passed s) (hp : Passage p s statement ip' s') :
    OnTop b function resume passed s' ∨
      s'.depth = b.depth ∧ s.frame.function = function ∧ ip' = resume ∧ ∃ result?,
        GivenBack p s statement result? ∧ s' = .handOver b.frame b.callers s.cells result? := by
  cases hp with
  | edits he => exact Or.inl (he.preserve OnTop.edit h)
  | enter f values line => exact Or.inl (h.enter f _ values line)
  | @leave _ caller callers result? hc hg =>
    obtain ⟨hf, hsize, hcells⟩ := h
    rw [hc] at hf
    generalize hframe : s.frame = frame, hfs : caller :: callers = gs at hf
    cases hf with
    | bottom hfun hres _ =>
      right
      cases hfs
      subst hframe
      refine ⟨?_, hfun, hres, result?, hg, rfl⟩
      rw [Scopes.depth, Scopes.callers_handOver]
      rfl
    | above _ hg' =>
      left
      cases hfs
      have hpop : OnTop b function resume passed ⟨caller, callers, s.cells⟩ :=
        ⟨hg', hsize, hcells⟩
      exact (Scopes.edits_handOver caller callers s.cells result?).preserve OnTop.edit hpop

/-- During a run above the depth of `b` the call does not come to its end. -/
theorem OnTop.inside {p : Program} {o : Options} {st u : State} (h : Inside p o b.depth st u)
    (hs : OnTop b function resume passed st.scopes) :
    OnTop b function resume passed u.scopes := by
  induction h with
  | refl => exact hs
  | @next u _ hd ih =>
    rcases step_moves p o u with ⟨-, hu, -⟩ | ⟨here, statement, -, -, hm⟩
    · rwa [hu]
    · rcases ih.passage hm.passage with h | ⟨hback, -⟩
      · exact h
      · omega

end

theorem resultName?_eq_some_iff {k : Kind} {name : String} : resultName? k = some name ↔
    (k, name) ∈ [(.int, "resulti"), (.string, "results"), (.bool, "resultb")] := by
  cases k <;> simp [resultName?, eq_comm]

/-- The statement gives back a value in a function of a kind: its own one, or the zero of the
kind. -/
def Gives (s : Scopes) (statement : Statement) (kind : Kind) (v : Value) : Prop :=
  (∃ expr, expr ≠ [] ∧ statement = .ret expr ∧ s.evaluate expr = .ok v) ∨
    (statement = .ret [] ∨ statement = .endFunc) ∧ kind.zero? = some v

theorem kind_zero {k : Kind} {v : Value} (h : k.zero? = some v) : v.kind = k := by
  cases k <;> cases h <;> rfl

theorem exists_zero {k : Kind} {name : String} (h : resultName? k = some name) :
    ∃ v, k.zero? = some v := by
  cases k with
  | int => exact ⟨_, rfl⟩
  | string => exact ⟨_, rfl⟩
  | bool => exact ⟨_, rfl⟩
  | void => cases h
  | unknown => cases h

section

variable {p : Program} {s : Scopes} {statement : Statement} {result? : Option Value}
  {f : Definition}

/-- What a function gives back has the kind that it declares. -/
theorem GivenBack.kind (h : GivenBack p s statement result?) (hfun : s.frame.function = f.name)
    (hfind : p.functions.find? f.name = some f) {v : Value} (hv : result? = some v) :
    ∃ k, Kind.ofName? f.returnType = some k ∧ v.kind = k ∧ Gives s statement k v := by
  have hret : p.functions.returnType f.name = f.returnType := by
    simp [FunctionTable.returnType, hfind]
  have hdefault : ∀ {v}, p.functions.defaultResult? s.frame.function = some v →
      ∃ k, Kind.ofName? f.returnType = some k ∧ k.zero? = some v := by
    intro v hv
    rw [FunctionTable.defaultResult?, hfun, hret] at hv
    exact Option.bind_eq_some_iff.mp hv
  cases h with
  | atEnd =>
    obtain ⟨k, hk, hz⟩ := hdefault hv
    exact ⟨k, hk, kind_zero hz, Or.inr ⟨Or.inr rfl, hz⟩⟩
  | bare =>
    obtain ⟨k, hk, hz⟩ := hdefault hv
    exact ⟨k, hk, kind_zero hz, Or.inr ⟨Or.inl rfl, hz⟩⟩
  | @value expr _ hne he hk =>
    cases hv
    rw [hfun, hret] at hk
    exact ⟨_, hk, rfl, Or.inl ⟨expr, hne, rfl, he⟩⟩

/-- A function that declares a kind of variables always gives a value back. -/
theorem GivenBack.isSome (h : GivenBack p s statement result?)
    (hfun : s.frame.function = f.name) (hfind : p.functions.find? f.name = some f) {k : Kind}
    {name : String} (hk : Kind.ofName? f.returnType = some k) (hn : resultName? k = some name) :
    ∃ v, result? = some v := by
  obtain ⟨zero, hz⟩ := exists_zero hn
  have hdefault : p.functions.defaultResult? s.frame.function = some zero := by
    rw [FunctionTable.defaultResult?, hfun, FunctionTable.returnType, hfind]
    simp only [hk, Option.bind_some, hz]
  cases h with
  | atEnd => exact ⟨zero, hdefault⟩
  | bare => exact ⟨zero, hdefault⟩
  | value _ _ _ => exact ⟨_, rfl⟩

end

/-- What handing over does to the caller: nothing, or it sets or makes the result variable. -/
theorem handOver_cases (caller : Frame) (callers : List Frame) (cells : Array Value)
    (result? : Option Value) :
    (Scopes.handOver caller callers cells result? = ⟨caller, callers, cells⟩ ∧
      ∀ v, result? = some v → resultName? v.kind = none) ∨
    ∃ v name, result? = some v ∧ resultName? v.kind = some name ∧
      ((∃ slot, caller.base.find? name = some slot ∧
        Scopes.handOver caller callers cells result? =
          ⟨caller, callers, cells.setIfInBounds slot.cell v⟩) ∨
      Scopes.handOver caller callers cells result? =
        ⟨{ caller with base := caller.base.insert name (.fresh cells) }, callers,
          cells.push v⟩) := by
  cases result? with
  | none => exact Or.inl ⟨rfl, by simp⟩
  | some v =>
    simp only [Scopes.handOver, Scopes.setResult]
    cases hn : resultName? v.kind with
    | none =>
      left
      rw [Scopes.placeResult_none hn]
      refine ⟨rfl, fun w hw => ?_⟩
      cases hw
      exact hn
    | some name =>
      refine Or.inr ⟨v, name, rfl, hn, ?_⟩
      rcases Scopes.placeResult_some hn caller cells with ⟨slot, hs, he⟩ | he
      · rw [he]
        exact Or.inl ⟨slot, hs, rfl⟩
      · rw [he]
        exact Or.inr rfl

/-- A call that goes on has got its arguments and stands on the func line in a new frame. -/
theorem call_goes {p : Program} {o : Options} {st : State} {line : Nat} {name : String}
    {args : List String} {f : Definition} (hip : st.ip = line)
    (hat : p.at? line = some (.call name args)) (hb : Builtin.ofName? name = none)
    (hf : p.functions.find? name = some f) (hrun : (st.step p o).signal = .running) :
    ∃ values, st.scopes.arguments f args = .ok values ∧ (st.step p o).state.ip = f.line ∧
      (st.step p o).state.scopes = st.scopes.enter f args values (line + 1) := by
  rcases step_moves p o st with ⟨-, -, hs⟩ | ⟨here, statement, hip', hat', hm⟩
  · exact absurd hrun hs
  · cases Int.ofNat.inj (hip.symm.trans hip')
    cases hat.symm.trans hat'
    generalize (st.step p o).state.scopes = s', (st.step p o).state.ip = ip' at hm ⊢
    cases hm with
    | builtin h => cases hb.symm.trans h
    | result h => cases hb.symm.trans h
    | @enter _ _ _ values _ h ha =>
      cases hf.symm.trans h
      exact ⟨values, ha, rfl, rfl⟩
    | leave _ hg => cases hg

theorem call_enters {p : Program} {o : Options} {st : State} {line : Nat} {name : String}
    {args : List String} {f : Definition} (hip : st.ip = line)
    (hat : p.at? line = some (.call name args)) (hb : Builtin.ofName? name = none)
    (hf : p.functions.find? name = some f) (hrun : (st.step p o).signal = .running) :
    ∃ values, (st.step p o).state.scopes = st.scopes.enter f args values (line + 1) := by
  obtain ⟨values, -, -, hs⟩ := call_goes hip hat hb hf hrun
  exact ⟨values, hs⟩

theorem name_of_find? {t : FunctionTable} {name : String} {f : Definition}
    (h : t.find? name = some f) : f.name = name := by
  simpa using List.find?_some h

/-- The cell belongs to the variable in which a caller finds the result. -/
def Scopes.HoldsResult (s : Scopes) (result? : Option Value) (cell : Nat) : Prop :=
  ∃ v name slot, result? = some v ∧ resultName? v.kind = some name ∧
    s.frame.base.find? name = some slot ∧ slot.cell = cell

/-- Handing over changes no cell but that of the result. -/
theorem value_of_handOver (caller : Frame) (callers : List Frame) (cells : Array Value)
    (result? : Option Value) {slot : Slot} (hc : slot.cell < cells.size)
    (hr : ¬ (Scopes.handOver caller callers cells result?).HoldsResult result? slot.cell) :
    (Scopes.handOver caller callers cells result?).value slot =
      cells.getD slot.cell .unknown := by
  have keep : ∀ cells' : Array Value, cells'[slot.cell]? = cells[slot.cell]? →
      cells'.getD slot.cell .unknown = cells.getD slot.cell .unknown := by
    intro cells' hs
    rw [Array.getD_eq_getD_getElem?, Array.getD_eq_getD_getElem?, hs]
  rcases handOver_cases caller callers cells result? with
    ⟨he, -⟩ | ⟨v, name, rfl, hname, ⟨result, hfind, he⟩ | he⟩
  · rw [he]
    exact keep _ rfl
  · have hne : result.cell ≠ slot.cell := by
      intro hcell
      exact hr ⟨v, name, result, rfl, hname, by rw [he]; exact hfind, hcell⟩
    rw [he]
    exact keep _ (Array.getElem?_setIfInBounds_ne hne)
  · rw [he]
    refine keep _ ?_
    rw [Array.getElem?_push, if_neg (by omega)]

/-- The values that the caller's side has after the call. -/
theorem value_handOver {b s : Scopes} {function : String} {resume : Int} {passed : Nat → Prop}
    (h : OnTop b function resume passed s) (result? : Option Value) {slot : Slot}
    (hc : slot.cell < b.cells.size) (hn : ¬ passed slot.cell)
    (hr : ∀ v name result, result? = some v → resultName? v.kind = some name →
      (Scopes.handOver b.frame b.callers s.cells result?).frame.base.find? name = some result →
      result.cell ≠ slot.cell) :
    (Scopes.handOver b.frame b.callers s.cells result?).value slot = b.value slot := by
  have hsize := h.size
  have hresult : ¬ (Scopes.handOver b.frame b.callers s.cells result?).HoldsResult result?
      slot.cell := by
    rintro ⟨v, name, result, hv, hname, hfind, hcell⟩
    exact hr v name result hv hname hfind hcell
  rw [value_of_handOver _ _ _ _ (by omega) hresult, Scopes.value, Array.getD_eq_getD_getElem?,
    Array.getD_eq_getD_getElem?, h.cells slot.cell hc hn]

/-- After the call the caller's result variable has the value that was given back. -/
theorem placed_result {b : Scopes} {cells : Array Value} {result? : Option Value} {v : Value}
    {name : String} (hb : b.Bounded) (hsize : b.cells.size ≤ cells.size)
    (hv : result? = some v) (hn : resultName? v.kind = some name) :
    ∃ slot, (Scopes.handOver b.frame b.callers cells result?).frame.base.find? name = some slot ∧
      (Scopes.handOver b.frame b.callers cells result?).value slot = v := by
  rcases handOver_cases b.frame b.callers cells result? with
    ⟨-, hnone⟩ | ⟨w, rn, hw, hrn, ⟨slot, hfind, he⟩ | he⟩
  · cases hn.symm.trans (hnone v hv)
  · cases hv.symm.trans hw
    cases hn.symm.trans hrn
    have hlt := hb b.frame (by simp [Scopes.frames]) slot (Frame.binds_of_base hfind)
    refine ⟨slot, by rw [he]; exact hfind, ?_⟩
    rw [he]
    simp [Scopes.value, Nat.lt_of_lt_of_le hlt hsize]
  · cases hv.symm.trans hw
    cases hn.symm.trans hrn
    refine ⟨.fresh cells, ?_, ?_⟩
    · rw [he, Block.find?_insert, if_pos rfl]
    · rw [he]
      simp [Scopes.value, Slot.fresh]

/-- A call is transparent to its callers: when the depth is for the first time what it was, the
run goes on behind the call, all frames are as they were but for the result variable, and only
variables passed by reference and the result have new values. -/
theorem call_transparent {p : Program} {o : Options} {console : Console} {st u : State}
    {line : Nat} {name : String} {args : List String} {f : Definition}
    (hst : Reachable p o console st) (hip : st.ip = line)
    (hat : p.at? line = some (.call name args)) (hb : Builtin.ofName? name = none)
    (hf : p.functions.find? name = some f) (hrun : (st.step p o).signal = .running)
    (hin : Inside p o st.scopes.depth (st.step p o).state u)
    (hback : (u.step p o).state.scopes.depth = st.scopes.depth) :
    (u.step p o).state.ip = line + 1 ∧
    (u.step p o).state.scopes.callers = st.scopes.callers ∧
    ((u.step p o).state.scopes.frame = st.scopes.frame ∨
      ∃ k result slot, Kind.ofName? f.returnType = some k ∧
        (k, result) ∈ [(.int, "resulti"), (.string, "results"), (.bool, "resultb")] ∧
        (u.step p o).state.scopes.frame =
          { st.scopes.frame with base := st.scopes.frame.base.insert result slot }) ∧
    (∀ g ∈ st.scopes.frames, ∀ slot, g.Binds slot →
      (u.step p o).state.scopes.value slot ≠ st.scopes.value slot →
      st.scopes.Passes f args slot.cell ∨
        ∃ k result own, Kind.ofName? f.returnType = some k ∧
          (k, result) ∈ [(.int, "resulti"), (.string, "results"), (.bool, "resultb")] ∧
          (u.step p o).state.scopes.frame.base.find? result = some own ∧ own.cell = slot.cell) ∧
    ∀ k result, Kind.ofName? f.returnType = some k →
      (k, result) ∈ [(.int, "resulti"), (.string, "results"), (.bool, "resultb")] →
      ∃ slot v statement,
        (u.step p o).state.scopes.frame.base.find? result = some slot ∧
        (u.step p o).state.scopes.value slot = v ∧ v.kind = k ∧
        p.at? u.ip = some statement ∧ Gives u.scopes statement k v := by
  obtain ⟨values, henter⟩ := call_enters hip hat hb hf hrun
  have htop : OnTop st.scopes f.name (line + 1) (st.scopes.Passes f args) u.scopes :=
    OnTop.inside hin (henter ▸ onTop_call st.scopes f args values (line + 1))
  have hfind : p.functions.find? f.name = some f := by rw [name_of_find? hf, hf]
  have hbound := hst.bounded
  have hdepth := htop.depth
  rcases step_moves p o u with ⟨-, hs, -⟩ | ⟨here, statement, hip', hat', hm⟩
  · rw [hs] at hback
    omega
  rcases htop.passage hm.passage with h | ⟨-, hfun, hresume, result?, hg, hs⟩
  · have := h.depth
    omega
  have hkind := fun {v} => hg.kind hfun hfind (v := v)
  have hname : ∀ {v rn}, result? = some v → resultName? v.kind = some rn →
      Kind.ofName? f.returnType = some v.kind ∧
        (v.kind, rn) ∈ [(.int, "resulti"), (.string, "results"), (.bool, "resultb")] := by
    intro v rn hv hrn
    obtain ⟨k, hk, rfl, -⟩ := hkind hv
    exact ⟨hk, resultName?_eq_some_iff.mp hrn⟩
  rw [hs, hip']
  refine ⟨hresume, Scopes.callers_handOver _ _ _ _, ?_, ?_, ?_⟩
  · rcases handOver_cases st.scopes.frame st.scopes.callers u.scopes.cells result? with
      ⟨he, -⟩ | ⟨v, rn, hv, hrn, ⟨slot, -, he⟩ | he⟩
    · exact Or.inl (by rw [he])
    · exact Or.inl (by rw [he])
    · obtain ⟨hk, hpair⟩ := hname hv hrn
      exact Or.inr ⟨v.kind, rn, _, hk, hpair, by rw [he]⟩
  · intro g hgm slot hbinds hne
    by_cases hpass : st.scopes.Passes f args slot.cell
    · exact Or.inl hpass
    · refine Or.inr (Classical.byContradiction fun hres => hne ?_)
      refine value_handOver htop result? (hbound g hgm slot hbinds) hpass ?_
      intro v rn own hv hrn hown hcell
      obtain ⟨hk, hpair⟩ := hname hv hrn
      exact hres ⟨v.kind, rn, own, hk, hpair, hown, hcell⟩
  · intro k rn hk hpair
    have hrn := resultName?_eq_some_iff.mpr hpair
    obtain ⟨v, hv⟩ := hg.isSome hfun hfind hk hrn
    obtain ⟨k', hk', hvk, hgives⟩ := hkind hv
    cases hk.symm.trans hk'
    obtain ⟨slot, hslot, hvalue⟩ := placed_result hbound htop.size hv (hvk ▸ hrn)
    exact ⟨slot, v, statement, hslot, hvalue, hvk, hat', hgives⟩

/-- A function that changes one variable of its caller and returns a number. -/
def addOne : Program :=
  .ofStream [["func", "main", "void"], ["var", "int", "a", "b"], ["funccall", "take", "a", "b"],
    ["endfunc"], ["func", "take", "x:refint", "y:int", "int"], ["assign", "x", "+", "x", "1"],
    ["return", "+", "x", "y"], ["endfunc"]]

/-- The state in which the main function of the sample makes its call. -/
def addOneCall : State :=
  { ip := 2, steps := 2, workspace :=
      { scopes := ⟨⟨"main", -1, ⟨[("b", ⟨1, none⟩), ("a", ⟨0, none⟩)]⟩, []⟩, [],
          #[.int 0, .int 0]⟩
        console := .ofInput "" } }

theorem call_transparent_addOne :
    Reachable addOne {} (.ofInput "") addOneCall ∧
    ∃ u, Inside addOne {} 1 (addOneCall.step addOne {}).state u ∧
      (u.step addOne {}).state.ip = 3 ∧
      ∃ slot v statement,
        (u.step addOne {}).state.scopes.frame.base.find? "resulti" = some slot ∧
        (u.step addOne {}).state.scopes.value slot = v ∧ v.kind = .int ∧
        addOne.at? u.ip = some statement ∧ Gives u.scopes statement .int v := by
  have hcall : Reachable addOne {} (.ofInput "") addOneCall := by
    have hmain : addOne.functions.entryLine? mainFunction = some 0 := by
      decide +kernel
    have h := (reachable_main {} (.ofInput "") hmain).advance 2
    rwa [show (State.advance _ _ 2 _).state = addOneCall by decide +kernel] at h
  have hat : addOne.at? (2 : Nat) = some (.call "take" ["a", "b"]) := by
    decide +kernel
  have hf : addOne.functions.find? "take" =
      some ⟨"take", 4, [⟨"x", "int", true⟩, ⟨"y", "int", false⟩], "int"⟩ := by decide +kernel
  have hin : Inside addOne {} 1 (addOneCall.step addOne {}).state _ :=
    .next (.next (.refl (by decide +kernel)) (by decide +kernel)) (by decide +kernel)
  obtain ⟨hip, -, -, -, hresult⟩ := call_transparent hcall rfl hat (by decide) hf
    (by decide +kernel) hin (by decide +kernel)
  exact ⟨hcall, _, hin, hip, hresult .int "resulti" (by decide) (by simp)⟩

end Brewin
