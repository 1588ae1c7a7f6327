import Brewin.Proofs.LivingBlocks
import Brewin.Proofs.RunPrefix
import Brewin.Proofs.ValueKinds

namespace Brewin

/-- Every cell keeps the kind of its value, and cells that are new have the kind of a variable. -/
structure Evolves (cells cells' : Array Value) : Prop where
  kept : ∀ (c : Nat) (v : Value), cells[c]? = some v →
    ∃ w : Value, cells'[c]? = some w ∧ w.kind = v.kind
  added : ∀ (c : Nat) (v : Value), cells.size ≤ c → cells'[c]? = some v → v.kind.storable = true

namespace Evolves

variable {a b c : Array Value}

theorem refl (a : Array Value) : Evolves a a := by
  refine ⟨fun i v h => ⟨v, h, rfl⟩, fun i v hi h => ?_⟩
  have hlt := (Array.getElem?_eq_some_iff.mp h).1
  omega

theorem trans (h : Evolves a b) (h' : Evolves b c) : Evolves a c := by
  refine ⟨fun i v hv => ?_, fun i v hi hv => ?_⟩
  · obtain ⟨w, hw, hk⟩ := h.kept i v hv
    obtain ⟨x, hx, hk'⟩ := h'.kept i w hw
    exact ⟨x, hx, hk'.trans hk⟩
  · by_cases hlt : i < b.size
    · have hb : b[i]? = some b[i] := Array.getElem?_eq_getElem hlt
      obtain ⟨w, hw, hk⟩ := h'.kept i _ hb
      cases hv.symm.trans hw
      rw [hk]
      exact h.added i _ hi hb
    · exact h'.added i v (by omega) hv

theorem push (a : Array Value) {v : Value} (hv : v.kind.storable = true) :
    Evolves a (a.push v) := by
  refine ⟨fun i w hw => ⟨w, ?_, rfl⟩, fun i w hi hw => ?_⟩
  · have hlt := (Array.getElem?_eq_some_iff.mp hw).1
    rw [Array.getElem?_push, if_neg (by omega), hw]
  · rw [Array.getElem?_push] at hw
    split at hw
    next =>
      cases hw
      exact hv
    next =>
      have hlt := (Array.getElem?_eq_some_iff.mp hw).1
      omega

theorem set {i : Nat} {v : Value} (h : (a.getD i .unknown).kind = v.kind) :
    Evolves a (a.setIfInBounds i v) := by
  refine ⟨fun j w hw => ?_, fun j w hj hw => ?_⟩
  · by_cases hij : i = j
    · subst hij
      have hlt := (Array.getElem?_eq_some_iff.mp hw).1
      have hold : a.getD i .unknown = w := by
        rw [Array.getD_eq_getD_getElem?, hw]
        rfl
      refine ⟨v, by simp [hlt], ?_⟩
      rw [← h, hold]
    · exact ⟨w, (Array.getElem?_setIfInBounds_ne hij).trans hw, rfl⟩
  · have hlt := (Array.getElem?_eq_some_iff.mp hw).1
    rw [Array.size_setIfInBounds] at hlt
    omega

theorem storable (h : Evolves a b) (ha : ∀ v ∈ a, v.kind.storable = true) :
    ∀ v ∈ b, v.kind.storable = true := by
  intro v hv
  obtain ⟨i, hi⟩ := Array.mem_iff_getElem?.mp hv
  by_cases hlt : i < a.size
  · have hold : a[i]? = some a[i] := Array.getElem?_eq_getElem hlt
    obtain ⟨w, hw, hk⟩ := h.kept i _ hold
    cases hi.symm.trans hw
    rw [hk]
    exact ha _ (Array.getElem_mem hlt)
  · exact h.added i v (by omega) hi

end Evolves

namespace Scopes

variable {s : Scopes}

theorem evolves_placeResult (f : Frame) (cells : Array Value) {v : Value}
    (hv : v.kind.storable = true) : Evolves cells (placeResult f cells v).2 := by
  unfold placeResult
  split
  next => exact .refl cells
  next =>
    split
    next =>
      split
      next hk => exact .set hk
      next => exact .push cells hv
    next => exact .push cells hv

theorem evolves_handOver (caller : Frame) (callers : List Frame) (cells : Array Value)
    {result? : Option Value} (hr : ∀ v, result? = some v → v.kind.storable = true) :
    Evolves cells (handOver caller callers cells result?).cells := by
  cases result? with
  | none => exact .refl cells
  | some v => exact evolves_placeResult caller cells (hr v rfl)

theorem evolves_declareAll (s : Scopes) {v : Value} (hv : v.kind.storable = true)
    (names : List String) : Evolves s.cells (s.declareAll v names).1.cells := by
  induction names generalizing s with
  | nil => exact .refl s.cells
  | cons name names ih =>
    unfold declareAll
    split
    next => exact .refl s.cells
    next => exact (Evolves.push s.cells hv).trans (ih (s.bind name v))

theorem evolves_enter (s : Scopes) (f : Definition) (args : List String) {values : List Value}
    (hv : ∀ v ∈ values, v.kind.storable = true) (resume : Int) :
    Evolves s.cells (s.enter f args values resume).cells := by
  unfold enter
  refine List.foldlRecOn (motive := fun (t : Scopes) => Evolves s.cells t.cells) _ _
    (Evolves.refl s.cells) ?_
  rintro t ht ⟨param, token, v⟩ hmem
  change Evolves s.cells (t.bindParam s.frame param token v).cells
  have hvalue : v ∈ values := (List.of_mem_zip (List.of_mem_zip hmem).2).2
  unfold bindParam
  split
  next => exact ht
  next => exact ht.trans (Evolves.push t.cells (hv v hvalue))

/-- An assignment brings a value of the kind that its variable has. -/
theorem kind_of_assignment {target : String} {expr : List String} {slot : Slot} {v : Value}
    (h : s.assignment target expr = .ok (slot, v)) : (s.value slot).kind = v.kind := by
  unfold assignment at h
  split at h
  next => cases h
  next =>
    split at h
    next => cases h
    next =>
      split at h
      next hk =>
        cases h
        exact hk
      next => cases h

end Scopes

/-- A move changes no kind of a cell. -/
theorem Move.evolves {p : Program} {here : Nat} {s s' : Scopes} {statement : Statement} {ip' : Int}
    (hm : Move p here s statement ip' s') (hs : s.Sound) : Evolves s.cells s'.cells := by
  have zero : ∀ {type : String} {v : Value}, (Kind.ofName? type).bind Kind.zero? = some v →
      v.kind.storable = true := by
    intro type v hz
    obtain ⟨k, -, hk⟩ := Option.bind_eq_some_iff.mp hz
    exact storable_zero hk
  have popped : ∀ {s'}, s.popBlock? = some s' → Evolves s.cells s'.cells := by
    intro s' hp
    obtain ⟨g, -, rfl⟩ := Scopes.frame_of_popBlock? hp
    exact .refl s.cells
  cases hm with
  | @declare _ names v hz _ => exact s.evolves_declareAll (zero hz) names
  | @declareSome _ names v _ hz _ => exact s.evolves_declareAll (zero hz) names
  | assign ha => exact .set (Scopes.kind_of_assignment ha)
  | @result _ _ _ v _ hk =>
    have hv : v.kind.storable = true := by
      rcases hk with hk | hk <;> rw [hk] <;> rfl
    exact Scopes.evolves_placeResult s.frame s.cells hv
  | @enter _ args f values _ _ ha => exact s.evolves_enter f args (hs.arguments ha) _
  | leave _ hg =>
    refine Scopes.evolves_handOver _ _ s.cells fun v hv => ?_
    subst hv
    exact hs.givenBack hg
  | endIf hp => exact popped hp
  | endWhile _ hp => exact popped hp
  | _ => exact .refl s.cells

section

variable {p : Program} {o : Options} {console : Console}

theorem step_evolves {st : State} (hs : st.scopes.Sound) :
    Evolves st.scopes.cells (st.step p o).state.scopes.cells := by
  rcases step_moves p o st with ⟨-, he, -⟩ | ⟨here, statement, -, -, hm⟩
  · rw [he]
    exact .refl _
  · exact hm.evolves hs

theorem Reachable.sound {st : State} (h : Reachable p o console st) : st.scopes.Sound := by
  induction h with
  | @start st h =>
    refine ⟨(Reachable.start (o := o) h).bounded, ?_⟩
    unfold Program.start at h
    split at h
    next => cases h
    next =>
      cases h
      intro v hv
      cases hv with
      | mk hv => cases hv
  | @next st hst ih =>
    exact ⟨hst.next.bounded, (step_evolves ih).storable ih.storable⟩

theorem Along.reachable {P : State → Prop} {st u : State} (h : Along p o P st u)
    (hst : Reachable p o console st) : Reachable p o console u := by
  induction h with
  | refl => exact hst
  | next _ _ ih => exact ih.next

theorem Along.evolves {P : State → Prop} {st u : State} (h : Along p o P st u)
    (hst : Reachable p o console st) : Evolves st.scopes.cells u.scopes.cells := by
  induction h with
  | refl => exact .refl _
  | next hu _ ih => exact ih.trans (step_evolves (hu.reachable hst).sound)

theorem step_of_running {st : State} {statement : Statement} (hat : p.at? st.ip = some statement)
    (hrun : (st.step p o).signal = .running) :
    (st.step p o).state = (st.execute p st.ip.toNat statement).state.tick ∧
      (st.execute p st.ip.toNat statement).signal = .running := by
  have hx := exhausted_of_running hrun
  simp only [State.step, hx, hat] at hrun ⊢
  exact ⟨rfl, hrun⟩

/-- A print that goes on has written the texts of its arguments. -/
theorem print_shows {st : State} {name : String} {args : List String}
    (hat : p.at? st.ip = some (.call name args)) (hb : Builtin.ofName? name = some .print)
    (hrun : (st.step p o).signal = .running) :
    ∃ values, st.scopes.operands args = .ok values ∧
      (st.step p o).state.console.written =
        st.console.written ++ String.join (values.map Value.text) ++ "\n" := by
  obtain ⟨hstate, hsignal⟩ := step_of_running hat hrun
  have hexecute : st.execute p st.ip.toNat (.call name args) =
      st.settle st.ip.toNat (·.print args) := by
    simp only [State.execute, hb]
    rfl
  rw [hexecute] at hstate hsignal
  simp only [State.settle, Workspace.print] at hstate hsignal
  cases hj : st.workspace.scopes.joined args with
  | error problem =>
    rw [hj] at hsignal
    cases hsignal
  | ok text =>
    rw [hj] at hstate hsignal
    obtain ⟨values, hvalues, rfl⟩ := exists_of_map_eq_ok hj
    refine ⟨values, hvalues, ?_⟩
    cases hw : st.workspace.console.canWrite with
    | false =>
      rw [hw] at hsignal
      cases hsignal
    | true =>
      rw [hw] at hstate
      rw [hstate]
      rfl

/-- The spot at which the running function declares a variable. -/
def Scopes.spot (s : Scopes) (name : String) : Spot :=
  ⟨s.callers.length, s.frame.inner.length, name⟩

theorem var_adds {st : State} {type : String} {names : List String}
    (hat : p.at? st.ip = some (.var type names)) (hrun : (st.step p o).signal = .running)
    {name : String} (hn : name ∈ names) :
    st.scopes.slot? (st.scopes.spot name) = none ∧
      ∃ slot, (st.step p o).state.scopes.slot? (st.scopes.spot name) = some slot := by
  obtain ⟨hstate, hsignal⟩ := step_of_running hat hrun
  simp only [State.execute, State.settle, Workspace.declare] at hstate hsignal
  cases hz : (Kind.ofName? type).bind Kind.zero? with
  | none =>
    rw [hz] at hsignal
    cases hsignal
  | some v =>
    rw [hz] at hstate hsignal
    cases hp : (st.workspace.scopes.declareAll v names).2 with
    | some problem =>
      simp only [hp] at hsignal
      cases hsignal
    | none =>
      simp only [hp] at hstate
      obtain ⟨hnone, slot, hslot⟩ := Scopes.declareAll_adds hp hn
      have hscopes : (st.step p o).state.scopes = (st.scopes.declareAll v names).1 := by
        rw [hstate]
        rfl
      have hcallers := (st.scopes.shape_declareAll v names).2
      refine ⟨?_, slot, ?_⟩
      · rw [Scopes.slot?_top rfl]
        exact hnone
      · rw [hscopes, Scopes.slot?_top (congrArg List.length hcallers.symm)]
        exact hslot

/-- A variable that a declaration has added has a value of the declared kind. -/
theorem var_kind {st : State} {type : String} {names : List String}
    (hat : p.at? st.ip = some (.var type names)) {name : String} {slot : Slot}
    (hnone : st.scopes.slot? (st.scopes.spot name) = none)
    (hslot : (st.step p o).state.scopes.slot? (st.scopes.spot name) = some slot) :
    ∃ k v, Kind.ofName? type = some k ∧ v.kind = k ∧
      (st.step p o).state.scopes.cells[slot.cell]? = some v := by
  rcases step_moves p o st with ⟨-, hs, -⟩ | ⟨here, statement, hip, hat', hm⟩
  · rw [hs, hnone] at hslot
    cases hslot
  · rw [hip] at hat
    cases hat.symm.trans hat'
    generalize (st.step p o).state.ip = ip', (st.step p o).state.scopes = s' at hm hslot ⊢
    have declared : ∃ v, (Kind.ofName? type).bind Kind.zero? = some v ∧
        s' = (st.scopes.declareAll v names).1 := by
      cases hm with
      | @declare _ _ v hz _ => exact ⟨v, hz, rfl⟩
      | @declareSome _ _ v _ hz _ => exact ⟨v, hz, rfl⟩
      | leave _ hg => cases hg
    obtain ⟨v, hz, rfl⟩ := declared
    obtain ⟨k, hk, hzero⟩ := Option.bind_eq_some_iff.mp hz
    have hcallers := (st.scopes.shape_declareAll v names).2
    rw [Scopes.slot?_top (congrArg List.length hcallers.symm)] at hslot
    rw [Scopes.slot?_top rfl] at hnone
    rcases Scopes.slotAt?_of_declareAll hslot with hold | hcell
    · cases hnone.symm.trans hold
    · exact ⟨k, v, hk, kind_zero hzero, hcell⟩

end

/-- Kinds are stable: all cells have kinds of variables and keep them, so no expression has a
value of another kind and no such value is printed. A declared variable keeps its binding and its
kind as long as its block lives, unless it is one for results in the block of a function. -/
theorem kinds_stable {p : Program} {o : Options} {console : Console} {st : State}
    (h : Reachable p o console st) :
    (∀ v ∈ st.scopes.cells, v.kind.storable = true) ∧
    (∀ u, Along p o (fun _ => True) st u → ∀ (c : Nat) (v : Value),
      st.scopes.cells[c]? = some v →
        ∃ w : Value, u.scopes.cells[c]? = some w ∧ w.kind = v.kind) ∧
    (∀ expr v, st.scopes.evaluate expr = .ok v → v.kind.storable = true) ∧
    (∀ name args, p.at? st.ip = some (.call name args) → Builtin.ofName? name = some .print →
      (st.step p o).signal = .running →
      ∃ values, st.scopes.operands args = .ok values ∧
        (st.step p o).state.console.written =
          st.console.written ++ String.join (values.map Value.text) ++ "\n" ∧
        ∀ v ∈ values, v.kind.storable = true ∧ (v.text = "<nil>" → v = .string "<nil>")) ∧
    ∀ type names, p.at? st.ip = some (.var type names) →
      ((st.step p o).signal = .running → ∀ name ∈ names,
        st.scopes.slot? (st.scopes.spot name) = none ∧
          ∃ slot, (st.step p o).state.scopes.slot? (st.scopes.spot name) = some slot) ∧
      ∀ name slot, st.scopes.slot? (st.scopes.spot name) = none →
        (st.step p o).state.scopes.slot? (st.scopes.spot name) = some slot →
        ∃ k, Kind.ofName? type = some k ∧
          ((st.step p o).state.scopes.value slot).kind = k ∧
          ∀ u, Along p o (fun w => w.scopes.Lives (st.scopes.spot name).height
              (st.scopes.spot name).level) (st.step p o).state u →
            ¬ ((st.scopes.spot name).level = 0 ∧ name ∈ resultNames) →
            u.scopes.slot? (st.scopes.spot name) = some slot ∧
              (u.scopes.value slot).kind = k := by
  have hsound := h.sound
  have value : ∀ {s : Scopes} {slot : Slot} {v : Value}, s.cells[slot.cell]? = some v →
      s.value slot = v := by
    intro s slot v hv
    rw [Scopes.value, Array.getD_eq_getD_getElem?, hv]
    rfl
  refine ⟨hsound.storable, fun u hu => (hu.evolves h).kept, fun expr v he => hsound.evaluate he,
    ?_, fun type names hat => ⟨fun hrun name hn => var_adds hat hrun hn, ?_⟩⟩
  · intro name args hat hb hrun
    obtain ⟨values, hvalues, hwritten⟩ := print_shows hat hb hrun
    have hkinds := hsound.operands hvalues
    exact ⟨values, hvalues, hwritten, fun v hv => ⟨hkinds v hv, text_ne_nil (hkinds v hv)⟩⟩
  · intro name slot hnone hslot
    obtain ⟨k, v, hk, rfl, hcell⟩ := var_kind hat hnone hslot
    refine ⟨v.kind, hk, by rw [value hcell], fun u hu hn => ?_⟩
    obtain ⟨w, hw, hkind⟩ := (hu.evolves h.next).kept _ _ hcell
    refine ⟨hu.keeps_slot hslot hn, ?_⟩
    rw [value hw, hkind]

/-- The state in which the sample comes to its first declaration. -/
def oneRoundFirst : State :=
  { ip := 1, steps := 1, workspace :=
      { scopes := .start mainFunction noLine, console := .ofInput "" } }

theorem kinds_stable_oneRound :
    Reachable (Program.load oneRound) {} (.ofInput "") oneRoundFirst ∧
    ∀ u, Along (Program.load oneRound) {} (fun w => w.scopes.Lives 0 0) oneRoundLoop u →
      u.scopes.slot? ⟨0, 0, "x"⟩ = some ⟨0, none⟩ ∧ (u.scopes.value ⟨0, none⟩).kind = .int := by
  rw [load_oneRound]
  have hfirst : Reachable (.ofStream oneRoundTokens) {} (.ofInput "") oneRoundFirst := by
    have hmain : (Program.ofStream oneRoundTokens).functions.entryLine? mainFunction = some 0 := by
      decide +kernel
    have h := (reachable_main {} (.ofInput "") hmain).advance 1
    rwa [show (State.advance _ _ 1 _).state = oneRoundFirst by decide +kernel] at h
  have hstep : (oneRoundFirst.step (.ofStream oneRoundTokens) {}).state = oneRoundLoop := by
    decide +kernel
  have hat : (Program.ofStream oneRoundTokens).at? oneRoundFirst.ip = some (.var "int" ["x"]) := by
    decide +kernel
  obtain ⟨-, -, -, -, hvar⟩ := kinds_stable hfirst
  obtain ⟨k, hk, -, hlive⟩ := (hvar "int" ["x"] hat).2 "x" ⟨0, none⟩ (by decide)
    (by rw [hstep]; decide)
  cases hk
  rw [hstep] at hlive
  exact ⟨hfirst, fun u hu => hlive u hu (by decide)⟩

end Brewin
