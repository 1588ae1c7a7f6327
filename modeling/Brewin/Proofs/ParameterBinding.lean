import Mathlib.Data.List.Induction
import Brewin.Proofs.CallSegment

namespace Brewin

namespace Scopes

/-- Some variable of a frame has the cell of the slot. -/
def Aliases (s : Scopes) (slot : Slot) : Prop :=
  ∃ f ∈ s.frames, ∃ owner, f.Binds owner ∧ owner.cell = slot.cell

/-- The token is a literal, and the running function has a variable of that name. -/
def Ambiguous (s : Scopes) (token : String) : Prop :=
  readLiteral token ≠ .notLiteral ∧ ∃ owner, s.lookup? token = some owner

/-- The slot that a parameter of a call from `s` gets. Only the name of a variable counts here,
also where the value was read from a literal. -/
inductive Receives (s : Scopes) (param : Param) (token : String) (v : Value)
    (cells : Array Value) : Slot → Prop
  | shared {owner : Slot} : param.byRef = true → s.lookup? token = some owner →
      Receives s param token v cells (owner.aliasOf token)
  | copied {cell : Nat} : (param.byRef = true → s.lookup? token = none) →
      s.cells.size ≤ cell → cells[cell]? = some v → Receives s param token v cells ⟨cell, none⟩

theorem bindParam_cases (caller : Frame) (t : Scopes) (param : Param) (token : String)
    (v : Value) :
    (∃ owner, param.byRef = true ∧ caller.find? token = some owner ∧
      t.bindParam caller param token v = t.bindAlias param.name owner token) ∨
    (param.byRef = true → caller.find? token = none) ∧
      t.bindParam caller param token v = t.bind param.name v := by
  unfold bindParam
  cases hr : param.byRef with
  | false => exact Or.inr ⟨by simp, rfl⟩
  | true =>
    cases ho : caller.find? token with
    | none => exact Or.inr ⟨by simp, rfl⟩
    | some owner => exact Or.inl ⟨owner, rfl, rfl, rfl⟩

section

variable {s t : Scopes} {param : Param} {token : String} {v : Value}

theorem Receives.grow {cells : Array Value} {slot : Slot} (h : Receives s param token v cells slot)
    (added : Array Value) : Receives s param token v (cells ++ added) slot := by
  cases h with
  | shared hr ho => exact .shared hr ho
  | copied hn hcell hv =>
    have hlt := (Array.getElem?_eq_some_iff.mp hv).1
    refine .copied hn hcell ?_
    rw [Array.getElem?_append_left hlt, hv]

/-- One parameter adds its cell at most, and binds its name and no other. -/
theorem receives_bindParam (hsize : s.cells.size ≤ t.cells.size) (param : Param)
    (token : String) (v : Value) :
    (∃ added, (t.bindParam s.frame param token v).cells = t.cells ++ added) ∧
    ∃ slot, Receives s param token v (t.bindParam s.frame param token v).cells slot ∧
      ∀ name, (t.bindParam s.frame param token v).lookup? name =
        if name = param.name then some slot else t.lookup? name := by
  rcases bindParam_cases s.frame t param token v with ⟨owner, hr, ho, he⟩ | ⟨hn, he⟩
  · rw [he]
    refine ⟨⟨#[], by simp [bindAlias]⟩, owner.aliasOf token, .shared hr ho, fun name => ?_⟩
    exact t.frame.find?_insert param.name name _
  · rw [he]
    refine ⟨⟨#[v], by simp [bind]⟩, .fresh t.cells, .copied hn hsize (by simp [bind]), ?_⟩
    intro name
    exact t.lookup?_bind param.name name v

/-- A frame in which parameters are bound one after the other; of those with one name the last
one counts. -/
structure Bound (s t : Scopes) (entries : List (Param × String × Value)) : Prop where
  cells : ∃ added, t.cells = s.cells ++ added
  names : ∀ name, (∃ slot, t.lookup? name = some slot) ↔ ∃ entry ∈ entries, entry.1.name = name
  last : ∀ (i : Nat) param token v, entries[i]? = some (param, token, v) →
    (∀ (j : Nat) (later : Param × String × Value), i < j → entries[j]? = some later →
      later.1.name ≠ param.name) →
    ∃ slot, t.lookup? param.name = some slot ∧ Receives s param token v t.cells slot

theorem Bound.push (s : Scopes) (function : String) (resume : Int) :
    Bound s (s.pushFrame { function, resume }) [] := by
  refine ⟨⟨#[], by simp [pushFrame]⟩, fun name => ?_, fun i param token v h => ?_⟩
  · constructor
    · rintro ⟨slot, h⟩
      exact absurd (Frame.binds_of_find? h) (Frame.not_binds_new _ _)
    · rintro ⟨entry, h, -⟩
      cases h
  · cases h

theorem Bound.bindParam {entries : List (Param × String × Value)} (h : Bound s t entries)
    (param : Param) (token : String) (v : Value) :
    Bound s (t.bindParam s.frame param token v) (entries ++ [(param, token, v)]) := by
  obtain ⟨⟨before, hbefore⟩, hnames, hlast⟩ := h
  have hsize : s.cells.size ≤ t.cells.size := by
    rw [hbefore, Array.size_append]
    omega
  obtain ⟨⟨added, hadded⟩, slot, hslot, hlookup⟩ := receives_bindParam hsize param token v
  refine ⟨⟨before ++ added, by rw [hadded, hbefore, Array.append_assoc]⟩, fun name => ?_, ?_⟩
  · rw [hlookup]
    by_cases hname : name = param.name
    · simp [hname]
    · rw [if_neg hname, hnames]
      simp [Ne.symm hname]
  · intro i param' token' v' hi hlater
    rw [hlookup]
    by_cases hlt : i < entries.length
    · have hnew : (entries ++ [(param, token, v)])[entries.length]? = some (param, token, v) := by
        simp
      have hne : param.name ≠ param'.name := hlater _ _ hlt hnew
      rw [List.getElem?_append_left hlt] at hi
      obtain ⟨old, hold, hreceives⟩ := hlast i param' token' v' hi fun j later hj hjl => by
        have hjlt := (List.getElem?_eq_some_iff.mp hjl).1
        exact hlater j later hj (by rw [List.getElem?_append_left hjlt, hjl])
      refine ⟨old, by rw [if_neg hne.symm, hold], ?_⟩
      rw [hadded]
      exact hreceives.grow added
    · -- The entry is the new one.
      rw [List.getElem?_append_right (by omega)] at hi
      have hzero : i - entries.length = 0 := by
        have := (List.getElem?_eq_some_iff.mp hi).1
        simpa using this
      rw [hzero] at hi
      cases hi
      exact ⟨slot, if_pos rfl, hslot⟩

theorem bound_enter (s : Scopes) (f : Definition) (args : List String) (values : List Value)
    (resume : Int) :
    Bound s (s.enter f args values resume) (f.params.zip (args.zip values)) := by
  unfold enter
  generalize f.params.zip (args.zip values) = entries
  induction entries using List.reverseRecOn with
  | nil => exact Bound.push s f.name resume
  | append_singleton entries entry ih =>
    rw [List.foldl_append]
    exact ih.bindParam entry.1 entry.2.1 entry.2.2

theorem operands_spec {args : List String} {values : List Value}
    (h : s.operands args = .ok values) :
    args.length = values.length ∧ ∀ (i : Nat) token, args[i]? = some token →
      ∃ v, values[i]? = some v ∧ s.operand token = .ok v := by
  induction args generalizing values with
  | nil =>
    cases h
    simp
  | cons first args ih =>
    rw [operands, List.mapM_cons] at h
    obtain ⟨v, hv, h⟩ := exists_of_bind_eq_ok h
    obtain ⟨rest, hrest, h⟩ := exists_of_bind_eq_ok h
    cases h
    obtain ⟨hlength, hall⟩ := ih hrest
    refine ⟨congrArg Nat.succ hlength, fun i token hi => ?_⟩
    cases i with
    | zero =>
      cases hi
      exact ⟨v, rfl, hv⟩
    | succ i => exact hall i token hi

/-- The values of accepted arguments have the kinds that the parameters declare. -/
theorem arguments_spec {f : Definition} {args : List String} {values : List Value}
    (h : s.arguments f args = .ok values) :
    s.operands args = .ok values ∧ values.length = f.params.length ∧
      ∀ (i : Nat) param v, f.params[i]? = some param → values[i]? = some v →
        Kind.ofName? param.type = some v.kind := by
  unfold arguments at h
  split at h
  next => cases h
  next given ho =>
    split at h
    next => cases h
    next hlength =>
      split at h
      next => cases h
      next hfind =>
        cases h
        refine ⟨ho, by simpa using hlength, fun i param v hp hv => ?_⟩
        have hmem : (param, v) ∈ f.params.zip values :=
          List.mem_iff_getElem?.mpr ⟨i, List.getElem?_zip_eq_some.mpr ⟨hp, hv⟩⟩
        simpa using List.find?_eq_none.mp hfind _ hmem

theorem operand_cases (h : s.operand token = .ok v) :
    readLiteral token = .value v ∨ readLiteral token = .notLiteral ∧
      ∃ owner, s.lookup? token = some owner ∧ s.value owner = v := by
  unfold operand at h
  split at h
  next hl =>
    cases h
    exact Or.inl hl
  next => cases h
  next hl =>
    split at h
    next hv =>
      cases h
      exact Or.inr ⟨hl, Option.map_eq_some_iff.mp hv⟩
    next => cases h

/-- Where value and name agree on what the token is, the slot has the value of the argument, and
shares a cell just for a variable that is passed by reference. -/
theorem Receives.faithful {slot : Slot} {added : Array Value} (hb : s.Bounded)
    (ht : t.cells = s.cells ++ added) (h : Receives s param token v t.cells slot)
    (ho : s.operand token = .ok v) (hclear : ¬ (param.byRef = true ∧ s.Ambiguous token)) :
    t.value slot = v ∧
      (s.Aliases slot ↔ param.byRef = true ∧ readLiteral token = .notLiteral) := by
  cases h with
  | @shared owner hr hfound =>
    rcases operand_cases ho with hl | ⟨hl, owner', hfound', hvalue⟩
    · exact absurd ⟨hr, by simp [hl], owner, hfound⟩ hclear
    · cases hfound.symm.trans hfound'
      have hbinds := Frame.binds_of_find? hfound
      have hlt := hb s.frame (by simp [frames]) owner hbinds
      refine ⟨?_, fun _ => ⟨hr, hl⟩, fun _ => ⟨s.frame, by simp [frames], owner, hbinds, rfl⟩⟩
      rw [← hvalue]
      show t.cells.getD owner.cell .unknown = s.cells.getD owner.cell .unknown
      rw [Array.getD_eq_getD_getElem?, Array.getD_eq_getD_getElem?, ht,
        Array.getElem?_append_left hlt]
  | @copied cell hn hcell hv =>
    refine ⟨?_, ?_, ?_⟩
    · show t.cells.getD cell .unknown = v
      rw [Array.getD_eq_getD_getElem?, hv]
      rfl
    · rintro ⟨g, hg, owner, hbinds, heq⟩
      have hlt := hb g hg owner hbinds
      change owner.cell = cell at heq
      omega
    · rintro ⟨hr, hl⟩
      rcases operand_cases ho with hl' | ⟨-, owner, hfound, -⟩
      · cases hl.symm.trans hl'
      · cases (hn hr).symm.trans hfound

end

end Scopes

theorem Frame.find?_of_single {f : Frame} (h : f.inner = []) (name : String) :
    f.find? name = f.base.find? name := by
  simp [find?, blocks, h]

/-- A call that goes on pushes one frame with one block, in which it binds the parameters. Each of
them has the value of its argument and the kind that it declares, and shares a cell just if it is
by reference and the argument is no literal. An argument by reference that is a literal and at the
same time the name of a variable is taken for the variable. -/
theorem call_binds {p : Program} {o : Options} {console : Console} {st : State} {name : String}
    {args : List String} {f : Definition} (h : Reachable p o console st)
    (hat : p.at? st.ip = some (.call name args)) (hb : Builtin.ofName? name = none)
    (hf : p.functions.find? name = some f) (hrun : (st.step p o).signal = .running) :
    (st.step p o).state.ip = f.line ∧
    (st.step p o).state.scopes.callers = st.scopes.frames ∧
    (st.step p o).state.scopes.frame.function = name ∧
    (st.step p o).state.scopes.frame.resume = st.ip + 1 ∧
    (st.step p o).state.scopes.frame.inner = [] ∧
    (∃ added, (st.step p o).state.scopes.cells = st.scopes.cells ++ added) ∧
    args.length = f.params.length ∧
    (∀ x, (st.step p o).state.scopes.frame.base.binds x = true ↔
      ∃ param ∈ f.params, param.name = x) ∧
    ∀ (i : Nat) param token, f.params[i]? = some param → args[i]? = some token →
      (∀ (j : Nat) later, i < j → f.params[j]? = some later → later.name ≠ param.name) →
      ∃ v slot, st.scopes.operand token = .ok v ∧ Kind.ofName? param.type = some v.kind ∧
        (st.step p o).state.scopes.frame.base.find? param.name = some slot ∧
        st.scopes.Receives param token v (st.step p o).state.scopes.cells slot ∧
        (¬ (param.byRef = true ∧ st.scopes.Ambiguous token) →
          (st.step p o).state.scopes.value slot = v ∧
          Kind.ofName? param.type = some ((st.step p o).state.scopes.value slot).kind ∧
          (st.scopes.Aliases slot ↔ param.byRef = true ∧ readLiteral token = .notLiteral)) := by
  obtain ⟨line, hip⟩ := exists_line_of_at? hat
  rw [hip] at hat
  obtain ⟨values, ha, hline, hs⟩ := call_goes hip hat hb hf hrun
  obtain ⟨ho, hlength, hkinds⟩ := Scopes.arguments_spec ha
  obtain ⟨hargs, hvalues⟩ := Scopes.operands_spec ho
  obtain ⟨hshape, hcallers⟩ := st.scopes.shape_enter f args values (line + 1)
  obtain ⟨hfunction, hresume, hinner⟩ := Frame.shape_eq.mp hshape
  obtain ⟨⟨added, hadded⟩, hnames, hlast⟩ :=
    Scopes.bound_enter st.scopes f args values (line + 1)
  have hsingle := List.eq_nil_of_length_eq_zero hinner
  have hbase : ∀ x, (st.scopes.enter f args values (line + 1)).lookup? x =
      (st.scopes.enter f args values (line + 1)).frame.base.find? x :=
    Frame.find?_of_single hsingle
  have hentry : ∀ {i : Nat} {param token v}, f.params[i]? = some param → args[i]? = some token →
      values[i]? = some v → (f.params.zip (args.zip values))[i]? = some (param, token, v) := by
    intro i param token v hparam htoken hv
    have hpair : (args.zip values)[i]? = some (token, v) :=
      List.getElem?_zip_eq_some.mpr ⟨htoken, hv⟩
    exact List.getElem?_zip_eq_some.mpr ⟨hparam, hpair⟩
  rw [hs]
  refine ⟨hline, hcallers, hfunction.trans (name_of_find? hf), by rw [hresume, hip], hsingle,
    ⟨added, hadded⟩, hargs.trans hlength, fun x => ?_, ?_⟩
  · rw [Block.binds, Option.isSome_iff_exists, ← hbase, hnames]
    constructor
    · rintro ⟨⟨param, token, v⟩, hmem, hname⟩
      exact ⟨param, (List.of_mem_zip hmem).1, hname⟩
    · rintro ⟨param, hmem, hname⟩
      obtain ⟨i, hparam⟩ := List.mem_iff_getElem?.mp hmem
      have hlt := (List.getElem?_eq_some_iff.mp hparam).1
      have htoken : args[i]? = some args[i] := List.getElem?_eq_getElem (by omega)
      obtain ⟨v, hv, -⟩ := hvalues i _ htoken
      exact ⟨_, List.mem_of_getElem? (hentry hparam htoken hv), hname⟩
  · intro i param token hparam htoken hlater
    obtain ⟨v, hv, hoperand⟩ := hvalues i token htoken
    obtain ⟨slot, hslot, hreceives⟩ := hlast i param token v (hentry hparam htoken hv) (by
      intro j later hj hjl
      exact hlater j later.1 hj (List.getElem?_zip_eq_some.mp hjl).1)
    have hkind := hkinds i param v hparam hv
    refine ⟨v, slot, hoperand, hkind, (hbase _).symm.trans hslot, hreceives, fun hclear => ?_⟩
    obtain ⟨hvalue, haliases⟩ := hreceives.faithful h.bounded hadded hoperand hclear
    exact ⟨hvalue, by rw [hvalue, hkind], haliases⟩

theorem call_binds_addOne :
    Reachable addOne {} (.ofInput "") addOneCall ∧
    (addOneCall.step addOne {}).state.scopes.callers = addOneCall.scopes.frames ∧
    ∃ v slot, addOneCall.scopes.operand "a" = .ok v ∧
      (addOneCall.step addOne {}).state.scopes.frame.base.find? "x" = some slot ∧
      (addOneCall.step addOne {}).state.scopes.value slot = v ∧
      addOneCall.scopes.Aliases slot := by
  have hcall : Reachable addOne {} (.ofInput "") addOneCall := by
    have hmain : addOne.functions.entryLine? mainFunction = some 0 := by
      decide +kernel
    have h := (reachable_main {} (.ofInput "") hmain).advance 2
    rwa [show (State.advance _ _ 2 _).state = addOneCall by decide +kernel] at h
  have hat : addOne.at? addOneCall.ip = some (.call "take" ["a", "b"]) := by
    decide +kernel
  have hf : addOne.functions.find? "take" =
      some ⟨"take", 4, [⟨"x", "int", true⟩, ⟨"y", "int", false⟩], "int"⟩ := by decide +kernel
  obtain ⟨-, hcallers, -, -, -, -, -, -, hparams⟩ := call_binds hcall hat (by decide) hf
    (by decide +kernel)
  have hvariable : readLiteral "a" = .notLiteral := by decide +kernel
  obtain ⟨v, slot, hv, -, hslot, -, hclear⟩ := hparams 0 ⟨"x", "int", true⟩ "a" rfl rfl (by
    intro j later hj hlater
    match j with
    | 1 =>
      cases hlater
      decide)
  obtain ⟨hvalue, -, haliases⟩ := hclear fun h => h.2.1 hvariable
  exact ⟨hcall, hcallers, v, slot, hv, hslot, hvalue, haliases.mpr ⟨rfl, hvariable⟩⟩

/-- The main function has a variable with the name of a number, and passes the number on. -/
def numberName : Program :=
  .ofStream [["func", "main", "void"], ["var", "string", "5"], ["funccall", "show", "5"],
    ["endfunc"], ["func", "show", "x:refint", "void"], ["funccall", "print", "x"], ["endfunc"]]

/-- The state in which the main function of the sample makes its call. -/
def numberNameCall : State :=
  { ip := 2, steps := 2, workspace :=
      { scopes := ⟨⟨"main", -1, ⟨[("5", ⟨0, none⟩)]⟩, []⟩, [], #[.string ""]⟩
        console := .ofInput "" } }

/-- A literal by reference can be taken for a variable, and the parameter then has neither the
value of the argument nor the kind that it declares. -/
theorem literal_taken_for_variable :
    Reachable numberName {} (.ofInput "") numberNameCall ∧
    numberName.at? numberNameCall.ip = some (.call "show" ["5"]) ∧
    numberName.functions.find? "show" = some ⟨"show", 4, [⟨"x", "int", true⟩], "void"⟩ ∧
    (numberNameCall.step numberName {}).signal = .running ∧
    readLiteral "5" = .value (.int 5) ∧ numberNameCall.scopes.operand "5" = .ok (.int 5) ∧
    ∃ slot, (numberNameCall.step numberName {}).state.scopes.frame.base.find? "x" = some slot ∧
      (numberNameCall.step numberName {}).state.scopes.value slot = .string "" ∧
      numberNameCall.scopes.Aliases slot := by
  have hmain : numberName.functions.entryLine? mainFunction = some 0 := by
    decide +kernel
  have hreach := (reachable_main {} (.ofInput "") hmain).advance 2
  rw [show (State.advance _ _ 2 _).state = numberNameCall by decide +kernel] at hreach
  have hfound : numberNameCall.scopes.frame.find? "5" = some ⟨0, none⟩ := by decide
  refine ⟨hreach, by decide +kernel, by decide +kernel, by decide +kernel, by decide +kernel,
    by decide +kernel, ⟨0, some "5"⟩, by decide +kernel, by decide +kernel, ?_⟩
  exact ⟨numberNameCall.scopes.frame, by simp [Scopes.frames], _, Frame.binds_of_find? hfound, rfl⟩

end Brewin
