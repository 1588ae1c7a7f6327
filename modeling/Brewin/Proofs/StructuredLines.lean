import Brewin.Proofs.FrameShape
import Brewin.Proofs.OutlineProgram
import Brewin.Proofs.RunSteps
import Brewin.Proofs.StructuredRun

namespace Brewin

/-- The running function goes back with a result: from the bottom frame the run ends, from any
other the caller goes on. -/
def GivesBack (p : Program) (o : Options) (st : State) (w : Workspace) (result? : Option Value)
    (resume : Int) : List Frame → Prop
  | [] => Ends p o st w.console .finished
  | caller :: callers =>
    ∃ n, Reaches p o n st resume ⟨.handOver caller callers w.scopes.cells result?, w.console⟩

/-- The machine follows a run of a body: it comes to the line behind the body, goes back, or fails
as the body does; and it goes on for `n` steps where the body has come to no end within `n`
rounds. -/
def Follows (p : Program) (o : Options) (n : Nat) (st : State) (line : Nat) (resume : Int)
    (callers : List Frame) : Option (Workspace × Exit) → Prop
  | none => ∃ m st', n ≤ m ∧ Goes p o m st st'
  | some (w, .through) => ∃ m, Reaches p o m st line (w.above resume callers)
  | some (w, .back result?) => GivesBack p o st w result? resume callers
  | some (w, .fault fault) => Ends p o st w.console (.failed fault)

variable {p : Program} {o : Options} {t : Outline} {st : State} {w : Workspace} {resume : Int}
  {callers : List Frame}

theorem Reaches.trans {n m : Nat} {st' : State} {line : Int} {w' : Workspace}
    (hg : Goes p o n st st') (h : Reaches p o m st' line w') :
    Reaches p o (n + m) st line w' := by
  obtain ⟨st'', hg', hl, hw⟩ := h
  exact ⟨st'', hg.trans hg', hl, hw⟩

theorem GivesBack.after {n : Nat} {st' : State} {result? : Option Value}
    (hg : Goes p o n st st') (h : GivesBack p o st' w result? resume callers) :
    GivesBack p o st w result? resume callers := by
  cases callers with
  | nil => exact hg.ends h
  | cons caller callers =>
    obtain ⟨m, hr⟩ := h
    exact ⟨n + m, hr.trans hg⟩

theorem Follows.after {n m k line : Nat} {st' : State} {r : Option (Workspace × Exit)}
    (hg : Goes p o m st st') (h : Follows p o n st' line resume callers r) (hk : k ≤ m + n) :
    Follows p o k st line resume callers r := by
  match r with
  | none =>
    obtain ⟨i, st'', hi, hg'⟩ := h
    exact ⟨m + i, st'', by omega, hg.trans hg'⟩
  | some (w, .through) =>
    obtain ⟨i, hr⟩ := h
    exact ⟨m + i, hr.trans hg⟩
  | some (w, .back result?) => exact GivesBack.after hg h
  | some (w, .fault fault) => exact hg.ends h

/-- The machine follows what a simple line leads to. -/
def Acts (p : Program) (o : Options) (t : Outline) (st : State) (here : Nat) (frame : Frame)
    (resume : Int) (callers : List Frame) : Action → Prop
  | .next w => Reaches p o 1 st (here + 1 : Nat) (w.above resume callers)
  | .leave w exit => ∀ n line, Follows p o n st line resume callers (some (w, exit))
  | .invoke r callee =>
    r ∈ t.routines ∧ p.functions.find? r.definition.name = some r.definition ∧
      callee.scopes.frame.function = r.definition.name ∧
      Reaches p o 1 st r.definition.line
        (callee.above (here + 1) ({ frame with resume } :: callers))

section

variable {here : Nat} {statement : Statement} {a : Activation}

theorem acts_settle (ho : o.maxSteps ≤ 0) (hip : st.ip = here)
    (hw : st.workspace = w.above resume callers) (hat : p.at? here = some statement)
    {f : Workspace → Effect} (hx : st.execute p here statement = st.settle here f)
    (hf : f (w.above resume callers) = (f w).above resume callers) :
    Acts p o t st here w.scopes.frame resume callers ((f w).action here) := by
  rcases hfw : f w with ⟨w', problem?⟩
  have hs : f st.workspace = ⟨w'.above resume callers, problem?⟩ := by
    rw [hw, hf, hfw]
    rfl
  cases problem? with
  | none =>
    have he : st.execute p here statement =
        { st with workspace := w'.above resume callers }.proceed (here + 1) := by
      rw [hx, State.settle, hs]
    have := reaches_of_execute ho hip hat (by rw [he]; rfl)
    rwa [he] at this
  | some problem =>
    have he : st.execute p here statement =
        { st with workspace := w'.above resume callers }.fail problem := by
      rw [hx, State.settle, hs]
    intro n line
    have : Ends p o st _ (.failed ⟨st.ip, problem⟩) :=
      ends_of_failure ho hip hat (by rw [he]; rfl)
    rwa [he, hip] at this

theorem follows_failure (ho : o.maxSteps ≤ 0) (hip : st.ip = here)
    (hw : st.workspace = w.above resume callers) (hat : p.at? here = some statement)
    {problem : Problem} (hx : st.execute p here statement = st.fail problem) (n line : Nat) :
    Follows p o n st line resume callers (some (w, .fault ⟨here, problem⟩)) := by
  have : Ends p o st _ (.failed ⟨st.ip, problem⟩) :=
    ends_of_failure ho hip hat (by rw [hx]; rfl)
  rw [hx, hip] at this
  change Ends p o st st.workspace.console _ at this
  rwa [hw] at this

theorem givesBack_of_execute (ho : o.maxSteps ≤ 0) (hip : st.ip = here)
    (hw : st.workspace = w.above resume callers) (hat : p.at? here = some statement)
    {result? : Option Value} (hx : st.execute p here statement = st.giveBack result?) :
    GivesBack p o st w result? resume callers := by
  have hcallers : st.scopes.callers = callers := congrArg (·.scopes.callers) hw
  cases callers with
  | nil =>
    have he := State.giveBack_bottom hcallers result?
    have := ends_of_halt ho hip hat (by rw [hx, he]; rfl)
    rw [hx, he] at this
    change Ends p o st st.workspace.console _ at this
    rwa [hw] at this
  | cons caller callers =>
    have he := State.giveBack_caller hcallers result?
    have := reaches_of_execute ho hip hat (by rw [hx, he])
    rw [hx, he] at this
    obtain ⟨ip, steps, w'⟩ := st
    cases hw
    exact ⟨1, this⟩

theorem returnType_of_find? {functions : FunctionTable} {f : Definition}
    (h : functions.find? f.name = some f) : functions.returnType f.name = f.returnType := by
  simp [FunctionTable.returnType, h]

theorem defaultResult?_of_find? {functions : FunctionTable} {f : Definition}
    (h : functions.find? f.name = some f) : functions.defaultResult? f.name = f.zeroResult? := by
  rw [FunctionTable.defaultResult?, returnType_of_find? h, Definition.zeroResult?]

theorem acts_ret (ho : o.maxSteps ≤ 0) (hip : st.ip = here)
    (hw : st.workspace = w.above resume callers) {expr : List String}
    (hat : p.at? here = some (.ret expr)) (hf : w.scopes.frame.function = a.definition.name)
    (hfind : p.functions.find? a.definition.name = some a.definition)
    (hout : a.outermost = callers.isEmpty) :
    Acts p o t st here w.scopes.frame resume callers (a.giveBack here w expr) := by
  have hs : st.scopes = w.scopes.above resume callers := congrArg Workspace.scopes hw
  have hfun : st.scopes.frame.function = a.definition.name := by rw [hs]; exact hf
  have hcallers : st.scopes.callers.isEmpty = a.outermost := by rw [hout, hs]; rfl
  have hv : st.scopes.evaluate expr = w.scopes.evaluate expr := by rw [hs, Scopes.evaluate_above]
  have hx : st.execute p here (.ret expr) = st.ret p.functions expr := rfl
  simp only [State.ret, hcallers, hfun, hv] at hx
  unfold Activation.giveBack
  cases hb : a.outermost with
  | true =>
    simp only [hb, ↓reduceIte] at hx ⊢
    intro n line
    cases List.isEmpty_iff.mp (hout.symm.trans hb)
    have := ends_of_halt ho hip hat (by rw [hx]; rfl)
    rw [hx] at this
    change Ends p o st st.workspace.console _ at this
    rwa [hw] at this
  | false =>
    simp only [hb, Bool.false_eq_true, ↓reduceIte] at hx ⊢
    split at hx
    next he =>
      rw [if_pos he]
      intro n line
      rw [defaultResult?_of_find? hfind] at hx
      exact givesBack_of_execute ho hip hw hat hx
    next he =>
      rw [if_neg he]
      cases hr : w.scopes.evaluate expr with
      | error problem =>
        rw [hr] at hx
        intro n line
        exact follows_failure ho hip hw hat hx n line
      | ok v =>
        rw [hr] at hx
        have hcheck : (Except.ok v >>= p.functions.checkResult a.definition.name) =
            if Kind.ofName? a.definition.returnType = some v.kind then .ok v
            else .error (.returnMismatch a.definition.name a.definition.returnType v.kind) := by
          rw [← returnType_of_find? hfind]
          rfl
        rw [hcheck] at hx
        dsimp only
        by_cases hk : Kind.ofName? a.definition.returnType = some v.kind
        · rw [if_pos hk] at hx ⊢
          intro n line
          exact givesBack_of_execute ho hip hw hat hx
        · rw [if_neg hk] at hx ⊢
          intro n line
          exact follows_failure ho hip hw hat hx n line

theorem acts_invoke (hc : t.Covers p) (ho : o.maxSteps ≤ 0) (hip : st.ip = here)
    (hw : st.workspace = w.above resume callers) {name : String} {args : List String}
    (hat : p.at? here = some (.call name args)) (hb : Builtin.ofName? name = none) :
    Acts p o t st here w.scopes.frame resume callers (t.invoke here w name args) := by
  have hs : st.scopes = w.scopes.above resume callers := congrArg Workspace.scopes hw
  have hx : st.execute p here (.call name args) = st.call p.functions here name args := by
    simp only [State.execute, hb]
  simp only [State.call, hc.find?, hs, Scopes.arguments_above] at hx
  unfold Outline.invoke
  cases hf : t.find? name with
  | none =>
    simp only [hf, Option.map_none] at hx
    intro n line
    exact follows_failure ho hip hw hat hx n line
  | some r =>
    simp only [hf, Option.map_some] at hx
    dsimp only
    cases ha : w.scopes.arguments r.definition args with
    | error problem =>
      simp only [ha] at hx
      intro n line
      exact follows_failure ho hip hw hat hx n line
    | ok values =>
      simp only [ha] at hx
      obtain ⟨hm, hn⟩ := Outline.mem_of_find? hf
      have hshape := (w.scopes.shape_enter r.definition args values noLine).1
      refine ⟨hm, by rw [hc.find?, hn, hf]; rfl, congrArg Prod.fst hshape, ?_⟩
      have := reaches_of_execute ho hip hat (by rw [hx])
      rw [hx] at this
      change Reaches p o 1 st _ ⟨st.workspace.scopes.enter _ _ _ _, st.workspace.console⟩ at this
      rw [hw] at this
      change Reaches p o 1 st _ ⟨(w.scopes.above resume callers).enter _ _ _ _, _⟩ at this
      rw [Scopes.enter_above] at this
      exact this

theorem acts_simple (hc : t.Covers p) (ho : o.maxSteps ≤ 0) (hip : st.ip = here)
    (hw : st.workspace = w.above resume callers) {simple : Simple}
    (hat : p.at? here = some simple.statement)
    (hf : w.scopes.frame.function = a.definition.name)
    (hfind : p.functions.find? a.definition.name = some a.definition)
    (hout : a.outermost = callers.isEmpty) :
    Acts p o t st here w.scopes.frame resume callers (simple.act t a here w) := by
  cases simple with
  | var type names =>
    exact acts_settle (f := (·.declare type names)) ho hip hw hat rfl
      (w.declare_above resume callers type names)
  | assign target expr =>
    exact acts_settle (f := (·.assign target expr)) ho hip hw hat rfl
      (w.assign_above resume callers target expr)
  | call name args =>
    simp only [Simple.act]
    split
    next b hb =>
      refine acts_settle (f := (·.builtin b args)) ho hip hw hat ?_
        (w.builtin_above resume callers b args)
      simp only [Simple.statement, State.execute, hb]
    next hb => exact acts_invoke hc ho hip hw hat hb
  | ret expr => exact acts_ret ho hip hw hat hf hfind hout
  | nop =>
    have := reaches_of_execute ho hip hat rfl
    change Reaches p o 1 st _ st.workspace at this
    rwa [hw] at this
  | malformed omission =>
    intro n line
    exact follows_failure ho hip hw hat rfl n line

end

end Brewin
