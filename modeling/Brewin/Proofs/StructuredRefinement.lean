import Brewin.Proofs.StructuredLines
import Brewin.Proofs.StructuredShape

namespace Brewin

/-- The machine stands at a line with the workspace of a tree run, in the same function. -/
structure Standing (p : Program) (a : Activation) (st : State) (line : Nat) (w : Workspace)
    (resume : Int) (callers : List Frame) : Prop where
  ip : st.ip = line
  workspace : st.workspace = w.above resume callers
  function : w.scopes.frame.function = a.definition.name
  find? : p.functions.find? a.definition.name = some a.definition
  outermost : a.outermost = callers.isEmpty

variable {p : Program} {o : Options} {t : Outline} {st : State} {w : Workspace} {resume : Int}
  {callers : List Frame} {a : Activation}

theorem Standing.move {line line' : Nat} {st' : State} {w' : Workspace}
    (h : Standing p a st line w resume callers) (hip : st'.ip = line')
    (hw : st'.workspace = w'.above resume callers)
    (hs : w'.scopes.frame.function = w.scopes.frame.function) :
    Standing p a st' line' w' resume callers :=
  ⟨hip, hw, hs.trans h.function, h.find?, h.outermost⟩

theorem Standing.condition {line : Nat} (h : Standing p a st line w resume callers)
    (cond : List String) : st.scopes.condition cond = w.scopes.condition cond := by
  have hs : st.scopes = w.scopes.above resume callers := congrArg Workspace.scopes h.workspace
  rw [hs, Scopes.condition_above]

theorem reaches_inside {here target : Nat} {statement : Statement} (ho : o.maxSteps ≤ 0)
    (h : Standing p a st here w resume callers) (hat : p.at? here = some statement)
    (hx : st.execute p here statement = st.proceedInside target) :
    Reaches p o 1 st target (w.openBlock.above resume callers) := by
  have := reaches_of_execute ho h.ip hat (by rw [hx]; rfl)
  rw [hx] at this
  change Reaches p o 1 st target ⟨st.workspace.scopes.pushBlock, st.workspace.console⟩ at this
  rw [h.workspace] at this
  exact this

theorem reaches_past {here target : Nat} {statement : Statement} (ho : o.maxSteps ≤ 0)
    (h : Standing p a st here w resume callers) (hat : p.at? here = some statement)
    (hx : st.execute p here statement = st.proceed target) :
    Reaches p o 1 st target (w.above resume callers) := by
  have := reaches_of_execute ho h.ip hat (by rw [hx]; rfl)
  rw [hx] at this
  change Reaches p o 1 st target st.workspace at this
  rwa [h.workspace] at this

theorem popBlock?_above (s : Scopes) :
    (s.above resume callers).popBlock? = s.popBlock?.map (·.above resume callers) := by
  obtain ⟨⟨function, line, base, inner⟩, below, cells⟩ := s
  cases inner with
  | nil => rfl
  | cons b bs => rfl

/-- A line that closes a block leads on with the block dropped. -/
theorem reaches_closed {here target : Nat} {statement : Statement} (ho : o.maxSteps ≤ 0)
    (h : Standing p a st here w resume callers) (hat : p.at? here = some statement)
    (hpop : w.scopes.popBlock? = some w.closeBlock.scopes)
    (hx : ∀ scopes, st.scopes.popBlock? = some scopes →
      st.execute p here statement = { st with workspace.scopes := scopes }.proceed target) :
    Reaches p o 1 st target (w.closeBlock.above resume callers) := by
  have hs : st.scopes.popBlock? = some (w.closeBlock.scopes.above resume callers) := by
    rw [show st.scopes = w.scopes.above resume callers from congrArg Workspace.scopes h.workspace,
      popBlock?_above, hpop]
    rfl
  have hx := hx _ hs
  have := reaches_of_execute ho h.ip hat (by rw [hx]; rfl)
  rw [hx] at this
  change Reaches p o 1 st target ⟨_, st.workspace.console⟩ at this
  rw [h.workspace] at this
  exact this

theorem Follows.block {n close line : Nat} {r : Option (Workspace × Exit)}
    {next : Workspace → Option (Workspace × Exit)}
    (h : Follows p o n st close resume callers r)
    (hn : ∀ (done : Workspace) (st' : State), r = some (done, .through) → st'.ip = close →
      st'.workspace = done.above resume callers →
      Follows p o n st' line resume callers (next done.closeBlock)) :
    Follows p o n st line resume callers (afterBlock r next) := by
  match r with
  | none => exact h
  | some (done, .through) =>
    obtain ⟨m, st', hg, hip, hw⟩ := h
    exact (hn done st' rfl hip hw).after hg (by omega)
  | some (done, .back result?) => exact h
  | some (done, .fault fault) => exact h

/-- The inside of a block is followed from the line that opens it to the line behind it. -/
theorem follows_inside {fuel here first target line : Nat} (close : Nat) {inside : Body}
    {next : Workspace → Option (Workspace × Exit)}
    (h : Standing p a st here w resume callers)
    (hg : Reaches p o 1 st first (w.openBlock.above resume callers))
    (hin : ∀ st', Standing p a st' first w.openBlock resume callers →
      Follows p o fuel st' close resume callers (t.run fuel a inside w.openBlock))
    (hclose : ∀ st' done, Standing p a st' close done resume callers →
      done.scopes.popBlock? = some done.closeBlock.scopes →
      ∃ m, Reaches p o m st' target (done.closeBlock.above resume callers))
    (hrest : ∀ st' w', Standing p a st' target w' resume callers →
      Follows p o fuel st' line resume callers (next w')) :
    Follows p o (fuel + 1) st line resume callers
      (afterBlock (t.run fuel a inside w.openBlock) next) := by
  obtain ⟨st₁, hg₁, hip₁, hw₁⟩ := hg
  have inner : Follows p o fuel st₁ line resume callers
      (afterBlock (t.run fuel a inside w.openBlock) next) := by
    refine (hin st₁ (h.move hip₁ hw₁ rfl)).block fun done st₂ hdone hip₂ hw₂ => ?_
    have hs := run_through_shape hdone
    obtain ⟨hshape, hpop⟩ := shape_closeBlock hs
    obtain ⟨m, st₃, hg₃, hip₃, hw₃⟩ :=
      hclose st₂ done (h.move hip₂ hw₂ (congrArg Prod.fst hs)) hpop
    exact (hrest st₃ _ (h.move hip₃ hw₃ (congrArg Prod.fst hshape))).after hg₃ (by omega)
  exact inner.after hg₁ (by omega)

theorem reaches_endIf {here : Nat} (ho : o.maxSteps ≤ 0)
    (h : Standing p a st here w resume callers) (hat : p.at? here = some .endIf)
    (hpop : w.scopes.popBlock? = some w.closeBlock.scopes) :
    Reaches p o 1 st (here + 1 : Nat) (w.closeBlock.above resume callers) := by
  refine reaches_closed ho h hat hpop fun scopes hs => ?_
  simp only [State.execute, State.endIf, hs]

theorem reaches_endWhile {here start : Nat} (ho : o.maxSteps ≤ 0)
    (h : Standing p a st here w resume callers) (hat : p.at? here = some .endWhile)
    (hflow : p.flow.loopPartner? here = some start)
    (hpop : w.scopes.popBlock? = some w.closeBlock.scopes) :
    Reaches p o 1 st start (w.closeBlock.above resume callers) := by
  refine reaches_closed ho h hat hpop fun scopes hs => ?_
  simp only [State.execute, State.endWhile, hflow, hs]

theorem reaches_orElse {here close : Nat} (ho : o.maxSteps ≤ 0)
    (h : Standing p a st here w resume callers) (hat : p.at? here = some .orElse)
    (hflow : p.flow.elseEnd? here = some close) :
    Reaches p o 1 st close (w.above resume callers) := by
  refine reaches_past ho h hat ?_
  simp only [State.execute, State.orElse, hflow]

/-- A called function is followed from its first line to the line behind the call. -/
theorem follows_call {fuel here line : Nat} {r : Routine} {callee : Workspace}
    (ho : o.maxSteps ≤ 0) (hr : r.Installed (fun n => p.at? n) p.flow)
    (hfind : p.functions.find? r.definition.name = some r.definition)
    (hfun : callee.scopes.frame.function = r.definition.name)
    (hg : Reaches p o 1 st r.definition.line
      (callee.above (here + 1) ({ w.scopes.frame with resume } :: callers)))
    (hb : ∀ st', Standing p ⟨r.definition, false⟩ st' (r.definition.line + 1) callee (here + 1)
        ({ w.scopes.frame with resume } :: callers) →
      Follows p o fuel st' (r.definition.line + 1 + r.body.length) (here + 1)
        ({ w.scopes.frame with resume } :: callers)
        (t.run fuel ⟨r.definition, false⟩ r.body callee))
    {next : Workspace → Option (Workspace × Exit)}
    (hn : ∀ (done : Workspace) (result? : Option Value) (st' : State), st'.ip = (here + 1 : Nat) →
      st'.workspace = (w.resume done result?).above resume callers →
      Follows p o fuel st' line resume callers (next (w.resume done result?))) :
    Follows p o (fuel + 1) st line resume callers
      (afterCall (t.run fuel ⟨r.definition, false⟩ r.body callee) w r.definition next) := by
  obtain ⟨st₁, hg₁, hip₁, hw₁⟩ := hg
  have standing : Standing p ⟨r.definition, false⟩ st₁ r.definition.line callee (here + 1)
      ({ w.scopes.frame with resume } :: callers) := ⟨hip₁, hw₁, hfun, hfind, rfl⟩
  obtain ⟨st₂, hg₂, hip₂, hw₂⟩ := reaches_past ho standing hr.head rfl
  have hgo := hg₁.trans hg₂
  have hf := hb st₂ (standing.move hip₂ hw₂ rfl)
  -- However the callee comes back, its caller goes on behind the call.
  have back : ∀ done result?, GivesBack p o st₂ done result? (here + 1)
      ({ w.scopes.frame with resume } :: callers) →
      Follows p o (fuel + 1) st line resume callers (next (w.resume done result?)) := by
    rintro done result? ⟨m, st', hg', hip, hw⟩
    refine (hn done result? st' hip ?_).after (hgo.trans hg') (by omega)
    rw [hw]
    exact congrArg (Workspace.mk · done.console) (Scopes.handOver_above resume callers
      w.scopes.frame done.scopes.cells result?).symm
  cases hrun : t.run fuel ⟨r.definition, false⟩ r.body callee with
  | none =>
    rw [hrun] at hf
    exact hf.after hgo (by omega)
  | some result =>
    obtain ⟨done, exit⟩ := result
    rw [hrun] at hf
    cases exit with
    | fault f => exact Follows.after (n := fuel) hgo hf (by omega)
    | back result? => exact back done result? hf
    | through =>
      obtain ⟨m, st₃, hg₃, hip₃, hw₃⟩ := hf
      have hname : st₃.scopes.frame.function = r.definition.name := by
        have hs := congrArg (fun w : Workspace => w.scopes.frame.function) hw₃
        exact hs.trans ((congrArg Prod.fst (run_through_shape hrun)).trans hfun)
      refine back done r.definition.zeroResult? (GivesBack.after hg₃ ?_)
      have hlast : p.at? (r.definition.line + 1 + r.body.length : Nat) = some .endFunc := by
        rw [Nat.add_right_comm]
        exact hr.last
      refine givesBack_of_execute ho hip₃ hw₃ hlast ?_
      simp only [State.execute, hname, defaultResult?_of_find? hfind]

/-- The machine follows every body that stands in the program. -/
theorem run_follows (hc : t.Covers p) (ho : o.maxSteps ≤ 0) (fuel : Nat) {line : Nat} {b : Body}
    (hb : b.Laid (fun n => p.at? n) p.flow line)
    (h : Standing p a st line w resume callers) :
    Follows p o fuel st (line + b.length) resume callers (t.run fuel a b w) := by
  induction fuel generalizing a b st line w resume callers with
  | zero => exact ⟨0, st, Nat.le_refl 0, .here⟩
  | succ fuel ih =>
    cases b with
    | done => exact ⟨0, st, .here, h.ip, h.workspace⟩
    | line here simple rest =>
      obtain ⟨rfl, hat, hrest⟩ := hb
      have ha := acts_simple hc ho h.ip h.workspace hat h.function h.find? h.outermost
      simp only [Outline.run, Body.length_line]
      rw [show here + (rest.length + 1) = here + 1 + rest.length by omega]
      cases hact : simple.act t a here w with
      | next w' =>
        rw [hact] at ha
        obtain ⟨st', hg, hip, hw⟩ := ha
        have hs := congrArg Prod.fst (shape_act (Or.inl hact))
        exact (ih hrest (h.move hip hw hs)).after hg (by omega)
      | leave w' exit =>
        rw [hact] at ha
        exact ha _ _
      | invoke r callee =>
        rw [hact] at ha
        obtain ⟨hm, hfind, hfun, hg⟩ := ha
        refine follows_call ho (hc.installed r hm) hfind hfun hg
          (fun st' hs => ih (hc.installed r hm).body hs) fun done result? st' hip hw => ?_
        exact ih hrest (h.move hip hw (congrArg Prod.fst (shape_resume w done result?)))
    | branch here cond yes rest =>
      obtain ⟨rfl, hat, hend, hflow, hyes, hrest⟩ := hb
      simp only [Outline.run, Body.length_branch]
      rw [show here + (yes.length + rest.length + 2) = here + yes.length + 2 + rest.length by omega]
      have hx : st.execute p here (.ifThen cond) = st.ifThen p.flow here cond := rfl
      simp only [State.ifThen, h.condition, hflow] at hx
      cases hv : w.scopes.condition cond with
      | error problem =>
        rw [hv] at hx
        exact follows_failure ho h.ip h.workspace hat hx _ _
      | ok c =>
        rw [hv] at hx
        cases c with
        | false =>
          obtain ⟨st', hg, hip, hw⟩ := reaches_past ho h hat hx
          exact (ih hrest (h.move hip hw rfl)).after hg (by omega)
        | true =>
          refine follows_inside (here + 1 + yes.length) h (reaches_inside ho h hat hx)
            (fun st' => ih hyes) (fun st' done hs hpop => ?_) fun st' w' hs => ih hrest hs
          rw [Nat.add_right_comm] at hs
          exact ⟨1, reaches_endIf ho hs hend hpop⟩
    | fork here cond yes no rest =>
      obtain ⟨rfl, hat, helse, hend, hflow, hskip, hyes, hno, hrest⟩ := hb
      simp only [Outline.run, Body.length_fork]
      rw [show here + (yes.length + no.length + rest.length + 3) =
        here + yes.length + no.length + 3 + rest.length by omega]
      have hx : st.execute p here (.ifThen cond) = st.ifThen p.flow here cond := rfl
      simp only [State.ifThen, h.condition, hflow] at hx
      cases hv : w.scopes.condition cond with
      | error problem =>
        rw [hv] at hx
        exact follows_failure ho h.ip h.workspace hat hx _ _
      | ok c =>
        rw [hv] at hx
        cases c with
        | false =>
          refine follows_inside (here + yes.length + 2 + no.length) h
            (reaches_inside ho h hat hx) (fun st' => ih hno) (fun st' done hs hpop => ?_)
            fun st' w' hs => ih hrest hs
          rw [Nat.add_right_comm] at hs
          exact ⟨1, reaches_endIf ho hs hend hpop⟩
        | true =>
          refine follows_inside (here + 1 + yes.length) h (reaches_inside ho h hat hx)
            (fun st' => ih hyes) (fun st' done hs hpop => ?_) fun st' w' hs => ih hrest hs
          rw [Nat.add_right_comm] at hs
          -- The true branch ends at the else, from which the machine goes to the endif.
          obtain ⟨st₁, hg₁, hip₁, hw₁⟩ := reaches_orElse ho hs helse hskip
          exact ⟨_, (reaches_endIf ho (hs.move hip₁ hw₁ rfl) hend hpop).trans hg₁⟩
    | loop here cond inside rest =>
      have hloop := hb
      obtain ⟨rfl, hat, hend, hflow, hback, hinside, hrest⟩ := hb
      have hx : st.execute p here (.whileDo cond) = st.whileDo p.flow here cond := rfl
      simp only [State.whileDo, h.condition, hflow] at hx
      simp only [Outline.run]
      cases hv : w.scopes.condition cond with
      | error problem =>
        rw [hv] at hx
        exact follows_failure ho h.ip h.workspace hat hx _ _
      | ok c =>
        rw [hv] at hx
        cases c with
        | false =>
          rw [Body.length_loop, show here + (inside.length + rest.length + 2) =
            here + inside.length + 2 + rest.length by omega]
          obtain ⟨st', hg, hip, hw⟩ := reaches_past ho h hat hx
          exact (ih hrest (h.move hip hw rfl)).after hg (by omega)
        | true =>
          refine follows_inside (here + 1 + inside.length) h (reaches_inside ho h hat hx)
            (fun st' => ih hinside) (fun st' done hs hpop => ?_) fun st' w' hs => ih hloop hs
          rw [Nat.add_right_comm] at hs
          exact ⟨1, reaches_endWhile ho hs hend hback hpop⟩

end Brewin
