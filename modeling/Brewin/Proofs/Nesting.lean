import Mathlib.Data.List.Chain
import Brewin.Proofs.Moves
import Brewin.Proofs.NestingSites

namespace Brewin

theorem Outline.enclosing_cons (r : Routine) (rs : List Routine) (line : Nat) :
    (Outline.mk (r :: rs)).enclosing line =
      r.body.enclosing line + (Outline.mk rs).enclosing line := by
  unfold enclosing Body.enclosing
  rw [List.flatMap_cons, List.countP_append]

theorem outlined_before {n : Nat} {stream : List (List String)} {rs : List Routine}
    (h : Outlined n stream rs) :
    (∀ r ∈ rs, n ≤ r.definition.line) ∧ ∀ line ≤ n, (Outline.mk rs).enclosing line = 0 := by
  induction h with
  | done => exact ⟨by simp, fun _ _ => rfl⟩
  | @gap n tokens stream rs ht _ ih =>
    obtain ⟨hb, ho⟩ := ih
    exact ⟨fun r hr => by have := hb r hr; omega, fun line hl => ho line (by omega)⟩
  | @routine n header last inner stream r rs hd hs hn he _ ih =>
    obtain ⟨hb, ho⟩ := ih
    have hline := ofTokens?_line hd
    refine ⟨fun x hx => ?_, fun line hl => ?_⟩
    · rcases List.mem_cons.mp hx with rfl | hx
      · omega
      · have := hb x hx
        omega
    · rw [Outline.enclosing_cons, enclosing_outside hn (by omega), ho line (by omega)]

/-- Around a line of a function there are only constructs of its own body. -/
theorem outlined_enclosing {n : Nat} {stream : List (List String)} {rs : List Routine}
    (h : Outlined n stream rs) {r : Routine} (hr : r ∈ rs) {line : Nat}
    (h1 : r.definition.line ≤ line) (h2 : line ≤ r.lastLine) :
    (Outline.mk rs).enclosing line = r.body.enclosing line := by
  induction h with
  | done => simp at hr
  | gap _ _ ih => exact ih hr
  | @routine n header last inner stream x rs hd hs hn he hrest ih =>
    have hline := ofTokens?_line hd
    have hlen : inner.length = x.body.length := by
      rw [Body.length, ← hs, List.length_map]
    obtain ⟨hb, ho⟩ := outlined_before hrest
    rw [Outline.enclosing_cons]
    rcases List.mem_cons.mp hr with rfl | hx
    · unfold Routine.lastLine at h2
      rw [ho line (by omega)]
      omega
    · have := hb r hx
      rw [ih hx, enclosing_outside hn (by omega)]
      omega

/-- A frame stands at a line of the function whose name it has, with a block for the function and
one for each construct around the line. -/
def Frame.StandsAt (p : Program) (t : Outline) (f : Frame) (ip : Int) : Prop :=
  ∃ r ∈ t.routines, p.functions.find? f.function = some r.definition ∧ ∃ line : Nat,
    ip = line ∧ r.definition.line ≤ line ∧ line ≤ r.lastLine ∧
      f.blocks.length = 1 + t.enclosing line

/-- Each frame stands where it is to go on: the running one at the current line, and one that
waits where the frame above it leads back. -/
structure Nested (p : Program) (t : Outline) (ip : Int) (s : Scopes) : Prop where
  top : s.frame.StandsAt p t ip
  below : s.frames.IsChain fun upper lower => lower.StandsAt p t upper.resume

section

variable {p : Program} {t : Outline}

theorem Frame.length_blocks (f : Frame) : f.blocks.length = 1 + f.inner.length := by
  simp [blocks, Nat.add_comm]

theorem Frame.StandsAt.of_shape {f g : Frame} {ip : Int} (h : f.StandsAt p t ip)
    (hs : g.shape = f.shape) : g.StandsAt p t ip := by
  obtain ⟨r, hr, hd, line, hip, h1, h2, hb⟩ := h
  obtain ⟨hf, -, hi⟩ := Frame.shape_eq.mp hs
  refine ⟨r, hr, by rw [hf]; exact hd, line, hip, h1, h2, ?_⟩
  rw [length_blocks] at hb ⊢
  omega

theorem chain_of_resume {f g : Frame} {callers : List Frame} (hr : g.resume = f.resume)
    (h : (f :: callers).IsChain fun upper lower => lower.StandsAt p t upper.resume) :
    (g :: callers).IsChain fun upper lower => lower.StandsAt p t upper.resume := by
  cases callers with
  | nil => exact .singleton _
  | cons caller callers =>
    obtain ⟨h1, h2⟩ := List.isChain_cons_cons.mp h
    exact List.isChain_cons_cons.mpr ⟨by rwa [hr], h2⟩

/-- The frame that goes on after a call stands at the line behind it. -/
theorem Nested.handOver {s : Scopes} {ip : Int} {caller : Frame} {callers : List Frame}
    (h : Nested p t ip s) (hc : s.callers = caller :: callers) (result? : Option Value) :
    Nested p t s.frame.resume (.handOver caller callers s.cells result?) := by
  have hb := h.below
  rw [Scopes.frames, hc] at hb
  obtain ⟨h1, h2⟩ := List.isChain_cons_cons.mp hb
  cases result? with
  | none => exact ⟨h1, h2⟩
  | some v =>
    have hs := Scopes.shape_placeResult caller s.cells v
    exact ⟨h1.of_shape hs, chain_of_resume (congrArg (·.2.1) hs) h2⟩

theorem Nested.enter {s : Scopes} {here : Nat} (hcov : t.Covers p)
    (hf : s.frame.StandsAt p t (here + 1))
    (hb : s.frames.IsChain fun upper lower => lower.StandsAt p t upper.resume)
    {name : String} {f : Definition} (hfind : p.functions.find? name = some f)
    (hu : ∀ r ∈ t.routines, t.enclosing r.definition.line = 0)
    (args : List String) (values : List Value) :
    Nested p t f.line (s.enter f args values (here + 1)) := by
  obtain ⟨hs, hc⟩ := s.shape_enter f args values (here + 1)
  obtain ⟨hfun, hres, hinner⟩ := Frame.shape_eq.mp hs
  have ht := hcov.find? name
  rw [hfind] at ht
  obtain ⟨r, hr, hdef⟩ := Option.map_eq_some_iff.mp ht.symm
  obtain ⟨hmem, hname⟩ := Outline.mem_of_find? hr
  subst hdef
  refine ⟨⟨r, hmem, by rw [hfun, hname, hfind], r.definition.line, rfl, Nat.le_refl _, ?_, ?_⟩, ?_⟩
  · unfold Routine.lastLine
    omega
  · rw [Frame.length_blocks, hinner, hu r hmem]
  · rw [Scopes.frames, hc]
    exact List.isChain_cons_cons.mpr ⟨by rwa [hres], hb⟩

/-- A move inside the running function: the frame gains as many blocks as the lines lie deeper. -/
structure Scopes.Shifts (s s' : Scopes) (before after : Nat) : Prop where
  callers : s'.callers = s.callers
  function : s'.frame.function = s.frame.function
  resume : s'.frame.resume = s.frame.resume
  blocks : s'.frame.inner.length + before = s.frame.inner.length + after

theorem Scopes.Shifts.of_shape {s s' : Scopes} {before after : Nat}
    (hs : s'.frame.shape = s.frame.shape) (hc : s'.callers = s.callers) (hd : after = before) :
    s.Shifts s' before after := by
  obtain ⟨h1, h2, h3⟩ := Frame.shape_eq.mp hs
  exact ⟨hc, h1, h2, by omega⟩

theorem Scopes.Shifts.pushBlock (s : Scopes) {before after : Nat} (hd : after = before + 1) :
    s.Shifts s.pushBlock before after := by
  refine ⟨rfl, rfl, rfl, ?_⟩
  have : s.pushBlock.frame.inner.length = s.frame.inner.length + 1 := rfl
  omega

theorem Scopes.Shifts.popBlock {s s' : Scopes} (h : s.popBlock? = some s') {before after : Nat}
    (hd : before = after + 1) : s.Shifts s' before after := by
  obtain ⟨g, hg, rfl⟩ := frame_of_popBlock? h
  obtain ⟨hf, hr, hl⟩ := Frame.shape_popBlock hg
  exact ⟨rfl, hf, hr, by simp only; omega⟩

/-- What a move from a line of a body can do: shift to another line of the body, enter a function
from a line behind which the body lies as deep, or leave the function. -/
inductive Departure (p : Program) (depth : Nat → Nat) (first last here : Nat) (s : Scopes) :
    Int → Scopes → Prop
  | shift {line : Nat} {s' : Scopes} : first ≤ line → line ≤ last →
      s.Shifts s' (depth here) (depth line) → Departure p depth first last here s line s'
  | enter {name : String} {f : Definition} (args : List String) (values : List Value) :
      here < last → depth (here + 1) = depth here → p.functions.find? name = some f →
      Departure p depth first last here s f.line (s.enter f args values (here + 1))
  | leave {caller : Frame} {callers : List Frame} (result? : Option Value) :
      s.callers = caller :: callers → Departure p depth first last here s s.frame.resume
        (.handOver caller callers s.cells result?)

theorem simple_departure {depth : Nat → Nat} {first last here : Nat} {simple : Simple}
    {s s' : Scopes} {ip' : Int} (hd : depth (here + 1) = depth here) (h1 : first ≤ here)
    (h2 : here < last) (hm : Move p here s simple.statement ip' s') :
    Departure p depth first last here s ip' s' := by
  have next : ∀ {s' : Scopes}, s'.frame.shape = s.frame.shape → s'.callers = s.callers →
      Departure p depth first last here s (here + 1 : Nat) s' :=
    fun hs hc => .shift (by omega) (by omega) (.of_shape hs hc hd)
  cases simple with
  | var type names =>
    cases hm with
    | @declare _ _ v _ _ =>
      obtain ⟨hs, hc⟩ := s.shape_declareAll v names
      exact next hs hc
    | @declareSome _ _ v _ _ _ =>
      obtain ⟨hs, hc⟩ := s.shape_declareAll v names
      exact .shift h1 (by omega) (.of_shape hs hc rfl)
    | leave _ hg => cases hg
  | assign target expr =>
    cases hm with
    | assign _ => exact next rfl rfl
    | leave _ hg => cases hg
  | call name args =>
    cases hm with
    | builtin _ => exact next rfl rfl
    | @result _ _ _ v _ _ => exact next (s.shape_setResult v) rfl
    | enter _ hf _ => exact .enter args _ h2 hd hf
    | leave _ hg => cases hg
  | ret expr =>
    cases hm with
    | leave hc _ => exact .leave _ hc
  | nop =>
    cases hm with
    | pass => exact next rfl rfl
    | leave _ hg => cases hg
  | malformed omission =>
    cases hm with
    | leave _ hg => cases hg

theorem site_departure {depth : Nat → Nat} {first last here : Nat} {statement : Statement}
    {s s' : Scopes} {ip' : Int} (hsite : Site p.flow depth first last here statement)
    (h1 : first ≤ here) (h2 : here < last) (hm : Move p here s statement ip' s') :
    Departure p depth first last here s ip' s' := by
  have next : ∀ {s' : Scopes}, s.Shifts s' (depth here) (depth (here + 1)) →
      Departure p depth first last here s (here + 1 : Nat) s' :=
    fun hs => .shift (by omega) (by omega) hs
  cases hsite with
  | simple simple hd => exact simple_departure hd h1 h2 hm
  | @branch cond close hf hlt hle hin hout =>
    cases hm with
    | intoThen => exact next (.pushBlock s hin)
    | intoElse hf' => cases hf.symm.trans hf'
    | pastIf hf' =>
      cases hf.symm.trans hf'
      exact .shift (by omega) (by omega) (.of_shape rfl rfl hout)
    | leave _ hg => cases hg
  | @fork cond middle close hf hlt hle hin helse =>
    cases hm with
    | intoThen => exact next (.pushBlock s hin)
    | intoElse hf' =>
      cases hf.symm.trans hf'
      exact .shift (by omega) (by omega) (.pushBlock s helse)
    | pastIf hf' => cases hf.symm.trans hf'
    | leave _ hg => cases hg
  | @orElse close hf hlt hle hd =>
    cases hm with
    | orElse hf' =>
      cases hf.symm.trans hf'
      exact .shift (by omega) (by omega) (.of_shape rfl rfl hd)
    | leave _ hg => cases hg
  | endIf hd =>
    cases hm with
    | endIf hp => exact next (.popBlock hp hd)
    | leave _ hg => cases hg
  | @loop cond close hf hlt hle hin hout =>
    cases hm with
    | intoLoop => exact next (.pushBlock s hin)
    | pastLoop hf' =>
      cases hf.symm.trans hf'
      exact .shift (by omega) (by omega) (.of_shape rfl rfl hout)
    | leave _ hg => cases hg
  | @endWhile start hf hle hlt hd =>
    cases hm with
    | endWhile hf' hp =>
      cases hf.symm.trans hf'
      exact .shift (by omega) (by omega) (.popBlock hp hd)
    | leave _ hg => cases hg

/-- The line of a function at which a frame stands: its func line, its endfunc, or a site of its
body. -/
theorem installed_line {r : Routine} (hi : r.Installed (fun n => p.at? n) p.flow) {line : Nat}
    (h1 : r.definition.line ≤ line) (h2 : line ≤ r.lastLine) :
    (line = r.definition.line ∧ p.at? line = some (.func r.definition.name)) ∨
      (line = r.lastLine ∧ p.at? line = some .endFunc) ∨
      line < r.lastLine ∧ ∃ statement, p.at? line = some statement ∧
        Site p.flow r.body.enclosing r.definition.line r.lastLine line statement := by
  have hlast : r.lastLine = r.definition.line + r.body.length + 1 := rfl
  rcases Nat.eq_or_lt_of_le h1 with rfl | hlt
  · exact Or.inl ⟨rfl, hi.head⟩
  rcases Nat.eq_or_lt_of_le h2 with rfl | hin
  · exact Or.inr (Or.inl ⟨rfl, hi.last⟩)
  · obtain ⟨statement, hat, hsite⟩ := hi.body.sited line hlt (by omega)
    exact Or.inr (Or.inr ⟨hin, statement, hat, hsite.lift 0 hlt (by omega) (fun _ _ _ => rfl)
      (by omega) (by omega)⟩)

theorem routine_departure {r : Routine} (hi : r.Installed (fun n => p.at? n) p.flow) {here : Nat}
    (h1 : r.definition.line ≤ here) (h2 : here ≤ r.lastLine) {statement : Statement}
    (hat : p.at? here = some statement) {s s' : Scopes} {ip' : Int}
    (hm : Move p here s statement ip' s') :
    Departure p r.body.enclosing r.definition.line r.lastLine here s ip' s' := by
  have hlast : r.lastLine = r.definition.line + r.body.length + 1 := rfl
  rcases installed_line hi h1 h2 with ⟨rfl, hf⟩ | ⟨rfl, he⟩ | ⟨hin, statement', hs, hsite⟩
  · cases hat.symm.trans hf
    have hnum := hi.body.numbered
    cases hm with
    | func =>
      have hdepth : r.body.enclosing (r.definition.line + 1) =
          r.body.enclosing r.definition.line := by
        rw [enclosing_outside hnum (by omega), enclosing_outside hnum (by omega)]
      have next : Departure p r.body.enclosing r.definition.line r.lastLine r.definition.line s
          (r.definition.line + 1 : Nat) s :=
        .shift (by omega) (by omega) (.of_shape rfl rfl hdepth)
      exact next
    | leave _ hg => cases hg
  · cases hat.symm.trans he
    cases hm with
    | leave hc _ => exact .leave _ hc
  · cases hat.symm.trans hs
    exact site_departure hsite h1 hin hm

/-- What the proofs below use of an outline that describes the program. -/
structure Outline.Charts (t : Outline) (p : Program) : Prop extends t.Covers p where
  enclosing : ∀ r ∈ t.routines, ∀ line, r.definition.line ≤ line → line ≤ r.lastLine →
    t.enclosing line = r.body.enclosing line

theorem Outline.Describes.charts {source : List String} (h : t.Describes source) :
    t.Charts (Program.load source) :=
  ⟨h.covers, fun _ hr _ h1 h2 => outlined_enclosing h hr h1 h2⟩

theorem Outline.Charts.enclosing_head (h : t.Charts p) :
    ∀ r ∈ t.routines, t.enclosing r.definition.line = 0 := by
  intro r hr
  rw [h.enclosing r hr _ (Nat.le_refl _) (by unfold Routine.lastLine; omega)]
  exact enclosing_outside (h.installed r hr).body.numbered (by omega)

theorem Nested.move (ht : t.Charts p) {here : Nat} {statement : Statement} {s s' : Scopes}
    {ip' : Int} (hn : Nested p t here s) (hat : p.at? here = some statement)
    (hm : Move p here s statement ip' s') : Nested p t ip' s' := by
  obtain ⟨r, hr, hfind, line, hline, h1, h2, hblocks⟩ := hn.top
  cases Int.ofNat.inj hline
  have hlast : r.lastLine = r.definition.line + r.body.length + 1 := rfl
  have hi := ht.installed r hr
  rw [ht.enclosing r hr here h1 h2, Frame.length_blocks] at hblocks
  cases routine_departure hi h1 h2 hat hm with
  | @shift line _ hb ha hs =>
    obtain ⟨hc, hfun, hres, hlen⟩ := hs
    refine ⟨⟨r, hr, by rw [hfun, hfind], line, rfl, hb, ha, ?_⟩, ?_⟩
    · rw [ht.enclosing r hr line hb ha, Frame.length_blocks]
      omega
    · rw [Scopes.frames, hc]
      exact chain_of_resume hres hn.below
  | enter args values hin hd hf =>
    refine .enter ht.toCovers ⟨r, hr, hfind, here + 1, rfl, by omega, hin, ?_⟩ hn.below hf
      ht.enclosing_head args values
    rw [ht.enclosing r hr (here + 1) (by omega) hin, Frame.length_blocks]
    omega
  | leave result? hc => exact hn.handOver hc result?

theorem Nested.step (ht : t.Charts p) {o : Options} {st : State}
    (h : Nested p t st.ip st.scopes) :
    Nested p t (st.step p o).state.ip (st.step p o).state.scopes := by
  rcases step_moves p o st with ⟨hip, hs, -⟩ | ⟨here, statement, hip, hat, hm⟩
  · rwa [hip, hs]
  · rw [hip] at h
    exact h.move ht hat hm

theorem Nested.start (ht : t.Charts p) {console : Console} {st : State}
    (h : p.start console = .ok st) : Nested p t st.ip st.scopes := by
  unfold Program.start at h
  split at h
  next => cases h
  next line hl =>
    cases h
    obtain ⟨f, hf, rfl⟩ := Option.map_eq_some_iff.mp hl
    have hfind := ht.find? mainFunction
    rw [hf] at hfind
    obtain ⟨r, hr, rfl⟩ := Option.map_eq_some_iff.mp hfind.symm
    have hmem := (Outline.mem_of_find? hr).1
    refine ⟨⟨r, hmem, hf, r.definition.line, rfl, Nat.le_refl _, ?_, ?_⟩, .singleton _⟩
    · unfold Routine.lastLine
      omega
    · rw [ht.enclosing_head r hmem]
      rfl

/-- Every frame of a reachable state stands where it is to go on. -/
theorem Reachable.nested (ht : t.Charts p) {o : Options} {console : Console} {st : State}
    (h : Reachable p o console st) : Nested p t st.ip st.scopes := by
  induction h with
  | start h => exact .start ht h
  | next _ ih => exact ih.step ht

end

end Brewin
