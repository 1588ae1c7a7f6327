import Mathlib.Data.List.Infix
import Brewin.Proofs.CallSegment
import Brewin.Proofs.Constructs
import Brewin.Proofs.Spots

namespace Brewin

/-- The variables in which calls leave their results. -/
def resultNames : List String :=
  ["resulti", "results", "resultb"]

theorem mem_resultNames {k : Kind} {name : String} (h : resultName? k = some name) :
    name ∈ resultNames := by
  cases k <;> cases h <;> simp [resultNames]

theorem Frame.slotAt?_zero (f : Frame) (name : String) : f.slotAt? 0 name = f.base.find? name := by
  unfold slotAt?
  rw [block?_eq]
  rfl

/-- A frame that has grown out of another by blocks on top of its own and by results. -/
structure Frame.Grows (f g : Frame) : Prop where
  function : g.function = f.function
  resume : g.resume = f.resume
  inner : f.inner <:+ g.inner
  base : ∀ name, name ∉ resultNames → g.base.find? name = f.base.find? name
  bound : ∀ name, (f.base.find? name).isSome → (g.base.find? name).isSome

namespace Frame.Grows

variable {f g : Frame}

theorem refl (f : Frame) : f.Grows f :=
  ⟨rfl, rfl, List.suffix_refl _, fun _ _ => rfl, fun _ h => h⟩

/-- Below its innermost block a frame with more blocks still has all the old ones. -/
theorem inner_of_cons (h : f.Grows g) {top : Block} {rest : List Block}
    (hi : g.inner = top :: rest) (hlt : f.inner.length < g.inner.length) : f.inner <:+ rest := by
  have hs := h.inner
  rw [hi] at hs hlt
  rcases List.suffix_cons_iff.mp hs with he | hs
  · rw [he] at hlt
    omega
  · exact hs

theorem insert (h : f.Grows g) (hlt : f.inner.length < g.inner.length) (name : String)
    (slot : Slot) : f.Grows (g.insert name slot) := by
  cases hi : g.inner with
  | nil =>
    rw [hi, List.length_nil] at hlt
    omega
  | cons top rest =>
    have hs := h.inner_of_cons hi hlt
    have hg : g.insert name slot = { g with inner := top.insert name slot :: rest } := by
      simp only [Frame.insert, hi]
    rw [hg]
    exact ⟨h.function, h.resume, hs.trans (List.suffix_cons _ _), h.base, h.bound⟩

theorem pushBlock (h : f.Grows g) : f.Grows g.pushBlock :=
  ⟨h.function, h.resume, h.inner.trans (List.suffix_cons _ _), h.base, h.bound⟩

theorem popBlock (h : f.Grows g) (hlt : f.inner.length < g.inner.length) {g' : Frame}
    (hp : g.popBlock? = some g') : f.Grows g' := by
  unfold Frame.popBlock? at hp
  split at hp
  next => cases hp
  next top rest hi =>
    cases hp
    exact ⟨h.function, h.resume, h.inner_of_cons hi hlt, h.base, h.bound⟩

theorem placeResult (h : f.Grows g) (cells : Array Value) (v : Value) :
    f.Grows (Scopes.placeResult g cells v).1 := by
  cases hn : resultName? v.kind with
  | none =>
    rw [Scopes.placeResult_none hn]
    exact h
  | some result =>
    rcases Scopes.placeResult_some hn g cells with ⟨slot, -, he⟩ | he
    · rw [he]
      exact h
    · rw [he]
      refine ⟨h.function, h.resume, h.inner, fun name hname => ?_, fun name hb => ?_⟩
      · have hne : name ≠ result := fun heq => hname (heq ▸ mem_resultNames hn)
        rw [Block.find?_insert, if_neg hne]
        exact h.base name hname
      · rw [Block.find?_insert]
        split
        next => rfl
        next => exact h.bound name hb

theorem declareAll {s : Scopes} (h : f.Grows s.frame)
    (hlt : f.inner.length < s.frame.inner.length) (v : Value) (names : List String) :
    f.Grows (s.declareAll v names).1.frame := by
  induction names generalizing s with
  | nil => exact h
  | cons name names ih =>
    unfold Scopes.declareAll
    split
    next => exact h
    next =>
      have hshape := Frame.shape_eq.mp (s.frame.shape_insert name (.fresh s.cells))
      refine ih (h.insert hlt name (.fresh s.cells)) ?_
      have : (s.bind name v).frame.inner.length = s.frame.inner.length := hshape.2.2
      omega

theorem setResult {s : Scopes} (h : f.Grows s.frame) (v : Value) :
    f.Grows (s.setResult v).frame :=
  h.placeResult s.cells v

theorem handOver {caller : Frame} (h : f.Grows caller) (callers : List Frame)
    (cells : Array Value) (result? : Option Value) :
    f.Grows (Scopes.handOver caller callers cells result?).frame := by
  cases result? with
  | none => exact h
  | some v => exact h.placeResult cells v

/-- A move inside the frame lets it grow, unless it opens a block only, as long as there is a block
on top of the old ones. -/
theorem move {p : Program} {here : Nat} {s s' : Scopes} {statement : Statement} {ip' : Int}
    (h : f.Grows s.frame) (hm : Move p here s statement ip' s') (hc : s'.callers = s.callers)
    (hlt : statement.opensBlock = false → f.inner.length < s.frame.inner.length) :
    f.Grows s'.frame := by
  cases hm with
  | pass => exact h
  | func => exact h
  | @declare _ names v _ _ => exact h.declareAll (hlt rfl) v names
  | @declareSome _ names v _ _ _ => exact h.declareAll (hlt rfl) v names
  | assign _ => exact h
  | builtin _ => exact h
  | @result _ _ _ v _ _ => exact h.setResult v
  | @enter _ args f values _ _ _ =>
    have hframes := (s.shape_enter f args values (here + 1)).2
    simp [hframes] at hc
  | @leave _ result? caller callers hcallers _ =>
    rw [Scopes.callers_handOver, hcallers] at hc
    simp at hc
  | intoThen => exact h.pushBlock
  | intoElse _ => exact h.pushBlock
  | pastIf _ => exact h
  | orElse _ => exact h
  | endIf hp =>
    obtain ⟨g, hg, rfl⟩ := Scopes.frame_of_popBlock? hp
    exact h.popBlock (hlt rfl) hg
  | intoLoop => exact h.pushBlock
  | pastLoop _ => exact h
  | endWhile _ hp =>
    obtain ⟨g, hg, rfl⟩ := Scopes.frame_of_popBlock? hp
    exact h.popBlock (hlt rfl) hg

/-- A frame that has no block more than before has all its bindings but for results. -/
theorem slotAt?_eq (h : f.Grows g) (hl : g.inner.length = f.inner.length) {level : Nat}
    {name : String} (hn : ¬ (level = 0 ∧ name ∈ resultNames)) :
    g.slotAt? level name = f.slotAt? level name := by
  have hi : f.inner = g.inner := h.inner.eq_of_length hl.symm
  unfold Frame.slotAt?
  rw [Frame.block?_eq, Frame.block?_eq, hi]
  cases level with
  | zero => exact h.base name fun hmem => hn ⟨rfl, hmem⟩
  | succ level => rfl

theorem find?_eq (h : f.Grows g) (hl : g.inner.length = f.inner.length) {name : String}
    (hn : name ∉ resultNames) : g.find? name = f.find? name := by
  have hi : f.inner = g.inner := h.inner.eq_of_length hl.symm
  simp only [Frame.find?, Frame.blocks, List.findSome?_append, List.findSome?_cons,
    List.findSome?_nil, hi, h.base name hn]

end Frame.Grows

/-- A run from a state on in which its frame stays, up to the first time that the frame is at a
line. -/
inductive Until (p : Program) (o : Options) (line : Int) (st : State) : State → Prop
  | refl : Until p o line st st
  | next {u : State} : Until p o line st u →
      ¬ (u.scopes.depth = st.scopes.depth ∧ u.ip = line) →
      st.scopes.depth ≤ (u.step p o).state.scopes.depth → Until p o line st (u.step p o).state

theorem Until.reachable {p : Program} {o : Options} {console : Console} {line : Int}
    {st u : State} (h : Until p o line st u) (hst : Reachable p o console st) :
    Reachable p o console u := by
  induction h with
  | refl => exact hst
  | next _ _ _ ih => exact ih.next

/-- The frame of `b` stands at a line of a construct or at the line behind it, and has grown. -/
structure Placed (b : Scopes) (first last : Nat) (ip : Int) (s : Scopes) : Prop where
  callers : s.callers = b.callers
  frame : b.frame.Grows s.frame
  line : ∃ line : Nat, ip = line ∧ first ≤ line ∧ line ≤ last + 1

/-- What holds while a construct runs: its frame is at one of its lines, or it waits for a call
from there. -/
inductive Engaged (b : Scopes) (first last : Nat) (ip : Int) (s : Scopes) : Prop
  | placed : Placed b first last ip s → Engaged b first last ip s
  | away {c : Scopes} {function : String} {resume : Int} {passed : Nat → Prop} :
      Placed b first last resume c → OnTop c function resume passed s → Engaged b first last ip s

section

variable {p : Program} {t : Outline} {b : Scopes} {first last : Nat}

theorem Nested.length_inner {ip : Nat} {s : Scopes} (h : Nested p t ip s) :
    s.frame.inner.length = t.enclosing ip := by
  obtain ⟨r, -, -, line, hline, -, -, hb⟩ := h.top
  cases Int.ofNat.inj hline
  rw [Frame.length_blocks] at hb
  omega

theorem Placed.move (hk : t.Construct p first last) {line : Nat} {s s' : Scopes}
    {statement : Statement} {ip' : Int} (hb : b.frame.inner.length = t.enclosing first)
    (h : Placed b first last line s) (hne : line ≠ last + 1) (hn : Nested p t line s)
    (hat : p.at? line = some statement) (hm : Move p line s statement ip' s')
    (hd : b.depth ≤ s'.depth) : Engaged b first last ip' s' := by
  obtain ⟨line', hline, h1, h2⟩ := h.line
  cases Int.ofNat.inj hline
  obtain ⟨statement', hat', hsite⟩ := hk.site line h1 (by omega)
  cases hat.symm.trans hat'
  cases site_departure hsite h1 (by omega) hm with
  | @shift target _ ht1 ht2 hs =>
    have hlt : statement.opensBlock = false → b.frame.inner.length < s.frame.inner.length := by
      intro ho
      obtain ⟨opening, hopening, hopens⟩ := hk.opens
      have hfirst : line ≠ first := by
        rintro rfl
        cases hat.symm.trans hopening
        exact absurd (ho.symm.trans hopens) (by decide)
      have hinside := hk.inside line (by omega) (by omega)
      have hlength := hn.length_inner
      omega
    exact .placed ⟨hs.callers.trans h.callers, h.frame.move hm hs.callers hlt,
      target, rfl, ht1, ht2⟩
  | @enter name f args values hin _ _ =>
    have hplaced : Placed b first last (line + 1) s :=
      ⟨h.callers, h.frame, line + 1, rfl, by omega, by omega⟩
    exact .away hplaced (onTop_call s f args values (line + 1))
  | @leave caller callers result? hc =>
    have hdepth : (Scopes.handOver caller callers s.cells result?).depth = callers.length + 1 := by
      rw [Scopes.depth, Scopes.callers_handOver]
    have hb' : b.depth = callers.length + 2 := by
      rw [Scopes.depth, ← h.callers, hc, List.length_cons]
    omega

theorem Engaged.move (hk : t.Construct p first last) {line : Nat} {s s' : Scopes}
    {statement : Statement} {ip' : Int} (hb : b.frame.inner.length = t.enclosing first)
    (h : Engaged b first last line s) (hne : ¬ (s.depth = b.depth ∧ line = last + 1))
    (hn : Nested p t line s) (hat : p.at? line = some statement)
    (hm : Move p line s statement ip' s') (hd : b.depth ≤ s'.depth) :
    Engaged b first last ip' s' := by
  cases h with
  | placed hp =>
    have hdepth : s.depth = b.depth := congrArg (·.length + 1) hp.callers
    exact hp.move hk hb (fun hline => hne ⟨hdepth, hline⟩) hn hat hm hd
  | @away c function resume passed hp htop =>
    rcases htop.passage hm.passage with htop' | ⟨-, -, rfl, result?, -, rfl⟩
    · exact .away hp htop'
    · -- The call is over, and its result is all that it leaves in the frame.
      refine .placed ⟨?_, hp.frame.handOver c.callers s.cells result?, hp.line⟩
      rw [Scopes.callers_handOver, hp.callers]

theorem Engaged.step (hk : t.Construct p first last) {o : Options} {st : State}
    (hb : b.frame.inner.length = t.enclosing first)
    (h : Engaged b first last st.ip st.scopes)
    (hne : ¬ (st.scopes.depth = b.depth ∧ st.ip = last + 1)) (hn : Nested p t st.ip st.scopes)
    (hd : b.depth ≤ (st.step p o).state.scopes.depth) :
    Engaged b first last (st.step p o).state.ip (st.step p o).state.scopes := by
  rcases step_moves p o st with ⟨hip, hs, -⟩ | ⟨here, statement, hip, hat, hm⟩
  · rwa [hip, hs]
  · rw [hip] at h hne hn
    refine h.move hk hb (fun hend => hne ⟨hend.1, ?_⟩) hn hat hm hd
    exact congrArg Int.ofNat hend.2

/-- The construct is engaged until its frame comes to the line behind it. -/
theorem Until.engaged (ht : t.Charts p) (hk : t.Construct p first last) {o : Options}
    {console : Console} {st u : State} (hst : Reachable p o console st) (hip : st.ip = first)
    (h : Until p o (last + 1) st u) : Engaged st.scopes first last u.ip u.scopes := by
  have hstart := hst.nested ht
  rw [hip] at hstart
  have hb := hstart.length_inner
  have hlt := hk.lt
  induction h with
  | refl =>
    exact .placed ⟨rfl, .refl _, first, hip, Nat.le_refl _, by omega⟩
  | @next u hu hne hd ih => exact ih.step hk hb hne ((hu.reachable hst).nested ht) hd

end

/-- Branches and loops leave no variables behind: when the frame that was at the line that opens
one comes to the line behind it, it has as many blocks as before, and each of them has the same
bindings, but for results in the block of the function. -/
theorem construct_hygienic {source : List String} (h : WellNested (decoded source)) :
    (∃ t : Outline, t.Describes source) ∧
    ∀ t : Outline, t.Describes source → ∀ (o : Options) (console : Console) (st : State),
      Reachable (Program.load source) o console st → ∀ (first : Nat) (cond : List String),
      st.ip = first → (Program.load source).at? first = some (.ifThen cond) ∨
        (Program.load source).at? first = some (.whileDo cond) →
      (∃ last, (first, last) ∈ t.constructs) ∧
      ∀ last, (first, last) ∈ t.constructs → ∀ u, Until (Program.load source) o (last + 1) st u →
        u.scopes.depth = st.scopes.depth → u.ip = last + 1 →
        u.scopes.callers = st.scopes.callers ∧
        u.scopes.frame.function = st.scopes.frame.function ∧
        u.scopes.frame.resume = st.scopes.frame.resume ∧
        u.scopes.frame.blocks.length = st.scopes.frame.blocks.length ∧
        (∀ level name, ¬ (level = 0 ∧ name ∈ resultNames) →
          u.scopes.frame.slotAt? level name = st.scopes.frame.slotAt? level name) ∧
        (∀ name, (st.scopes.frame.slotAt? 0 name).isSome →
          (u.scopes.frame.slotAt? 0 name).isSome) ∧
        ∀ name, name ∉ resultNames → u.scopes.lookup? name = st.scopes.lookup? name := by
  refine ⟨exists_describes h, fun t ht o console st hst first cond hip hat => ?_⟩
  have hn := hst.nested ht.charts
  rw [hip] at hn
  refine ⟨?_, fun last hc u hu hd hend => ?_⟩
  · rcases hat with hat | hat
    · exact hn.exists_construct ht.charts hat rfl
    · exact hn.exists_construct ht.charts hat rfl
  · have hk := ht.charts.construct hc
    cases hu.engaged ht.charts hk hst hip with
    | away hp htop =>
      have hdepth := htop.depth
      have hsame := congrArg List.length hp.callers
      simp only [Scopes.depth] at hd hdepth
      omega
    | placed hp =>
      have hbehind := (hu.reachable hst).nested ht.charts
      have hline : u.ip = (last + 1 : Nat) := hend
      rw [hline] at hbehind
      have hafter := hbehind.length_inner
      have hlength : u.scopes.frame.inner.length = st.scopes.frame.inner.length := by
        rw [hafter, hk.behind, hn.length_inner]
      refine ⟨hp.callers, hp.frame.function, hp.frame.resume, ?_,
        fun level name hname => hp.frame.slotAt?_eq hlength hname, fun name hb => ?_,
        fun name hname => hp.frame.find?_eq hlength hname⟩
      · rw [Frame.length_blocks, Frame.length_blocks, hlength]
      · rw [Frame.slotAt?_zero] at hb ⊢
        exact hp.frame.bound name hb

/-- A loop of one round that declares a variable and has a result. -/
def oneRound : List String :=
  ["func main void", "var int x", "while < x 1", "var int y", "funccall strtoint \"7\"",
    "assign x resulti", "endwhile", "endfunc"]

def oneRoundTokens : List (List String) :=
  ["func", "main", "void"] :: [["var", "int", "x"], ["while", "<", "x", "1"], ["var", "int", "y"],
    ["funccall", "strtoint", "\"7\""], ["assign", "x", "resulti"], ["endwhile"]] ++
    ["endfunc"] :: []

theorem tokenize_oneRound : oneRound.map tokenize = oneRoundTokens := by
  decide +kernel

theorem load_oneRound : Program.load oneRound = .ofStream oneRoundTokens :=
  congrArg Program.ofStream tokenize_oneRound

def oneRoundBody : Body :=
  .line 1 (.var "int" ["x"]) <|
  .loop 2 ["<", "x", "1"]
    (.line 3 (.var "int" ["y"]) <| .line 4 (.call "strtoint" ["\"7\""]) <|
      .line 5 (.assign "x" ["resulti"]) .done) .done

theorem wellNested_oneRound : WellNested (decoded oneRound) := by
  have h : decoded oneRound = .func "main" :: oneRoundBody.statements ++ .endFunc :: [] := by
    rw [decoded, ← Function.comp_def, ← List.map_map, tokenize_oneRound]
    decide
  rw [h]
  exact .routine _ _ .done

theorem describes_oneRound :
    Outline.Describes ⟨[⟨⟨"main", 0, [], "void"⟩, oneRoundBody⟩]⟩ oneRound := by
  rw [Outline.Describes, tokenize_oneRound]
  refine .routine (by decide) (by decide) ?_ (by decide) .done
  simp [Body.Numbered, oneRoundBody]

/-- The state in which the sample comes to its loop. -/
def oneRoundLoop : State :=
  { ip := 2, steps := 2, workspace :=
      { scopes := ⟨⟨"main", -1, ⟨[("x", ⟨0, none⟩)]⟩, []⟩, [], #[.int 0]⟩
        console := .ofInput "" } }

/-- The state in which the sample has its loop behind it. -/
def oneRoundOver : State :=
  { ip := 7, steps := 8, workspace :=
      { scopes := ⟨⟨"main", -1, ⟨[("resulti", ⟨2, none⟩), ("x", ⟨0, none⟩)]⟩, []⟩, [],
          #[.int 7, .int 0, .int 7]⟩
        console := .ofInput "" } }

theorem until_oneRound :
    Until (Program.load oneRound) {} 7 oneRoundLoop oneRoundOver := by
  rw [load_oneRound]
  have hu : Until (.ofStream oneRoundTokens) {} 7 oneRoundLoop _ :=
    .next (.next (.next (.next (.next (.next .refl (by decide +kernel) (by decide +kernel))
      (by decide +kernel) (by decide +kernel)) (by decide +kernel) (by decide +kernel))
      (by decide +kernel) (by decide +kernel)) (by decide +kernel) (by decide +kernel))
      (by decide +kernel) (by decide +kernel)
  rwa [show (State.step _ _ _).state = oneRoundOver by decide +kernel] at hu

theorem construct_hygienic_oneRound :
    Reachable (Program.load oneRound) {} (.ofInput "") oneRoundLoop ∧
    Until (Program.load oneRound) {} 7 oneRoundLoop oneRoundOver ∧
      oneRoundOver.scopes.frame.slotAt? 0 "resulti" = some ⟨2, none⟩ ∧
      oneRoundOver.scopes.lookup? "x" = oneRoundLoop.scopes.lookup? "x" ∧
      oneRoundOver.scopes.lookup? "y" = none := by
  have hst : Reachable (Program.load oneRound) {} (.ofInput "") oneRoundLoop := by
    rw [load_oneRound]
    have hmain : (Program.ofStream oneRoundTokens).functions.entryLine? mainFunction = some 0 := by
      decide +kernel
    have h := (reachable_main {} (.ofInput "") hmain).advance 2
    rwa [show (State.advance _ _ 2 _).state = oneRoundLoop by decide +kernel] at h
  have hat : (Program.load oneRound).at? (2 : Nat) = some (.whileDo ["<", "x", "1"]) := by
    rw [load_oneRound]
    decide +kernel
  obtain ⟨-, hafter⟩ := (construct_hygienic wellNested_oneRound).2 _ describes_oneRound {}
    (.ofInput "") _ hst 2 _ rfl (Or.inr hat)
  obtain ⟨-, -, -, -, -, -, hlookup⟩ := hafter 6 (by decide) _ until_oneRound rfl rfl
  exact ⟨hst, until_oneRound, by decide, hlookup "x" (by decide), hlookup "y" (by decide)⟩

end Brewin
