import Brewin.Proofs.BuiltinResults
import Brewin.Proofs.Moves
import Brewin.Proofs.RunPrefix
import Brewin.Proofs.TrimmedEnds

namespace Brewin

section Lines

/-- The text is cut behind every line feed; what stands behind the last one is a line too. -/
def cutLines : List Char → List (List Char)
  | [] => []
  | c :: cs =>
    if c = '\n' then [c] :: cutLines cs
    else
      match cutLines cs with
      | [] => [[c]]
      | line :: lines => (c :: line) :: lines

theorem cutLines_lineFeed {front : List Char} (h : '\n' ∉ front) (rest : List Char) :
    cutLines (front ++ '\n' :: rest) = (front ++ ['\n']) :: cutLines rest := by
  induction front with
  | nil => simp [cutLines]
  | cons c front ih =>
    obtain ⟨hc, hfront⟩ := not_or.mp (fun hmem => h (List.mem_cons.mpr hmem))
    simp [cutLines, Ne.symm hc, ih hfront]

theorem cutLines_unfinished {cs : List Char} (h : '\n' ∉ cs) (hne : cs ≠ []) :
    cutLines cs = [cs] := by
  induction cs with
  | nil => exact absurd rfl hne
  | cons c cs ih =>
    obtain ⟨hc, hcs⟩ := not_or.mp (fun hmem => h (List.mem_cons.mpr hmem))
    by_cases hempty : cs = []
    · simp [cutLines, Ne.symm hc, hempty]
    · simp [cutLines, Ne.symm hc, ih hcs hempty]

/-- A text is the line without all the carriage returns and line feeds at its end. -/
structure Bare (line : List Char) (text : String) : Prop where
  split : ∃ ends, line = text.toList ++ ends ∧ ∀ c ∈ ends, c = '\r' ∨ c = '\n'
  last : ∀ c, text.toList.getLast? = some c → c ≠ '\r' ∧ c ≠ '\n'

theorem bareLine_eq_iff {line : List Char} {text : String} :
    Console.bareLine line = text ↔ Bare line text := by
  have htext : Console.bareLine line = text ↔
      dropEndWhile (fun c => c == '\r' || c == '\n') line = text.toList := by
    rw [Console.bareLine, ← String.toList_inj, String.toList_ofList]
  rw [htext, dropEndWhile_eq_iff]
  constructor
  · rintro ⟨⟨ends, hline, hends⟩, hlast⟩
    exact ⟨⟨ends, hline, by simpa using hends⟩, by simpa using hlast⟩
  · rintro ⟨⟨ends, hline, hends⟩, hlast⟩
    exact ⟨⟨ends, hline, by simpa using hends⟩, by simpa using hlast⟩

theorem bare_bareLine (line : List Char) : Bare line (Console.bareLine line) :=
  bareLine_eq_iff.mp rfl

/-- The line feed that ends a line makes no difference to its text. -/
theorem bareLine_lineFeed (front : List Char) :
    Console.bareLine (front ++ ['\n']) = Console.bareLine front := by
  obtain ⟨⟨ends, hfront, hends⟩, hlast⟩ := bare_bareLine front
  refine bareLine_eq_iff.mpr ⟨⟨ends ++ ['\n'], ?_, ?_⟩, hlast⟩
  · rw [← List.append_assoc, ← hfront]
  · intro c hc
    rcases List.mem_append.mp hc with hc | hc
    · exact hends c hc
    · exact Or.inr (List.mem_singleton.mp hc)

end Lines

namespace Console

/-- The lines that can still be read. At a broken end an unfinished line is lost. -/
def lines (c : Console) : List (List Char) :=
  match c.ending with
  | .ended => cutLines c.unread
  | .broken => (cutLines c.unread).filter (·.getLast? == some '\n')

/-- Nothing more has been read, and reading will end in the same way. -/
structure SameInput (c c' : Console) : Prop where
  unread : c'.unread = c.unread
  ending : c'.ending = c.ending

theorem SameInput.lines {c c' : Console} (h : c.SameInput c') : c'.lines = c.lines := by
  simp only [Console.lines, h.unread, h.ending]

theorem sameInput_writeLine (c : Console) (text : String) : c.SameInput (c.writeLine text) :=
  ⟨rfl, rfl⟩

theorem lines_lineFeed {c : Console} {front rest : List Char}
    (hunread : c.unread = front ++ '\n' :: rest) (hfront : '\n' ∉ front) :
    c.lines = (front ++ ['\n']) :: lines { c with unread := rest } := by
  unfold lines
  rw [hunread, cutLines_lineFeed hfront]
  cases c.ending with
  | ended => rfl
  | broken => simp

theorem lines_unfinished {c : Console} (hunread : '\n' ∉ c.unread) :
    c.lines = if c.ending = .ended ∧ c.unread ≠ [] then [c.unread] else [] := by
  unfold lines
  by_cases hempty : c.unread = []
  · cases c.ending <;> simp [hempty, cutLines]
  · have hlast : c.unread.getLast? ≠ some '\n' := fun h => hunread (List.mem_of_getLast? h)
    rw [cutLines_unfinished hunread hempty]
    cases c.ending <;> simp [hempty, hlast]

/-- A read takes the first of the lines, and fails as the text ends if there is none. -/
theorem readLine_takes (c : Console) :
    (∃ line, c.lines = line :: c.readLine.2.lines ∧ c.readLine.1 = .ok (bareLine line)) ∨
      (c.lines = [] ∧ c.readLine.2.lines = [] ∧ c.readLine.1 = .error c.ending) := by
  have hsplit : c.unread.takeWhile (· != '\n') ++ c.unread.dropWhile (· != '\n') = c.unread :=
    List.takeWhile_append_dropWhile
  have hfront : '\n' ∉ c.unread.takeWhile (· != '\n') := by
    intro hmem
    have hne := List.all_eq_true.mp List.all_takeWhile _ hmem
    simp at hne
  unfold readLine
  dsimp only
  cases hrest : c.unread.dropWhile (· != '\n') with
  | nil =>
    -- No line feed is left: all of the text is one unfinished line, or there is none.
    rw [hrest, List.append_nil] at hsplit
    rw [hsplit] at hfront ⊢
    have hnone : lines { c with unread := [] } = [] := by
      rw [lines_unfinished (by simp)]
      simp
    rw [lines_unfinished hfront]
    by_cases hdelivers : c.ending = .ended ∧ c.unread ≠ []
    · rw [if_pos hdelivers, if_pos hdelivers, hnone]
      exact Or.inl ⟨c.unread, rfl, rfl⟩
    · rw [if_neg hdelivers, if_neg hdelivers, hnone]
      exact Or.inr ⟨rfl, rfl, rfl⟩
  | cons d rest =>
    have hd : d = '\n' := by
      have hhead := (dropWhile_eq_iff.mp hrest).2 d rfl
      simpa using hhead
    rw [hrest, hd] at hsplit
    refine Or.inl ⟨_, lines_lineFeed hsplit.symm hfront, ?_⟩
    rw [bareLine_lineFeed]

theorem ending_readLine (c : Console) : c.readLine.2.ending = c.ending := by
  unfold readLine
  dsimp only
  (repeat' split) <;> rfl

end Console

section Builtins

variable {w : Workspace} {args : List String}

/-- An input that has written its prompt takes the next line, or stores nothing. -/
theorem input_takes {prompt : String} (hjoined : w.scopes.joined args = .ok prompt)
    (hwrite : w.console.canWrite = true) :
    (w.input args).workspace.console.written = w.console.written ++ prompt ++ "\n" ∧
    (w.input args).workspace.console.ending = w.console.ending ∧
    ((∃ line, w.console.lines = line :: (w.input args).workspace.console.lines ∧
        (w.input args).problem? = none ∧
        (w.input args).workspace.scopes = w.scopes.setResult (.string (Console.bareLine line))) ∨
      (w.console.lines = [] ∧ (w.input args).workspace.console.lines = [] ∧
        (w.input args).problem? = some (.readFailed w.console.ending) ∧
        (w.input args).workspace.scopes = w.scopes)) := by
  have htakes := (w.console.writeLine prompt).readLine_takes
  have hwritten := written_readLine (w.console.writeLine prompt)
  have hending := (w.console.writeLine prompt).ending_readLine
  rw [(w.console.sameInput_writeLine prompt).lines] at htakes
  simp only [Workspace.input, hjoined, hwrite, ↓reduceIte]
  rcases hread : (w.console.writeLine prompt).readLine with ⟨result, console⟩
  rw [hread] at htakes hwritten hending
  rcases htakes with ⟨line, hlines, hresult⟩ | ⟨hlines, hrest, hresult⟩
  · cases hresult
    exact ⟨hwritten, hending, Or.inl ⟨line, hlines, rfl, rfl⟩⟩
  · cases hresult
    exact ⟨hwritten, hending, Or.inr ⟨hlines, hrest, rfl, rfl⟩⟩

/-- All that an input can do to the lines: it fails before it reads, it takes a line, or there is
none. -/
theorem input_outcomes (w : Workspace) (args : List String) :
    (w.input args).workspace.console.ending = w.console.ending ∧
    ((∃ line, w.console.lines = line :: (w.input args).workspace.console.lines ∧
        (w.input args).problem? = none ∧
        (w.input args).workspace.scopes = w.scopes.setResult (.string (Console.bareLine line))) ∨
      ((w.input args).workspace.console.lines = w.console.lines ∧
        (w.input args).problem? ≠ none)) := by
  cases hjoined : w.scopes.joined args with
  | error problem =>
    have hfails : w.input args = w.fail problem := by
      simp only [Workspace.input, hjoined]
    rw [hfails]
    exact ⟨rfl, Or.inr ⟨rfl, by simp [Workspace.fail]⟩⟩
  | ok prompt =>
    cases hwrite : w.console.canWrite with
    | false =>
      have hfails : w.input args = w.fail .writeFailed := by
        simp only [Workspace.input, hjoined, hwrite]
        rfl
      rw [hfails]
      exact ⟨rfl, Or.inr ⟨rfl, by simp [Workspace.fail]⟩⟩
    | true =>
      obtain ⟨-, hending, htaken | ⟨hlines, hrest, hproblem, -⟩⟩ := input_takes hjoined hwrite
      · exact ⟨hending, Or.inl htaken⟩
      · exact ⟨hending, Or.inr ⟨hrest.trans hlines.symm, by simp [hproblem]⟩⟩

theorem sameInput_builtin {b : Builtin} (hb : b ≠ .input) :
    w.console.SameInput (w.builtin b args).workspace.console := by
  cases b with
  | input => exact absurd rfl hb
  | print =>
    simp only [Workspace.builtin, Workspace.print]
    (repeat' split) <;> exact ⟨rfl, rfl⟩
  | strToInt =>
    simp only [Workspace.builtin, Workspace.strToInt]
    (repeat' split) <;> exact ⟨rfl, rfl⟩

end Builtins

section Steps

variable {p : Program} {o : Options} {st : State} {here : Nat}

theorem sameInput_settle {f : Workspace → Effect}
    (h : st.console.SameInput (f st.workspace).workspace.console) :
    st.console.SameInput (st.settle here f).state.console := by
  unfold State.settle
  rcases he : f st.workspace with ⟨w, problem?⟩
  rw [he] at h
  cases problem? with
  | none => exact h
  | some problem => exact h

theorem sameInput_giveBack (result? : Option Value) :
    st.console.SameInput (st.giveBack result?).state.console := by
  obtain ⟨ip, steps, ⟨⟨frame, callers, cells⟩, console⟩⟩ := st
  cases callers <;> cases result? <;> exact ⟨rfl, rfl⟩

theorem sameInput_ret (functions : FunctionTable) (expr : List String) :
    st.console.SameInput (st.ret functions expr).state.console := by
  unfold State.ret
  dsimp only
  split
  next => exact ⟨rfl, rfl⟩
  next =>
    split
    next => exact sameInput_giveBack _
    next =>
      split
      next => exact ⟨rfl, rfl⟩
      next => exact sameInput_giveBack _

/-- Only an input reads. -/
theorem sameInput_execute {statement : Statement}
    (h : ∀ name args, statement = .call name args → Builtin.ofName? name ≠ some .input) :
    st.console.SameInput (st.execute p here statement).state.console := by
  cases statement with
  | var type names =>
    apply sameInput_settle
    rw [console_declare]
    exact ⟨rfl, rfl⟩
  | assign target expr =>
    apply sameInput_settle
    rw [console_assign]
    exact ⟨rfl, rfl⟩
  | call name args =>
    simp only [State.execute]
    split
    next b hb =>
      apply sameInput_settle
      apply sameInput_builtin
      rintro rfl
      exact h name args rfl hb
    next =>
      unfold State.call
      (repeat' split) <;> exact ⟨rfl, rfl⟩
  | endFunc => exact sameInput_giveBack _
  | ret expr => exact sameInput_ret _ expr
  | func name => exact ⟨rfl, rfl⟩
  | nop => exact ⟨rfl, rfl⟩
  | malformed omission => exact ⟨rfl, rfl⟩
  | ifThen cond =>
    simp only [State.execute, State.ifThen]
    (repeat' split) <;> exact ⟨rfl, rfl⟩
  | orElse =>
    simp only [State.execute, State.orElse]
    split <;> exact ⟨rfl, rfl⟩
  | endIf =>
    simp only [State.execute, State.endIf]
    split <;> exact ⟨rfl, rfl⟩
  | whileDo cond =>
    simp only [State.execute, State.whileDo]
    (repeat' split) <;> exact ⟨rfl, rfl⟩
  | endWhile =>
    simp only [State.execute, State.endWhile]
    (repeat' split) <;> exact ⟨rfl, rfl⟩

theorem step_of_exhausted (hx : st.exhausted o = true) : (st.step p o).state = st := by
  simp [State.step, hx, State.fail]

/-- An input that succeeds takes one line, and its text becomes the result of the function. -/
theorem step_takes_line {args : List String} (hat : p.at? st.ip = some (.call "input" args))
    (hs : (st.step p o).signal = .running) :
    (st.step p o).state.console.ending = st.console.ending ∧
      ∃ line, st.console.lines = line :: (st.step p o).state.console.lines ∧
        (st.step p o).state.scopes.HoldsAtBase "results" (.string (Console.bareLine line)) := by
  obtain ⟨hworkspace, -, hfails⟩ :=
    step_of_builtin (exhausted_of_running hs) hat Builtin.input.ofName?_spelling
  change (st.step p o).state.workspace = (st.workspace.input args).workspace at hworkspace
  have hnone : (st.workspace.input args).problem? = none := by
    cases hproblem : (st.workspace.input args).problem? with
    | none => rfl
    | some problem =>
      rw [hfails problem hproblem] at hs
      cases hs
  unfold State.console State.scopes
  rw [hworkspace]
  obtain ⟨hending, ⟨line, hlines, -, hscopes⟩ | ⟨-, hproblem⟩⟩ := input_outcomes st.workspace args
  · refine ⟨hending, line, hlines, ?_⟩
    rw [hscopes]
    exact Scopes.holds_setResult _ rfl
  · exact absurd hnone hproblem

/-- Every other step leaves the lines as they are, also an input that fails. -/
theorem step_keeps_lines
    (h : ∀ args, p.at? st.ip = some (.call "input" args) → (st.step p o).signal ≠ .running) :
    (st.step p o).state.console.ending = st.console.ending ∧
      (st.step p o).state.console.lines = st.console.lines := by
  cases hx : st.exhausted o with
  | true =>
    rw [step_of_exhausted hx]
    exact ⟨rfl, rfl⟩
  | false =>
    cases hat : p.at? st.ip with
    | none =>
      have hstays : (st.step p o).state.console = st.console := by
        simp only [State.step, hx, hat]
        rfl
      rw [hstays]
      exact ⟨rfl, rfl⟩
    | some statement =>
      by_cases hinput : ∃ args, statement = .call "input" args
      · obtain ⟨args, rfl⟩ := hinput
        obtain ⟨hworkspace, hruns, -⟩ := step_of_builtin hx hat Builtin.input.ofName?_spelling
        change (st.step p o).state.workspace = (st.workspace.input args).workspace at hworkspace
        unfold State.console
        rw [hworkspace]
        obtain ⟨hending, ⟨_, -, hnone, -⟩ | ⟨hlines, -⟩⟩ := input_outcomes st.workspace args
        · exact absurd (hruns hnone) (h args hat)
        · exact ⟨hending, hlines⟩
      · have hsame : st.console.SameInput (st.execute p st.ip.toNat statement).state.console := by
          apply sameInput_execute
          intro name args hcall hb
          exact hinput ⟨args, hcall.trans (by rw [Builtin.spelling_of_ofName? hb]; rfl)⟩
        obtain ⟨hstate, -⟩ := step_of_allowed hx hat
        rw [hstate]
        exact ⟨hsame.ending, hsame.lines⟩

end Steps

section Runs

variable {p : Program} {o : Options} {console : Console}

/-- A run has come to the state, and `k` of its steps were inputs that succeeded. -/
inductive Delivered (p : Program) (o : Options) (console : Console) : Nat → State → Prop
  | start {st : State} : p.start console = .ok st → Delivered p o console 0 st
  | input {k : Nat} {st : State} {args : List String} : Delivered p o console k st →
      p.at? st.ip = some (.call "input" args) → (st.step p o).signal = .running →
      Delivered p o console (k + 1) (st.step p o).state
  | other {k : Nat} {st : State} : Delivered p o console k st →
      (∀ args, p.at? st.ip = some (.call "input" args) → (st.step p o).signal ≠ .running) →
      Delivered p o console k (st.step p o).state

theorem console_start {st : State} (h : p.start console = .ok st) : st.console = console := by
  unfold Program.start at h
  split at h
  next => cases h
  next =>
    cases h
    rfl

theorem exists_delivered {st : State} (h : Reachable p o console st) :
    ∃ k, Delivered p o console k st := by
  induction h with
  | start hs => exact ⟨0, .start hs⟩
  | @next st _ ih =>
    obtain ⟨k, hk⟩ := ih
    by_cases hinput : ∃ args, p.at? st.ip = some (.call "input" args) ∧
        (st.step p o).signal = .running
    · obtain ⟨args, hat, hs⟩ := hinput
      exact ⟨k + 1, .input hk hat hs⟩
    · exact ⟨k, .other hk fun args hat hs => hinput ⟨args, hat, hs⟩⟩

/-- What can still be read is what the inputs so far have left of the console's lines. -/
theorem Delivered.lines {k : Nat} {st : State} (h : Delivered p o console k st) :
    st.console.ending = console.ending ∧ st.console.lines = console.lines.drop k := by
  induction h with
  | start hs =>
    rw [console_start hs]
    exact ⟨rfl, rfl⟩
  | input _ hat hs ih =>
    obtain ⟨hending, line, hlines, -⟩ := step_takes_line hat hs
    refine ⟨hending.trans ih.1, ?_⟩
    rw [ih.2] at hlines
    rw [← List.tail_drop, hlines, List.tail_cons]
  | other _ hother ih =>
    obtain ⟨hending, hlines⟩ := step_keeps_lines hother
    exact ⟨hending.trans ih.1, hlines.trans ih.2⟩

/-- An input that succeeds after `k` others gets line `k` of the console. One that has written its
prompt succeeds as long as there is such a line, and behind the last one it fails as the console
ends and stores nothing. -/
theorem input_lines_in_order (p : Program) (o : Options) (console : Console) :
    (∀ st, Reachable p o console st → ∃ k, Delivered p o console k st) ∧
    ∀ k st args, Delivered p o console k st → p.at? st.ip = some (.call "input" args) →
      ((st.step p o).signal = .running →
        ∃ line text, console.lines[k]? = some line ∧ Bare line text ∧
          (st.step p o).state.scopes.HoldsAtBase "results" (.string text)) ∧
      ∀ prompt, st.exhausted o = false → st.scopes.joined args = .ok prompt →
        st.console.canWrite = true →
        (st.step p o).state.console.written = st.console.written ++ prompt ++ "\n" ∧
        (k < console.lines.length → (st.step p o).signal = .running) ∧
        (console.lines.length ≤ k → (st.step p o).state.scopes = st.scopes ∧
          ∃ fault, (st.step p o).signal = .failed fault ∧ fault.line = st.ip ∧
            fault.kind = .runtime ∧
            (console.ending = .ended → fault.problem.cause? = some .endOfInput) ∧
            (console.ending = .broken → fault.problem.cause? = some .readFailure)) := by
  refine ⟨fun st h => exists_delivered h, ?_⟩
  intro k st args hk hat
  obtain ⟨hending, hlines⟩ := hk.lines
  refine ⟨fun hs => ?_, fun prompt hx hjoined hwrite => ?_⟩
  · obtain ⟨-, line, hline, hholds⟩ := step_takes_line hat hs
    refine ⟨line, _, ?_, bare_bareLine line, hholds⟩
    rw [hlines] at hline
    rw [← List.head?_drop, hline, List.head?_cons]
  · obtain ⟨hworkspace, hruns, hfails⟩ := step_of_builtin hx hat Builtin.input.ofName?_spelling
    obtain ⟨hwritten, -, htakes⟩ := input_takes hjoined hwrite
    have hempty : st.console.lines = [] ↔ console.lines.length ≤ k := by
      rw [hlines, List.drop_eq_nil_iff]
    refine ⟨?_, fun hlt => ?_, fun hle => ?_⟩
    · unfold State.console
      rw [hworkspace]
      exact hwritten
    · rcases htakes with ⟨-, -, hnone, -⟩ | ⟨hnil, -, -, -⟩
      · exact hruns hnone
      · have hle := hempty.mp hnil
        omega
    · have hnil := hempty.mpr hle
      rcases htakes with ⟨line, hcons, -, -⟩ | ⟨-, -, hproblem, hscopes⟩
      · cases hnil.symm.trans hcons
      · refine ⟨?_, _, hfails _ hproblem, rfl, rfl, fun hend => ?_, fun hend => ?_⟩
        · unfold State.scopes
          rw [hworkspace]
          exact hscopes
        · rw [show st.workspace.console.ending = .ended from hending.trans hend]
          rfl
        · rw [show st.workspace.console.ending = .broken from hending.trans hend]
          rfl

/-- A main function that asks for a line twice, the second time without a word. -/
def asksTwice : Program :=
  .ofStream [["func", "main", "void"], ["funccall", "input", "\"name?\""], ["funccall", "input"],
    ["endfunc"]]

/-- The reader breaks off inside the second line. -/
def brokenOff : Console :=
  { unread := "a\r\r\nb".toList, ending := .broken }

/-- The state in which the sample asks for the first time. -/
def firstAsked : State :=
  { ip := 1, steps := 1, workspace := { scopes := .start mainFunction noLine, console := brokenOff } }

/-- The first input gets all of its line but the end, the second meets what is left and fails. -/
theorem input_lines_in_order_broken : ∃ next : State,
    Delivered asksTwice {} brokenOff 0 firstAsked ∧ Delivered asksTwice {} brokenOff 1 next ∧
    next.scopes.HoldsAtBase "results" (.string "a") ∧
    (next.step asksTwice {}).state.console.written = "name?\n\n" ∧
    (next.step asksTwice {}).state.scopes = next.scopes ∧
    ∃ fault, (next.step asksTwice {}).signal = .failed fault ∧
      fault.problem.cause? = some .readFailure := by
  obtain ⟨-, hinput⟩ := input_lines_in_order asksTwice {} brokenOff
  have hentry : asksTwice.functions.entryLine? mainFunction = some 0 := by decide +kernel
  have hfunc : asksTwice.at? 0 = some (.func "main") := by decide +kernel
  have hat : asksTwice.at? 1 = some (.call "input" ["\"name?\""]) := by decide +kernel
  have hfirst : Delivered asksTwice {} brokenOff 0 firstAsked := by
    have hstart : asksTwice.start brokenOff = .ok { firstAsked with ip := 0, steps := 0 } := by
      simp only [Program.start, hentry]
      rfl
    have hstep : ((({ firstAsked with ip := 0, steps := 0 } : State)).step asksTwice {}).state =
        firstAsked := by decide +kernel
    rw [← hstep]
    refine .other (.start hstart) fun args h => ?_
    cases hfunc.symm.trans h
  obtain ⟨hstored, hruns⟩ := hinput 0 firstAsked _ hfirst hat
  have hrunning := (hruns "name?" (by decide) rfl (by decide)).2.1 (by decide)
  have hsecond := hfirst.input hat hrunning
  obtain ⟨line, text, hline, hbare, hholds⟩ := hstored hrunning
  have htext : text = "a" := by
    rw [← bareLine_eq_iff.mpr hbare]
    cases hline
    decide +kernel
  obtain ⟨hwritten, -, hfails⟩ := (hinput 1 _ [] hsecond (by decide +kernel)).2 ""
    (by decide +kernel) rfl (by decide +kernel)
  obtain ⟨hscopes, fault, hsignal, -, -, -, hcause⟩ := hfails (by decide)
  refine ⟨_, hfirst, hsecond, htext ▸ hholds, ?_, hscopes, fault, hsignal, hcause rfl⟩
  rw [hwritten]
  decide +kernel

end Runs

end Brewin
