import Brewin.Proofs.RunSteps
import Brewin.Proofs.StoppedSteps
import Brewin.Proofs.TrimmedEnds
import Brewin.Session

namespace Brewin

section

variable {p : Program} {o : Options}

theorem line_of_failed_step {st : State} {fault : Fault}
    (h : (st.step p o).signal = .failed fault) : fault.line = st.ip := by
  have hstops : (st.step p o).signal ≠ .running := by simp [h]
  rcases step_stops hstops with ⟨-, hs⟩ | ⟨-, -, hs⟩ | ⟨statement, t, -, hstop, -, hsignal⟩
  · rw [hs] at h
    cases h
    rfl
  · rw [hs] at h
    cases h
  · exact (hstop.fault (hsignal.symm.trans h)).1

/-- A run that fails comes to a state whose step fails. -/
theorem Ends.exists_failed_step {console c : Console} {st : State} {fault : Fault}
    (h : Ends p o st c (.failed fault)) (hst : Reachable p o console st) :
    ∃ st', Reachable p o console st' ∧ (st'.step p o).signal = .failed fault := by
  generalize he : Ending.failed fault = e at h
  induction h with
  | halted => cases he
  | failed hs =>
    cases he
    exact ⟨_, hst, hs⟩
  | next _ _ ih => exact ih hst.next he

theorem func_main_of_start {source : List String} {console : Console} {st : State}
    (h : (Program.load source).start console = .ok st) : .func mainFunction ∈ decoded source := by
  cases hf : (Program.load source).functions.find? mainFunction with
  | none => simp [Program.start, FunctionTable.entryLine?, hf] at h
  | some f =>
    have hline := (line_of_find? hf).2
    rw [at?_load] at hline
    exact List.mem_of_getElem? hline

/-- A run of a program without a main function fails at once; every other fault is put down to the
line at which the run stands. -/
theorem fault_of_runFor {source : List String} {console : Console} {fuel : Nat} {fault : Fault}
    (h : ((Program.load source).runFor o console fuel).ending = .failed fault) :
    (.func mainFunction ∉ decoded source → fault = { problem := .unknownFunction mainFunction }) ∧
      (.func mainFunction ∈ decoded source →
        0 ≤ fault.line ∧ fault.line ≤ (Program.load source).size) := by
  unfold Program.runFor at h
  cases hs : (Program.load source).start console with
  | error fault' =>
    simp only [hs, Ending.failed.injEq] at h
    subst h
    constructor
    · intro hnone
      unfold Program.start at hs
      split at hs
      next => cases hs; rfl
      next => cases hs
    · intro hmain
      obtain ⟨st, hst⟩ := exists_start hmain console
      cases hs.symm.trans hst
  | ok st =>
    simp only [hs] at h
    have hends : Ends (Program.load source) o st _ (.failed fault) :=
      (ends_iff_runFor #[]).mpr ⟨by simp, fuel, rfl, h⟩
    obtain ⟨st', hreach, hstep⟩ := hends.exists_failed_step (.start hs)
    obtain ⟨hlow, hhigh, -⟩ := hreach.grounded (Program.closed_load source)
    rw [line_of_failed_step hstep]
    exact ⟨fun hnone => absurd (func_main_of_start hs) hnone, fun _ => ⟨hlow, hhigh⟩⟩

end

/-- Without colours the report of a fault that has a line starts with the text of the fault. -/
theorem faultReport_plain {line : Int} (h : line ≠ noLine) (label message source : String) :
    faultReport false label line message source =
      faultText label line message ++ "\n" ++ source := by
  simp [faultReport, faultText, paintLine, paint, colorize, h, String.append_assoc]

namespace Session

variable {s : Session}

theorem report_of_line (hcolor : s.colored = false) {fault : Fault} (hlow : 0 ≤ fault.line)
    (source : List String) :
    ∃ shown, s.report source fault = fault.text ++ "\n" ++ shown ++ "\n" ∧
      (∀ (n : Nat) line, fault.line = n → source[n]? = some line → Trimmed line shown) ∧
      ((∀ n : Nat, fault.line = n → source.length ≤ n) → shown = "") := by
  have hline : fault.line ≠ noLine := by
    unfold noLine
    omega
  obtain ⟨n, hn⟩ := Int.eq_ofNat_of_zero_le hlow
  have hreport : s.report source fault =
      fault.text ++ "\n" ++ trim (source[n]?.getD "") ++ "\n" := by
    unfold report Fault.text
    dsimp only
    rw [hcolor, faultReport_plain hline, hn]
  refine ⟨_, hreport, ?_, ?_⟩
  · intro m line hm hsource
    have heq : m = n := by omega
    rw [← heq, hsource, Option.getD_some]
    exact trimmed_trim line
  · intro hbehind
    rw [List.getElem?_eq_none (hbehind n hn), Option.getD_none]
    decide +kernel

/-- A session fails with the fault that its run fails with, and reports it. -/
theorem run_of_failed {text input : String} {fuel : Nat} {fault : Fault} (htext : s.text = .ok text)
    (h : (s.run input fuel).error? = some (.failed fault)) :
    ((Program.load (splitLines text)).runFor s.options (.ofInput input) fuel).ending =
        .failed fault ∧
      (s.run input fuel).stderr = s.report (splitLines text) fault := by
  unfold run at h ⊢
  simp only [htext] at h ⊢
  split at h
  next => cases h
  next => cases h
  next fault' he =>
    cases h
    exact ⟨he, rfl⟩

/-- What a failed session returns and, in a file with a main function, what it reports are made
from the same text. -/
theorem report_repeats_error {text input : String} {fuel : Nat} {fault : Fault}
    (hcolor : s.colored = false) (htext : s.text = .ok text)
    (herror : (s.run input fuel).error? = some (.failed fault)) :
    (SessionError.failed fault).text = "execution failed: " ++ fault.text ∧
    (.func mainFunction ∈ decoded (splitLines text) →
      ∃ shown, (s.run input fuel).stderr = fault.text ++ "\n" ++ shown ++ "\n" ∧
        (∀ (n : Nat) line, fault.line = n → (splitLines text)[n]? = some line →
          Trimmed line shown) ∧
        ((∀ n : Nat, fault.line = n → (splitLines text).length ≤ n) → shown = "")) ∧
    (.func mainFunction ∉ decoded (splitLines text) →
      fault = { problem := .unknownFunction mainFunction }) := by
  obtain ⟨hending, hstderr⟩ := run_of_failed htext herror
  obtain ⟨hmissing, hstands⟩ := fault_of_runFor hending
  refine ⟨?_, fun hmain => ?_, hmissing⟩
  · simp [SessionError.text, withContext]
  · rw [hstderr]
    exact report_of_line hcolor (hstands hmain).1 _

/-- A file whose main function prints a variable that it does not have. -/
def printsUnknown : Session :=
  { file := "prog.brewin", text := .ok "func main void\r\n\tfunccall print x \nendfunc\n" }

theorem report_repeats_error_indented :
    (printsUnknown.run "" 3).error? =
      some (.failed ⟨1, .unknownVariable "x"⟩) ∧
    (printsUnknown.run "" 3).stderr =
      "NameError on line 1: variable x not found\nfunccall print x\n" ∧
    (SessionError.failed ⟨1, .unknownVariable "x"⟩).text =
      "execution failed: NameError on line 1: variable x not found" := by
  have herror : (printsUnknown.run "" 3).error? = some (.failed ⟨1, .unknownVariable "x"⟩) := by
    decide +kernel
  have hmain : .func mainFunction ∈
      decoded (splitLines "func main void\r\n\tfunccall print x \nendfunc\n") := by
    decide +kernel
  obtain ⟨htext, hreport, -⟩ := report_repeats_error rfl rfl herror
  obtain ⟨shown, hstderr, hshown, -⟩ := hreport hmain
  have hline : shown = "funccall print x" := by
    have htrimmed := hshown 1 "\tfunccall print x " rfl (by decide +kernel)
    rw [← htrimmed.eq_trim]
    decide +kernel
  refine ⟨herror, ?_, ?_⟩
  · rw [hstderr, hline]
    decide +kernel
  · rw [htext]
    decide +kernel

/-- A file without a main function. -/
def withoutMain : Session :=
  { file := "prog.brewin", text := .ok "func f void\nendfunc\n" }

/-- The fault has no line, and its text names none, but the report does. -/
theorem missing_main_reported_on_line :
    ∃ fault, (withoutMain.run "" 1).error? = some (.failed fault) ∧
      fault.text = "NameError: function main not defined" ∧
      (withoutMain.run "" 1).stderr = "NameError on line -1: function main not defined\n\n" ∧
      (withoutMain.run "" 1).stderr ≠ fault.text ++ "\n" ++ "" ++ "\n" := by
  refine ⟨{ problem := .unknownFunction mainFunction }, ?_, ?_, ?_, ?_⟩
  · decide +kernel
  · decide +kernel
  · decide +kernel
  · decide +kernel

end Session

end Brewin
