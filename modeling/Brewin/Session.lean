import Brewin.Listing
import Brewin.Run
import Brewin.SourceLines
import Brewin.Surroundings

namespace Brewin

/-- A request to run a source file. -/
structure Session where
  file : String
  text : Except FileError String
  verbose : Bool := false
  colored : Bool := false
  options : Options := {}

inductive SessionError
  | unreadable (file : String) (error : FileError)
  | failed (fault : Fault)
  deriving DecidableEq, Repr

def SessionError.text : SessionError → String
  | unreadable file error => withContext ("read " ++ file) (error.text file)
  | failed fault => withContext "execution failed" fault.text

/-- What a session writes, how it fails, and what it logs. -/
structure SessionResult where
  stdout : String
  stderr : String
  error? : Option SessionError
  log : Array LogRecord
  unfinished : Bool := false
  deriving DecidableEq, Repr

namespace Session

/-- What stands above the program's own output. -/
def header (s : Session) (p : Program) : String :=
  if s.verbose then
    listing s.colored p ++ paint s.colored .green "\n=== Program Output ===" ++ "\n"
  else ""

/-- The report of a fault, with the trimmed source line if the fault has one. -/
def report (s : Session) (source : List String) (fault : Fault) : String :=
  let line :=
    match fault.line with
    | .ofNat n => trim (source[n]?.getD "")
    | .negSucc _ => ""
  faultReport s.colored fault.kind.label fault.line fault.problem.message line ++ "\n"

/-- Runs the session on an input text. -/
def run (s : Session) (input : String) (fuel : Nat) : SessionResult :=
  let opening := #[LogRecord.processing s.file]
  match s.text with
  | .error error => ⟨"", "", some (.unreadable s.file error), opening, false⟩
  | .ok text =>
    let source := splitLines text
    let p := Program.load source
    let r := p.runFor s.options (.ofInput input) fuel
    let stdout := s.header p ++ r.console.written
    match r.ending with
    | .finished => ⟨stdout, "", none, opening ++ r.log, false⟩
    | .unfinished => ⟨stdout, "", none, opening ++ r.log, true⟩
    | .failed fault =>
      ⟨stdout, s.report source fault, some (.failed fault), opening ++ r.log, false⟩

end Session

end Brewin
