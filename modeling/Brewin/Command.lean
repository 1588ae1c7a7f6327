import Brewin.Flags
import Brewin.Session

namespace Brewin

/-- What a command leaves behind. -/
structure Outcome where
  stdout : String
  stderr : String
  code : Nat
  deriving DecidableEq, Repr

/-- What the command leaves to others: how files are read, and how a record of the log is written,
with or without colours. -/
structure Libraries extends Readers where
  logLine : Bool → LogRecord → String

/-- A session as the command runs it, with the line for a record of its log. -/
structure Job where
  session : Session
  logged : Bool
  line : LogRecord → String

/-- A command either is over at once or has a session to run. -/
inductive Plan
  | stop (outcome : Outcome)
  | run (job : Job)

namespace CommandLine

def commandName : String := "brewin"

def optionList : String :=
  linesText [
    "  -c string",
    "    \tConfig file (default " ++ Settings.defaultFile ++ " if present)",
    "  -h\tShow help",
    "  -n\tNo color",
    "  -s int",
    "    \tMaximum number of steps (0 = unlimited)",
    "  -t\tTrace every executed statement",
    "  -v\tVerbose mode (print the decoded program)"]

def usage : String :=
  "Usage of " ++ commandName ++ ":\n" ++ optionList

def helpText : String :=
  linesText ["Usage: " ++ commandName ++ " [options] <file>", "Options:"]

def terminalVariable : String := "TERM"

/-- A terminal that is known and not dumb shows colours, unless the environment forbids them. -/
def terminalColored (around : Surroundings) : Bool :=
  let terminal := (around.env? terminalVariable).getD ""
  terminal != "" && terminal != "dumb" &&
    (around.env? Settings.noColorVariable).getD "" == ""

/-- The end of a command that has only a line of the log to show. -/
def fatal (line : String) : Outcome :=
  ⟨"", line, 1⟩

/-- The files that a command line makes the command read. -/
def filesRead (args : List String) : List String :=
  match ({} : Flags).parse args with
  | .error _ => []
  | .ok (flags, operands) =>
    (if flags.configFile = "" then Settings.defaultFile else flags.configFile) ::
      Settings.dotEnvFile :: operands.take 1

/-- The variables of the environment that the command looks at. -/
def variablesRead : List String :=
  [Settings.verboseVariable, Settings.traceVariable, Settings.maxStepsVariable,
    Settings.noColorVariable, terminalVariable]

def planWith (libraries : Libraries) (around : Surroundings) (args : List String) : Plan :=
  match ({} : Flags).parse args with
  | .error .usage => .stop ⟨"", usage, 0⟩
  | .error e => .stop ⟨"", e.message ++ "\n" ++ usage, 2⟩
  | .ok (flags, operands) =>
    if flags.help then .stop ⟨helpText, optionList, 0⟩
    else
      match Settings.loadWith libraries.toReaders around flags.configFile with
      | .error e =>
        let colored := !flags.noColor?.getD false
        .stop (fatal (libraries.logLine colored (.badConfiguration e.message)))
      | .ok s =>
        let s := flags.merge s
        let line := libraries.logLine (!s.noColor)
        match operands with
        | [] => .stop (fatal (line (.noInputFile (commandName ++ " -h"))))
        | file :: _ =>
          .run {
            session := {
              file
              text := around.read file
              verbose := s.verbose
              colored := !s.noColor && terminalColored around
              options := { maxSteps := s.maxSteps, trace := s.trace } }
            logged := s.verbose || s.trace
            line }

end CommandLine

namespace Job

/-- The lines of records, if the log is on. -/
def logText (job : Job) (records : List LogRecord) : String :=
  if job.logged then String.join (records.map job.line) else ""

/-- The last words of a session that failed. -/
def failure (job : Job) (e : SessionError) : String :=
  job.line (.runFailed e.text)

def outcome (job : Job) (input : String) (fuel : Nat) : Outcome :=
  let r := job.session.run input fuel
  let stderr := job.logText r.log.toList ++ r.stderr
  match r.error? with
  | none => ⟨r.stdout, stderr, 0⟩
  | some e => ⟨r.stdout, stderr ++ job.failure e, 1⟩

end Job

/-- The whole command on given surroundings and input. -/
def CommandLine.runWith (libraries : Libraries) (around : Surroundings) (args : List String)
    (input : String) (fuel : Nat) : Outcome :=
  match planWith libraries around args with
  | .stop outcome => outcome
  | .run job => job.outcome input fuel

end Brewin
