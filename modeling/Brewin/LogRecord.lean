import Brewin.Statement

namespace Brewin

inductive LogLevel
  | debug | info | fatal
  deriving DecidableEq, Repr

/-- What a run and the command tell about themselves. -/
inductive LogRecord
  | processing (file : String)
  | step (line : Int) (statement : Statement) (depth : Nat)
  | enter (function : String) (line : Nat) (resume : Int)
  | leave (function : String) (resume : Int)
  | finished (steps : Nat)
  | badConfiguration (error : String)
  | noInputFile (help : String)
  | runFailed (error : String)
  deriving DecidableEq, Repr

/-- The value of a field. -/
inductive LogValue
  | number (n : Int)
  | text (s : String)
  deriving DecidableEq, Repr

def LogLevel.name : LogLevel → String
  | debug => "debug"
  | info => "info"
  | fatal => "fatal"

/-- The name of the log. -/
def logName : String := "BREWIN"

namespace LogRecord

def level : LogRecord → LogLevel
  | processing _ => .info
  | step _ _ _ | enter _ _ _ | leave _ _ | finished _ => .debug
  | badConfiguration _ | noInputFile _ | runFailed _ => .fatal

def message : LogRecord → String
  | processing _ => "Processing file"
  | step _ _ _ => "step"
  | enter _ _ _ => "call"
  | leave _ _ => "return"
  | finished _ => "program finished"
  | badConfiguration _ => "Invalid configuration"
  | noInputFile _ => "No input file provided"
  | runFailed _ => "Run failed"

def fields : LogRecord → List (String × LogValue)
  | processing file => [("file", .text file)]
  | step line statement depth =>
    [("ip", .number line), ("stmt", .text statement.text), ("depth", .number depth)]
  | enter function line resume =>
    [("func", .text function), ("line", .number line), ("return_to", .number resume)]
  | leave function resume => [("func", .text function), ("return_to", .number resume)]
  | finished steps => [("steps", .number steps)]
  | badConfiguration error => [("error", .text error)]
  | noInputFile help => [("help", .text help)]
  | runFailed error => [("error", .text error)]

end LogRecord

end Brewin
