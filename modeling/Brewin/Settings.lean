import Brewin.Fault
import Brewin.Numeral
import Brewin.Readers
import Brewin.Surroundings

namespace Brewin

/-- What can be set outside the command line. A limit of 0 is no limit. -/
structure Settings where
  verbose : Bool := false
  noColor : Bool := false
  trace : Bool := false
  maxSteps : Int := 0
  deriving DecidableEq, Repr

inductive SettingsError
  | unopened (path : String) (error : FileError)
  | unparsable (path : String)
  | negativeLimit (path : String)
  | badDotEnv
  | badTruth (name value : String)
  | badLimit (value : String)
  deriving DecidableEq, Repr

namespace Settings

/-- The file that is read if none is named. -/
def defaultFile : String := "brewin.yml"

def dotEnvFile : String := ".env"

def verboseVariable : String := "BREWIN_VERBOSE"

def traceVariable : String := "BREWIN_TRACE"

def maxStepsVariable : String := "BREWIN_MAX_STEPS"

def noColorVariable : String := "NO_COLOR"

/-- The fields of the settings file. -/
def fields : List (String × FieldType) :=
  [("verbose", .truth), ("no_color", .truth), ("trace", .truth), ("max_steps", .number)]

/-- Fills the field of a key. -/
def fill (s : Settings) : String × FieldValue → Settings
  | ("verbose", .truth b) => { s with verbose := b }
  | ("no_color", .truth b) => { s with noColor := b }
  | ("trace", .truth b) => { s with trace := b }
  | ("max_steps", .number n) => { s with maxSteps := n }
  | _ => s

/-- Reads the settings file. A file that is not named may be missing, and a file without a
document says nothing. -/
def ofFile (readers : Readers) (around : Surroundings) (path : String) :
    Except SettingsError Settings :=
  let name := if path = "" then defaultFile else path
  match around.read name with
  | .error .directory => .error (.unparsable name)
  | .error error => if path = "" ∧ error = .missing then .ok {} else .error (.unopened name error)
  | .ok text =>
    match readers.decode fields text with
    | .error .ended => .ok {}
    | .error .refused => .error (.unparsable name)
    | .ok pairs =>
      let s := pairs.foldl fill {}
      if s.maxSteps < 0 then .error (.negativeLimit name) else .ok s

/-- The words for truth values in variables and flags. -/
def readTruth? (text : String) : Option Bool :=
  if ["1", "t", "T", "TRUE", "true", "True"].contains text then some true
  else if ["0", "f", "F", "FALSE", "false", "False"].contains text then some false
  else none

/-- The truth value of a variable, or the given one if the variable is not set. -/
def truthOf (env? : String → Option String) (name : String) (unset : Bool) :
    Except SettingsError Bool :=
  match env? name with
  | none => .ok unset
  | some text =>
    match readTruth? text with
    | some b => .ok b
    | none => .error (.badTruth name text)

/-- The step limit of the environment, or the given one if it is not set. -/
def limitOf (env? : String → Option String) (unset : Int) : Except SettingsError Int :=
  match env? maxStepsVariable with
  | none => .ok unset
  | some text =>
    match readInt64? text with
    | some n => if n.toInt < 0 then .error (.badLimit text) else .ok n.toInt
    | none => .error (.badLimit text)

/-- Puts the environment's variables above the settings of the file. -/
def override (s : Settings) (env? : String → Option String) :
    Except SettingsError Settings := do
  let verbose ← truthOf env? verboseVariable s.verbose
  let trace ← truthOf env? traceVariable s.trace
  let maxSteps ← limitOf env? s.maxSteps
  let noColor := s.noColor || (env? noColorVariable).getD "" != ""
  return { verbose, noColor, trace, maxSteps }

/-- The variables of the file of assignments; a missing file has none. -/
def dotEnvVariables (readers : Readers) (around : Surroundings) :
    Except SettingsError (List (String × String)) :=
  match around.read dotEnvFile with
  | .error .missing => .ok []
  | .error _ => .error .badDotEnv
  | .ok text =>
    match readers.assignments? text with
    | some assigned => .ok assigned
    | none => .error .badDotEnv

/-- A variable of the environment goes before one of the file of assignments, even if it is
empty. -/
def effective (around : Surroundings) (assigned : List (String × String)) (name : String) :
    Option String :=
  match around.env? name with
  | some value => some value
  | none => assigned.lookup name

/-- The settings of the file, the file of assignments and the environment together. -/
def loadWith (readers : Readers) (around : Surroundings) (path : String) :
    Except SettingsError Settings := do
  let s ← ofFile readers around path
  let assigned ← dotEnvVariables readers around
  s.override (effective around assigned)

end Settings

def SettingsError.message : SettingsError → String
  | unopened path error => withContext ("config: open " ++ path) (error.text path)
  | unparsable path => "config: parse " ++ path
  | negativeLimit path => "config: " ++ path ++ ": max_steps must not be negative"
  | badDotEnv => "config: load .env"
  | badTruth name value =>
    "config: " ++ name ++ ": strconv.ParseBool: parsing " ++ quoted value ++ ": invalid syntax"
  | badLimit value =>
    "config: " ++ Settings.maxStepsVariable ++ ": invalid step limit " ++ quoted value

end Brewin
