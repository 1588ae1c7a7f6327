import Brewin.Settings

namespace Brewin

/-- The flags of a command line; an absent value means that the flag was not given. -/
structure Flags where
  help : Bool := false
  verbose? : Option Bool := none
  noColor? : Option Bool := none
  trace? : Option Bool := none
  maxSteps? : Option Int := none
  configFile : String := ""
  deriving DecidableEq, Repr

/-- Why a command line is not accepted, or why it asks for the usage only. -/
inductive FlagError
  | usage
  | badForm (argument : String)
  | undefined (name : String)
  | missingValue (name : String)
  | badTruth (value name : String)
  | badNumber (value name : String) (error : NumeralError)
  deriving DecidableEq, Repr

def NumeralError.text : NumeralError → String
  | malformed => "parse error"
  | outOfRange => "value out of range"

def FlagError.message : FlagError → String
  | usage => ""
  | badForm argument => "bad flag syntax: " ++ argument
  | undefined name => "flag provided but not defined: -" ++ name
  | missingValue name => "flag needs an argument: -" ++ name
  | badTruth value name =>
    "invalid boolean value " ++ quoted value ++ " for -" ++ name ++ ": parse error"
  | badNumber value name error =>
    "invalid value " ++ quoted value ++ " for flag -" ++ name ++ ": " ++ error.text

namespace Flags

/-- What a single argument is to the flags in front of the operands. -/
inductive Argument
  | operand
  | terminator
  | bad
  | flag (name : String) (value? : Option String)
  deriving DecidableEq, Repr

/-- Splits a flag at its first equals sign, which does not stand in front. -/
def splitFlag : List Char → Argument
  | [] | '-' :: _ | '=' :: _ => .bad
  | cs =>
    let name := String.ofList (cs.takeWhile (· != '='))
    match cs.dropWhile (· != '=') with
    | _ :: value => .flag name (some (String.ofList value))
    | [] => .flag name none

/-- One or two dashes mark a flag, two alone end the flags. -/
def readArgument (argument : String) : Argument :=
  match argument.toList with
  | ['-', '-'] => .terminator
  | '-' :: '-' :: cs => splitFlag cs
  | ['-'] => .operand
  | '-' :: cs => splitFlag cs
  | _ => .operand

/-- Sets a flag that is a truth value; none if there is no such flag. -/
def setTruth? (f : Flags) (name : String) (b : Bool) : Option Flags :=
  if name = "h" then some { f with help := b }
  else if name = "v" then some { f with verbose? := some b }
  else if name = "n" then some { f with noColor? := some b }
  else if name = "t" then some { f with trace? := some b }
  else none

/-- Sets a flag that takes a value. -/
def setValue (f : Flags) (name value : String) : Except FlagError Flags :=
  if name = "s" then
    match readPrefixed value with
    | .ok n => .ok { f with maxSteps? := some n }
    | .error e => .error (.badNumber value name e)
  else .ok { f with configFile := value }

def takesValue (name : String) : Bool :=
  name = "s" || name = "c"

/-- Sets a flag from the text behind its equals sign, if it has one. -/
def setFlag (f : Flags) (name : String) (value? : Option String) : Except FlagError Flags :=
  if takesValue name then
    match value? with
    | some value => f.setValue name value
    | none => .error (.missingValue name)
  else
    match f.setTruth? name true with
    | none => .error (if name = "help" then .usage else .undefined name)
    | some g =>
      match value? with
      | none => .ok g
      | some value =>
        match Settings.readTruth? value with
        | some b => .ok ((f.setTruth? name b).getD g)
        | none => .error (.badTruth value name)

/-- Reads the flags in front of the operands, and gives the operands. A flag that takes a value
may find it in the next argument. -/
def parse (f : Flags) : List String → Except FlagError (Flags × List String)
  | [] => .ok (f, [])
  | argument :: rest =>
    match readArgument argument with
    | .operand => .ok (f, argument :: rest)
    | .terminator => .ok (f, rest)
    | .bad => .error (.badForm argument)
    | .flag name value? =>
      match takesValue name, value?, rest with
      | true, none, value :: rest =>
        match f.setFlag name (some value) with
        | .ok f => f.parse rest
        | .error e => .error e
      | _, value?, rest =>
        match f.setFlag name value? with
        | .ok f => f.parse rest
        | .error e => .error e

/-- Flags go before the settings. -/
def merge (f : Flags) (s : Settings) : Settings where
  verbose := f.verbose?.getD s.verbose
  noColor := f.noColor?.getD s.noColor
  trace := f.trace?.getD s.trace
  maxSteps := f.maxSteps?.getD s.maxSteps

end Flags

end Brewin
