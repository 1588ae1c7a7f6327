import Brewin.Blank
import Brewin.LogRecord
import Brewin.Paint
import Brewin.Quoted

namespace Brewin

/-- The four letters that a log line starts with. -/
def LogLevel.tag : LogLevel → String
  | debug => "DEBU"
  | info => "INFO"
  | fatal => "FATA"

/-- The colour of the tag, among the 256 of a terminal. -/
def LogLevel.hue : LogLevel → Nat
  | debug => 63
  | info => 86
  | fatal => 134

def LogValue.plain : LogValue → String
  | number n => toString n
  | text s => s

/-- Characters that a bare value of a log line may not hold. -/
def needsQuotes (c : Char) : Bool :=
  c == '"' || c == '=' || isBlank c || !isPrintable c || c == '\ufffd'

/-- One character of a value. Only characters that cannot be printed are escaped, and quotes if
the value stands between quotes. -/
def logChar (inQuotes : Bool) (c : Char) : String :=
  if inQuotes && c == '"' then "\\\""
  else if isPrintable c then c.toString
  else escapeSequence 0x20 c

def logText (inQuotes : Bool) (cs : List Char) : String :=
  String.join (cs.map (logChar inQuotes))

/-- Cuts behind every line feed; a last piece that is empty is left out. -/
def logPieces : List Char → List (List Char)
  | [] => []
  | c :: rest =>
    if c = '\n' then [] :: logPieces rest
    else
      match logPieces rest with
      | piece :: pieces => (c :: piece) :: pieces
      | [] => [[c]]

/-- Field names and marks are shown faint. -/
def faint (colored : Bool) (text : String) : String :=
  colorize colored (escape "2") text

/-- A field; a value of several lines is set below its name, each line behind a bar. -/
def logField (colored : Bool) (last : Bool) (name : String) (value : LogValue) : String :=
  let text := value.plain
  let mark := faint colored name ++ faint colored "="
  if text.toList.contains '\n' then
    let lines := (logPieces text.toList).map fun piece =>
      faint colored "  │ " ++ logText false piece
    let closed := !last || text.toList.getLast? == some '\n'
    "\n  " ++ mark ++ "\n" ++ "\n".intercalate lines ++ (if closed then "\n" else "")
  else if text = "" then " " ++ mark ++ "\"\""
  else if text.toList.any needsQuotes then
    " " ++ mark ++ "\"" ++ logText true text.toList ++ "\""
  else " " ++ mark ++ text

def logFields (colored : Bool) : List (String × LogValue) → String
  | [] => ""
  | [(name, value)] => logField colored true name value
  | (name, value) :: rest => logField colored false name value ++ logFields colored rest

/-- The line of a record. -/
def logLine (colored : Bool) (r : LogRecord) : String :=
  colorize colored (escape ("1;38;5;" ++ toString r.level.hue)) r.level.tag ++ " " ++
    colorize colored (escape "1;2") (logName ++ ":") ++ " " ++ r.message ++
    logFields colored r.fields ++ "\n"

end Brewin
