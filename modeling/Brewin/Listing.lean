import Brewin.Paint
import Brewin.Program

namespace Brewin

/-- One line of a listing; lines that do nothing are left out. -/
def listedLine? (colored : Bool) (flow : Flow) (index : Nat) (statement : Statement) :
    Option String :=
  if statement = .nop then none
  else
    let jump := flow.describe index
    let jump := if jump = "" then "" else paint colored .gray (" -> " ++ jump)
    some (paintLine colored index ++ ": " ++ paint colored .yellow statement.text ++ jump)

def listedParam (p : Param) : String :=
  p.name ++ ": " ++ (if p.byRef then "ref " else "") ++ p.type

def listedFunction (colored : Bool) (f : Definition) : String :=
  paintLine colored f.line ++ " " ++ paint colored .cyan f.name ++ "(" ++
    paint colored .blue (", ".intercalate (f.params.map listedParam)) ++ ") " ++
    paint colored .blue f.returnType

/-- The lines of a listing: the statements with their jump targets, then the functions. -/
def listingLines (colored : Bool) (p : Program) : List String :=
  [paint colored .green "=== Decoded Program ==="] ++
    (if p.size = 0 then [paint colored .gray "No code loaded."] else []) ++
    p.lines.toList.zipIdx.filterMap
      (fun (line, index) => listedLine? colored p.flow index line.statement) ++
    [paint colored .green "\n=== Functions ==="] ++
    p.functions.functions.map (listedFunction colored)

/-- The text of lines that each end in a line feed. -/
def linesText (lines : List String) : String :=
  String.join (lines.map (· ++ "\n"))

def listing (colored : Bool) (p : Program) : String :=
  linesText (listingLines colored p)

end Brewin
