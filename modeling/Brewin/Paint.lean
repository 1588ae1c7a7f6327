namespace Brewin

inductive Color
  | red | brightRed | green | yellow | blue | cyan | gray | bold
  deriving DecidableEq, Repr

/-- The number of a colour in a terminal's escape sequences. -/
def Color.number : Color → Nat
  | bold => 1
  | red => 31
  | green => 32
  | yellow => 33
  | blue => 34
  | cyan => 36
  | gray => 90
  | brightRed => 91

/-- The escape sequence with the given parameters. -/
def escape (parameters : String) : String :=
  "\x1b[" ++ parameters ++ "m"

/-- Puts text between a start sequence and the reset, if colours are on. -/
def colorize (colored : Bool) (start text : String) : String :=
  if colored then start ++ text ++ escape "0" else text

def paint (colored : Bool) (color : Color) (text : String) : String :=
  colorize colored (escape (toString color.number)) text

/-- A line number. -/
def paintLine (colored : Bool) (line : Int) : String :=
  paint colored .cyan (toString line)

/-- A fault with the source line at which it arose. -/
def faultReport (colored : Bool) (label : String) (line : Int) (message source : String) : String :=
  paint colored .brightRed (paint colored .bold label) ++ " on line " ++ paintLine colored line ++
    ": " ++ message ++ "\n" ++ paint colored .gray source

end Brewin
