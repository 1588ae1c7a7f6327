import Brewin.Flow
import Brewin.FunctionTable
import Brewin.Statement
import Brewin.TokenScan

namespace Brewin

structure Line where
  tokens : List String
  statement : Statement
  deriving DecidableEq, Repr

def Line.ofTokens (tokens : List String) : Line :=
  ⟨tokens, Statement.decode tokens⟩

/-- A source in the form in which it is executed. -/
structure Program where
  lines : Array Line
  flow : Flow
  functions : FunctionTable
  deriving DecidableEq, Repr

namespace Program

def ofStream (stream : List (List String)) : Program where
  lines := (stream.map Line.ofTokens).toArray
  flow := Flow.resolve stream
  functions := FunctionTable.ofStream stream

/-- Every source can be loaded; faults show only when a line is reached. -/
def load (source : List String) : Program :=
  ofStream (source.map tokenize)

def size (p : Program) : Nat :=
  p.lines.size

/-- The statement at a line, if the program has that line. -/
def at? (p : Program) (line : Int) : Option Statement :=
  match line with
  | .ofNat n => p.lines[n]?.map (·.statement)
  | .negSucc _ => none

end Program

end Brewin
