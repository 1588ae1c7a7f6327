import Brewin.Blank
import Brewin.Fault

namespace Brewin

/-- The text that a run has still to read and the text that it has written. Reading behind the
unread text fails with `ending`; writing fails once `writesLeft?` has come down to 0. -/
structure Console where
  unread : List Char := []
  ending : ReadFailure := .ended
  written : String := ""
  writesLeft? : Option Nat := none
  deriving DecidableEq, Repr

namespace Console

def ofInput (input : String) : Console :=
  { unread := input.toList }

def canWrite (c : Console) : Bool :=
  c.writesLeft? != some 0

/-- Writes a line, on a console that can be written to. -/
def writeLine (c : Console) (text : String) : Console :=
  { c with written := c.written ++ text ++ "\n", writesLeft? := c.writesLeft?.map (· - 1) }

/-- A line without the carriage returns and line feeds at its end. -/
def bareLine (cs : List Char) : String :=
  String.ofList (dropEndWhile (fun c => c == '\r' || c == '\n') cs)

/-- Reads up to the next line feed. At a regular end an unfinished line is delivered too; at a
broken end it is lost. -/
def readLine (c : Console) : Except ReadFailure String × Console :=
  let line := c.unread.takeWhile (· != '\n')
  match c.unread.dropWhile (· != '\n') with
  | _ :: rest => (.ok (bareLine line), { c with unread := rest })
  | [] =>
    if c.ending = .ended ∧ c.unread ≠ [] then (.ok (bareLine line), { c with unread := [] })
    else (.error c.ending, { c with unread := [] })

/-- Takes the written text away. -/
def drain (c : Console) : String × Console :=
  (c.written, { c with written := "" })

end Console

end Brewin
