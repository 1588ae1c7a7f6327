import Brewin.Stack
import Brewin.TokenClass

namespace Brewin

/-- Where an if line can go: behind its only else, or to its endif. -/
structure Branch where
  elseLine? : Option Nat
  endLine : Nat
  deriving DecidableEq, Repr

/-- The partners of the lines that open and close blocks. -/
structure Flow where
  branches : List (Nat × Branch) := []
  elses : List (Nat × Nat) := []
  loops : List (Nat × Nat) := []
  deriving DecidableEq, Repr

/-- The class of the token a line starts with. -/
def leadingClass : List String → TokenClass
  | [] => .endOfLine
  | first :: _ => classify first

/-- An if that waits for its endif, with the else lines met so far. -/
structure OpenIf where
  line : Nat
  elses : List Nat := []
  deriving DecidableEq, Repr

/-- The state of the matching in front of a line. -/
structure Matching where
  line : Nat := 0
  ifs : Stack OpenIf := []
  whiles : Stack Nat := []
  flow : Flow := {}
  deriving DecidableEq, Repr

namespace Matching

/-- An else counts only if its if has no other. -/
def closeIf (m : Matching) (opened : OpenIf) (ifs : Stack OpenIf) : Matching :=
  match opened.elses with
  | [elseLine] =>
    { m with
      ifs := ifs
      flow := { m.flow with
        branches := (opened.line, ⟨some elseLine, m.line⟩) :: m.flow.branches
        elses := (elseLine, m.line) :: m.flow.elses } }
  | _ =>
    { m with
      ifs := ifs
      flow := { m.flow with branches := (opened.line, ⟨none, m.line⟩) :: m.flow.branches } }

def closeWhile (m : Matching) (opened : Nat) (whiles : Stack Nat) : Matching :=
  { m with
    whiles := whiles
    flow := { m.flow with loops := (m.line, opened) :: (opened, m.line) :: m.flow.loops } }

/-- Takes in the current line. A closing line without a partner is passed over. -/
def visit (m : Matching) (c : TokenClass) : Matching :=
  match c with
  | .keyword .ifThen => { m with ifs := m.ifs.push { line := m.line } }
  | .keyword .orElse =>
    match m.ifs with
    | [] => m
    | opened :: ifs => { m with ifs := { opened with elses := opened.elses ++ [m.line] } :: ifs }
  | .keyword .endIf =>
    match m.ifs with
    | [] => m
    | opened :: ifs => m.closeIf opened ifs
  | .keyword .whileDo => { m with whiles := m.whiles.push m.line }
  | .keyword .endWhile =>
    match m.whiles with
    | [] => m
    | opened :: whiles => m.closeWhile opened whiles
  | _ => m

def advance (m : Matching) (tokens : List String) : Matching :=
  { m.visit (leadingClass tokens) with line := m.line + 1 }

end Matching

namespace Flow

/-- Matches the blocks of a whole token stream. -/
def resolve (stream : List (List String)) : Flow :=
  (stream.foldl Matching.advance {}).flow

def branch? (flow : Flow) (line : Nat) : Option Branch :=
  flow.branches.lookup line

def elseEnd? (flow : Flow) (line : Nat) : Option Nat :=
  flow.elses.lookup line

def loopPartner? (flow : Flow) (line : Nat) : Option Nat :=
  flow.loops.lookup line

/-- The number of recorded lines. -/
def size (flow : Flow) : Nat :=
  flow.branches.length + flow.elses.length + flow.loops.length

/-- The jump targets of a line in words; empty for a line that does not jump. -/
def describe (flow : Flow) (line : Nat) : String :=
  match flow.branch? line with
  | some ⟨some elseLine, endLine⟩ => "else " ++ toString elseLine ++ ", endif " ++ toString endLine
  | some ⟨none, endLine⟩ => "endif " ++ toString endLine
  | none =>
    match flow.elseEnd? line with
    | some endLine => "endif " ++ toString endLine
    | none =>
      match flow.loopPartner? line with
      | some partner =>
        (if line < partner then "endwhile " else "while ") ++ toString partner
      | none => ""

end Flow

end Brewin
