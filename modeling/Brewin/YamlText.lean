import Brewin.YamlPosition

namespace Brewin

/-- A scalar of a YAML document. -/
inductive YamlScalar
  | plain (text : String)
  | quoted (text : String)
  deriving DecidableEq, Repr

def YamlScalar.text : YamlScalar → String
  | plain text => text
  | quoted text => text

namespace Yaml

/-- Blanks and line ends between two words of a scalar. -/
structure Fold where
  blanks : List Char := []
  breaks : List Char := []
  /-- The first line end was escaped. -/
  escaped : Bool := false
  deriving DecidableEq, Repr

namespace Fold

/-- A line has ended. -/
def broken (f : Fold) : Bool :=
  f.escaped || !f.breaks.isEmpty

/-- What a fold stands for: blanks for themselves, a line end for a space, and further line ends
for themselves. -/
def text (f : Fold) : List Char :=
  match f.breaks with
  | [] => if f.escaped then [] else f.blanks
  | c :: more =>
    if f.escaped || c != '\n' then c :: more
    else if more.isEmpty then [' ']
    else more

end Fold

/-- The line end that counts for another one. -/
def plainBreak (c : Char) : Char :=
  if c == '\r' || c == '\x85' then '\n' else c

/-- Passes blanks and line ends. A tab may not stand in front of the column `indent` of a new
line. -/
def takeFold? (indent : Nat) : Nat → Fold → Position → Option (Fold × Position)
  | 0, f, r => some (f, r)
  | fuel + 1, f, r =>
    match r.rest with
    | [] => some (f, r)
    | c :: _ =>
      if isBreak c then
        takeFold? indent fuel { f with blanks := [], breaks := f.breaks ++ [plainBreak c] }
          ((r.need 2).skipBreak.need 1)
      else if !isSpaceOrTab c then some (f, r)
      else if f.broken && c == '\t' && r.column < indent then none
      else
        takeFold? indent fuel (if f.broken then f else { f with blanks := f.blanks ++ [c] })
          (r.skip.need 1)

def isFlowIndicator (c : Char) : Bool :=
  ",?[]\x7b\x7d".toList.contains c

/-- Takes the characters of a plain scalar up to a blank or to what ends it. -/
def takeWord (inFlow : Bool) : Nat → Position → List Char × Position
  | 0, r => ([], r)
  | fuel + 1, r =>
    match r.rest with
    | [] => ([], r)
    | c :: rest =>
      if isSpaceOrTab c || isBreak c || (c == ':' && atSeparator rest) ||
          (inFlow && isFlowIndicator c) then ([], r)
      else
        let (word, r) := takeWord inFlow fuel (r.skip.need 2)
        (c :: word, r)

/-- Takes a plain scalar. In block style it goes on over lines that start at the column `indent`
or behind. The flag says whether a line has ended behind it. -/
def takePlain? (indent : Nat) (inFlow : Bool) :
    Nat → List Char → Fold → Position → Option (List Char × Bool × Position)
  | 0, text, f, r => some (text, f.broken, r)
  | fuel + 1, text, f, r =>
    let r := r.need 4
    if r.atMarker || r.rest.head? == some '#' then some (text, f.broken, r)
    else
      let (word, r) := takeWord inFlow (fuel + 1) r
      let (text, f) := if word.isEmpty then (text, f) else (text ++ f.text ++ word, {})
      if !r.atBlank && !r.atBreak then some (text, f.broken, r)
      else
        match takeFold? indent (fuel + 1) f (r.need 1) with
        | none => none
        | some (f, r) =>
          if !inFlow && r.column < indent then some (text, f.broken, r)
          else takePlain? indent inFlow fuel text f r

/-- The characters that a letter behind a backslash stands for. -/
def escape? (c : Char) : Option Char :=
  match c with
  | '0' => some '\x00'
  | 'a' => some '\x07'
  | 'b' => some '\x08'
  | 't' | '\t' => some '\t'
  | 'n' => some '\n'
  | 'v' => some '\x0b'
  | 'f' => some '\x0c'
  | 'r' => some '\r'
  | 'e' => some '\x1b'
  | ' ' | '"' | '\'' | '\\' => some c
  | 'N' => some '\x85'
  | '_' => some '\xa0'
  | 'L' => some '\u2028'
  | 'P' => some '\u2029'
  | _ => none

/-- How many digits follow on a letter that announces a code point. -/
def codeLength? (c : Char) : Option Nat :=
  match c with
  | 'x' => some 2
  | 'u' => some 4
  | 'U' => some 8
  | _ => none

def hexDigit? (c : Char) : Option Nat :=
  if c.isDigit then some (c.toNat - '0'.toNat)
  else if 'a' ≤ c ∧ c ≤ 'f' then some (c.toNat - 'a'.toNat + 10)
  else if 'A' ≤ c ∧ c ≤ 'F' then some (c.toNat - 'A'.toNat + 10)
  else none

/-- The character whose code point stands in the given digits. -/
def codePoint? (length : Nat) (cs : List Char) : Option Char :=
  if cs.length < length then none
  else
    match (cs.take length).foldlM (fun n c => (hexDigit? c).map (16 * n + ·)) 0 with
    | some n => if h : n.isValidChar then some (Char.ofNatAux n h) else none
    | none => none

/-- Takes an escape sequence, except an escaped line end. -/
def takeEscape? (r : Position) : Option (Char × Position) :=
  match r.rest with
  | _ :: c :: _ =>
    match escape? c, codeLength? c with
    | some d, _ => some (d, r.skip.skip)
    | none, some length =>
      let r := r.skip.skip.need length
      (codePoint? length r.rest).map fun d => (d, length.repeat Position.skip r)
    | none, none => none
  | _ => none

/-- Takes the characters of a quoted scalar up to a blank, an escaped line end or the closing
quote. -/
def takeQuotedWord? (quote : Char) : Nat → Position → Option (List Char × Fold × Position)
  | 0, _ => none
  | fuel + 1, r =>
    let go (c : Char) (r : Position) : Option (List Char × Fold × Position) :=
      (takeQuotedWord? quote fuel (r.need 2)).map fun (word, after) => (c :: word, after)
    match r.rest with
    | [] => some ([], {}, r)
    | c :: rest =>
      if isSpaceOrTab c || isBreak c then some ([], {}, r)
      else if c == '\'' && quote == '\'' && rest.head? == some '\'' then go '\'' r.skip.skip
      else if c == quote then some ([], {}, r)
      else if c == '\\' && quote == '"' then
        if rest.head?.any isBreak then
          some ([], { escaped := true }, (r.need 3).skip.skipBreak)
        else (takeEscape? r).bind fun (d, r) => go d r
      else go c r.skip

/-- Takes a quoted scalar behind its opening quote. -/
def takeQuoted? (quote : Char) : Nat → List Char → Position → Option (List Char × Position)
  | 0, _, _ => none
  | fuel + 1, text, r =>
    let r := r.need 4
    if r.atMarker || r.atEnd then none
    else
      match takeQuotedWord? quote (fuel + 1) r with
      | none => none
      | some (word, f, r) =>
        let r := r.need 1
        if r.rest.head? == some quote then some (text ++ word, r.skip)
        else
          match takeFold? 0 (fuel + 1) f r with
          | none => none
          | some (f, r) => takeQuoted? quote fuel (text ++ word ++ f.text) r

end Yaml

end Brewin
