namespace Brewin

namespace Yaml

/-- The characters that a document may hold. -/
def isDocumentChar (c : Char) : Bool :=
  let n := c.toNat
  n == 0x09 || n == 0x0a || n == 0x0d || (0x20 ≤ n && n ≤ 0x7e) || n == 0x85 ||
    (0xa0 ≤ n && n ≤ 0xfffd) || 0x10000 ≤ n

def byteOrderMark : Char := '\ufeff'

def isSpaceOrTab (c : Char) : Bool :=
  c == ' ' || c == '\t'

/-- The ends of lines. -/
def isBreak (c : Char) : Bool :=
  c == '\n' || c == '\r' || c == '\x85' || c == '\u2028' || c == '\u2029'

/-- A blank, the end of the line or the end of the text comes next. -/
def atSeparator : List Char → Bool
  | [] => true
  | c :: _ => isSpaceOrTab c || isBreak c

/-- A portion of a text that is taken in at once: the number of characters up to the first one
that a document may not hold, and whether there is none. -/
structure Portion where
  size : Nat
  sound : Bool
  deriving DecidableEq, Repr

/-- The bytes that are taken in at once. -/
def portionBytes : Nat := 512

/-- Cuts a text into portions. `room` is the number of bytes that the current portion has left. -/
def portions (room : Nat) (current : Portion) : List Char → List Portion
  | [] => [current]
  | c :: rest =>
    let add (p : Portion) : Portion :=
      if p.sound && isDocumentChar c then ⟨p.size + 1, true⟩ else ⟨p.size, false⟩
    if room < c.utf8Size then
      current :: portions (portionBytes - c.utf8Size) (add ⟨0, true⟩) rest
    else portions (room - c.utf8Size) (add current) rest

/-- A position in a text that is taken in as it is read. Behind the text stand as many ends as are
asked for. -/
structure Position where
  rest : List Char
  /-- The portions that have not been taken in. -/
  later : List Portion
  /-- How many characters have been taken in and not been read. -/
  ready : Nat := 0
  /-- A byte order mark came next when the last portion was taken in. -/
  marked : Bool := false
  /-- More was needed than the text has in front of a character that a document may not hold. -/
  failed : Bool := false
  index : Nat := 0
  line : Nat := 0
  column : Nat := 0
  /-- The line ends since the last character that is neither a blank nor one of them. -/
  breaks : Nat := 0
  deriving DecidableEq, Repr

/-- Takes in portions until `n` characters are ready; the flag says whether that went well. -/
def takeIn (n : Nat) : List Portion → Nat → Bool × List Portion × Nat
  | [], ready => (true, [], if ready < n then ready + 1 else ready)
  | p :: later, ready =>
    if n ≤ ready then (true, p :: later, ready)
    else if p.sound then takeIn n later (ready + p.size)
    else (false, ⟨0, false⟩ :: later, ready + p.size)

namespace Position

/-- The start of a text. A byte order mark in front is dropped. -/
def ofText (text : String) : Position :=
  match text.toList with
  | [] => ⟨[], [], 0, false, false, 0, 0, 0, 0⟩
  | c :: rest =>
    let (cs, room) :=
      if c = byteOrderMark then (rest, portionBytes - c.utf8Size) else (c :: rest, portionBytes)
    { rest := cs, later := portions room ⟨0, true⟩ cs }

/-- Makes `n` characters ready if that can be done. -/
def look (r : Position) (n : Nat) : Bool × Position :=
  if n ≤ r.ready then (true, r)
  else
    let (done, later, ready) := takeIn n r.later r.ready
    (done, { r with later, ready, marked := r.rest.head? == some byteOrderMark })

/-- Makes `n` characters ready; the reading fails if that cannot be done. -/
def need (r : Position) (n : Nat) : Position :=
  let (done, r) := r.look n
  if done then r else { r with failed := true }

def atEnd (r : Position) : Bool :=
  r.rest.isEmpty

def atBreak (r : Position) : Bool :=
  r.rest.head?.any isBreak

def atBlank (r : Position) : Bool :=
  r.rest.head?.any isSpaceOrTab

/-- A line of dashes starts a document, and a line of points ends one. -/
def atMarker (r : Position) : Bool :=
  r.column == 0 && ["---".toList, "...".toList].contains (r.rest.take 3) &&
    atSeparator (r.rest.drop 3)

/-- Passes a character within a line. -/
def skip (r : Position) : Position :=
  { r with
    rest := r.rest.tail
    ready := r.ready - 1
    index := r.index + 1
    column := r.column + 1
    breaks := if r.atBlank then r.breaks else 0 }

/-- Passes a line end, which may be a carriage return with a line feed. -/
def skipBreak (r : Position) : Position :=
  let n := if r.rest.take 2 = ['\r', '\n'] then 2 else 1
  { r with
    rest := r.rest.drop n
    ready := r.ready - n
    index := r.index + n
    line := r.line + 1
    column := 0
    breaks := r.breaks + 1 }

/-- Passes the rest of the line. -/
def skipLine : Nat → Position → Position
  | 0, r => r
  | fuel + 1, r =>
    let r := r.need 1
    if r.atEnd || r.atBreak then r else skipLine fuel r.skip

/-- Passes blanks and line ends up to the character with the given index. -/
def skipTo (index : Nat) : Nat → Position → Position
  | 0, r => r
  | fuel + 1, r =>
    let r := r.need 1
    if index ≤ r.index || r.atEnd then r
    else if r.atBreak then skipTo index fuel (r.need 2).skipBreak
    else skipTo index fuel r.skip

/-- Passes spaces, and tabs if they count as blanks. -/
def skipSpaces (tabs : Bool) : Nat → Position → Position
  | 0, r => r
  | fuel + 1, r =>
    if r.rest.head? == some ' ' || (tabs && r.rest.head? == some '\t') then
      skipSpaces tabs fuel (r.skip.need 1)
    else r

end Position

/-- How far a comment is looked for. -/
def commentReach : Nat := 512

/-- Looks for a comment behind blanks, and tells how far ahead it starts. The list is the text from
the place `k` characters ahead. Lines are passed if they end in the way of ASCII. -/
def seekComment (overLines : Bool) (k : Nat) : List Char → Position → Option Nat × Position
  | cs, r =>
    let (done, r) := if k < commentReach then r.look (k + 1) else (false, r)
    match cs with
    | [] => (none, r)
    | c :: cs =>
      if !done then (none, r)
      else if isSpaceOrTab c || (overLines && (c == '\n' || c == '\r')) then
        seekComment overLines (k + 1) cs r
      else if overLines && isBreak c && k + 1 < commentReach then (none, (r.look (k + 2)).2)
      else (if c == '#' then some k else none, r)

/-- The next comment behind the end of a comment line. -/
def nextComment (r : Position) : Option Nat × Position :=
  match r.rest with
  | c :: cs => if c == '\n' || c == '\r' then seekComment true 1 cs r else (none, (r.look 2).2)
  | [] => (none, (r.look 2).2)

/-- Passes a comment, and the comments that follow on it. -/
def skipComments : Nat → Position → Position
  | 0, r => r
  | fuel + 1, r =>
    let r := r.skipLine (fuel + 1)
    match nextComment r with
    | (none, r) => r
    | (some k, r) => skipComments fuel (r.skipTo (r.index + k) (fuel + 1))

/-- Passes a comment in the line of a token. -/
def skipLineComment (fuel : Nat) (r : Position) : Position :=
  if 0 < r.breaks then r
  else
    match seekComment false 0 r.rest r with
    | (none, r) => r
    | (some k, r) => (r.skipTo (r.index + k) fuel).skipLine fuel

/-- Goes to the next token, over blanks, comments and line ends, and tells whether a key may start
there. Tabs are blanks where no key may start. -/
def toToken (inFlow : Bool) : Nat → Bool → Position → Bool × Position
  | 0, keys, r => (keys, r)
  | fuel + 1, keys, r =>
    let r := r.need 1
    let r := if r.column = 0 ∧ r.marked then r.skip.need 1 else r
    let r := r.skipSpaces (inFlow || !keys) (fuel + 1)
    let r := if r.rest.head? = some '#' then skipComments (fuel + 1) r else r
    if r.atBreak then toToken inFlow fuel (keys || !inFlow) (r.need 2).skipBreak else (keys, r)

end Yaml

end Brewin
