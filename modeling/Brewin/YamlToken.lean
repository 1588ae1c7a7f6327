import Brewin.YamlText

namespace Brewin

namespace Yaml

inductive Token
  | streamStart | streamEnd
  | documentStart | documentEnd
  | mappingStart | sequenceStart | blockEnd
  | item | key | value
  | flowMappingStart | flowMappingEnd | flowSequenceStart | flowSequenceEnd | flowItem
  | scalar (s : YamlScalar)
  deriving DecidableEq, Repr

/-- A token that turns out to be a key if a colon follows in its line. -/
structure PossibleKey where
  /-- It is an error if no colon follows. -/
  required : Bool
  /-- The number of the token. -/
  number : Nat
  index : Nat
  line : Nat
  column : Nat
  deriving DecidableEq, Repr

/-- How far behind the start of a key its colon may stand. -/
def keyReach : Nat := 1024

def PossibleKey.reaches (k : PossibleKey) (r : Position) : Bool :=
  k.line == r.line && r.index ≤ k.index + keyReach

/-- The tokens that have been found and the text behind them. -/
structure Progress where
  position : Position
  tokens : Array Token := #[.streamStart]
  /-- The columns of the open block collections, the innermost first. -/
  indents : List Nat := []
  /-- The possible keys of the open flow collections, the innermost first, and of the block
  style around them. -/
  possible : List (Option PossibleKey) := [none]
  keys : Bool := true
  deriving DecidableEq, Repr

namespace Progress

def inFlow (s : Progress) : Bool :=
  1 < s.possible.length

def push (s : Progress) (t : Token) : Progress :=
  { s with tokens := s.tokens.push t }

/-- Passes `n` characters that make a token. -/
def pushSkip (s : Progress) (n : Nat) (t : Token) : Progress :=
  { s with tokens := s.tokens.push t, position := n.repeat Position.skip s.position }

/-- Ends the block collections that start behind a column. -/
def closeBehind (s : Progress) (column : Nat) : Progress :=
  if s.inFlow then s
  else
    { s with
      tokens := s.tokens ++ (s.indents.takeWhile (column < ·)).map fun _ => Token.blockEnd
      indents := s.indents.dropWhile (column < ·) }

def closeAll (s : Progress) : Progress :=
  if s.inFlow then s
  else { s with tokens := s.tokens ++ s.indents.map fun _ => Token.blockEnd, indents := [] }

/-- Starts a block collection in front of the token with the given number, if its column is
behind that of the collection around it. -/
def openAt (s : Progress) (column number : Nat) (t : Token) : Progress :=
  if s.inFlow || s.indents.head?.any (column ≤ ·) then s
  else
    { s with
      tokens := s.tokens.insertIdxIfInBounds number t
      indents := column :: s.indents }

/-- Gives up the possible key. -/
def dropKey? (s : Progress) : Option Progress :=
  match s.possible with
  | some k :: outer => if k.required then none else some { s with possible := none :: outer }
  | _ => some s

/-- Takes the next token for a possible key, where keys may start. -/
def saveKey? (s : Progress) : Option Progress :=
  if !s.keys then some s
  else
    s.dropKey?.map fun s =>
      { s with
        possible := some {
          required := !s.inFlow && s.indents.head? == some s.position.column
          number := s.tokens.size
          index := s.position.index
          line := s.position.line
          column := s.position.column } :: s.possible.tail }

/-- The possible key, if a colon at this place makes it one. -/
def keyHere? (s : Progress) : Option (Option PossibleKey) :=
  match s.possible with
  | some k :: _ =>
    if k.reaches s.position then some (some k) else if k.required then none else some none
  | _ => some none

def endStream? (s : Progress) : Option Progress :=
  s.closeAll.dropKey?.map fun s => { s with keys := false }.push .streamEnd

def marker? (s : Progress) (t : Token) : Option Progress :=
  s.closeAll.dropKey?.map fun s => { s with keys := false }.pushSkip 3 t

def openFlow? (s : Progress) (t : Token) : Option Progress :=
  s.saveKey?.map fun s => { s with possible := none :: s.possible, keys := true }.pushSkip 1 t

def closeFlow? (s : Progress) (t : Token) : Option Progress :=
  s.dropKey?.map fun s =>
    { s with
      possible := if s.inFlow then s.possible.tail else s.possible
      keys := false }.pushSkip 1 t

def flowItem? (s : Progress) : Option Progress :=
  s.dropKey?.map fun s => { s with keys := true }.pushSkip 1 .flowItem

/-- A dash or a question mark in front of a separator starts an item or a key of a block
collection. -/
def blockMark? (s : Progress) (start t : Token) : Option Progress :=
  if !s.inFlow && !s.keys then none
  else
    (s.openAt s.position.column s.tokens.size start).dropKey?.map fun s =>
      { s with keys := t == Token.item || !s.inFlow }.pushSkip 1 t

/-- A colon makes the token in front of it a key, or stands for an empty one. -/
def colon? (s : Progress) : Option Progress :=
  match s.keyHere? with
  | none => none
  | some (some k) =>
    let s := { s with
      tokens := s.tokens.insertIdxIfInBounds k.number .key
      possible := none :: s.possible.tail
      keys := false }
    some ((s.openAt k.column k.number .mappingStart).pushSkip 1 .value)
  | some none =>
    if !s.inFlow && !s.keys then none
    else
      let s := { s with possible := none :: s.possible.tail, keys := !s.inFlow }
      some ((s.openAt s.position.column s.tokens.size .mappingStart).pushSkip 1 .value)

def plain? (fuel : Nat) (s : Progress) : Option Progress :=
  s.saveKey?.bind fun s =>
    let indent := match s.indents with
      | [] => 0
      | column :: _ => column + 1
    (takePlain? indent s.inFlow fuel [] {} s.position).map fun (text, broken, position) =>
      { s with position, keys := broken }.push (.scalar (.plain (String.ofList text)))

def quoted? (fuel : Nat) (s : Progress) (quote : Char) : Option Progress :=
  s.saveKey?.bind fun s =>
    (takeQuoted? quote fuel [] s.position.skip).map fun (text, position) =>
      { s with position, keys := false }.push (.scalar (.quoted (String.ofList text)))

/-- The characters with a meaning of their own at the start of a token. -/
def isIndicator (c : Char) : Bool :=
  "-?:,[]\x7b\x7d#&*!|>'\"%@`".toList.contains c

/-- Takes the token that starts here, other than a marker or the end. Anchors, tags, literal and
folded blocks and directives are refused. -/
def token? (fuel : Nat) (s : Progress) (c : Char) (rest : List Char) : Option Progress :=
  if c == '[' then s.openFlow? .flowSequenceStart
  else if c == '\x7b' then s.openFlow? .flowMappingStart
  else if c == ']' then s.closeFlow? .flowSequenceEnd
  else if c == '\x7d' then s.closeFlow? .flowMappingEnd
  else if c == ',' then s.flowItem?
  else if c == '-' && atSeparator rest then s.blockMark? .sequenceStart .item
  else if c == '?' && (s.inFlow || atSeparator rest) then s.blockMark? .mappingStart .key
  else if c == ':' && (s.inFlow || atSeparator rest) then s.colon?
  else if c == '"' || c == '\'' then s.quoted? fuel c
  else if c == '-' || c == '?' || c == ':' then s.plain? fuel
  else if isSpaceOrTab c || isIndicator c then none
  else s.plain? fuel

/-- Passes a comment behind a token, except behind a dash. -/
def withComment (fuel : Nat) (s : Progress) : Progress :=
  if s.tokens.back? == some .item then s
  else { s with position := skipLineComment fuel s.position }

/-- Finds the next token, and with it the block collections that end in front of it. -/
def fetch? (fuel : Nat) (s : Progress) : Option Progress :=
  let (keys, position) := toToken s.inFlow fuel s.keys (s.position.need 1)
  let s := { s with position, keys }.closeBehind position.column
  let s := { s with position := s.position.need 4 }
  let next? :=
    match s.position.rest with
    | [] => s.endStream?
    | c :: rest =>
      if s.position.atMarker then s.marker? (if c == '-' then .documentStart else .documentEnd)
      else (s.token? fuel c rest).map (withComment fuel)
  next?.filter fun s => !s.position.failed

end Progress

/-- The tokens of a text as far as they could be found. -/
structure Tokens where
  found : Array Token
  complete : Bool
  /-- The numbers of tokens that may still turn out to be keys. -/
  undecided : List Nat
  deriving DecidableEq, Repr

namespace Tokens

/-- Finds tokens up to the end or the first error. -/
def collect (fuel : Nat) : Nat → Progress → Tokens
  | 0, s => ⟨s.tokens, false, []⟩
  | n + 1, s =>
    match s.fetch? fuel with
    | none =>
      let number? (k? : Option PossibleKey) : Option Nat :=
        (k?.filter (·.reaches s.position)).map (·.number)
      ⟨s.tokens, false, s.possible.filterMap number?⟩
    | some s => if s.tokens.back? == some .streamEnd then ⟨s.tokens, true, []⟩ else collect fuel n s

def ofText (text : String) : Tokens :=
  let position := Position.ofText text
  let fuel := position.rest.length + 2
  collect fuel fuel { position }

/-- The token with the number `i`. Two more have to be found before it is known, and it has to be
decided whether it is a key. -/
def get? (ts : Tokens) (i : Nat) : Option Token :=
  if ts.complete then some (ts.found.getD i .streamEnd)
  else if i + 2 < ts.found.size && !ts.undecided.contains i then ts.found[i]?
  else none

end Tokens

end Yaml

end Brewin
