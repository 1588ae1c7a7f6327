import Brewin.Blank
import Brewin.SourceLines

namespace Brewin

namespace DotEnv

/-- Blanks within a line. -/
def isGap (c : Char) : Bool :=
  c == '\t' || c == '\x0b' || c == '\x0c' || c == '\r' || c == ' ' || c == '\x85' || c == '\xa0'

/-- The letters and numbers of Latin-1 behind ASCII. -/
def isUpperLatin (n : Nat) : Bool :=
  [0xaa, 0xb2, 0xb3, 0xb5, 0xb9, 0xba, 0xbc, 0xbd, 0xbe].contains n ||
    (0xc0 ≤ n && n != 0xd7 && n != 0xf7)

/-- Letters, numbers, underscores and points make a name; gaps may stand in it. A name is read
byte by byte, so that each byte of a character in UTF-8 counts as a character of Latin-1. -/
def isNameByte (b : UInt8) : Bool :=
  let c := Char.ofNat b.toNat
  c.isAlphanum || c == '_' || c == '.' || isGap c || isUpperLatin b.toNat

def isNameChar (c : Char) : Bool :=
  (String.utf8EncodeChar c).all isNameByte

/-- Goes to the next assignment, over blanks and comment lines. The flag says whether a comment
is being passed. -/
def skipToStatement : Bool → List Char → List Char
  | _, [] => []
  | true, c :: rest => skipToStatement (c != '\n') rest
  | false, c :: rest =>
    if isBlank c then skipToStatement false rest
    else if c = '#' then skipToStatement true rest
    else c :: rest

/-- Drops the word export in front of a name. -/
def dropExport (cs : List Char) : List Char :=
  match cs with
  | 'e' :: 'x' :: 'p' :: 'o' :: 'r' :: 't' :: c :: rest =>
    if isGap c then rest.dropWhile isGap else cs
  | _ => cs

/-- Reads a name up to the equals sign or colon behind it. A text that ends first is a value
without a name. -/
def takeName? (cs : List Char) : Option (String × List Char) :=
  let name := cs.takeWhile isNameChar
  match cs.dropWhile isNameChar with
  | [] => if cs = [] then none else some ("", cs)
  | c :: rest =>
    if c = '=' ∨ c = ':' then some (String.ofList (dropEndWhile isBlank name), rest) else none

/-- Finds the closing quote: the first one without a backslash in front. -/
def takeQuoted? (quote : Char) : Char → List Char → Option (List Char × List Char)
  | _, [] => none
  | previous, c :: rest =>
    if c = quote ∧ previous ≠ '\\' then some ([], rest)
    else (takeQuoted? quote c rest).map fun (inner, rest) => (c :: inner, rest)

/-- Cuts a bare value at its last comment sign behind a gap. -/
def cutComment (cs : List Char) : List Char :=
  let cuts := (List.range cs.length).filter fun i =>
    0 < i && cs[i]? == some '#' && cs[i - 1]?.any isGap
  match cuts.getLast? with
  | some i => cs.take i
  | none => cs

/-- Escapes between double quotes: line feeds and carriage returns have letters, and a backslash
before a dollar sign stays for the expansion of references. -/
def unescape : List Char → List Char
  | '\\' :: 'n' :: rest => '\n' :: unescape rest
  | '\\' :: 'r' :: rest => '\r' :: unescape rest
  | '\\' :: '$' :: rest => '\\' :: '$' :: unescape rest
  | '\\' :: c :: rest => c :: unescape rest
  | c :: rest => c :: unescape rest
  | [] => []

def isVariableChar (c : Char) : Bool :=
  c.isUpper || c.isDigit || c == '_'

/-- Reads a reference behind its dollar sign: the text of the reference, the name in it, and the
rest. -/
def takeReference (cs : List Char) : List Char × String × List Char :=
  let (round, cs) := if cs.head? = some '(' then (['('], cs.tail) else ([], cs)
  let (left, cs) := if cs.head? = some '\x7b' then (['\x7b'], cs.tail) else ([], cs)
  let name := cs.takeWhile isVariableChar
  let cs := cs.dropWhile isVariableChar
  let (right, cs) := if cs.head? = some '\x7d' then (['\x7d'], cs.tail) else ([], cs)
  (round ++ left ++ name ++ right, String.ofList name, cs)

/-- Replaces references to what was assigned further up. A backslash protects a dollar sign. -/
def expand (known : List (String × String)) : Nat → List Char → List Char
  | 0, cs => cs
  | _, [] => []
  | fuel + 1, '\\' :: '$' :: rest =>
    let (reference, _, rest) := takeReference rest
    '$' :: reference ++ expand known fuel rest
  | fuel + 1, '$' :: rest =>
    let (reference, name, rest) := takeReference rest
    let text := if name = "" then '$' :: reference else ((known.lookup name).getD "").toList
    text ++ expand known fuel rest
  | fuel + 1, c :: rest => c :: expand known fuel rest

def expandAll (known : List (String × String)) (cs : List Char) : String :=
  String.ofList (expand known cs.length cs)

def isLineEnd (c : Char) : Bool :=
  c == '\n' || c == '\r'

def trimChar (quote : Char) (cs : List Char) : List Char :=
  dropEndWhile (· == quote) (cs.dropWhile (· == quote))

/-- Reads a value: between quotes, or bare to the end of the line. -/
def takeValue? (known : List (String × String)) (cs : List Char) :
    Option (String × List Char) :=
  match cs with
  | '"' :: rest =>
    (takeQuoted? '"' '"' rest).map fun (inner, rest) =>
      (expandAll known (unescape (trimChar '"' inner)), rest)
  | '\'' :: rest =>
    (takeQuoted? '\'' '\'' rest).map fun (inner, rest) =>
      (String.ofList (trimChar '\'' inner), rest)
  | _ =>
    let line := cutComment (cs.takeWhile fun c => !isLineEnd c)
    let bare := dropEndWhile isGap (line.dropWhile isGap)
    some (expandAll known bare, cs.dropWhile fun c => !isLineEnd c)

/-- Reads assignments, with the latest in front. Each takes at least one character. -/
def assignments? : Nat → List (String × String) → List Char → Option (List (String × String))
  | 0, known, _ => some known
  | fuel + 1, known, cs =>
    match skipToStatement false cs with
    | [] => some known
    | cs =>
      match takeName? (dropExport cs) with
      | none => none
      | some (name, cs) =>
        match takeValue? known (cs.dropWhile isGap) with
        | none => none
        | some (value, cs) => assignments? fuel ((name, value) :: known) cs

/-- The variables that are set at the end, from assignments with the latest in front. An
assignment replaces the earlier ones of its name; a value with a NUL leaves the name unset. -/
def lasting : List (String × String) → List (String × String)
  | [] => []
  | (name, value) :: earlier =>
    let others := (lasting earlier).filter (·.1 != name)
    if value.toList.contains '\x00' then others else (name, value) :: others

end DotEnv

/-- The variables that a file sets; none if it cannot be read. -/
def dotEnv? (text : String) : Option (List (String × String)) :=
  let cs := joinLineEndings text.toList
  (DotEnv.assignments? (cs.length + 1) [] cs).map DotEnv.lasting

end Brewin
