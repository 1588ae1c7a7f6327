import Brewin.Printable

namespace Brewin

/-- The lower-case hexadecimal digits of `n`, filled up with zeros to `width` places. -/
def hexDigits (width n : Nat) : String :=
  let digits := Nat.toDigits 16 n
  String.ofList (List.replicate (width - digits.length) '0' ++ digits)

/-- The short escapes of seven control characters. -/
def shortEscape? (c : Char) : Option String :=
  match c.toNat with
  | 0x07 => some "\\a"
  | 0x08 => some "\\b"
  | 0x0c => some "\\f"
  | 0x0a => some "\\n"
  | 0x0d => some "\\r"
  | 0x09 => some "\\t"
  | 0x0b => some "\\v"
  | _ => none

/-- Writes a character that is not shown as itself; below `narrow` two hexadecimal digits are
enough. -/
def escapeSequence (narrow : Nat) (c : Char) : String :=
  match shortEscape? c with
  | some text => text
  | none =>
    if c.toNat < narrow then "\\x" ++ hexDigits 2 c.toNat
    else if c.toNat < 0x10000 then "\\u" ++ hexDigits 4 c.toNat
    else "\\U" ++ hexDigits 8 c.toNat

/-- One character of quoted text: quotes and backslashes are escaped, printable characters stand
for themselves. -/
def quotedChar (c : Char) : String :=
  if c == '"' || c == '\\' then "\\" ++ c.toString
  else if isPrintable c then c.toString
  else escapeSequence 0x80 c

/-- The text between double quotes, readable on one line. -/
def quoted (s : String) : String :=
  "\"" ++ String.join (s.toList.map quotedChar) ++ "\""

end Brewin
