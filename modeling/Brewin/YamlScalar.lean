import Brewin.Decimal
import Brewin.YamlText

namespace Brewin

namespace YamlScalar

/-- The words for nothing. -/
def isNull : YamlScalar → Bool
  | plain text => ["", "~", "null", "Null", "NULL"].contains text
  | quoted _ => false

/-- The truth values that may be quoted. -/
def answer? (text : String) : Option Bool :=
  if ["y", "Y", "yes", "Yes", "YES", "on", "On", "ON"].contains text then some true
  else if ["n", "N", "no", "No", "NO", "off", "Off", "OFF"].contains text then some false
  else none

def bool? : YamlScalar → Option Bool
  | plain text =>
    if ["true", "True", "TRUE"].contains text then some true
    else if ["false", "False", "FALSE"].contains text then some false
    else answer? text
  | quoted text => answer? text

/-- A signed number behind a mark of its base. -/
def markedNumber? (cs : List Char) : Option Int :=
  match cs with
  | '0' :: 'b' :: digits => readSignedIn? 2 digits
  | '0' :: 'o' :: digits => readSignedIn? 8 digits
  | _ => none

/-- The whole number that a plain text stands for. Underscores separate digits behind a point in
front, and otherwise do not count. A number that only an unsigned word can hold is refused. -/
def number? (text : String) : Option Int :=
  match text.toList with
  | [] => none
  | c :: rest =>
    let bare := c :: rest.filter (· != '_')
    if c = '.' then
      if separatesDigits (c :: rest) then (Decimal.read? bare).bind Decimal.toInt? else none
    else if c.isDigit ∨ c = '-' ∨ c = '+' then
      match readPrefixed (String.ofList bare), readUnsigned bare, Decimal.read? bare with
      | .ok i, _, _ => some i
      | _, .ok _, _ => none
      | _, _, some d => d.toInt?
      | _, _, none => markedNumber? bare
    else none

/-- An integer in 64 bits; a fraction is cut off. -/
def int? : YamlScalar → Option Int
  | plain text =>
    if ["-.inf", "-.Inf", "-.INF"].contains text then some (-0x8000000000000000) else number? text
  | quoted _ => none

end YamlScalar

end Brewin
