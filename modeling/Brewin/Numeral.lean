namespace Brewin

/-- The number written by a non-empty run of decimal digits. -/
def readNat? (cs : List Char) : Option Nat :=
  if cs ≠ [] ∧ cs.all Char.isDigit then
    some (cs.foldl (fun n c => 10 * n + (c.toNat - '0'.toNat)) 0)
  else none

/-- The number written by decimal digits with an optional sign in front. -/
def readSigned? : List Char → Option Int
  | '-' :: digits => (readNat? digits).map fun n => -(n : Int)
  | '+' :: digits => (readNat? digits).map fun n => (n : Int)
  | digits => (readNat? digits).map fun n => (n : Int)

/-- The integers that a signed 64-bit word can hold. -/
abbrev FitsInt64 (i : Int) : Prop :=
  -0x8000000000000000 ≤ i ∧ i < 0x8000000000000000

/-- The 64-bit word of an integer in range. -/
def toInt64? (i : Int) : Option Int64 :=
  if FitsInt64 i then some (Int64.ofInt i) else none

/-- Reads a signed decimal numeral that fits into 64 bits. -/
def readInt64? (s : String) : Option Int64 :=
  (readSigned? s.toList).bind toInt64?

/-- Why a numeral cannot be read. -/
inductive NumeralError
  | malformed | outOfRange
  deriving DecidableEq, Repr

/-- The value of a digit in bases up to 36. -/
def digitValue? (c : Char) : Option Nat :=
  if c.isDigit then some (c.toNat - '0'.toNat)
  else if c.isLower then some (c.toNat - 'a'.toNat + 10)
  else if c.isUpper then some (c.toNat - 'A'.toNat + 10)
  else none

/-- Reads digits of a base from left to right, and passes over underscores. It stops as soon as
the number does not fit into 64 bits. -/
def readDigits (base : Nat) : Nat → List Char → Except NumeralError Nat
  | n, [] => .ok n
  | n, '_' :: rest => readDigits base n rest
  | n, c :: rest =>
    match digitValue? c with
    | none => .error .malformed
    | some d =>
      if base ≤ d then .error .malformed
      else if 0x10000000000000000 ≤ base * n + d then .error .outOfRange
      else readDigits base (base * n + d) rest

/-- Every underscore stands behind a digit and in front of one. The flag says whether the
character in front was a digit. -/
def underscoresSeparate : Bool → List Char → Bool
  | _, [] => true
  | afterDigit, '_' :: rest =>
    afterDigit && rest.head?.any (fun c => c != '_') && underscoresSeparate false rest
  | _, _ :: rest => underscoresSeparate true rest

/-- Every underscore stands between two digits. -/
def separatesDigits : List Char → Bool
  | [] => true
  | '_' :: _ => false
  | c :: '_' :: d :: rest => c.isDigit && d.isDigit && separatesDigits (d :: rest)
  | [_, '_'] => false
  | _ :: rest => separatesDigits rest

/-- Reads digits of a base with an optional sign into 64 bits. -/
def readSignedIn? (base : Nat) (cs : List Char) : Option Int :=
  let (negative, digits) :=
    match cs with
    | '-' :: rest => (true, rest)
    | '+' :: rest => (false, rest)
    | cs => (false, cs)
  match readDigits base 0 digits with
  | .ok n =>
    let i : Int := if negative then -n else n
    if digits ≠ [] ∧ FitsInt64 i then some i else none
  | .error _ => none

/-- Reads an unsigned numeral whose first characters tell its base: 0b, 0o and 0x, or a bare 0
for base 8. -/
def readUnsigned (cs : List Char) : Except NumeralError Nat :=
  let (base, digits, afterDigit) :=
    match cs with
    | '0' :: c :: d :: rest =>
      match c.toLower with
      | 'b' => (2, d :: rest, true)
      | 'o' => (8, d :: rest, true)
      | 'x' => (16, d :: rest, true)
      | _ => (8, c :: d :: rest, true)
    | '0' :: rest => (8, rest, true)
    | _ => (10, cs, false)
  if cs = [] then .error .malformed
  else
    match readDigits base 0 digits with
    | .error e => .error e
    | .ok n => if underscoresSeparate afterDigit digits then .ok n else .error .malformed

/-- Reads a numeral with an optional sign and an optional mark of its base into 64 bits. -/
def readPrefixed (s : String) : Except NumeralError Int :=
  let (negative, digits) :=
    match s.toList with
    | '-' :: rest => (true, rest)
    | '+' :: rest => (false, rest)
    | cs => (false, cs)
  match readUnsigned digits with
  | .error e => .error e
  | .ok n =>
    let i : Int := if negative then -n else n
    if FitsInt64 i then .ok i else .error .outOfRange

end Brewin
