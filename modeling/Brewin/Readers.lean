namespace Brewin

/-- The types that a field can have. -/
inductive FieldType
  | truth | number
  deriving DecidableEq, Repr

/-- A value for a field. -/
inductive FieldValue
  | truth (b : Bool)
  | number (n : Int)
  deriving DecidableEq, Repr

/-- Why a text fills no fields: there is no document in it, or it is refused. -/
inductive DecodeError
  | ended | refused
  deriving DecidableEq, Repr

/-- How the formats of the files are read. A decoder fills fields that it knows by their keys and
types, and refuses a text that says anything else; a file of assignments gives names with their
values, or is refused. -/
structure Readers where
  decode : List (String × FieldType) → String → Except DecodeError (List (String × FieldValue))
  assignments? : String → Option (List (String × String))

end Brewin
