import Brewin.Readers
import Brewin.YamlNode
import Brewin.YamlScalar

namespace Brewin

namespace Yaml

/-- A value as one of a type. -/
def fieldValue? (value : YamlScalar) : FieldType → Option FieldValue
  | .truth => value.bool?.map .truth
  | .number => value.int?.map .number

/-- What an entry of a mapping says about the fields. A null key names nothing, and a null value
leaves its field; any other key must be one of a field. -/
def entryValue? (fields : List (String × FieldType)) (key : YamlScalar) (value : YamlNode) :
    Option (Option (String × FieldValue)) :=
  if key.isNull then some none
  else
    match value with
    | .scalar value =>
      match fields.lookup key.text with
      | none => none
      | some type =>
        if value.isNull then some none
        else (fieldValue? value type).map fun v => some (key.text, v)
    | .sequence _ | .mapping _ => none

/-- The keys of a mapping with their values, if all of them are scalars. -/
def scalarKeys? (pairs : List (YamlNode × YamlNode)) : Option (List (YamlScalar × YamlNode)) :=
  pairs.mapM fun (key, value) =>
    match key with
    | .scalar key => some (key, value)
    | .sequence _ | .mapping _ => none

/-- The fields in a document: a mapping that gives no key twice, or nothing. -/
def fieldValues? (fields : List (String × FieldType)) :
    YamlNode → Option (List (String × FieldValue))
  | .scalar s => if s.isNull then some [] else none
  | .sequence _ => none
  | .mapping pairs =>
    match scalarKeys? pairs with
    | none => none
    | some entries =>
      if (entries.map (·.1.text)).Nodup then
        (entries.mapM fun (key, value) => entryValue? fields key value).map (List.filterMap id)
      else none

/-- Fills fields from the first document of a text. -/
def decode (fields : List (String × FieldType)) (text : String) :
    Except DecodeError (List (String × FieldValue)) :=
  match document? text with
  | none => .error .refused
  | some none => .error .ended
  | some (some x) =>
    match fieldValues? fields x with
    | none => .error .refused
    | some values => .ok values

end Yaml

end Brewin
