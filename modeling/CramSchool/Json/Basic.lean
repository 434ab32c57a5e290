/-
  The JSON form of values.

  A record is an object with its fields by name; in reading, the order of fields does not
  matter, fields of other names are passed over, and a missing field counts as `null`. The
  list of all fields in order is read too. A variant without fields is its name; a variant
  with fields is an object with the one key that is its name.
-/
import CramSchool.Enumerated
import CramSchool.Points

namespace CramSchool

/-- A JSON value whose numbers are integers. -/
inductive Json where
  | null
  | bool (value : Bool)
  | int (value : Int)
  | text (value : String)
  | list (items : List Json)
  | object (fields : List (String × Json))

namespace Json

/-- The record with the given fields. -/
def record (names : List String) (values : List Json) : Json := .object (names.zip values)

/-- The value of a field, `null` if there is none. -/
def field (fields : List (String × Json)) (name : String) : Json :=
  (fields.lookup name).getD .null

/-- The values of the named fields of an object. The fields of a variant are read so. They are
    refused as a list, since a form is parsed as a whole before it is read; read from a text
    directly, such a list would pass. -/
def fieldsOf? (names : List String) : Json → Option (List Json)
  | .object fields => some (names.map (field fields))
  | _ => none

/-- The values of the named fields of a record, given as an object or as a list. -/
def membersOf? (names : List String) : Json → Option (List Json)
  | .object fields => some (names.map (field fields))
  | .list items => if items.length = names.length then some items else none
  | _ => none

/-- The name of a variant and what stands with it. -/
def variant? : Json → Option (String × Json)
  | .text name => some (name, .null)
  | .object [(name, content)] => some (name, content)
  | _ => none

end Json

/-- A type with a JSON form. -/
class JsonForm (α : Type) where
  encode : α → Json
  decode? : Json → Option α

namespace JsonForm

instance : JsonForm String where
  encode := .text
  decode?
    | .text value => some value
    | _ => none

instance : JsonForm Points where
  encode v := .int v.val
  decode?
    | .int n => Points.ofInt? n
    | _ => none

instance : JsonForm UInt8 where
  encode n := .int n.toNat
  decode?
    | .int n => if 0 ≤ n ∧ n < 256 then some (UInt8.ofNat n.toNat) else none
    | _ => none

instance : JsonForm UInt64 where
  encode n := .int n.toNat
  decode?
    | .int n => if 0 ≤ n ∧ n < 18446744073709551616 then some (UInt64.ofNat n.toNat) else none
    | _ => none

variable {α : Type}

instance [JsonForm α] : JsonForm (Option α) where
  encode
    | none => .null
    | some a => encode a
  decode?
    | .null => some none
    | j => (decode? j).map some

instance [JsonForm α] : JsonForm (List α) where
  encode xs := .list (xs.map encode)
  decode?
    | .list items => items.mapM decode?
    | _ => none

/-- The form of a kind whose variants have no fields. -/
abbrev ofEnumerated (α : Type) [DecidableEq α] [Enumerated α] : JsonForm α where
  encode a := .text (Enumerated.name a)
  decode? j :=
    match j.variant? with
    | some (name, .null) => Enumerated.ofName? name
    | _ => none

end JsonForm

end CramSchool
