/-
Values of the JSON notation.

* `Json`: a value; the fields of a record keep their order and may repeat;
  what stands in a place that nobody reads may be a text that is no sequence of
  characters or a number that is too large;
* `Json.object`: a record with the keys given;
* `Json.natural?` and `Json.float?`: the value as a number;
* `Json.fields?`: the values of named fields, from a record or from the list of
  them in their order.
-/

namespace Deflate

/-- A value. -/
inductive Json where
  | null
  | bool (b : Bool)
  /-- A whole number below `2 ^ 64`. -/
  | natural (n : Nat)
  /-- Any other number. -/
  | float (x : Float)
  /-- A number too large for a floating-point number. -/
  | excess
  /-- A text, or `none` if the escapes in it pair up to no characters. -/
  | text (s : Option String)
  | list (items : List Json)
  | record (fields : List (Option String × Json))

namespace Json

/-- The record with these fields. -/
def object (fields : List (String × Json)) : Json :=
  .record (fields.map fun (key, value) => (some key, value))

/-- The value as a whole number. -/
def natural? : Json → Option Nat
  | natural n => some n
  | _ => none

/-- The value as a floating-point number. -/
def float? : Json → Option Float
  | natural n => some n.toUInt64.toFloat
  | float x => some x
  | _ => none

/-- The value of the field of that name, if there is exactly one. -/
def sole? (fields : List (Option String × Json)) (name : String) : Option Json :=
  match fields.filter (·.1 == some name) with
  | [(_, value)] => some value
  | _ => none

/-- The values of the fields named, in the order of the names. The value may
also be a list of just them. Other fields are passed over unless `closed`. -/
def fields? (names : List String) (closed : Bool) : Json → Option (List Json)
  | list items => if items.length = names.length then some items else none
  | record fields =>
      if fields.all fun (key, _) => key.any fun key => !closed || names.contains key then
        names.mapM (sole? fields)
      else none
  | _ => none

end Json

end Deflate
