/-!
# JSON values

A value keeps its literals as they were written: the parts of a number, the characters between the
quotes of a string. What a literal means is asked only where a field is read. So a field that
nobody reads may hold a number that fits no machine word, or half of a surrogate pair.
-/

namespace Unmangle

/-- The exponent of a number: its sign and its digits. -/
structure JsonExponent where
  negative : Bool
  digits : List Char
deriving DecidableEq, Repr

/-- A number in its parts; those after the whole part may be absent. -/
structure JsonNumber where
  negative : Bool := false
  whole : List Char
  fraction : Option (List Char) := none
  exponent : Option JsonExponent := none
deriving DecidableEq, Repr

/-- A JSON value. Strings and keys are kept as written, without their quotes. -/
inductive Json where
  | null
  | bool (value : Bool)
  | number (value : JsonNumber)
  | string (literal : List Char)
  | array (items : List Json)
  | object (entries : List (List Char × Json))
deriving Repr, Inhabited

end Unmangle
