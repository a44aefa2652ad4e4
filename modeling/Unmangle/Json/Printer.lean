import Unmangle.Json.Literal

/-!
# Writing JSON

Values are written over several lines, two spaces to a level. Empty arrays and objects stay on the
line.
-/

namespace Unmangle

namespace Json

/-- A string value from its characters. -/
def ofString (text : String) : Json := .string (JsonLiteral.escape text.toList)

def ofNat (n : Nat) : Json := .number { whole := Nat.toDigits 10 n }

/-- An object of the fields that are there. -/
def ofFields (fields : List (String × Option Json)) : Json :=
  .object <| fields.filterMap fun (name, value?) =>
    value?.map fun value => (JsonLiteral.escape name.toList, value)

/-- A number as it is written. -/
def numberChars (number : JsonNumber) : List Char :=
  (if number.negative then ['-'] else []) ++ number.whole ++
    (match number.fraction with
      | some digits => '.' :: digits
      | none => []) ++
    match number.exponent with
    | some exponent => 'e' :: (if exponent.negative then ['-'] else []) ++ exponent.digits
    | none => []

def quoted (literal : List Char) : List Char := '"' :: literal ++ ['"']

/-- A new line at some level. -/
def newLine (level : Nat) : List Char := '\n' :: List.replicate (2 * level) ' '

mutual

/-- A value as written at some level. -/
def chars (level : Nat) : Json → List Char
  | .null => ['n', 'u', 'l', 'l']
  | .bool true => ['t', 'r', 'u', 'e']
  | .bool false => ['f', 'a', 'l', 's', 'e']
  | .number value => numberChars value
  | .string literal => quoted literal
  | .array [] => ['[', ']']
  | .array (item :: rest) =>
    '[' :: newLine (level + 1) ++ item.chars (level + 1) ++ itemsChars (level + 1) rest ++
      newLine level ++ [']']
  | .object [] => ['{', '}']
  | .object ((key, value) :: rest) =>
    '{' :: newLine (level + 1) ++ quoted key ++ ':' :: ' ' :: value.chars (level + 1) ++
      entriesChars (level + 1) rest ++ newLine level ++ ['}']

/-- The items of an array after the first. -/
def itemsChars (level : Nat) : List Json → List Char
  | [] => []
  | item :: rest => ',' :: newLine level ++ item.chars level ++ itemsChars level rest

/-- The entries of an object after the first. -/
def entriesChars (level : Nat) : List (List Char × Json) → List Char
  | [] => []
  | (key, value) :: rest =>
    ',' :: newLine level ++ quoted key ++ ':' :: ' ' :: value.chars level ++
      entriesChars level rest

end

/-- A value as text. -/
def pretty (value : Json) : String := .ofList (value.chars 0)

end Json

end Unmangle
