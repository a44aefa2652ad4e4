import Unmangle.Json.Token

/-!
# Reading JSON

A machine takes one token after the other. It knows what is due next and keeps the arrays and
objects that are still open on a stack, so text that nests a hundred thousand arrays is read like
any other.
-/

namespace Unmangle

namespace JsonReader

/-- An array or an object that is not closed yet; the last of its parts comes first. -/
inductive Open where
  | array (before : List Json)
  | object (before : List (List Char × Json)) (key : List Char)

/-- What is due next. -/
inductive Due where
  | value
  /-- A value, or the end of an array just opened. -/
  | item
  /-- A key, or the end of an object just opened. -/
  | entry
  | key (before : List (List Char × Json))
  | colon (before : List (List Char × Json)) (key : List Char)
  /-- Whatever may follow a value that is complete. -/
  | next (value : Json)

structure State where
  due : Due
  stack : List Open

/-- Takes the first token of a value. -/
def takeValue (stack : List Open) : JsonToken → Option State
  | .null => some ⟨.next .null, stack⟩
  | .bool value => some ⟨.next (.bool value), stack⟩
  | .number value => some ⟨.next (.number value), stack⟩
  | .string literal => some ⟨.next (.string literal), stack⟩
  | .openBracket => some ⟨.item, stack⟩
  | .openBrace => some ⟨.entry, stack⟩
  | _ => none

/-- Takes one token. -/
def take (state : State) (token : JsonToken) : Option State :=
  match state.due, state.stack, token with
  | .value, stack, token => takeValue stack token
  | .item, stack, .closeBracket => some ⟨.next (.array []), stack⟩
  | .item, stack, token => takeValue (.array [] :: stack) token
  | .entry, stack, .closeBrace => some ⟨.next (.object []), stack⟩
  | .entry, stack, .string key => some ⟨.colon [] key, stack⟩
  | .key before, stack, .string key => some ⟨.colon before key, stack⟩
  | .colon before key, stack, .colon => some ⟨.value, .object before key :: stack⟩
  | .next item, .array before :: stack, .comma => some ⟨.value, .array (item :: before) :: stack⟩
  | .next item, .array before :: stack, .closeBracket =>
    some ⟨.next (.array (item :: before).reverse), stack⟩
  | .next value, .object before key :: stack, .comma => some ⟨.key ((key, value) :: before), stack⟩
  | .next value, .object before key :: stack, .closeBrace =>
    some ⟨.next (.object ((key, value) :: before).reverse), stack⟩
  | _, _, _ => none

/-- The value, if it is complete and nothing is open any more. -/
def finish : State → Option Json
  | ⟨.next value, []⟩ => some value
  | _ => none

end JsonReader

/-- The value that a list of tokens spells. -/
def Json.ofTokens? (tokens : List JsonToken) : Option Json :=
  (tokens.foldlM JsonReader.take ⟨.value, []⟩).bind JsonReader.finish

/-- Reads a text that holds one value and white space. -/
def Json.parse? (text : String) : Option Json :=
  (JsonToken.scanAll? text.toList).bind Json.ofTokens?

end Unmangle
