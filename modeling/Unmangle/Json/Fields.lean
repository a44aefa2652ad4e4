import Unmangle.Json.Literal
import Unmangle.Json.Magnitude

/-!
# Reading fields

A record is an object with its fields by name, in any order, or an array with its fields by
position, where the last ones may be missing. An object may have fields that the record does not
know, but none of those that it knows may stand there twice.
-/

namespace Unmangle

namespace JsonNumber

/-- The digits of a natural number; none if there is a sign, a fraction or an exponent. -/
def digits? (number : JsonNumber) : Option (List Char) :=
  if number.negative || number.fraction.isSome || number.exponent.isSome then none
  else some number.whole

end JsonNumber

namespace Json

def text? : Json → Option String
  | .string literal => (JsonLiteral.unescape? literal).map .ofList
  | _ => none

def bool? : Json → Option Bool
  | .bool value => some value
  | _ => none

/-- A natural number that fits 32 bits. -/
def word32? : Json → Option UInt32
  | .number value => value.digits?.bind Text.word32?
  | _ => none

/-- A natural number that fits 64 bits. -/
def word64? : Json → Option UInt64
  | .number value => value.digits?.bind Text.word64?
  | _ => none

def list? {α : Type} (read : Json → Option α) : Json → Option (List α)
  | .array items => items.mapM read
  | _ => none

/-- A key that is a number of 32 bits, without leading zeros. -/
def numericKey? (key : List Char) : Option UInt32 :=
  match key with
  | '0' :: _ :: _ => none
  | digits => Text.word32? digits

/-- One of the words of a list. Instead of the word alone there may be an object with the word as
its only key, over a value that holds nothing. -/
def word? {α : Type} (words : List (String × α)) (holdsNothing : Json → Bool) : Json → Option α
  | .object [(key, value)] =>
    if holdsNothing value then
      (JsonLiteral.unescape? key).bind fun word => words.lookup (.ofList word)
    else none
  | value => value.text?.bind fun word => words.lookup word

def isNull : Json → Bool
  | .null => true
  | _ => false

/-- The entries of an object with their keys read. -/
def namedEntries? (entries : List (List Char × Json)) : Option (List (String × Json)) :=
  entries.mapM fun (key, value) => (JsonLiteral.unescape? key).map fun name => (.ofList name, value)

/-- The values of a name among entries: one at most. -/
def field? (entries : List (String × Json)) (name : String) : Option (Option Json) :=
  match entries.filter (·.1 == name) with
  | [] => some none
  | [(_, value)] => some (some value)
  | _ => none

/-- The fields of a record in the order of `names`. -/
def fields? (names : List String) : Json → Option (List (Option Json))
  | .object entries => (namedEntries? entries).bind fun entries => names.mapM (field? entries)
  | .array items =>
    if items.length ≤ names.length then
      some (items.map some ++ List.replicate (names.length - items.length) none)
    else none
  | _ => none

/-- A field that has to be there. -/
def required {α : Type} (read : Json → Option α) (field : Option Json) : Option α :=
  field.bind read

/-- A field that has a value of its own when it is not there. -/
def orDefault {α : Type} (default : α) (read : Json → Option α) : Option Json → Option α
  | some value => read value
  | none => some default

/-- A field that may be absent, where null is as good as nothing. -/
def optional {α : Type} (read : Json → Option α) : Option Json → Option (Option α)
  | some value => if value.isNull then some none else (read value).map some
  | none => some none

/-- The tag of a record that comes in several shapes, and the record without it. In an array the
tag comes first. -/
def tagged? (name : String) : Json → Option (String × Json)
  | .object entries => do
    let named ← namedEntries? entries
    let tag ← (← field? named name).bind text?
    let rest := (entries.zip named).filter fun (_, key, _) => key != name
    some (tag, .object (rest.map (·.1)))
  | .array (tag :: rest) => tag.text?.map fun tag => (tag, .array rest)
  | _ => none

mutual

/-- Can all of a value be read, whether it is asked for or not? Every string has to stand for
characters, every number has to be in the range of binary64, and arrays and objects nest less than
`room` deep. -/
def isReadable (room : Nat) : Json → Bool
  | .number value => value.fitsFloat
  | .string literal => (JsonLiteral.unescape? literal).isSome
  | .array items =>
    match room with
    | 0 => false
    | room + 1 => allReadable room items
  | .object entries =>
    match room with
    | 0 => false
    | room + 1 => allEntriesReadable room entries
  | .null | .bool _ => true

def allReadable (room : Nat) : List Json → Bool
  | [] => true
  | item :: rest => item.isReadable room && allReadable room rest

def allEntriesReadable (room : Nat) : List (List Char × Json) → Bool
  | [] => true
  | (key, value) :: rest =>
    (JsonLiteral.unescape? key).isSome && value.isReadable room && allEntriesReadable room rest

end

end Json

end Unmangle
