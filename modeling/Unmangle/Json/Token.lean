import Unmangle.Json.Literal

/-!
# Tokens

JSON text is cut into tokens first. White space is what JSON calls so, which is far less than
white space in general, and it may stand between any two tokens.
-/

namespace Unmangle

inductive JsonToken where
  | openBrace
  | closeBrace
  | openBracket
  | closeBracket
  | colon
  | comma
  | null
  | bool (value : Bool)
  | number (value : JsonNumber)
  | string (literal : List Char)
deriving DecidableEq, Repr

namespace JsonToken

def isSpace (c : Char) : Bool := c == ' ' || c == '\n' || c == '\t' || c == '\r'

/-- Reads the token at the front of a text. -/
def scan? : List Char → Option (JsonToken × List Char)
  | '{' :: rest => some (openBrace, rest)
  | '}' :: rest => some (closeBrace, rest)
  | '[' :: rest => some (openBracket, rest)
  | ']' :: rest => some (closeBracket, rest)
  | ':' :: rest => some (colon, rest)
  | ',' :: rest => some (comma, rest)
  | 'n' :: 'u' :: 'l' :: 'l' :: rest => some (null, rest)
  | 't' :: 'r' :: 'u' :: 'e' :: rest => some (bool true, rest)
  | 'f' :: 'a' :: 'l' :: 's' :: 'e' :: rest => some (bool false, rest)
  | '"' :: rest => (JsonLiteral.scan [] rest).map fun (literal, rest) => (string literal, rest)
  | text => (JsonNumber.scan? text).map fun (value, rest) => (number value, rest)

theorem length_scan? {text rest : List Char} {token : JsonToken}
    (h : scan? text = some (token, rest)) : rest.length < text.length := by
  unfold scan? at h
  split at h
  case h_10 =>
    obtain ⟨⟨literal, rest'⟩, hliteral, heq⟩ := Option.map_eq_some_iff.1 h
    obtain ⟨rfl, rfl⟩ := by simpa using heq
    have := JsonLiteral.length_scan hliteral
    simp only [List.length_cons]
    omega
  case h_11 =>
    obtain ⟨⟨value, rest'⟩, hvalue, heq⟩ := Option.map_eq_some_iff.1 h
    obtain ⟨rfl, rfl⟩ := by simpa using heq
    exact JsonNumber.length_scan? hvalue
  all_goals
    obtain ⟨rfl, rfl⟩ := by simpa using h
    simp only [List.length_cons]
    omega

/-- The tokens of a text in front of which those of `before` were read, last first. -/
def scanAllOnto (before : List JsonToken) (text : List Char) : Option (List JsonToken) :=
  match text with
  | [] => some before.reverse
  | c :: rest =>
    if isSpace c then scanAllOnto before rest
    else
      match _scanned : scan? (c :: rest) with
      | some (token, rest) => scanAllOnto (token :: before) rest
      | none => none
termination_by text.length
decreasing_by
  · simp
  · exact length_scan? _scanned

/-- The tokens of a text, if it has no characters besides them and white space. -/
def scanAll? (text : List Char) : Option (List JsonToken) := scanAllOnto [] text

end JsonToken

end Unmangle
