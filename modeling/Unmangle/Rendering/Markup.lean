import Unmangle.Text.Blank

/-!
# Markup

Styled text marks its styles by tags in square brackets: `[red bold]text[/]`. A tag holds one or
more words for styles, `[/]` closes the tag opened last, and a bracket of the text itself is
written twice. What stands in brackets without being a tag is text, brackets included.

Text in markup is read off by `strip`, and `toAnsi` turns tags into the escape sequences of a
terminal. A terminal has no way to end one style only, so the end of a tag resets all styles and
sets those again that are still open.
-/

namespace Unmangle.Markup

/-- Writes brackets twice. -/
def escapeChars (text : List Char) : List Char :=
  text.flatMap fun c => if c == '[' || c == ']' then [c, c] else [c]

/-- The numbers by which a terminal is told a style. -/
abbrev Codes := List Nat

/-- The words for styles. -/
def styleWords : List (String × Nat) :=
  [("bold", 1), ("dim", 2), ("underline", 4), ("red", 31), ("green", 32), ("yellow", 33),
   ("blue", 34), ("white", 37), ("grey", 90), ("gray", 90)]

/-- The numbers of a tag; nothing if it holds no word or one that is no style. -/
def tagCodes? (tag : List Char) : Option Codes :=
  match (Text.words tag).mapM fun word => styleWords.lookup (.ofList word) with
  | some [] => none
  | codes => codes

/-- A piece of markup. -/
inductive Piece where
  | text (chars : List Char)
  | opening (codes : Codes)
  | closing
deriving DecidableEq, Repr

/-- What a pair of single brackets holds. -/
def Piece.ofBracketed (content : List Char) : Piece :=
  if content = ['/'] then .closing
  else
    match tagCodes? content with
    | some codes => .opening codes
    | none => .text ('[' :: content ++ [']'])

def isBracket (c : Char) : Bool := c == '[' || c == ']'

/-- Splits markup into its pieces. -/
def pieces : List Char → List Piece
  | [] => []
  | '[' :: '[' :: rest => .text ['['] :: pieces rest
  | ']' :: ']' :: rest => .text [']'] :: pieces rest
  | '[' :: rest =>
    match _split : rest.dropWhile (· != ']') with
    | [] => [.text ('[' :: rest)]
    | _ :: after => .ofBracketed (rest.takeWhile (· != ']')) :: pieces after
  | ']' :: rest => .text [']'] :: pieces rest
  | c :: rest =>
    .text (c :: rest.takeWhile (!isBracket ·)) :: pieces (rest.dropWhile (!isBracket ·))
termination_by markup => markup.length
decreasing_by
  · simp only [List.length_cons]; omega
  · simp only [List.length_cons]; omega
  · have := (List.dropWhile_sublist (· != ']') (l := rest)).length_le
    simp only [_split, List.length_cons] at this ⊢
    omega
  · simp
  · have := (List.dropWhile_sublist (!isBracket ·) (l := rest)).length_le
    simp only [List.length_cons]
    omega

/-- The characters of a piece that are text. -/
def Piece.chars : Piece → List Char
  | text chars => chars
  | opening _ | closing => []

/-- The escape sequence that clears all styles. -/
def resetSequence : List Char := ['\x1b', '[', '0', 'm']

/-- The escape sequence that adds styles. -/
def setSequence (codes : Codes) : List Char :=
  '\x1b' :: '[' :: List.intercalate [';'] (codes.map fun code => (toString code).toList) ++ ['m']

/-- Pieces as text for a terminal, where `open` holds the tags that are open, the last first. -/
def ansiChars : List Codes → List Piece → List Char
  | [], [] => []
  | _ :: _, [] => resetSequence
  | opened, .text chars :: rest => chars ++ ansiChars opened rest
  | opened, .opening codes :: rest => setSequence codes ++ ansiChars (codes :: opened) rest
  | [], .closing :: rest => ansiChars [] rest
  | _ :: opened, .closing :: rest =>
    resetSequence ++ opened.reverse.flatMap setSequence ++ ansiChars opened rest

def escape (text : String) : String := .ofList (escapeChars text.toList)

/-- The text that markup shows. -/
def strip (markup : String) : String := .ofList ((pieces markup.toList).flatMap (·.chars))

/-- Markup as text for a terminal. -/
def toAnsi (markup : String) : String := .ofList (ansiChars [] (pieces markup.toList))

end Unmangle.Markup
