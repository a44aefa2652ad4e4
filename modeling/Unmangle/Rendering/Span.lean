import Unmangle.Rendering.Markup

/-!
# Renderings

A rendering is text in spans, some of which carry a style, and the places where lines start. It is
made once and written twice: as plain text, which forgets the styles, and as markup, which tells
them by tags.
-/

namespace Unmangle

/-- What a part of a rendering is. -/
inductive Style where
  | keyword
  | typeName
  | methodName
  | punctuation
  | parameterName
  | path
  | lineNumber
  | exceptionType
  /-- Marks that stand for something left out or not known. -/
  | marker
deriving DecidableEq, Repr

/-- The words of the tag for a style. -/
def Style.tag : Style → String
  | .keyword => "bold"
  | .typeName => "blue"
  | .methodName => "yellow"
  | .punctuation => "grey"
  | .parameterName => "white"
  | .path => "underline"
  | .lineNumber => "green"
  | .exceptionType => "red bold"
  | .marker => "dim"

/-- A part of a rendering. -/
inductive Span where
  | text (text : String)
  | styled (text : String) (style : Style)
  /-- A line starts here. -/
  | lineStart
deriving DecidableEq, Repr

abbrev Rendering := List Span

namespace Rendering

/-- The starts of lines as line breaks. The first line needs none, so `started` tells whether a
line has started before. -/
def breakLines : Bool → Rendering → Rendering
  | _, [] => []
  | true, .lineStart :: rest => .text "\n" :: breakLines true rest
  | false, .lineStart :: rest => breakLines true rest
  | started, span :: rest => span :: breakLines started rest

/-- Has any line started? -/
def hasLine (rendering : Rendering) : Bool :=
  rendering.contains .lineStart

end Rendering

namespace Span

def plainChars : Span → List Char
  | .text chars | .styled chars _ => chars.toList
  | .lineStart => []

/-- A styled text in its tag; an empty one leaves no tag behind. -/
def markupChars : Span → List Char
  | .text chars => Markup.escapeChars chars.toList
  | .styled chars style =>
    if chars.isEmpty then []
    else '[' :: style.tag.toList ++ ']' :: Markup.escapeChars chars.toList ++ ['[', '/', ']']
  | .lineStart => []

end Span

namespace Rendering

/-- The text alone. -/
def plain (rendering : Rendering) : String :=
  .ofList ((rendering.breakLines false).flatMap (·.plainChars))

/-- The text with its styles as markup or, without color, the text alone. -/
def styled (color : Bool) (rendering : Rendering) : String :=
  if color then .ofList ((rendering.breakLines false).flatMap (·.markupChars))
  else rendering.plain

end Rendering

end Unmangle
