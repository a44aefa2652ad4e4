import Unmangle.Options
import Unmangle.Rendering.Span
import Unmangle.Source.Resolve

/-!
# Showing types

Nested types show as `Outer.Inner`, generic ones as `Name<A, B>`, arrays as `T[]` and `T[,]`,
pointers as `T*`, references as `T&`. Where the names of open parameters are left out, a list of
nothing but open parameters shows as `<,>`.
-/

namespace Unmangle

def punctuation (text : String) : Span := .styled text .punctuation

/-- Renderings one after the other with a separator between. -/
def separated (separator : String) (parts : List Rendering) : Rendering :=
  List.intercalate [punctuation separator] parts

/-- The brackets of an array of some rank. -/
def rankBrackets (rank : Nat) : String :=
  .ofList ('[' :: List.replicate (min rank maxArrayRank - 1) ',' ++ [']'])

/-- The name of a namespace and a dot, if types are to be qualified and there is a namespace. -/
def renderSpace (options : FormatOptions) (space : Option String) : Rendering :=
  match space with
  | some space =>
    if options.fullyQualified && !space.isEmpty then [.styled space .typeName, punctuation "."]
    else []
  | none => []

/-- Joins the renderings of generic arguments to a list in angle brackets. -/
def joinArguments (options : FormatOptions) (args : List SourceType) (parts : List Rendering) :
    Rendering :=
  if args.isEmpty then []
  else
    let hide := !options.includeGenericParamNames
    let separator := if hide && args.all (·.isGenericParam) then "," else ", "
    let shown := (args.zip parts).map fun (arg, part) =>
      if hide && arg.isGenericParam then [] else part
    punctuation "<" :: separated separator shown ++ [punctuation ">"]

mutual

def SourceType.render (options : FormatOptions) : SourceType → Rendering
  | .named space segments =>
    renderSpace options space ++ separated "." (renderSegments options segments)
  | .primitive keyword fullName =>
    if options.fullyQualified then [.styled fullName .typeName] else [.styled keyword .keyword]
  | .genericParam name => [.styled name .typeName]
  | .array element rank => element.render options ++ [punctuation (rankBrackets rank)]
  | .pointer element => element.render options ++ [punctuation "*"]
  | .byRef element => element.render options ++ [punctuation "&"]
  | .nullable element => element.render options ++ [punctuation "?"]
  | .tuple elements =>
    punctuation "(" :: separated ", " (renderTypes options elements) ++ [punctuation ")"]
  | .dynamic => [.styled "dynamic" .keyword]
  | .foreignUnit => [.styled "Unit" .typeName]
  | .unresolved => [.styled "?" .marker]
  | .truncated => [.styled "..." .marker]

def renderTypes (options : FormatOptions) : List SourceType → List Rendering
  | [] => []
  | type :: rest => type.render options :: renderTypes options rest

def TypeSegment.render (options : FormatOptions) : TypeSegment → Rendering
  | .mk name args =>
    .styled name .typeName :: joinArguments options args (renderTypes options args)

def renderSegments (options : FormatOptions) : List TypeSegment → List Rendering
  | [] => []
  | segment :: rest => segment.render options :: renderSegments options rest

end

/-- A list of generic arguments; nothing for none. -/
def renderArguments (options : FormatOptions) (args : List SourceType) : Rendering :=
  joinArguments options args (renderTypes options args)

end Unmangle
