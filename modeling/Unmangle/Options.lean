/-!
# Options

How much of a trace is shown, and how.
-/

namespace Unmangle

/-- What decides the spelling of types. -/
structure FormatOptions where
  /-- Put the namespace in front of named types. -/
  fullyQualified : Bool := false
  /-- Show generic parameters that nothing is bound to by name within lists of arguments. -/
  includeGenericParamNames : Bool := true
deriving DecidableEq, Repr, Inhabited

/-- What decides the rendering of a trace. -/
structure RenderOptions where
  /-- Mark styles in styled output. -/
  colorEnabled : Bool := true
  namespaceQualified : Bool := false
  includeGenericParamNames : Bool := true
  /-- How deep exceptions may nest before they are cut off. -/
  maxDepth : UInt64 := 64
deriving DecidableEq, Repr, Inhabited

def RenderOptions.format (options : RenderOptions) : FormatOptions :=
  { fullyQualified := options.namespaceQualified
    includeGenericParamNames := options.includeGenericParamNames }

end Unmangle
