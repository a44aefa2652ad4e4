import Unmangle.Metadata.Traits
import Unmangle.Source.Type

/-!
# Methods as the programmer wrote them

A frame of a stack trace runs a method or a body that was moved out of one: a lambda, a local
function, the loop of an iterator. Such bodies nest, so a frame shows as the method at the outside
followed by the bodies on the way in.
-/

namespace Unmangle

/-- A parameter ready to be shown. -/
structure SourceParameter where
  name : Option String := none
  type : SourceType
  modifier : Option ParamModifier := none
  /-- Written `dynamic`, whatever the type says. -/
  isDynamic : Bool := false
deriving Repr, Inhabited

/-- A parameter of the type of no value is left out of the list. -/
def SourceParameter.isElided (parameter : SourceParameter) : Bool :=
  !parameter.isDynamic && parameter.type.isForeignUnit

/-- A method, or a body moved out of one. -/
structure SourceMethod where
  /-- The type in front of the name; bodies have none. -/
  declaringType : Option SourceType := none
  name : String := ""
  kind : MethodKind := .method
  genericArguments : List SourceType := []
  parameters : List SourceParameter := []
  /-- When false, the list of parameters shows as a question mark. -/
  parametersKnown : Bool := false
  isAsync : Bool := false
  isLambda : Bool := false
  /-- The number of a lambda within its method, where the name tells it. -/
  ordinal : Option UInt32 := none
deriving Repr, Inhabited

/-- What a frame was running: a method and the bodies within it, outermost first. -/
structure SourceCall where
  method : SourceMethod
  bodies : List SourceMethod := []
deriving Repr, Inhabited

end Unmangle
