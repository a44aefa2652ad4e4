import Unmangle.Rendering.Type
import Unmangle.Source.Method

/-!
# Showing methods

A method shows as `async Type.Name<A>(int x)`, a constructor as `new Type(...)`, and the bodies
within a method follow it, each behind a plus sign: `+Local(int n)` for a local function or an
iterator, `+(int x) => { }` for a lambda.
-/

namespace Unmangle

/-- A parameter: how it is passed, its type, its name. Nothing for one that is left out. -/
def SourceParameter.render (options : FormatOptions) (parameter : SourceParameter) : Rendering :=
  if parameter.isElided then []
  else
    let passing :=
      match parameter.modifier with
      | some modifier => [.styled modifier.keyword .keyword, .text " "]
      | none => []
    let type :=
      if parameter.isDynamic then [.styled "dynamic" .keyword] else parameter.type.render options
    let name :=
      match parameter.name with
      | some name => if name.isEmpty then [] else [.text " ", .styled name .parameterName]
      | none => []
    passing ++ type ++ name

/-- The list of parameters of a method or a body. -/
def renderParameters (options : FormatOptions) (known : Bool) (parameters : List SourceParameter) :
    Rendering :=
  let content :=
    if known then
      separated ", " ((parameters.filter (!·.isElided)).map (·.render options))
    else [.styled "?" .marker]
  punctuation "(" :: content ++ [punctuation ")"]

namespace SourceMethod

/-- Generic arguments and parameters, the part that every method with a name ends in. -/
def renderSignature (options : FormatOptions) (method : SourceMethod) : Rendering :=
  renderArguments options method.genericArguments ++
    renderParameters options method.parametersKnown method.parameters

/-- The type and name of a method. A constructor with bodies in it is not called by `new`. -/
def renderName (options : FormatOptions) (hasBodies : Bool) (method : SourceMethod) : Rendering :=
  match method.declaringType with
  | none => [.styled method.name .methodName]
  | some type =>
    match method.kind with
    | .constructor =>
      (if hasBodies then [] else [.styled "new" .keyword, .text " "]) ++ type.render options
    | .staticConstructor => .styled "static" .keyword :: .text " " :: type.render options
    | .method => type.render options ++ [punctuation ".", .styled method.name .methodName]

/-- A body behind the method around it. -/
def renderBody (options : FormatOptions) (body : SourceMethod) : Rendering :=
  punctuation "+" ::
    if body.isLambda then
      renderParameters options body.parametersKnown body.parameters ++
        [punctuation " => \x7b \x7d"]
    else .styled body.name .methodName :: body.renderSignature options

end SourceMethod

/-- A method with its bodies, outermost first. -/
def SourceCall.render (options : FormatOptions) (call : SourceCall) : Rendering :=
  let method := call.method
  (if method.isAsync then [.styled "async" .keyword, .text " "] else []) ++
    method.renderName options (!call.bodies.isEmpty) ++
    method.renderSignature options ++
    call.bodies.flatMap (·.renderBody options)

end Unmangle
