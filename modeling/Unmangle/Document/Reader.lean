import Unmangle.Document.Basic
import Unmangle.Json.Fields
import Unmangle.Json.Reader
import Unmangle.Options

/-!
# Reading documents

Each part of a document is a record. Fields that have a sensible value of their own may be left
out; only those that stand for something optional may be null.

A type definition says by its tag `kind` which shape it has, and the tag may come last. So all of a
definition is read before any of it is understood, and a part that cannot be read is an error even
where nobody asks for it.
-/

namespace Unmangle

open Json (required orDefault optional)

/-- How deep a type definition may nest, at its place three levels down in a document. -/
def maxDefinitionNesting : Nat := 124

namespace DocumentReader

def typeToken (json : Json) : Option TypeToken := json.word32?.map .mk

def methodToken (json : Json) : Option MethodToken := json.word32?.map .mk

def exceptionId (json : Json) : Option ExceptionId := json.word64?.map (·.toNat)

def texts : Json → Option (List String) := Json.list? Json.text?

def typeTokens : Json → Option (List TypeToken) := Json.list? typeToken

/-- The words of ways of passing. -/
def modifierWords : List (String × ParamModifier) :=
  [("ref", .ref), ("out", .out), ("in", .in), ("params", .params)]

def stateMachineWords : List (String × StateMachineKind) :=
  [("async", .async), ("iterator", .iterator), ("async_iterator", .asyncIterator)]

def ownerWords : List (String × GenericOwner) := [("type", .type), ("method", .method)]

def isEmptyObject : Json → Bool
  | .object [] => true
  | _ => false

/-- An owner stands in a definition, where an empty object holds nothing, too. -/
def genericOwner : Json → Option GenericOwner :=
  Json.word? ownerWords fun value => value.isNull || isEmptyObject value

def paramModifier : Json → Option ParamModifier := Json.word? modifierWords (·.isNull)

def stateMachineKind : Json → Option StateMachineKind := Json.word? stateMachineWords (·.isNull)

def namedType (json : Json) : Option NamedType := do
  let [name, space, declaringType, genericParams, module, interfaces, compilerGenerated] ←
    json.fields?
      ["name", "namespace", "declaring_type", "generic_params", "module", "interfaces",
       "compiler_generated"] | none
  some
    { name := ← required Json.text? name
      space := ← optional Json.text? space
      declaringType := ← optional typeToken declaringType
      genericParams := ← orDefault [] texts genericParams
      module := ← optional Json.text? module
      interfaces := ← orDefault [] texts interfaces
      compilerGenerated := ← orDefault false Json.bool? compilerGenerated }

def genericInstance (json : Json) : Option TypeDef := do
  let [definition, args] ← json.fields? ["definition", "args"] | none
  some (.genericInstance (← required typeToken definition) (← required typeTokens args))

def genericParam (json : Json) : Option TypeDef := do
  let [name, owner, position] ← json.fields? ["name", "owner", "position"] | none
  some
    (.genericParam (← required Json.text? name) (← required genericOwner owner)
      (← required Json.word64? position))

def array (json : Json) : Option TypeDef := do
  let [element, rank] ← json.fields? ["element", "rank"] | none
  some (.array (← required typeToken element) (← orDefault 1 Json.word32? rank))

/-- The element of a shape that has nothing else. -/
def element (json : Json) : Option TypeToken := do
  let [element] ← json.fields? ["element"] | none
  required typeToken element

def typeDef (json : Json) : Option TypeDef := do
  guard (json.isReadable maxDefinitionNesting)
  let (kind, body) ← json.tagged? "kind"
  match kind with
  | "named" => (namedType body).map .named
  | "generic_instance" => genericInstance body
  | "generic_param" => genericParam body
  | "array" => array body
  | "pointer" => (element body).map .pointer
  | "by_ref" => (element body).map .byRef
  | _ => none

def paramDef (json : Json) : Option ParamDef := do
  let [name, type, modifier, isDynamic] ←
    json.fields? ["name", "ty", "modifier", "dynamic"] | none
  some
    { name := ← optional Json.text? name
      type := ← required typeToken type
      modifier := ← optional paramModifier modifier
      isDynamic := ← orDefault false Json.bool? isDynamic }

def stateMachineAttr (json : Json) : Option StateMachineAttr := do
  let [kind, machine] ← json.fields? ["kind", "state_machine_type"] | none
  some { kind := ← required stateMachineKind kind, machine := ← required typeToken machine }

def methodDef (json : Json) : Option MethodDef := do
  let [name, declaringType, genericParams, parameters, stateMachine, ordinal] ←
    json.fields?
      ["name", "declaring_type", "generic_params", "parameters", "state_machine", "ordinal"] | none
  some
    { name := ← required Json.text? name
      declaringType := ← required typeToken declaringType
      genericParams := ← orDefault [] texts genericParams
      parameters := ← orDefault [] (Json.list? paramDef) parameters
      stateMachine := ← optional stateMachineAttr stateMachine
      ordinal := ← optional Json.word32? ordinal }

/-- Definitions by their tokens. A later one replaces an earlier one of its token. -/
def tokenMap {α : Type} (read : Json → Option α) : Json → Option (TokenMap α)
  | .object entries => do
    let entries ← entries.mapM fun (key, value) => do
      some (← Json.numericKey? key, ← read value)
    some (.ofList entries)
  | _ => none

def metadata (json : Json) : Option Metadata := do
  let [types, methods] ← json.fields? ["types", "methods"] | none
  some
    { types := ← orDefault ∅ (tokenMap typeDef) types
      methods := ← orDefault ∅ (tokenMap methodDef) methods }

def frame (json : Json) : Option Frame := do
  let [declaringType, method, parameterTypes, methodGenericArgs, file, line, column, isLast] ←
    json.fields?
      ["declaring_type", "method", "parameter_types", "method_generic_args", "file", "line",
       "column", "is_last_frame_in_chain"] | none
  some
    { declaringType := ← required typeToken declaringType
      method := ← required methodToken method
      parameterTypes := ← orDefault [] typeTokens parameterTypes
      methodGenericArgs := ← orDefault [] typeTokens methodGenericArgs
      file := ← optional Json.text? file
      line := ← optional Json.word32? line
      column := ← optional Json.word32? column
      isLastInChain := ← orDefault false Json.bool? isLast }

def stackTrace (json : Json) : Option StackTrace := do
  let [frames, omittedFrames] ← json.fields? ["frames", "omitted_frames"] | none
  some
    { frames := ← orDefault [] (Json.list? frame) frames
      omittedFrames := ← orDefault 0 Json.word64? omittedFrames }

def record (json : Json) : Option ExceptionRecord := do
  let [typeName, message, trace, inner, children, renderedTrace] ←
    json.fields? ["type_name", "message", "trace", "inner", "children", "rendered_trace"] | none
  some
    { typeName := ← required Json.text? typeName
      message := ← orDefault "" Json.text? message
      trace := ← orDefault {} stackTrace trace
      inner := ← optional exceptionId inner
      children := ← orDefault [] (Json.list? exceptionId) children
      renderedTrace := ← optional Json.text? renderedTrace }

def graph (json : Json) : Option ExceptionGraph :=
  (Json.list? record json).map fun records => ⟨records.toArray⟩

def document (json : Json) : Option Document := do
  let [metadata, exceptions, root] ← json.fields? ["metadata", "exceptions", "root"] | none
  some
    { metadata := ← orDefault {} DocumentReader.metadata metadata
      exceptions := ← required graph exceptions
      root := ← orDefault 0 exceptionId root }

/-- Options that are left out have their built-in values. -/
def options (json : Json) : Option RenderOptions := do
  let [colorEnabled, namespaceQualified, includeGenericParamNames, maxDepth] ←
    json.fields?
      ["color_enabled", "namespace_qualified", "include_generic_param_names", "max_depth"] | none
  let builtIn : RenderOptions := {}
  some
    { colorEnabled := ← orDefault builtIn.colorEnabled Json.bool? colorEnabled
      namespaceQualified := ← orDefault builtIn.namespaceQualified Json.bool? namespaceQualified
      includeGenericParamNames :=
        ← orDefault builtIn.includeGenericParamNames Json.bool? includeGenericParamNames
      maxDepth := ← orDefault builtIn.maxDepth Json.word64? maxDepth }

end DocumentReader

/-- The document that a JSON value holds, if no link leads out of it. -/
def Document.ofValue (json : Json) : Except Error Document :=
  match DocumentReader.document json with
  | some d => d.validate.map fun _ => d
  | none => .error .malformedDocument

/-- Reads a document. -/
def Document.ofJson (text : String) : Except Error Document :=
  match Json.parse? text with
  | some json => Document.ofValue json
  | none => .error .malformedDocument

/-- Reads options. -/
def RenderOptions.ofJson (text : String) : Except Error RenderOptions :=
  match (Json.parse? text).bind DocumentReader.options with
  | some options => .ok options
  | none => .error .malformedDocument

end Unmangle
