import Unmangle.Document.Basic
import Unmangle.Json.Printer

/-!
# Writing documents

Every record is written as an object with its fields in a fixed order. Optional values that are
absent are left out, and so are most lists that are empty; everything else is written even where it
is what a reader would assume.
-/

namespace Unmangle

namespace DocumentWriter

def text (value : String) : Json := .ofString value

def flag (value : Bool) : Json := .bool value

def word32 (value : UInt32) : Json := .ofNat value.toNat

def word64 (value : UInt64) : Json := .ofNat value.toNat

def typeToken (token : TypeToken) : Json := word32 token.val

def list {α : Type} (write : α → Json) (values : List α) : Json := .array (values.map write)

/-- A list that is left out if it is empty. -/
def listIfAny {α : Type} (write : α → Json) (values : List α) : Option Json :=
  if values.isEmpty then none else some (list write values)

def genericOwner : GenericOwner → Json
  | .type => text "type"
  | .method => text "method"

def paramModifier (modifier : ParamModifier) : Json := text modifier.keyword

def stateMachineKind : StateMachineKind → Json
  | .async => text "async"
  | .iterator => text "iterator"
  | .asyncIterator => text "async_iterator"

/-- The fields of a named type, without the tag. -/
def namedFields (type : NamedType) : List (String × Option Json) :=
  [("name", some (text type.name)),
   ("namespace", type.space.map text),
   ("declaring_type", type.declaringType.map typeToken),
   ("generic_params", listIfAny text type.genericParams),
   ("module", type.module.map text),
   ("interfaces", listIfAny text type.interfaces),
   ("compiler_generated", some (flag type.compilerGenerated))]

def namedType (type : NamedType) : Json := .ofFields (namedFields type)

def typeDef : TypeDef → Json
  | .named type => .ofFields (("kind", some (text "named")) :: namedFields type)
  | .genericInstance definition args =>
    .ofFields
      [("kind", some (text "generic_instance")), ("definition", some (typeToken definition)),
       ("args", some (list typeToken args))]
  | .genericParam name owner position =>
    .ofFields
      [("kind", some (text "generic_param")), ("name", some (text name)),
       ("owner", some (genericOwner owner)), ("position", some (word64 position))]
  | .array element rank =>
    .ofFields
      [("kind", some (text "array")), ("element", some (typeToken element)),
       ("rank", some (word32 rank))]
  | .pointer element =>
    .ofFields [("kind", some (text "pointer")), ("element", some (typeToken element))]
  | .byRef element =>
    .ofFields [("kind", some (text "by_ref")), ("element", some (typeToken element))]

def paramDef (param : ParamDef) : Json :=
  .ofFields
    [("name", param.name.map text), ("ty", some (typeToken param.type)),
     ("modifier", param.modifier.map paramModifier), ("dynamic", some (flag param.isDynamic))]

def stateMachineAttr (attr : StateMachineAttr) : Json :=
  .ofFields
    [("kind", some (stateMachineKind attr.kind)),
     ("state_machine_type", some (typeToken attr.machine))]

def methodDef (method : MethodDef) : Json :=
  .ofFields
    [("name", some (text method.name)),
     ("declaring_type", some (typeToken method.declaringType)),
     ("generic_params", listIfAny text method.genericParams),
     ("parameters", listIfAny paramDef method.parameters),
     ("state_machine", method.stateMachine.map stateMachineAttr),
     ("ordinal", method.ordinal.map word32)]

/-- Definitions by their tokens, in ascending order. -/
def tokenMap {α : Type} (write : α → Json) (map : TokenMap α) : Json :=
  .object (map.entries.map fun (token, value) => (Nat.toDigits 10 token.toNat, write value))

def metadata (md : Metadata) : Json :=
  .ofFields
    [("types", some (tokenMap typeDef md.types)), ("methods", some (tokenMap methodDef md.methods))]

def frame (frame : Frame) : Json :=
  .ofFields
    [("declaring_type", some (typeToken frame.declaringType)),
     ("method", some (word32 frame.method.val)),
     ("parameter_types", listIfAny typeToken frame.parameterTypes),
     ("method_generic_args", listIfAny typeToken frame.methodGenericArgs),
     ("file", frame.file.map text),
     ("line", frame.line.map word32),
     ("column", frame.column.map word32),
     ("is_last_frame_in_chain", some (flag frame.isLastInChain))]

def stackTrace (trace : StackTrace) : Json :=
  .ofFields
    [("frames", some (list frame trace.frames)),
     ("omitted_frames", some (word64 trace.omittedFrames))]

def record (record : ExceptionRecord) : Json :=
  .ofFields
    [("type_name", some (text record.typeName)),
     ("message", some (text record.message)),
     ("trace", some (stackTrace record.trace)),
     ("inner", record.inner.map .ofNat),
     ("children", listIfAny .ofNat record.children),
     ("rendered_trace", record.renderedTrace.map text)]

def document (d : Document) : Json :=
  .ofFields
    [("metadata", some (metadata d.metadata)),
     ("exceptions", some (list record d.exceptions.records.toList)),
     ("root", some (.ofNat d.root))]

end DocumentWriter

/-- Writes a document. -/
def Document.toJson (d : Document) : String := (DocumentWriter.document d).pretty

end Unmangle
