import Unmangle.Origin.Basic
import Unmangle.Source.Method

/-!
# Showing an origin

Once the way outward is known, every type on it is resolved: those of the parameters of each body,
under the arguments that are bound where the body was found, and those of the method at the end.
-/

namespace Unmangle

/-- A parameter of a type as passed: a reference is a way of passing, not a type. -/
def SourceParameter.ofDef (param : ParamDef) (type : SourceType) : SourceParameter :=
  let (type, modifier) :=
    match type with
    | .byRef element => (element, some (param.modifier.getD .ref))
    | type => (type, param.modifier)
  { name := param.name
    type := if param.isDynamic then .dynamic else type
    modifier
    isDynamic := param.isDynamic }

namespace SourceParameter

theorem name_ofDef (param : ParamDef) (type : SourceType) :
    (ofDef param type).name = param.name := by
  cases type <;> rfl

theorem isDynamic_ofDef_eq (param : ParamDef) (type : SourceType) :
    (ofDef param type).isDynamic = param.isDynamic := by
  cases type <;> rfl

end SourceParameter

namespace Site

/-- The parameters, each with the token of its type: the one at run time where it is known. -/
def parameterTokens (site : Site) : List (ParamDef × TypeToken) :=
  site.method.parameters.zipIdx.map fun (param, position) =>
    (param, site.actualTypes[position]?.getD param.type)

def parameters (md : Metadata) (site : Site) : List SourceParameter :=
  site.parameterTokens.map fun (param, token) => .ofDef param (md.resolveType site.bindings token)

theorem getElem?_parameters (md : Metadata) (site : Site) (position : Nat) :
    (site.parameters md)[position]? = site.method.parameters[position]?.map fun param =>
      .ofDef param
        (md.resolveType site.bindings (site.actualTypes[position]?.getD param.type)) := by
  rw [parameters, parameterTokens, List.getElem?_map, List.getElem?_map, List.getElem?_zipIdx,
    Nat.zero_add, Option.map_map, Option.map_map]
  rfl

/-- Away from the frame itself no type at run time is known, and the declared ones show. -/
theorem parameters_of_declared {md : Metadata} {site : Site} (h : site.actualTypes = []) :
    site.parameters md =
      site.method.parameters.map fun param =>
        .ofDef param (md.resolveType site.bindings param.type) := by
  refine List.ext_getElem? fun position => ?_
  rw [getElem?_parameters, h, List.getElem?_map]
  rfl

/-- The generic arguments of the method; a parameter without argument stands for itself. -/
def genericArguments (md : Metadata) (site : Site) : List SourceType :=
  site.method.genericParams.zipIdx.map fun (name, position) =>
    match site.methodArgs[position]? with
    | some arg => md.resolveType {} arg
    | none => .genericParam name

end Site

namespace Body

/-- How a body shows behind the method around it. -/
def present (md : Metadata) (body : Body) : SourceMethod :=
  let parameters := body.site.parameters md
  match body.kind with
  | .lambda ordinal => { parameters, parametersKnown := true, isLambda := true, ordinal }
  | .localFunction name =>
    { name, parameters, parametersKnown := true
      genericArguments := body.site.genericArguments md }
  | .iteration => { name := body.site.method.name, parameters, parametersKnown := true }

end Body

namespace Origin

/-- The arguments of a declaring type: as many as it declares, if there are as many. -/
def ownArguments (type : NamedType) (args : List TypeToken) : List TypeToken :=
  let arity := type.genericParams.length
  if arity ≤ args.length then args.take arity else []

def declaringType (md : Metadata) (token : TypeToken) (args : List TypeToken) : SourceType :=
  match md.named? token with
  | some type => md.resolveNamed type ((ownArguments type args).map (md.resolveType {}))
  | none => .unresolved

/-- The method at the end of the way. Of a method known by name only, the nearest type that
someone wrote is shown, and neither parameters nor generic arguments are known. -/
def method (md : Metadata) (origin : Origin) : SourceMethod :=
  let site := origin.site
  match origin.orphanName with
  | some name =>
    { declaringType := some (declaringType md (md.nearestUserType site.owner) site.typeArgs)
      name
      kind := .ofName name
      isAsync := origin.isAsync }
  | none =>
    { declaringType := some (declaringType md site.owner site.typeArgs)
      name := site.method.name
      kind := .ofName site.method.name
      genericArguments := site.genericArguments md
      parameters := site.parameters md
      parametersKnown := true
      isAsync := origin.isAsync }

def present (md : Metadata) (origin : Origin) : SourceCall :=
  { method := origin.method md, bodies := origin.bodies.map (·.present md) }

end Origin

/-- What a frame was running. It fails only if the method of the frame is unknown. -/
def Frame.resolve (md : Metadata) (frame : Frame) : Except Error SourceCall :=
  (frame.origin md).map (·.present md)

end Unmangle
