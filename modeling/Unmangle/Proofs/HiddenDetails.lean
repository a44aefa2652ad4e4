import Unmangle.Proofs.TypeDepth
import Unmangle.Rendering.Method

/-!
# What the options hide

Two options keep details of the types from the reader of a call: the namespaces, and the names of
open parameters in lists of generic arguments. The details are still there when the call is
rendered, and the rendering looks at types for more than their text: a list of nothing but open
parameters has separators of its own, and a parameter of the type of no value is left out. So it is
not enough that the names are not written.

`without` takes details out of a call and leaves the rest of it as it is, so that two calls differ
in no more than these details if they are the same without them. If the options show none of the
details, the rendering of a call is the same without them, span for span, and hence whatever is made
of it.
-/

namespace Unmangle

/-- Details of a call that may be hidden. -/
structure Details where
  /-- The namespaces of named types and the full names of primitive types. -/
  qualification : Bool := false
  /-- The names of open parameters that are elements of a list of generic arguments. -/
  openArguments : Bool := false

/-- The options show none of these details. -/
structure Details.HiddenBy (details : Details) (options : FormatOptions) : Prop where
  qualification : details.qualification = true → options.fullyQualified = false
  openArguments : details.openArguments = true → options.includeGenericParamNames = false

/-! ## Taking details out -/

/-- An element of a list of generic arguments without its name, if it is an open parameter. -/
def SourceType.withoutOpenName (details : Details) : SourceType → SourceType
  | .genericParam name => .genericParam (if details.openArguments then "" else name)
  | type => type

mutual

/-- A type without the details. An open parameter outside of a list keeps its name. -/
def SourceType.without (details : Details) : SourceType → SourceType
  | .named space segments =>
    .named (if details.qualification then none else space) (segmentsWithout details segments)
  | .primitive keyword fullName =>
    .primitive keyword (if details.qualification then "" else fullName)
  | .genericParam name => .genericParam name
  | .array element rank => .array (element.without details) rank
  | .pointer element => .pointer (element.without details)
  | .byRef element => .byRef (element.without details)
  | .nullable element => .nullable (element.without details)
  | .tuple elements => .tuple (typesWithout details elements)
  | .dynamic => .dynamic
  | .foreignUnit => .foreignUnit
  | .unresolved => .unresolved
  | .truncated => .truncated

def typesWithout (details : Details) : List SourceType → List SourceType
  | [] => []
  | type :: rest => type.without details :: typesWithout details rest

def TypeSegment.without (details : Details) : TypeSegment → TypeSegment
  | .mk name args => .mk name ((typesWithout details args).map (·.withoutOpenName details))

def segmentsWithout (details : Details) : List TypeSegment → List TypeSegment
  | [] => []
  | segment :: rest => segment.without details :: segmentsWithout details rest

end

/-- A list of generic arguments without the details. -/
def argumentsWithout (details : Details) (args : List SourceType) : List SourceType :=
  args.map fun arg => (arg.without details).withoutOpenName details

def SourceParameter.without (details : Details) (parameter : SourceParameter) : SourceParameter :=
  { parameter with type := parameter.type.without details }

def SourceMethod.without (details : Details) (method : SourceMethod) : SourceMethod :=
  { method with
    declaringType := method.declaringType.map (·.without details)
    genericArguments := argumentsWithout details method.genericArguments
    parameters := method.parameters.map (·.without details) }

def SourceCall.without (details : Details) (call : SourceCall) : SourceCall :=
  { method := call.method.without details
    bodies := call.bodies.map (·.without details) }

variable {details : Details}

theorem typesWithout_eq_map (types : List SourceType) :
    typesWithout details types = types.map (·.without details) := by
  induction types with
  | nil => rfl
  | cons type rest ih => rw [typesWithout, ih, List.map_cons]

theorem TypeSegment.without_mk (name : String) (args : List SourceType) :
    (TypeSegment.mk name args).without details = .mk name (argumentsWithout details args) := by
  rw [TypeSegment.without, typesWithout_eq_map, List.map_map]
  rfl

/-! ## What the rendering looks at -/

namespace SourceType

@[simp]
theorem isGenericParam_withoutOpenName (type : SourceType) :
    (type.withoutOpenName details).isGenericParam = type.isGenericParam := by
  cases type <;> rfl

@[simp]
theorem isGenericParam_without (type : SourceType) :
    (type.without details).isGenericParam = type.isGenericParam := by
  cases type <;> rw [SourceType.without] <;> rfl

theorem isForeignUnit_without (type : SourceType) :
    (type.without details).isForeignUnit = type.isForeignUnit := by
  cases type <;> rw [SourceType.without] <;> rfl

end SourceType

@[simp]
theorem SourceParameter.isElided_without (parameter : SourceParameter) :
    (parameter.without details).isElided = parameter.isElided := by
  rw [isElided, isElided, without, SourceType.isForeignUnit_without]

/-! ## Hidden details make no difference -/

variable {options : FormatOptions}

/-- An element of a list of generic arguments, as the list shows it. -/
def SourceType.renderArgument (options : FormatOptions) (arg : SourceType) : Rendering :=
  if !options.includeGenericParamNames && arg.isGenericParam then [] else arg.render options

theorem renderArguments_eq (args : List SourceType) :
    renderArguments options args =
      if args.isEmpty then []
      else
        punctuation "<" ::
          separated
            (if !options.includeGenericParamNames && args.all (·.isGenericParam) then ","
              else ", ")
            (args.map (·.renderArgument options)) ++
          [punctuation ">"] := by
  rw [renderArguments, joinArguments, renderTypes_eq_map, ← List.map_prod_left_eq_zip]
  simp only [List.map_map]
  rfl

section

variable (h : details.HiddenBy options)
include h

theorem renderSpace_without (space : Option String) :
    renderSpace options (if details.qualification then none else space) =
      renderSpace options space := by
  split
  · next htaken =>
      cases space with
      | none => rfl
      | some name => simp [renderSpace, h.qualification htaken]
  · rfl

/-- An open parameter that loses its name shows no name in a list. -/
theorem SourceType.renderArgument_withoutOpenName (arg : SourceType) :
    (arg.withoutOpenName details).renderArgument options = arg.renderArgument options := by
  cases arg with
  | genericParam name =>
      rw [withoutOpenName]
      split
      · next htaken => simp [renderArgument, isGenericParam, h.openArguments htaken]
      · rfl
  | _ => rfl

theorem renderArguments_without {args : List SourceType}
    (hargs : ∀ arg ∈ args, (arg.without details).render options = arg.render options) :
    renderArguments options (argumentsWithout details args) = renderArguments options args := by
  -- The separators depend on whether all arguments are open, and they are as open as before.
  have hall : (argumentsWithout details args).all (·.isGenericParam) =
      args.all (·.isGenericParam) := by
    simp [argumentsWithout, Function.comp_def]
  have hempty : (argumentsWithout details args).isEmpty = args.isEmpty := by
    simp [argumentsWithout]
  have hparts : (argumentsWithout details args).map (·.renderArgument options) =
      args.map (·.renderArgument options) := by
    rw [argumentsWithout, List.map_map]
    refine List.map_congr_left fun arg harg => ?_
    rw [Function.comp_apply, SourceType.renderArgument_withoutOpenName h, SourceType.renderArgument,
      SourceType.isGenericParam_without, hargs arg harg]
    rfl
  rw [renderArguments_eq, renderArguments_eq, hall, hempty, hparts]

end

mutual

theorem SourceType.render_without (h : details.HiddenBy options) :
    ∀ type : SourceType, (type.without details).render options = type.render options
  | .named space segments => by
    rw [SourceType.without, SourceType.render, SourceType.render, renderSpace_without h,
      renderSegments_without h segments]
  | .primitive keyword fullName => by
    rw [SourceType.without, SourceType.render, SourceType.render]
    split
    · next hqualified =>
        have hkept : ¬ details.qualification = true := fun htaken => by
          rw [h.qualification htaken] at hqualified
          cases hqualified
        rw [if_neg hkept]
    · rfl
  | .array element rank => by
    rw [SourceType.without, SourceType.render, SourceType.render, element.render_without h]
  | .pointer element => by
    rw [SourceType.without, SourceType.render, SourceType.render, element.render_without h]
  | .byRef element => by
    rw [SourceType.without, SourceType.render, SourceType.render, element.render_without h]
  | .nullable element => by
    rw [SourceType.without, SourceType.render, SourceType.render, element.render_without h]
  | .tuple elements => by
    rw [SourceType.without, SourceType.render, SourceType.render, typesWithout_eq_map,
      renderTypes_eq_map, renderTypes_eq_map, List.map_map]
    congr 3
    exact List.map_congr_left (renderTypes_without h elements)
  | .genericParam _ | .dynamic | .foreignUnit | .unresolved | .truncated => by
    rw [SourceType.without]

theorem renderTypes_without (h : details.HiddenBy options) :
    ∀ types : List SourceType, ∀ type ∈ types,
      (type.without details).render options = type.render options
  | [] => List.forall_mem_nil _
  | type :: rest => List.forall_mem_cons.2 ⟨type.render_without h, renderTypes_without h rest⟩

theorem TypeSegment.render_without (h : details.HiddenBy options) :
    ∀ segment : TypeSegment, (segment.without details).render options = segment.render options
  | .mk name args => by
    rw [TypeSegment.without_mk, TypeSegment.render, TypeSegment.render]
    exact congrArg _ (renderArguments_without h (renderTypes_without h args))

theorem renderSegments_without (h : details.HiddenBy options) :
    ∀ segments : List TypeSegment,
      renderSegments options (segmentsWithout details segments) = renderSegments options segments
  | [] => rfl
  | segment :: rest => by
    rw [segmentsWithout, renderSegments, renderSegments, segment.render_without h,
      renderSegments_without h rest]

end

section

variable (h : details.HiddenBy options)
include h

theorem SourceParameter.render_without (parameter : SourceParameter) :
    (parameter.without details).render options = parameter.render options := by
  rw [render, render, isElided_without]
  simp only [without, parameter.type.render_without h]

theorem renderParameters_without (known : Bool) (parameters : List SourceParameter) :
    renderParameters options known (parameters.map (·.without details)) =
      renderParameters options known parameters := by
  -- No parameter is left out for what was taken from its type.
  have hkept : (parameters.map (·.without details)).filter (!·.isElided) =
      (parameters.filter (!·.isElided)).map (·.without details) := by
    rw [List.filter_map]
    simp only [Function.comp_def, SourceParameter.isElided_without]
  rw [renderParameters, renderParameters, hkept, List.map_map]
  simp only [Function.comp_def, SourceParameter.render_without h]

namespace SourceMethod

theorem renderSignature_without (method : SourceMethod) :
    (method.without details).renderSignature options = method.renderSignature options := by
  have harguments := renderArguments_without h (renderTypes_without h method.genericArguments)
  have hparameters := renderParameters_without h method.parametersKnown method.parameters
  rw [renderSignature, renderSignature, ← harguments, ← hparameters]
  rfl

theorem renderName_without (hasBodies : Bool) (method : SourceMethod) :
    (method.without details).renderName options hasBodies =
      method.renderName options hasBodies := by
  rw [renderName, renderName, without]
  cases method.declaringType with
  | none => rfl
  | some type => simp only [Option.map_some, type.render_without h]

theorem renderBody_without (body : SourceMethod) :
    (body.without details).renderBody options = body.renderBody options := by
  have hparameters := renderParameters_without h body.parametersKnown body.parameters
  rw [renderBody, renderBody, renderSignature_without h, ← hparameters]
  rfl

end SourceMethod

theorem SourceCall.render_without (call : SourceCall) :
    (call.without details).render options = call.render options := by
  have hbodies : (call.bodies.map (·.without details)).flatMap (·.renderBody options) =
      call.bodies.flatMap (·.renderBody options) := by
    rw [List.flatMap_map]
    simp only [SourceMethod.renderBody_without h]
  have hempty : (call.bodies.map (·.without details)).isEmpty = call.bodies.isEmpty :=
    List.isEmpty_map
  rw [render, render, without]
  dsimp only
  rw [hempty, hbodies, SourceMethod.renderName_without h, SourceMethod.renderSignature_without h]
  rfl

end

/-- Calls that differ in no more than hidden details have the same rendering. -/
theorem SourceCall.render_eq_of_without_eq (h : details.HiddenBy options) {call other : SourceCall}
    (hsame : call.without details = other.without details) :
    call.render options = other.render options := by
  rw [← call.render_without h, hsame, other.render_without h]

/-- What the options hide does not show: not the namespaces of named types and the full names of
primitive ones where types are not qualified, and not the names of open parameters in lists of
generic arguments where these are left out. Calls that differ in nothing else are rendered by the
same spans, so no output tells them apart. -/
theorem options_hide_details (options : FormatOptions) (call other : SourceCall) :
    (options.fullyQualified = false →
      call.without { qualification := true } = other.without { qualification := true } →
        call.render options = other.render options) ∧
    (options.includeGenericParamNames = false →
      call.without { openArguments := true } = other.without { openArguments := true } →
        call.render options = other.render options) := by
  constructor
  · intro hoption
    exact SourceCall.render_eq_of_without_eq ⟨fun _ => hoption, fun h => absurd h (by decide)⟩
  · intro hoption
    exact SourceCall.render_eq_of_without_eq ⟨fun h => absurd h (by decide), fun _ => hoption⟩

/-! Calls with details in every place: in nested types, an array, a tuple and a body. -/

namespace Lookalikes

def call (space fullName openName : String) : SourceCall :=
  { method :=
      { declaringType := some (.named (some space)
          [.mk "Cache" [.genericParam openName, .genericParam openName],
           .mk "Entry" [.array (.primitive "int" fullName) 2]])
        name := "Read"
        genericArguments :=
          [.genericParam openName, .tuple [.named (some space) [.mk "Key" []], .genericParam "T"]]
        parameters := [{ name := some "item", type := .genericParam "T" }]
        parametersKnown := true }
    bodies :=
      [{ name := "Find"
         genericArguments := [.genericParam openName]
         parameters :=
          [{ name := some "key", type := .named (some space) [.mk "Key" [.genericParam openName]] }]
         parametersKnown := true }] }

end Lookalikes

open Lookalikes

theorem render_lookalikes :
    let short : FormatOptions := {}
    let unnamed : FormatOptions := { fullyQualified := true, includeGenericParamNames := false }
    (call "App" "System.Int32" "T").render short = (call "Lib" "Int" "T").render short ∧
      (call "App" "System.Int32" "T").render unnamed =
        (call "App" "System.Int32" "Key").render unnamed ∧
      ((call "App" "System.Int32" "T").render unnamed).plain =
        "App.Cache<,>.Entry<System.Int32[,]>.Read<, (App.Key, T)>(T item)+Find<>(App.Key<> key)" ∧
      (call "App" "System.Int32" "T").render unnamed ≠ (call "Lib" "Int" "T").render unnamed ∧
      (call "App" "System.Int32" "T").render short ≠
        (call "App" "System.Int32" "Key").render short := by
  refine ⟨?qualification, ?openArguments, by decide +kernel, by decide +kernel, by decide +kernel⟩
  case qualification =>
    exact (options_hide_details {} (call "App" "System.Int32" "T") (call "Lib" "Int" "T")).1 rfl rfl
  case openArguments =>
    exact (options_hide_details _ (call "App" "System.Int32" "T")
      (call "App" "System.Int32" "Key")).2 rfl rfl

end Unmangle
