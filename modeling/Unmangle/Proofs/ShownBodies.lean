import Unmangle.Origin.Call
import Mathlib.Data.List.Forall2

/-!
# How bodies show

A body that was moved out of a method shows behind it, without a type in front and without marks of
its own. What it has of its own depends on its kind: a lambda has no name but may have a number, a
local function has the name that was written and generic arguments, the loop of an iterator has the
name that the compiler gave it. The parameters are always those of the method that holds the body.

This is said here apart from the way in which bodies are made (`Body.ShowsAs`), and the lists by
what is at each position of them: a parameter has the type known at run time or else the declared
one, a generic parameter has the argument that is bound, and in both cases nothing is bound but what
is bound at the site of the body.
-/

namespace Unmangle

namespace Site

/-- These are the parameters of the method at the site, with what is bound there. -/
def ShowsParameters (md : Metadata) (site : Site) (parameters : List SourceParameter) : Prop :=
  ∀ position : Nat, parameters[position]? =
    site.method.parameters[position]?.map fun param =>
      .ofDef param (md.resolveType ⟨site.typeArgs, site.methodArgs⟩
        (site.actualTypes[position]?.getD param.type))

/-- These are the generic arguments of the method at the site. -/
def ShowsArguments (md : Metadata) (site : Site) (arguments : List SourceType) : Prop :=
  ∀ position : Nat, arguments[position]? =
    site.method.genericParams[position]?.map fun name =>
      match site.methodArgs[position]? with
      | some token => md.resolveType {} token
      | none => .genericParam name

variable {md : Metadata} {site : Site}

theorem showsParameters_iff {parameters : List SourceParameter} :
    site.ShowsParameters md parameters ↔ parameters = site.parameters md := by
  constructor
  · intro h
    refine List.ext_getElem? fun position => ?_
    rw [h position, getElem?_parameters]
    rfl
  · rintro rfl
    exact site.getElem?_parameters md

theorem showsArguments_iff {arguments : List SourceType} :
    site.ShowsArguments md arguments ↔ arguments = site.genericArguments md := by
  have hown (position : Nat) : (site.genericArguments md)[position]? =
      site.method.genericParams[position]?.map fun name =>
        match site.methodArgs[position]? with
        | some token => md.resolveType {} token
        | none => .genericParam name := by
    rw [genericArguments, List.getElem?_map, List.getElem?_zipIdx, Nat.zero_add, Option.map_map]
    rfl
  constructor
  · intro h
    exact List.ext_getElem? fun position => (h position).trans (hown position).symm
  · rintro rfl
    exact hown

end Site

/-- The body shows as this. -/
inductive Body.ShowsAs (md : Metadata) : Body → SourceMethod → Prop
  | lambda {site : Site} {ordinal : Option UInt32} {parameters : List SourceParameter}
      (hparameters : site.ShowsParameters md parameters) :
      ShowsAs md ⟨.lambda ordinal, site⟩
        { name := "", isLambda := true, ordinal, parameters, parametersKnown := true }
  | localFunction {site : Site} {name : String} {arguments : List SourceType}
      {parameters : List SourceParameter} (harguments : site.ShowsArguments md arguments)
      (hparameters : site.ShowsParameters md parameters) :
      ShowsAs md ⟨.localFunction name, site⟩
        { name, genericArguments := arguments, parameters, parametersKnown := true }
  | iteration {site : Site} {parameters : List SourceParameter}
      (hparameters : site.ShowsParameters md parameters) :
      ShowsAs md ⟨.iteration, site⟩
        { name := site.method.name, parameters, parametersKnown := true }

namespace Body

variable {md : Metadata} {body : Body} {shown : SourceMethod}

theorem showsAs_iff : body.ShowsAs md shown ↔ body.present md = shown := by
  constructor
  · intro h
    cases h with
    | lambda hparameters | iteration hparameters =>
        rw [Site.showsParameters_iff.1 hparameters]
        rfl
    | localFunction harguments hparameters =>
        rw [Site.showsParameters_iff.1 hparameters, Site.showsArguments_iff.1 harguments]
        rfl
  · rintro rfl
    obtain ⟨kind, site⟩ := body
    have hparameters : site.ShowsParameters md (site.parameters md) :=
      Site.showsParameters_iff.2 rfl
    cases kind with
    | lambda ordinal => exact .lambda hparameters
    | localFunction name => exact .localFunction (Site.showsArguments_iff.2 rfl) hparameters
    | iteration => exact .iteration hparameters

theorem forall₂_showsAs_iff {bodies : List Body} {shown : List SourceMethod} :
    List.Forall₂ (ShowsAs md) bodies shown ↔ bodies.map (·.present md) = shown := by
  have hshows : ShowsAs md = fun body shown => body.present md = shown :=
    funext₂ fun _ _ => propext showsAs_iff
  rw [hshows, ← List.forall₂_map_left_iff, List.forall₂_eq_eq_eq]

end Body

end Unmangle
