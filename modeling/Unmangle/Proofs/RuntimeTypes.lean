import Unmangle.Proofs.CallShape

/-!
# Where the types at run time show

A frame may know the types of its arguments at run time, and these go before the declared ones. They
are the types of the frame's own arguments, so they must show in the list of its own method and
nowhere else, wherever the search has led from there.

Two frames that differ in these types alone make the same steps, and the first step decides the
matter (`Site.ShowsIn`). If it stays, the method of the frame is what shows at the outside. If it
leads outward or ends at a name, the method is left behind, as the innermost body or without one.
Each step forgets the types (`Site.outward_retyped`), so that no other list can depend on them.
-/

namespace Unmangle

/-! ## Lists of parameters -/

/-- The lists hold the same parameters in the same order. Up to some position they may differ in the
types and in how the arguments are passed, and from there on they do not differ. -/
structure AgreeBeyond (count : Nat) (parameters others : List SourceParameter) : Prop where
  names : parameters.map (·.name) = others.map (·.name)
  marks : parameters.map (·.isDynamic) = others.map (·.isDynamic)
  beyond : parameters.drop count = others.drop count

namespace Site

variable (md : Metadata) (site : Site) (types : List TypeToken)

/-- What a parameter has from its declaration is the same whatever its type. -/
theorem map_parameters {α : Type} {shown : SourceParameter → α} {declared : ParamDef → α}
    (h : ∀ param type, shown (.ofDef param type) = declared param) :
    (site.parameters md).map shown = site.method.parameters.map declared := by
  refine List.ext_getElem? fun position => ?_
  rw [List.getElem?_map, getElem?_parameters, Option.map_map, List.getElem?_map]
  simp only [Function.comp_def, h]

/-- Beyond the types that are known at run time, the declared ones show. -/
theorem drop_parameters_retyped {count : Nat} (hown : site.actualTypes.length ≤ count)
    (htypes : types.length ≤ count) :
    (site.parameters md).drop count = ((site.retyped types).parameters md).drop count := by
  refine List.ext_getElem? fun position => ?_
  have hown : site.actualTypes[count + position]? = none :=
    List.getElem?_eq_none (Nat.le_add_right_of_le hown)
  have htypes : (site.retyped types).actualTypes[count + position]? = none :=
    List.getElem?_eq_none (Nat.le_add_right_of_le htypes)
  rw [List.getElem?_drop, List.getElem?_drop, getElem?_parameters, getElem?_parameters, hown,
    htypes]
  rfl

theorem agreeBeyond_parameters_retyped :
    AgreeBeyond (max site.actualTypes.length types.length) (site.parameters md)
      ((site.retyped types).parameters md) where
  names := by
    rw [map_parameters md site SourceParameter.name_ofDef,
      map_parameters md (site.retyped types) SourceParameter.name_ofDef]
    rfl
  marks := by
    rw [map_parameters md site SourceParameter.isDynamic_ofDef_eq,
      map_parameters md (site.retyped types) SourceParameter.isDynamic_ofDef_eq]
    rfl
  beyond := site.drop_parameters_retyped md types (Nat.le_max_left _ _) (Nat.le_max_right _ _)

end Site

/-! ## Calls that differ in one list -/

/-- The places where the parameters of a frame's own method may show. -/
inductive ParameterPlace where
  /-- In the method at the outside. -/
  | method
  /-- In the innermost body. -/
  | innermost
  | nowhere
deriving DecidableEq, Repr

/-- The calls are the same, but for the list of parameters at a place. -/
inductive SourceCall.AgreeBut (count : Nat) : ParameterPlace → SourceCall → SourceCall → Prop
  | method {method : SourceMethod} {parameters : List SourceParameter}
      (h : AgreeBeyond count method.parameters parameters) :
      AgreeBut count .method ⟨method, []⟩ ⟨{ method with parameters }, []⟩
  | innermost {method body : SourceMethod} {outer : List SourceMethod}
      {parameters : List SourceParameter} (h : AgreeBeyond count body.parameters parameters) :
      AgreeBut count .innermost ⟨method, outer ++ [body]⟩
        ⟨method, outer ++ [{ body with parameters }]⟩
  | nowhere {call : SourceCall} : AgreeBut count .nowhere call call

/-- The site is left, and this is what leaving it adds. -/
def Site.Leaves (md : Metadata) (site : Site) (passage : Passage) : Prop :=
  (∃ next, site.step md = .outward passage next) ∨ ∃ name, site.step md = .orphan passage name

/-- Where the parameters of a method show when a search starts there. They go with the body that is
left, and only a state machine can be left without one. -/
inductive Site.ShowsIn (md : Metadata) (site : Site) : ParameterPlace → Prop
  | stays (hstay : site.step md = .stay) : ShowsIn md site .method
  | withBody {passage : Passage} {body : Body} (hleaves : site.Leaves md passage)
      (hbody : passage.body = some body) : ShowsIn md site .innermost
  | withoutBody {passage : Passage} {type : NamedType} (hleaves : site.Leaves md passage)
      (hbody : passage.body = none) (htype : site.stateMachine? md = some type) :
      ShowsIn md site .nowhere

namespace Site

variable {md : Metadata} {site : Site} {passage : Passage}

/-- A site is left with a body of its own, or as a state machine. -/
theorem Leaves.body (h : site.Leaves md passage) :
    (∃ kind, passage.body = some ⟨kind, site⟩) ∨
      passage.body = none ∧ ∃ type, site.stateMachine? md = some type := by
  have hmachine : ∀ (kind : Option StateMachineKind) {type : NamedType},
      site.stateMachine? md = some type →
      (∃ own, (site.machinePassage kind).body = some ⟨own, site⟩) ∨
        (site.machinePassage kind).body = none ∧ ∃ type, site.stateMachine? md = some type := by
    intro kind type htype
    rw [machinePassage]
    split
    · exact .inl ⟨_, rfl⟩
    · exact .inr ⟨rfl, type, htype⟩
  have htakes := site.takes_step md
  rcases h with ⟨next, hstep⟩ | ⟨name, hstep⟩
  · rw [hstep] at htakes
    cases htakes with
    | leaveClosure => exact .inl ⟨_, rfl⟩
    | leaveMachine _ htype => exact hmachine _ htype
  · rw [hstep] at htakes
    cases htakes with
    | loseClosure => exact .inl ⟨_, rfl⟩
    | loseMachine _ htype => exact hmachine _ htype

end Site

namespace Body

variable (md : Metadata) (types : List TypeToken) (body : Body)

theorem parameters_present : (body.present md).parameters = body.site.parameters md := by
  obtain ⟨kind, site⟩ := body
  cases kind <;> rfl

theorem present_retyped :
    (body.retyped types).present md =
      { body.present md with parameters := (body.site.retyped types).parameters md } := by
  obtain ⟨kind, site⟩ := body
  cases kind <;> rfl

end Body

namespace Origin

variable {md : Metadata} {site : Site} {passage : Passage} {types : List TypeToken}

/-- Two origins that agree but for the body of a passage show calls that agree but for the
parameters of that body. -/
theorem agreeBut_of_leaves (hleaves : site.Leaves md passage) {origin other : Origin}
    {outer : List Body} (hmethod : other.method md = origin.method md)
    (hbodies : origin.bodies = outer ++ passage.body.toList)
    (hothers : other.bodies = outer ++ (passage.retyped types).body.toList) :
    ∃ place, site.ShowsIn md place ∧
      (origin.present md).AgreeBut (max site.actualTypes.length types.length) place
        (other.present md) := by
  rw [present, present, hmethod, hbodies, hothers, Passage.retyped]
  rcases hleaves.body with ⟨kind, hbody⟩ | ⟨hbody, type, htype⟩
  · have hagree := site.agreeBeyond_parameters_retyped md types
    rw [← Body.parameters_present md ⟨kind, site⟩] at hagree
    refine ⟨.innermost, .withBody hleaves hbody, ?_⟩
    simp only [hbody, Option.map_some, Option.toList_some, List.map_append, List.map_cons,
      List.map_nil, Body.present_retyped]
    exact .innermost hagree
  · refine ⟨.nowhere, .withoutBody hleaves hbody htype, ?_⟩
    rw [hbody]
    exact .nowhere

/-- Searches from sites that differ in the types at run time show calls that differ in one list of
parameters. -/
theorem agreeBut_search (md : Metadata) (site : Site) (types : List TypeToken) {steps : Nat}
    (hsteps : 0 < steps) :
    ∃ place, site.ShowsIn md place ∧
      ((search md steps site).present md).AgreeBut
        (max site.actualTypes.length types.length) place
        ((search md steps (site.retyped types)).present md) := by
  obtain ⟨steps, rfl⟩ : ∃ rest, steps = rest + 1 := ⟨steps - 1, by omega⟩
  have hretyped : (site.retyped types).step md = (site.step md).retyped types :=
    site.step_retyped types
  cases hstep : site.step md with
  | stay =>
      rw [hstep] at hretyped
      rw [search_of_stay hstep, search_of_stay hretyped]
      exact ⟨.method, .stays hstep, .method (site.agreeBeyond_parameters_retyped md types)⟩
  | outward passage next =>
      rw [hstep] at hretyped
      rw [search_of_outward hstep, search_of_outward hretyped]
      exact agreeBut_of_leaves (.inl ⟨next, hstep⟩) rfl rfl rfl
  | orphan passage name =>
      rw [hstep] at hretyped
      rw [search_of_orphan hstep, search_of_orphan hretyped]
      exact agreeBut_of_leaves (.inr ⟨name, hstep⟩) rfl rfl rfl

end Origin

namespace Frame

theorem site?_retyped (md : Metadata) (frame : Frame) (types : List TypeToken) :
    { frame with parameterTypes := types }.site? md =
      (frame.site? md).map (·.retyped types) := by
  rw [site?, site?]
  cases md.methodDef? frame.method with
  | none => rfl
  | some method => rfl

theorem actualTypes_of_site? {md : Metadata} {frame : Frame} {site : Site}
    (h : frame.site? md = .ok site) : site.actualTypes = frame.parameterTypes := by
  rw [site?] at h
  cases hmethod : md.methodDef? frame.method with
  | none => rw [hmethod] at h; cases h
  | some method => rw [hmethod] at h; cases h; rfl

/-- Whatever the types of the arguments at run time, a frame fails to show with the same error, or
shows as the same call. The types and the ways of passing may differ in one list of parameters, as
far as such types are known: in that of the method if the method is the frame's own, in that of the
innermost body if the frame's method was left as one, and in none at all if it was left as a state
machine that shows no body. -/
theorem resolve_shows_types_once (md : Metadata) (frame : Frame) (types : List TypeToken) :
    let other : Frame := { frame with parameterTypes := types }
    (∃ error, frame.resolve md = .error error ∧ other.resolve md = .error error) ∨
    ∃ site call call' place, frame.site? md = .ok site ∧
      frame.resolve md = .ok call ∧ other.resolve md = .ok call' ∧
      site.ShowsIn md place ∧
      call.AgreeBut (max frame.parameterTypes.length types.length) place call' := by
  intro other
  have hother : other.site? md = (frame.site? md).map (·.retyped types) :=
    site?_retyped md frame types
  cases hsite : frame.site? md with
  | error error =>
      rw [hsite] at hother
      refine .inl ⟨error, ?_, ?_⟩
      · rw [resolve, origin, hsite]
        rfl
      · rw [resolve, origin, hother]
        rfl
  | ok site =>
      rw [hsite] at hother
      have hsteps : 0 < maxUnwrapDepth := by decide
      obtain ⟨place, hplace, hagree⟩ := Origin.agreeBut_search md site types hsteps
      rw [actualTypes_of_site? hsite] at hagree
      exact .inr ⟨site, _, _, place, rfl, resolve_of_site? hsite, resolve_of_site? hother,
        hplace, hagree⟩

end Frame

end Unmangle
