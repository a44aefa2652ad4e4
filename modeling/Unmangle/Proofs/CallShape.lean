import Unmangle.Proofs.Searches
import Unmangle.Proofs.TypeShapes

/-!
# The shape of a call

Metadata may send the search for an origin back to where it came from, and a state machine may even
say that it was made from a method of its own. Whatever it says, a search ends after
`maxUnwrapDepth` steps at the latest, and each step adds one body at most. So a frame shows as a
method and not too many bodies within it as soon as its own method is known, and the only error is
that it is not.

What shows is of a known shape. The method at the outside has a type in front of its name; it may be
a method of which nothing is known but the name, and then it claims no parameters. A body has no
type, and its parameters are always known, since it was found in the metadata. What `IsOutermost`
and `IsWithin` say is read off the places where methods and bodies are made, `Origin.method` and
`Body.present`. What cannot be read off is that no parameter is `dynamic` without its mark. There
the type was resolved from a token, and the reason is in the shapes that a resolution makes.
-/

namespace Unmangle

/-! ## The sites of a search -/

/-- A step leads outward from one site to the next. -/
def Site.LeadsTo (md : Metadata) (site next : Site) : Prop :=
  ∃ passage, site.step md = .outward passage next

namespace Origin

variable {md : Metadata}

/-- With so many steps to make, a search from the first site looks at these sites in turn and ends
at the last site: no step leads on from there, or all steps have been made. -/
inductive Walk (md : Metadata) : Nat → Site → List Site → Site → Prop
  | cut {site : Site} : Walk md 0 site [] site
  | stop {steps : Nat} {site : Site} (h : ∀ next, ¬ site.LeadsTo md next) :
      Walk md (steps + 1) site [site] site
  | step {steps : Nat} {site next last : Site} {visited : List Site} (h : site.LeadsTo md next)
      (rest : Walk md steps next visited last) : Walk md (steps + 1) site (site :: visited) last

theorem Walk.length_le {steps : Nat} {site last : Site} {visited : List Site}
    (h : Walk md steps site visited last) : visited.length ≤ steps := by
  induction h with
  | cut => exact Nat.le_refl 0
  | stop => exact Nat.succ_le_succ (Nat.zero_le _)
  | step _ _ ih => exact Nat.succ_le_succ ih

theorem walk_search (md : Metadata) (steps : Nat) (site : Site) :
    Walk md steps site (search md steps site).visited (search md steps site).site := by
  induction steps, site using search_induction md with
  | exhausted site => exact .cut
  | stay steps site h =>
      refine .stop fun next => ?_
      rintro ⟨passage, hstep⟩
      cases h.symm.trans hstep
  | orphan steps site passage name h =>
      refine .stop fun next => ?_
      rintro ⟨other, hstep⟩
      cases h.symm.trans hstep
  | outward steps site passage next h ih => exact .step ⟨passage, h⟩ ih

/-- Only where a step was tried can a body be passed. -/
theorem length_bodies_le (steps : Nat) (site : Site) :
    (search md steps site).bodies.length ≤ (search md steps site).visited.length := by
  induction steps, site using search_induction md with
  | exhausted site => exact Nat.le_refl 0
  | stay steps site h => simp
  | orphan steps site passage name h => simp [passing]
  | outward steps site passage next h ih =>
      have hbody : passage.body.toList.length ≤ 1 := Option.length_toList_le
      simp only [passing, List.length_append, List.length_cons]
      omega

end Origin

/-! ## Methods and bodies -/

/-- A method of the shape that shows at the outside. -/
structure SourceMethod.IsOutermost (method : SourceMethod) : Prop where
  isDeclared : method.declaringType ≠ none
  isLambda : method.isLambda = false
  ordinal : method.ordinal = none
  kind : method.kind = .ofName method.name
  unknown : method.parametersKnown = false →
    method.parameters = [] ∧ method.genericArguments = []
  isDynamic : ∀ parameter ∈ method.parameters,
    parameter.isDynamic = true ↔ parameter.type = .dynamic

/-- A body of the shape that shows within a method. -/
structure SourceMethod.IsWithin (body : SourceMethod) : Prop where
  declaringType : body.declaringType = none
  kind : body.kind = .method
  isAsync : body.isAsync = false
  parametersKnown : body.parametersKnown = true
  lambda : body.isLambda = true → body.name = "" ∧ body.genericArguments = []
  named : body.isLambda = false → body.ordinal = none
  isDynamic : ∀ parameter ∈ body.parameters,
    parameter.isDynamic = true ↔ parameter.type = .dynamic

theorem SourceParameter.isDynamic_ofDef {param : ParamDef} {type : SourceType}
    (h : .dynamic ∉ type.nodes) :
    (ofDef param type).isDynamic = true ↔ (ofDef param type).type = .dynamic := by
  cases hmark : param.isDynamic with
  | true => cases type <;> simp [ofDef, hmark]
  | false =>
      have hpassed : (ofDef param type).type ∈ type.nodes := by
        cases type <;> simp [ofDef, hmark, SourceType.nodes, SourceType.mem_nodes_self]
      have hnone : (ofDef param type).isDynamic = false :=
        (isDynamic_ofDef_eq param type).trans hmark
      refine ⟨fun hdynamic => ?_, fun hdynamic => ?_⟩
      · rw [hnone] at hdynamic
        cases hdynamic
      · rw [hdynamic] at hpassed
        exact absurd hpassed h

theorem Site.isDynamic_parameters (md : Metadata) (site : Site) :
    ∀ parameter ∈ site.parameters md,
      parameter.isDynamic = true ↔ parameter.type = .dynamic := by
  intro parameter hparameter
  obtain ⟨⟨param, token⟩, -, rfl⟩ := List.mem_map.1 hparameter
  exact SourceParameter.isDynamic_ofDef Metadata.dynamic_not_mem_resolveType

theorem Body.isWithin_present (md : Metadata) (body : Body) : (body.present md).IsWithin := by
  have hdynamic := body.site.isDynamic_parameters md
  obtain ⟨kind, site⟩ := body
  cases kind with
  | lambda ordinal => exact ⟨rfl, rfl, rfl, rfl, fun _ => ⟨rfl, rfl⟩, nofun, hdynamic⟩
  | localFunction name => exact ⟨rfl, rfl, rfl, rfl, nofun, fun _ => rfl, hdynamic⟩
  | iteration => exact ⟨rfl, rfl, rfl, rfl, nofun, fun _ => rfl, hdynamic⟩

theorem Origin.isOutermost_method (md : Metadata) (origin : Origin) :
    (origin.method md).IsOutermost := by
  rw [Origin.method]
  split
  · exact ⟨nofun, rfl, rfl, rfl, fun _ => ⟨rfl, rfl⟩, nofun⟩
  · exact ⟨nofun, rfl, rfl, rfl, nofun, origin.site.isDynamic_parameters md⟩

/-! ## The call of a frame -/

namespace Frame

variable {md : Metadata} {frame : Frame}

theorem site?_of_unknown (h : md.methodDef? frame.method = none) :
    frame.site? md = .error (.unknownMethod frame.method) := by
  rw [site?, h]

theorem exists_site?_of_known (h : md.methodDef? frame.method ≠ none) :
    ∃ site, frame.site? md = .ok site := by
  obtain ⟨method, hmethod⟩ := Option.ne_none_iff_exists'.1 h
  rw [site?, hmethod]
  exact ⟨_, rfl⟩

theorem resolve_of_site? {site : Site} (h : frame.site? md = .ok site) :
    frame.resolve md = .ok ((Origin.search md maxUnwrapDepth site).present md) := by
  rw [resolve, origin, h]
  rfl

/-- A frame shows as a call if its own method is known, and the search for it is bounded. -/
theorem resolve_total_and_shaped (md : Metadata) (frame : Frame) :
    (∀ error, frame.resolve md = .error error ↔
      md.methodDef? frame.method = none ∧ error = .unknownMethod frame.method) ∧
    (md.methodDef? frame.method ≠ none →
      ∃ site origin call, frame.site? md = .ok site ∧ frame.origin md = .ok origin ∧
        frame.resolve md = .ok call ∧
        Origin.Walk md maxUnwrapDepth site origin.visited origin.site ∧
        origin.visited.length ≤ maxUnwrapDepth ∧
        call.bodies.length ≤ maxUnwrapDepth ∧
        call.method.IsOutermost ∧ ∀ body ∈ call.bodies, body.IsWithin) := by
  refine ⟨fun error => ?errors, fun hknown => ?calls⟩
  case errors =>
    by_cases hknown : md.methodDef? frame.method = none
    · rw [resolve, origin, site?_of_unknown hknown]
      refine ⟨fun h => ?_, ?_⟩
      · cases h
        exact ⟨hknown, rfl⟩
      · rintro ⟨-, rfl⟩
        rfl
    · obtain ⟨site, hsite⟩ := exists_site?_of_known hknown
      rw [resolve_of_site? hsite]
      exact ⟨nofun, fun h => absurd h.1 hknown⟩
  case calls =>
    obtain ⟨site, hsite⟩ := exists_site?_of_known hknown
    have horigin : frame.origin md = .ok (Origin.search md maxUnwrapDepth site) := by
      rw [origin, hsite]
      rfl
    have hwalk := Origin.walk_search md maxUnwrapDepth site
    refine ⟨site, _, _, hsite, horigin, resolve_of_site? hsite, hwalk, hwalk.length_le, ?_,
      Origin.isOutermost_method md _, ?_⟩
    · rw [Origin.present, List.length_map]
      exact Nat.le_trans (Origin.length_bodies_le _ _) hwalk.length_le
    · intro body hbody
      obtain ⟨found, -, rfl⟩ := List.mem_map.1 hbody
      exact Body.isWithin_present md found

/-! ## A state machine of its own method

The metadata claims that an iterator was made from the method of its own machine, so every step
leads back to where it began. -/

def spin : NamedType :=
  { name := "Spin", declaringType := some ⟨1⟩, interfaces := ["System.Collections.IEnumerator"] }

def moveNext : MethodDef :=
  { name := "MoveNext", declaringType := ⟨1⟩, stateMachine := some ⟨.iterator, ⟨1⟩⟩ }

def spinning : Metadata :=
  (({} : Metadata).insertType ⟨1⟩ (.named spin)).insertMethod ⟨2⟩ moveNext

def inSpin : Frame := { declaringType := ⟨1⟩, method := ⟨2⟩ }

theorem resolve_spin :
    { inSpin with method := ⟨3⟩ }.resolve spinning = .error (.unknownMethod ⟨3⟩) ∧
    ∃ origin call,
      inSpin.origin spinning = .ok origin ∧ inSpin.resolve spinning = .ok call ∧
      origin.visited.length = maxUnwrapDepth ∧ call.bodies.length = maxUnwrapDepth ∧
      call.method.IsOutermost ∧ ∀ body ∈ call.bodies, body.IsWithin := by
  obtain ⟨-, origin, call, -, horigin, hcall, -, -, -, houter, hbodies⟩ :=
    (resolve_total_and_shaped spinning inSpin).2 (by decide)
  have hvisited :
      (inSpin.origin spinning).toOption.map (·.visited.length) = some maxUnwrapDepth := by
    decide +kernel
  have hlength :
      (inSpin.resolve spinning).toOption.map (·.bodies.length) = some maxUnwrapDepth := by
    decide +kernel
  rw [horigin] at hvisited
  rw [hcall] at hlength
  refine ⟨?_, origin, call, horigin, hcall, Option.some.inj hvisited, Option.some.inj hlength,
    houter, hbodies⟩
  exact ((resolve_total_and_shaped spinning _).1 _).2 ⟨by decide, rfl⟩

end Frame

end Unmangle
