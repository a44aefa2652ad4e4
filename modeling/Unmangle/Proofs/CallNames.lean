import Unmangle.Proofs.Searches
import Unmangle.Proofs.UnbrokenNames

/-!
# Names of what a frame was running

What the search for an origin returns is made of methods of the table and of parts of their names:
a step hands on what it was given or takes it from the table (`areLines_step`), so the whole search
does. What is shown of it adds types, which are resolved from the table as well.
-/

namespace Unmangle

/-! ## The search for the origin -/

def Body.names (body : Body) : List String :=
  body.site.method.names ++
    match body.kind with
    | .localFunction name => [name]
    | .lambda _ | .iteration => []

def Passage.names (passage : Passage) : List String := passage.body.toList.flatMap (·.names)

/-- The names that a step hands on. -/
def Step.names : Step → List String
  | .stay => []
  | .outward passage next => passage.names ++ next.method.names
  | .orphan passage name => name :: passage.names

def Origin.names (origin : Origin) : List String :=
  origin.site.method.names ++ origin.orphanName.toList ++ origin.bodies.flatMap (·.names)

theorem MethodDef.areLines_names {method : MethodDef} : AreLines method.names ↔
    IsLine method.name ∧ AreLines method.genericParams ∧
      ∀ param ∈ method.parameters, AreLines param.name.toList := by
  simp [names]

namespace Site

variable {md : Metadata} {site : Site}

theorem method_outward (method : MethodDef) : (site.outward md method).method = method := by
  rw [outward]
  split <;> rfl

theorem isLine_of_hoistedName? {name : GeneratedName} (h : site.hoistedName? = some name)
    (hsite : AreLines site.method.names) : IsLine name.enclosing ∧ IsLine name.suffix := by
  obtain ⟨hparse, -⟩ := Option.filter_eq_some_iff.1 h
  exact GeneratedName.isLine_of_parse? hparse (MethodDef.areLines_names.1 hsite).1

theorem areLines_closureBody {name : GeneratedName} {kind : BodyKind}
    (hname : site.hoistedName? = some name) (hkind : closureKind? name = some kind)
    (hsite : AreLines site.method.names) : AreLines (Body.mk kind site).names := by
  rw [Body.names, areLines_append]
  refine ⟨hsite, ?_⟩
  cases kind with
  | lambda | iteration => exact areLines_nil
  | localFunction own =>
      have hlocal := localName?_of_closureKind? hkind
      simpa using GeneratedName.isLine_of_localName? hlocal (isLine_of_hoistedName? hname hsite).2

theorem areLines_machinePassage (kind : Option StateMachineKind)
    (hsite : AreLines site.method.names) : AreLines (site.machinePassage kind).names := by
  rw [machinePassage, Passage.names]
  dsimp only
  split
  · simpa [Body.names] using hsite
  · exact areLines_nil

variable (hmd : AreLines md.names) (hsite : AreLines site.method.names)
include hmd hsite

/-- A step hands on names of the table, and parts of names. -/
theorem areLines_step : AreLines (site.step md).names := by
  have htakes := site.takes_step md
  generalize site.step md = step at htakes ⊢
  cases htakes with
  | keepClosure | rest => exact areLines_nil
  | leaveClosure hname hwell hkind hfound =>
      have hmethod := hmd.of_subset (Metadata.names_of_findByName hfound)
      simpa [Step.names, Passage.names, method_outward] using
        And.intro (areLines_closureBody hname hkind hsite) hmethod
  | loseClosure hname hwell hkind hmissing =>
      have henclosing := (isLine_of_hoistedName? hname hsite).1
      simpa [Step.names, Passage.names] using
        And.intro henclosing (areLines_closureBody hname hkind hsite)
  | leaveMachine hname htype howner =>
      have hmethod := hmd.of_subset (Metadata.names_of_machineOwner? howner)
      simpa [Step.names, method_outward] using
        And.intro (areLines_machinePassage _ hsite) hmethod
  | @loseMachine type name hname htype howner htold =>
      -- The name was told by the name of the machine's type, and the type is one of the table.
      have hfragment : IsLine name := by
        obtain ⟨hnamed, -⟩ := Option.filter_eq_some_iff.1 htype
        obtain ⟨htaken, -⟩ := Option.filter_eq_some_iff.1 htold
        obtain ⟨generated, hgenerated, rfl⟩ := Option.map_eq_some_iff.1 htaken
        obtain ⟨hparse, -⟩ := Option.filter_eq_some_iff.1 hgenerated
        have htypeNames := hmd.of_subset (Metadata.names_of_named? hnamed)
        exact (GeneratedName.isLine_of_parse? hparse (NamedType.areLines_names.1 htypeNames).1).1
      simpa [Step.names] using And.intro hfragment (areLines_machinePassage _ hsite)

end Site

namespace Origin

variable {md : Metadata} {site : Site}

theorem areLines_passing {passage : Passage} {found : Origin} :
    AreLines (passing site passage found).names ↔
      AreLines found.names ∧ AreLines passage.names := by
  simp [names, passing, Passage.names, and_assoc]

variable (hmd : AreLines md.names)
include hmd

theorem areLines_search (hsite : AreLines site.method.names) (steps : Nat) :
    AreLines (search md steps site).names := by
  induction steps, site using search_induction md with
  | exhausted site => simpa [names] using hsite
  | stay steps site h => simpa [names] using hsite
  | orphan steps site passage name h =>
      have hstep := Site.areLines_step hmd hsite
      rw [h, Step.names, areLines_cons] at hstep
      rw [areLines_passing]
      exact ⟨by simpa [names] using And.intro hsite hstep.1, hstep.2⟩
  | outward steps site passage next h ih =>
      have hstep := Site.areLines_step hmd hsite
      rw [h, Step.names, areLines_append] at hstep
      exact areLines_passing.2 ⟨ih hstep.2, hstep.1⟩

end Origin

/-! ## The call that shows -/

def SourceParameter.names (parameter : SourceParameter) : List String :=
  parameter.name.toList ++ parameter.type.names

def SourceMethod.names (method : SourceMethod) : List String :=
  method.name :: method.declaringType.toList.flatMap (·.names) ++
    method.genericArguments.flatMap (·.names) ++ method.parameters.flatMap (·.names)

def SourceCall.names (call : SourceCall) : List String :=
  call.method.names ++ call.bodies.flatMap (·.names)

theorem SourceParameter.areLines_ofDef {param : ParamDef} {type : SourceType}
    (hparam : AreLines param.name.toList) (htype : AreLines type.names) :
    AreLines (SourceParameter.ofDef param type).names := by
  refine areLines_append.2 ⟨(name_ofDef param type).symm ▸ hparam, ?_⟩
  cases hdynamic : param.isDynamic with
  | true => cases type <;> simp [ofDef, hdynamic]
  | false =>
      have hkept : (ofDef param type).type.names = type.names := by
        cases type <;> simp [ofDef, hdynamic]
      rw [hkept]
      exact htype

section

variable {md : Metadata} {site : Site} (hmd : AreLines md.names)
include hmd

theorem Site.areLines_parameters (hsite : AreLines site.method.names) :
    ∀ parameter ∈ site.parameters md, AreLines parameter.names := by
  intro parameter hmem
  obtain ⟨⟨param, token⟩, htoken, rfl⟩ := List.mem_map.1 hmem
  obtain ⟨⟨declared, position⟩, hdeclared, heq⟩ := List.mem_map.1 htoken
  cases heq
  have hname := (MethodDef.areLines_names.1 hsite).2.2 param (List.fst_mem_of_mem_zipIdx hdeclared)
  exact SourceParameter.areLines_ofDef hname (Metadata.areLines_resolveType hmd _ _)

theorem Site.areLines_genericArguments (hsite : AreLines site.method.names) :
    ∀ arg ∈ site.genericArguments md, AreLines arg.names := by
  intro arg hmem
  obtain ⟨⟨name, position⟩, hname, rfl⟩ := List.mem_map.1 hmem
  dsimp only
  split
  · exact Metadata.areLines_resolveType hmd _ _
  · have hline := (MethodDef.areLines_names.1 hsite).2.1 name (List.fst_mem_of_mem_zipIdx hname)
    simpa using hline

theorem Body.areLines_present {body : Body} (hbody : AreLines body.names) :
    AreLines (body.present md).names := by
  rw [Body.names, areLines_append] at hbody
  have hparameters := Site.areLines_parameters hmd hbody.1
  have harguments := Site.areLines_genericArguments hmd hbody.1
  obtain ⟨kind, site⟩ := body
  cases kind with
  | lambda ordinal => simpa [Body.present, SourceMethod.names] using ⟨by decide, hparameters⟩
  | localFunction name =>
      have hname : IsLine name := hbody.2 name List.mem_cons_self
      simpa [Body.present, SourceMethod.names] using ⟨hname, harguments, hparameters⟩
  | iteration =>
      have hname := (MethodDef.areLines_names.1 hbody.1).1
      simpa [Body.present, SourceMethod.names] using ⟨hname, hparameters⟩

theorem Origin.areLines_declaringType (token : TypeToken) (args : List TypeToken) :
    AreLines (Origin.declaringType md token args).names := by
  rw [Origin.declaringType]
  split
  · next type hnamed =>
      refine Metadata.areLines_resolveNamed hmd (hmd.of_subset (Metadata.names_of_named? hnamed)) ?_
      intro arg harg
      obtain ⟨token, -, rfl⟩ := List.mem_map.1 harg
      exact Metadata.areLines_resolveType hmd _ _
  · exact areLines_nil

theorem Origin.areLines_present {origin : Origin} (horigin : AreLines origin.names) :
    AreLines (origin.present md).names := by
  simp only [Origin.names, areLines_append, areLines_flatMap] at horigin
  obtain ⟨⟨hsite, horphan⟩, hbodies⟩ := horigin
  have htype := Origin.areLines_declaringType hmd
  refine areLines_append.2 ⟨?_, ?_⟩
  · show AreLines (origin.method md).names
    rw [Origin.method]
    cases hname : origin.orphanName with
    | some name =>
        rw [hname] at horphan
        simpa [SourceMethod.names] using ⟨horphan name List.mem_cons_self, htype _ _⟩
    | none =>
        simpa [SourceMethod.names] using ⟨(MethodDef.areLines_names.1 hsite).1, htype _ _,
          Site.areLines_genericArguments hmd hsite, Site.areLines_parameters hmd hsite⟩
  · refine areLines_flatMap.2 fun body hbody => ?_
    obtain ⟨origin, horigin, rfl⟩ := List.mem_map.1 hbody
    exact Body.areLines_present hmd (hbodies origin horigin)

theorem Frame.areLines_resolve {frame : Frame} {call : SourceCall}
    (h : frame.resolve md = .ok call) : AreLines call.names := by
  rw [Frame.resolve, Frame.origin, Frame.site?] at h
  cases hmethod : md.methodDef? frame.method with
  | none => rw [hmethod] at h; cases h
  | some method =>
      rw [hmethod] at h
      cases h
      have hsite : AreLines method.names :=
        hmd.of_subset (Metadata.names_of_mem_methods (TokenMap.mem_of_get? hmethod))
      exact Origin.areLines_present hmd (Origin.areLines_search hmd hsite _)

end

end Unmangle
