import Unmangle.Proofs.CallShape
import Unmangle.Proofs.OutwardSearch
import Unmangle.Proofs.ShownBodies

/-!
# Steps that stay leave nothing behind

On its way a search collects the bodies that it passes, and whether one of them was async. Whether a
step can be made is found out bit by bit: a name is read, it is trusted or not, a method is looked
for, the name of a type is all that is left. A step that gives up at any of these points must not
have added anything, or a frame of ordinary code would show as async or with a body that is not
there.

It has not (`Site.eq_of_stay`), so what shows is what had been passed when the search came to the
site, behind the method of that site as it is. When a step stays is known in full
(`Site.step_eq_stay_iff`), and where the first step of a frame does, the frame shows its own method.
-/

namespace Unmangle

/-! ## Frames of ordinary code -/

/-- Nothing says that the type is the machine of some method: no method of the types around it
names the type, and the type does not have the name of a machine. It may well have the interfaces
of one. -/
structure Metadata.IsUnclaimed (md : Metadata) (token : TypeToken) (type : NamedType) : Prop where
  notNamed : ∀ outer ∈ type.declaringType, ∀ around ∈ md.enclosingTypes outer,
    ∀ owner method, ¬ md.DeclaresOwner token around owner method
  notMadeUp : ∀ name ∈ GeneratedName.parse? type.name, name.kind ≠ .stateMachine

/-- A method on a type is not to be taken for a body that was moved there, or the name that would
tell so cannot be trusted. -/
inductive Metadata.TellsNoBody (md : Metadata) (method : MethodDef) (found : Instantiation) : Prop
  | written (hname : ∀ name ∈ GeneratedName.parse? method.name, name.kind.isHoistedBody = false)
      (htype : found.type.isStateMachine = false ∨ md.IsUnclaimed found.definition found.type)
  | untrusted {name : GeneratedName} (hname : GeneratedName.parse? method.name = some name)
      (hkind : name.kind.isHoistedBody = true)
      (hbad : isWellFormedFragment name.enclosing = false)
      (htype : found.type.isStateMachine = false)

namespace Site

variable {md : Metadata} {site : Site} {found : Metadata.Instantiation}

/-- A step that stays is one that stays whatever has been passed, and it has added nothing to it. -/
theorem eq_of_stay {passed final : Passed}
    (h : (site.unwrap md).run passed = (.stay, final)) : site.step md = .stay ∧ final = passed := by
  rw [run_unwrap] at h
  cases hstep : site.step md with
  | stay =>
      rw [hstep] at h
      exact ⟨rfl, (congrArg Prod.snd h).symm⟩
  | outward passage next | orphan passage name =>
      rw [hstep] at h
      cases congrArg Prod.fst h

theorem machineOwner?_of_isUnclaimed {type : NamedType} (h : md.IsUnclaimed site.owner type) :
    site.machineOwner? md type = none ∧ machineOwnerName? type = none := by
  have hnone : type.asStateMachineName? = none := by
    refine Option.filter_eq_none_iff.2 fun name hname => ?_
    simpa using h.notMadeUp name hname
  constructor
  · refine Option.bind_eq_none_iff.2 fun outer houter => ?_
    have howner : md.findStateMachineOwner outer site.owner = none :=
      Metadata.findStateMachineOwner_eq_none_iff.2 (h.notNamed outer houter)
    rw [howner, hnone]
    rfl
  · rw [machineOwnerName?, hnone]
    rfl

theorem step_of_tellsNoBody (htype : md.typeDef? site.owner = some (.named found.type))
    (howner : site.owner = found.definition) (h : md.TellsNoBody site.method found) :
    site.step md = .stay := by
  have hread := stateMachine?_of_named htype
  refine step_eq_stay_iff.2 (.inr ?_)
  cases h with
  | written hname hordinary =>
      refine ⟨?_, fun type hmem => ?_⟩
      · simp [hoistedName?_eq_none hname]
      · rw [hread] at hmem
        rcases hordinary with hno | hunclaimed
        · simp [hno] at hmem
        · split at hmem
          · cases hmem
            exact machineOwner?_of_isUnclaimed (howner ▸ hunclaimed)
          · cases hmem
  | untrusted hname hkind hbad hno =>
      refine ⟨fun name hmem => ?_, fun type hmem => ?_⟩
      · rw [hoistedName?_of_parse? hname hkind] at hmem
        cases hmem
        exact hbad
      · simp [hread, hno] at hmem

end Site

theorem Metadata.StandsFor.declaringType_eq {md : Metadata} {token : TypeToken}
    {found : Instantiation} (h : md.StandsFor token found) :
    Origin.declaringType md found.definition found.args =
      md.resolveNamed found.type
        ((Origin.ownArguments found.type found.args).map (md.resolveType {})) := by
  rw [Origin.declaringType, named?_of_named h.typeDef?_definition]

namespace Frame

/-- A step that stays leaves all that has been passed as it was. At any point of a search, the
method reached then shows as it is, under its own name, with the bodies passed before and async if
it was so before. A frame whose method tells no body shows just that method on its own type. -/
theorem stay_leaves_no_trace (md : Metadata) (frame : Frame) :
    (∀ (site : Site) (passed final : Passed),
      (site.unwrap md).run passed = (.stay, final) → final = passed) ∧
    (∀ start count last passed final, frame.site? md = .ok start →
      Origin.Reaches md count start {} last passed → count < maxUnwrapDepth →
      (last.unwrap md).run passed = (.stay, final) →
      ∃ arguments parameters bodies,
        last.ShowsArguments md arguments ∧ last.ShowsParameters md parameters ∧
        List.Forall₂ (Body.ShowsAs md) passed.bodies.reverse bodies ∧
        frame.resolve md = .ok
          { method :=
              { declaringType := some (Origin.declaringType md last.owner last.typeArgs)
                name := last.method.name
                kind := .ofName last.method.name
                genericArguments := arguments
                parameters
                parametersKnown := true
                isAsync := passed.isAsync }
            bodies }) ∧
    ∀ method found, md.methodDef? frame.method = some method →
      md.StandsFor frame.declaringType found → md.TellsNoBody method found →
      let site : Site :=
        { method
          owner := found.definition
          typeArgs := found.args
          methodArgs := frame.methodGenericArgs
          actualTypes := frame.parameterTypes }
      let arity := found.type.genericParams.length
      ∃ arguments parameters,
        site.ShowsArguments md arguments ∧ site.ShowsParameters md parameters ∧
        frame.resolve md = .ok
          { method :=
              { declaringType := some (md.resolveNamed found.type
                  ((if arity ≤ found.args.length then found.args.take arity else []).map
                    (md.resolveType {})))
                name := method.name
                kind := .ofName method.name
                genericArguments := arguments
                parameters
                parametersKnown := true
                isAsync := false }
            bodies := [] } := by
  refine ⟨fun site passed final h => (Site.eq_of_stay h).2,
    fun start count last passed final hstart hreaches hcount h => ?point,
    fun method found hmethod htype hno => ?ordinary⟩
  case point =>
    obtain ⟨hstay, -⟩ := Site.eq_of_stay h
    obtain ⟨visited, hsearch⟩ := hreaches.search_of_stay hstay (Nat.le_of_lt hcount)
    refine ⟨_, _, _, Site.showsArguments_iff.2 rfl, Site.showsParameters_iff.2 rfl,
      Body.forall₂_showsAs_iff.2 rfl, ?_⟩
    rw [resolve_of_site? hstart, hsearch]
    rfl
  case ordinary =>
    intro site arity
    have hsite : frame.site? md = .ok site := site?_of_standsFor hmethod htype
    have hstay : site.step md = .stay :=
      Site.step_of_tellsNoBody htype.typeDef?_definition rfl hno
    refine ⟨_, _, Site.showsArguments_iff.2 rfl, Site.showsParameters_iff.2 rfl, ?_⟩
    rw [resolve_of_site? hsite, maxUnwrapDepth, Origin.search_of_stay hstay, Origin.present,
      Origin.method]
    simp only [site, htype.declaringType_eq, List.map_nil]
    rfl

/-! ## An iterator that someone wrote

`Cells` is written by hand, so it has the interface of a machine and no method that it was made
from: `Run`, on the type around it, is the method of some other machine. Its own methods show as
they are, with their parameters and generic arguments, and a lambda in one of them leads there and
no further. -/

namespace HandWritten

def cells : NamedType :=
  { name := "Cells\x601"
    declaringType := some ⟨1⟩
    genericParams := ["T"]
    interfaces := [NamedType.enumerator] }

def advance : MethodDef :=
  { name := "MoveNext"
    declaringType := ⟨2⟩
    genericParams := ["K", "V"]
    parameters :=
      [{ name := "item", type := ⟨7⟩ }, { name := "key", type := ⟨9⟩, modifier := some .out },
       { name := "more", type := ⟨7⟩ }] }

def lambda : MethodDef :=
  { name := "<MoveNext>b__0_0", declaringType := ⟨3⟩, parameters := [{ name := "x", type := ⟨4⟩ }] }

def noName : MethodDef :=
  { name := "<>b__0_0"
    declaringType := ⟨3⟩
    genericParams := ["K"]
    parameters := [{ name := "x", type := ⟨8⟩ }] }

def closures : NamedType :=
  { name := "<>c", declaringType := some ⟨2⟩, compilerGenerated := true }

def table : Metadata :=
  { types := .ofList
      [(1, .named { name := "Program" }), (2, .named cells), (3, .named closures),
       (4, .named { name := "Int32", space := some "System" }),
       (5, .named { name := "String", space := some "System" }),
       (6, .genericInstance ⟨2⟩ [⟨4⟩]), (7, .genericParam "T" .type 0),
       (8, .genericParam "K" .method 0), (9, .byRef ⟨8⟩)]
    methods := .ofList
      [(10, { name := "Run", declaringType := ⟨1⟩, stateMachine := some ⟨.async, ⟨99⟩⟩ }),
       (11, advance), (12, lambda), (13, noName)] }

def inLambda : Frame := { declaringType := ⟨3⟩, method := ⟨12⟩, parameterTypes := [⟨5⟩] }

/-- `Cells<int>.MoveNext<string, V>`, with a string for `more` at run time. -/
def inAdvance : Frame :=
  { declaringType := ⟨6⟩
    method := ⟨11⟩
    methodGenericArgs := [⟨5⟩]
    parameterTypes := [⟨7⟩, ⟨9⟩, ⟨5⟩] }

def inNoName : Frame := { declaringType := ⟨3⟩, method := ⟨13⟩, methodGenericArgs := [⟨4⟩] }

def lambdaSite : Site := { method := lambda, owner := ⟨3⟩, actualTypes := [⟨5⟩] }

def advanceSite : Site := { method := advance, owner := ⟨2⟩ }

def body : Body := ⟨.lambda (some 0), lambdaSite⟩

/-- `MoveNext` as a lambda in it shows it, where no argument is known. -/
def shownAdvance : SourceMethod :=
  { declaringType := some (.named none [.mk "Program" [], .mk "Cells" [.genericParam "T"]])
    name := "MoveNext"
    genericArguments := [.genericParam "K", .genericParam "V"]
    parameters :=
      [{ name := "item", type := .genericParam "T" },
       { name := "key", type := .genericParam "K", modifier := some .out },
       { name := "more", type := .genericParam "T" }]
    parametersKnown := true }

end HandWritten

open HandWritten

theorem resolve_handWritten :
    (Origin.Reaches table 1 lambdaSite {} advanceSite { bodies := [body] } ∧
      (advanceSite.unwrap table).run { bodies := [body] } = (.stay, { bodies := [body] }) ∧
      inLambda.resolve table = .ok
        { method := shownAdvance
          bodies :=
            [{ isLambda := true
               ordinal := some 0
               parameters := [{ name := "x", type := .primitive "string" "System.String" }]
               parametersKnown := true }] }) ∧
    (cells.isStateMachine = true ∧ table.TellsNoBody advance ⟨⟨2⟩, cells, [⟨4⟩]⟩ ∧
      inAdvance.resolve table = .ok
        { method :=
            { declaringType := some (.named none
                [.mk "Program" [], .mk "Cells" [.primitive "int" "System.Int32"]])
              name := "MoveNext"
              genericArguments := [.primitive "string" "System.String", .genericParam "V"]
              parameters :=
                [{ name := "item", type := .primitive "int" "System.Int32" },
                 { name := "key"
                   type := .primitive "string" "System.String"
                   modifier := some .out },
                 { name := "more", type := .primitive "string" "System.String" }]
              parametersKnown := true } }) ∧
    table.TellsNoBody noName ⟨⟨3⟩, closures, []⟩ ∧
      inNoName.resolve table = .ok
        { method :=
            { declaringType :=
                some (.named none [.mk "Program" [], .mk "Cells" [], .mk "<>c" []])
              name := "<>b__0_0"
              genericArguments := [.primitive "int" "System.Int32"]
              parameters := [{ name := "x", type := .primitive "int" "System.Int32" }]
              parametersKnown := true } } := by
  refine ⟨?lambda, ?advance, ?noName⟩
  case lambda =>
    have hstep : lambdaSite.step table = .outward { body := some body } advanceSite := by
      decide +kernel
    have hreaches : Origin.Reaches table 1 lambdaSite {} advanceSite { bodies := [body] } :=
      .of_step hstep .start
    have hstay : (advanceSite.unwrap table).run { bodies := [body] } =
        (.stay, { bodies := [body] }) := by
      have hadvance : advanceSite.step table = .stay := by decide +kernel
      rw [Site.run_unwrap, hadvance]
      rfl
    obtain ⟨arguments, parameters, bodies, harguments, hparameters, hbodies, hresolve⟩ :=
      (stay_leaves_no_trace table inLambda).2.1 _ _ _ _ _ rfl hreaches (by decide) hstay
    refine ⟨hreaches, hstay, hresolve.trans ?_⟩
    rw [Site.showsArguments_iff.1 harguments, Site.showsParameters_iff.1 hparameters,
      ← Body.forall₂_showsAs_iff.1 hbodies]
    rfl
  case advance =>
    have hmethod : table.methodDef? inAdvance.method = some advance := rfl
    have htype : table.StandsFor inAdvance.declaringType ⟨⟨2⟩, cells, [⟨4⟩]⟩ :=
      .instantiation rfl rfl
    have hunclaimed : table.IsUnclaimed ⟨2⟩ cells := by
      have hnone : table.findStateMachineOwner ⟨1⟩ ⟨2⟩ = none := by decide +kernel
      refine ⟨fun outer houter => ?_, by decide +kernel⟩
      cases houter
      exact Metadata.findStateMachineOwner_eq_none_iff.1 hnone
    have hno : table.TellsNoBody advance ⟨⟨2⟩, cells, [⟨4⟩]⟩ :=
      .written (by decide +kernel) (.inr hunclaimed)
    obtain ⟨arguments, parameters, harguments, hparameters, hresolve⟩ :=
      (stay_leaves_no_trace table inAdvance).2.2 _ _ hmethod htype hno
    refine ⟨by decide +kernel, hno, hresolve.trans ?_⟩
    rw [Site.showsArguments_iff.1 harguments, Site.showsParameters_iff.1 hparameters]
    rfl
  case noName =>
    have hmethod : table.methodDef? inNoName.method = some noName := rfl
    have htype : table.StandsFor inNoName.declaringType ⟨⟨3⟩, closures, []⟩ := .definition rfl
    have hname : GeneratedName.parse? noName.name = some ⟨.lambda, "", "0_0"⟩ := by
      decide +kernel
    have hno : table.TellsNoBody noName ⟨⟨3⟩, closures, []⟩ :=
      .untrusted hname rfl (by decide +kernel) (by decide +kernel)
    obtain ⟨arguments, parameters, harguments, hparameters, hresolve⟩ :=
      (stay_leaves_no_trace table inNoName).2.2 _ _ hmethod htype hno
    refine ⟨hno, hresolve.trans ?_⟩
    rw [Site.showsArguments_iff.1 harguments, Site.showsParameters_iff.1 hparameters]
    rfl

end Frame

end Unmangle
