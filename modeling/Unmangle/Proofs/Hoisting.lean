import Unmangle.Proofs.Searches
import Unmangle.Proofs.ShownBodies

/-!
# Unwrapping inverts hoisting

The compiler hoists: it moves the body of a lambda, of a local function or of the machine behind an
async method or an iterator out of the method around it, into a method of its own, and then goes on
with the bodies inside that one. The metadata keeps a trace of each move, in the name of the method
or in the note on the method around it. Here the search for the origin of a frame is shown to undo
every chain of such moves.

What a step does is fixed by one move alone, whatever lies further out, so the search is an
induction on the number of moves between the site and the method at the outside. Two things have to
hold of every site on the way for it to go through: the owner is the type that declares the method,
so that the search looks for the next method where the compiler put it, and no arguments are bound
for the type, so that none slip into the methods around it.

The limit of the search is met exactly. A chain of `maxUnwrapDepth` moves leaves no step for finding
out that the method at the outside was not hoisted, but the search stands on it all the same.
-/

namespace Unmangle

/-- The table records `inner` as hoisted out of `outer`. The last two arguments say how the body
shows, if it shows at all, and whether it marks the method at the outside as async. -/
inductive Hoists (md : Metadata) (outer inner : MethodDef) : Option BodyKind → Bool → Prop
  | lambda {name : GeneratedName} {token : MethodToken}
      (hname : GeneratedName.parse? inner.name = some name)
      (hkind : name.kind = .lambda)
      (henclosing : name.enclosing = outer.name)
      (hwell : isWellFormedFragment name.enclosing = true)
      (hfound : md.findByName inner.declaringType name.enclosing name.ordinalHint? =
        some (token, outer)) :
      Hoists md outer inner (some (.lambda name.lambdaOrdinal?)) false
  | localFunction {name : GeneratedName} {token : MethodToken} {localName : String}
      (hname : GeneratedName.parse? inner.name = some name)
      (hkind : name.kind = .localFunction)
      (henclosing : name.enclosing = outer.name)
      (hwell : isWellFormedFragment name.enclosing = true)
      (hlocal : name.localName? = some localName)
      (hfound : md.findByName inner.declaringType name.enclosing name.ordinalHint? =
        some (token, outer)) :
      Hoists md outer inner (some (.localFunction localName)) false
  | stateMachine {type : NamedType} {around : TypeToken} {token : MethodToken}
      {kind : Option StateMachineKind}
      (hname : ∀ name ∈ GeneratedName.parse? inner.name, name.kind.isHoistedBody = false)
      (htype : md.typeDef? inner.declaringType = some (.named type))
      (hmachine : type.isStateMachine = true)
      (haround : type.declaringType = some around)
      (hfound : md.findStateMachineOwner around inner.declaringType = some (token, outer))
      (hkind : type.stateMachineKind?.or (outer.stateMachine.map (·.kind)) = kind) :
      Hoists md outer inner (if kind.any (·.isIterator) then some .iteration else none)
        (kind.any (·.isAsync))

/-- A method that was not hoisted and `length` bodies, each hoisted out of the one before and the
first out of the method. All of them are declared on types with a definition of their own. -/
structure HoistChain (md : Metadata) where
  length : Nat
  method : Nat → MethodDef
  type : Nat → NamedType
  /-- How the body that was hoisted out of the method at a place shows. -/
  kind : Nat → Option BodyKind
  isAsync : Nat → Bool
  declared : ∀ i ≤ length, md.typeDef? (method i).declaringType = some (.named (type i))
  written : ∀ name ∈ GeneratedName.parse? (method 0).name, name.kind.isHoistedBody = false
  ordinary : (type 0).isStateMachine = false
  hoists : ∀ i < length, Hoists md (method i) (method (i + 1)) (kind i) (isAsync i)

/-! ## One move -/

/-- A step at the inner method undoes one move, whichever kind of move it was. -/
theorem Hoists.step_eq {md : Metadata} {site : Site} {outer : MethodDef} {kind : Option BodyKind}
    {isAsync : Bool} (h : Hoists md outer site.method kind isAsync)
    (howner : site.owner = site.method.declaringType) :
    site.step md = .outward { body := kind.map (⟨·, site⟩), isAsync } (site.outward md outer) := by
  cases h with
  | @lambda name _ hname hkind _ hwell hfound =>
      have hread : site.hoistedName? = some name :=
        Site.hoistedName?_of_parse? hname (by rw [hkind]; rfl)
      have hbody : Site.closureKind? name = some (.lambda name.lambdaOrdinal?) := by
        rw [Site.closureKind?, hkind]
      exact (Site.Takes.leaveClosure hread hwell hbody (howner ▸ hfound)).step_eq
  | @localFunction name _ localName hname hkind _ hwell hlocal hfound =>
      have hread : site.hoistedName? = some name :=
        Site.hoistedName?_of_parse? hname (by rw [hkind]; rfl)
      have hbody : Site.closureKind? name = some (.localFunction localName) := by
        rw [Site.closureKind?, hkind, hlocal]
        rfl
      exact (Site.Takes.leaveClosure hread hwell hbody (howner ▸ hfound)).step_eq
  | @stateMachine type around _ _ hname htype hmachine haround hfound hkind =>
      subst hkind
      have hread : site.stateMachine? md = some type := by
        rw [Site.stateMachine?_of_named (howner ▸ htype), if_pos hmachine]
      have hmade : site.machineOwner? md type = some outer := by
        rw [Site.machineOwner?, haround, Option.bind_some, howner, hfound]
        rfl
      have hnone : ∀ name ∈ site.hoistedName?, isWellFormedFragment name.enclosing = false := by
        simp [Site.hoistedName?_eq_none hname]
      rw [(Site.Takes.leaveMachine hnone hread hmade).step_eq]
      simp only [Site.machinePassage]
      split <;> rfl

/-! ## The whole chain

Moving outward keeps the arguments of the method only between methods of one type. So the arguments
that the frame brings along reach a body exactly if every method between the two is declared on the
type of the frame, and the types of the parameters at run time reach nothing but the method of the
frame itself. -/

namespace HoistChain

variable {md : Metadata} (chain : HoistChain md) (frame : Frame)

/-- Are all methods of the chain from some place on declared on the type of the frame? -/
def OnFrameType (i : Nat) : Prop :=
  ∀ j ≤ chain.length, i ≤ j → (chain.method j).declaringType = frame.declaringType

instance (i : Nat) : Decidable (chain.OnFrameType frame i) :=
  inferInstanceAs (Decidable (∀ j ≤ chain.length, i ≤ j → _))

/-- Where the search stands at a method of the chain. -/
def site (i : Nat) : Site :=
  { method := chain.method i
    owner := (chain.method i).declaringType
    methodArgs := if chain.OnFrameType frame i then frame.methodGenericArgs else []
    actualTypes := if i = chain.length then frame.parameterTypes else [] }

/-- The bodies outside the method at a place and that of the method itself, outermost first. -/
def bodies (k : Nat) : List Body :=
  (List.range k).filterMap fun i => (chain.kind i).map (⟨·, chain.site frame (i + 1)⟩)

/-- What the step inward of the method at a place adds. -/
def passage (i : Nat) : Passage :=
  { body := (chain.kind i).map (⟨·, chain.site frame (i + 1)⟩), isAsync := chain.isAsync i }

variable {chain frame}

theorem onFrameType_iff {i : Nat} (hi : i < chain.length) :
    chain.OnFrameType frame i ↔
      (chain.method i).declaringType = frame.declaringType ∧ chain.OnFrameType frame (i + 1) := by
  constructor
  · intro h
    exact ⟨h i (by omega) (by omega), fun j hj hij => h j hj (by omega)⟩
  · rintro ⟨hown, hrest⟩ j hj hij
    rcases Nat.eq_or_lt_of_le hij with rfl | hlt
    · exact hown
    · exact hrest j hj hlt

/-- Moving outward goes from site to site of the chain. -/
theorem outward_site {i : Nat} (hi : i < chain.length) :
    (chain.site frame (i + 1)).outward md (chain.method i) = chain.site frame i := by
  have hruntime : (if i = chain.length then frame.parameterTypes else []) = [] :=
    if_neg (by omega)
  by_cases hsame : (chain.method i).declaringType = (chain.method (i + 1)).declaringType
  · -- The inner method is on the type of the frame if all those inside it are, so the outer one is.
    have hiff : chain.OnFrameType frame i ↔ chain.OnFrameType frame (i + 1) := by
      rw [onFrameType_iff hi]
      exact ⟨fun h => h.2, fun h => ⟨hsame.trans (h (i + 1) hi (Nat.le_refl _)), h⟩⟩
    rw [Site.outward_of_eq hsame]
    simp only [site, hruntime, hiff, hsame]
  · have hnot : ¬ chain.OnFrameType frame i := fun h =>
      hsame ((h i (by omega) (Nat.le_refl _)).trans (h (i + 1) hi (by omega)).symm)
    rw [Site.outward_of_ne hsame]
    simp only [site, hruntime, if_neg hnot, List.take_nil, List.drop_nil]

theorem step_zero : (chain.site frame 0).step md = .stay := by
  have hname : (chain.site frame 0).hoistedName? = none := Site.hoistedName?_eq_none chain.written
  have htype : (chain.site frame 0).stateMachine? md = none := by
    rw [Site.stateMachine?_of_named (chain.declared 0 (Nat.zero_le _)), chain.ordinary]
    rfl
  exact (Site.Takes.rest (by simp [hname]) (by simp [htype])).step_eq

theorem step_succ {i : Nat} (hi : i < chain.length) :
    (chain.site frame (i + 1)).step md =
      .outward (chain.passage frame i) (chain.site frame i) := by
  have hhoists : Hoists md (chain.method i) (chain.site frame (i + 1)).method (chain.kind i)
      (chain.isAsync i) := chain.hoists i hi
  rw [hhoists.step_eq rfl, outward_site hi]
  rfl

/-- The run lemma: from the site at a place the search comes to the first site. -/
theorem reaches_site {k : Nat} (hk : k ≤ chain.length) (passed : Passed) :
    Origin.Reaches md k (chain.site frame k) passed (chain.site frame 0)
      (((List.range k).map (chain.passage frame)).reverse.foldl Passed.after passed) := by
  induction k generalizing passed with
  | zero => exact .start
  | succ k ih =>
      rw [List.range_succ, List.map_append, List.reverse_append]
      exact .of_step (step_succ hk) (ih (Nat.le_of_succ_le hk) _)

/-- The search ends at the first site, with all it has passed, if there are steps for each move in
between. -/
theorem search_site (frame : Frame) {k : Nat} (hk : k ≤ chain.length) {steps : Nat}
    (hsteps : k ≤ steps) :
    ∃ visited, Origin.search md steps (chain.site frame k) =
      { site := chain.site frame 0
        bodies := chain.bodies frame k
        isAsync := (List.range k).any chain.isAsync
        visited } := by
  obtain ⟨visited, hsearch⟩ := (reaches_site hk {}).search_of_stay step_zero hsteps
  refine ⟨visited, hsearch.trans ?_⟩
  rw [Origin.ending_foldl_after, List.reverse_reverse, List.flatMap_map, List.any_reverse,
    List.any_map, bodies, List.filterMap_eq_flatMap_toList]
  rfl

/-! ## The frame of the innermost body -/

theorem site?_frame (hmethod : md.methodDef? frame.method = some (chain.method chain.length))
    (htype : frame.declaringType = (chain.method chain.length).declaringType) :
    frame.site? md = .ok (chain.site frame chain.length) := by
  have hdeclared : md.typeDef? frame.declaringType = some (.named (chain.type chain.length)) :=
    htype ▸ chain.declared _ (Nat.le_refl _)
  have hon : chain.OnFrameType frame chain.length := by
    intro j hj hle
    rw [Nat.le_antisymm hj hle, htype]
  rw [Frame.site?_of_standsFor hmethod (.definition hdeclared)]
  simp only [site, if_pos hon, htype, if_true]

theorem declaringType_zero :
    Origin.declaringType md (chain.method 0).declaringType [] =
      md.resolveNamed (chain.type 0) [] := by
  rw [Origin.declaringType, Metadata.named?_of_named (chain.declared 0 (Nat.zero_le _))]
  simp [Origin.ownArguments]

end HoistChain

/-! ## An async iterator in a lambda

The lambda lives in a closure type of its own, the local function in it has its name from there, and
its body is in a machine nested in that type. So all kinds of body occur, each with parameters. -/

namespace NumbersInLambda

def type : Nat → NamedType
  | 0 => { name := "Program" }
  | 1 | 2 => { name := "<>c", declaringType := some ⟨1⟩, compilerGenerated := true }
  | _ =>
    { name := "<<<Run>b__0_0>g__Numbers|0_1>d"
      declaringType := some ⟨2⟩
      interfaces := [NamedType.asyncStateMachine, NamedType.enumerator]
      compilerGenerated := true }

def method : Nat → MethodDef
  | 0 => { name := "Run", declaringType := ⟨1⟩, parameters := [{ name := "path", type := ⟨4⟩ }] }
  | 1 =>
    { name := "<Run>b__0_0", declaringType := ⟨2⟩, parameters := [{ name := "item", type := ⟨5⟩ }] }
  | 2 =>
    { name := "<<Run>b__0_0>g__Numbers|0_1"
      declaringType := ⟨2⟩
      genericParams := ["T"]
      parameters := [{ name := "first", type := ⟨6⟩ }, { name := "count", type := ⟨5⟩ }]
      stateMachine := some ⟨.asyncIterator, ⟨3⟩⟩ }
  | _ => { name := "MoveNext", declaringType := ⟨3⟩, parameters := [{ name := "s", type := ⟨4⟩ }] }

def table : Metadata :=
  { types := .ofList
      [(1, .named (type 0)), (2, .named (type 1)), (3, .named (type 3)),
       (4, .named { name := "String", space := some "System" }),
       (5, .named { name := "Int32", space := some "System" }),
       (6, .genericParam "T" .method 0)]
    methods := .ofList [(1, method 0), (2, method 1), (3, method 2), (4, method 3)] }

theorem hoists_lambda :
    Hoists table (method 0) (method 1) (some (.lambda (some 0))) false := by
  have hname : GeneratedName.parse? (method 1).name = some ⟨.lambda, "Run", "0_0"⟩ := by
    decide +kernel
  have hfound : table.findByName ⟨2⟩ "Run" (some 0) = some (⟨1⟩, method 0) := by
    decide +kernel
  exact .lambda hname rfl rfl (by decide +kernel) hfound

theorem hoists_localFunction :
    Hoists table (method 1) (method 2) (some (.localFunction "Numbers")) false := by
  have hname : GeneratedName.parse? (method 2).name =
      some ⟨.localFunction, "<Run>b__0_0", "Numbers|0_1"⟩ := by
    decide +kernel
  have hfound : table.findByName ⟨2⟩ "<Run>b__0_0" (some 0) = some (⟨2⟩, method 1) := by
    decide +kernel
  exact .localFunction hname rfl rfl (by decide +kernel) (by decide +kernel) hfound

theorem hoists_machine : Hoists table (method 2) (method 3) (some .iteration) true := by
  have hfound : table.findStateMachineOwner ⟨2⟩ ⟨3⟩ = some (⟨3⟩, method 2) := by
    decide +kernel
  have hkind : (type 3).stateMachineKind?.or ((method 2).stateMachine.map (·.kind)) =
      some .asyncIterator := by
    decide +kernel
  exact .stateMachine (by decide +kernel) rfl (by decide +kernel) rfl hfound hkind

def chain : HoistChain table where
  length := 3
  method := method
  type := type
  kind
    | 0 => some (.lambda (some 0))
    | 1 => some (.localFunction "Numbers")
    | _ => some .iteration
  isAsync i := i == 2
  declared
    | 0, _ => rfl
    | 1, _ => rfl
    | 2, _ => rfl
    | 3, _ => rfl
  written := by decide +kernel
  ordinary := by decide +kernel
  hoists
    | 0, _ => hoists_lambda
    | 1, _ => hoists_localFunction
    | 2, _ => hoists_machine

/-- At run time the machine got an integer. -/
def frame : Frame := { declaringType := ⟨3⟩, method := ⟨4⟩, parameterTypes := [⟨5⟩] }

def shown : SourceMethod :=
  { declaringType := some (.named none [.mk "Program" []])
    name := "Run"
    parameters := [{ name := "path", type := .primitive "string" "System.String" }]
    parametersKnown := true
    isAsync := true }

def shownBodies : List SourceMethod :=
  [{ isLambda := true, ordinal := some 0, parametersKnown := true
     parameters := [{ name := "item", type := .primitive "int" "System.Int32" }] },
   { name := "Numbers", genericArguments := [.genericParam "T"], parametersKnown := true
     parameters :=
       [{ name := "first", type := .genericParam "T" },
        { name := "count", type := .primitive "int" "System.Int32" }] },
   { name := "MoveNext", parametersKnown := true
     parameters := [{ name := "s", type := .primitive "int" "System.Int32" }] }]

end NumbersInLambda

/-! ## The main theorem -/

/-- The frame of the innermost body shows as the method at the outside, async if one of the moves
says so, with every body that shows inside it, outermost first. The parameters of the method are the
declared ones, unless the frame is that of the method itself and brings their types along. -/
theorem resolve_hoisted {md : Metadata} (chain : HoistChain md)
    (hlength : chain.length ≤ maxUnwrapDepth) (frame : Frame)
    (hmethod : md.methodDef? frame.method = some (chain.method chain.length))
    (htype : frame.declaringType = (chain.method chain.length).declaringType) :
    ∃ arguments parameters bodies,
      (chain.site frame 0).ShowsArguments md arguments ∧
      (chain.site frame 0).ShowsParameters md parameters ∧
      List.Forall₂ (Body.ShowsAs md) (chain.bodies frame chain.length) bodies ∧
      frame.resolve md = .ok
        { method :=
            { declaringType := some (md.resolveNamed (chain.type 0) [])
              name := (chain.method 0).name
              kind := .ofName (chain.method 0).name
              genericArguments := arguments
              parameters
              parametersKnown := true
              isAsync := (List.range chain.length).any chain.isAsync }
          bodies } ∧
      (0 < chain.length ∨ frame.parameterTypes = [] →
        parameters = (chain.method 0).parameters.map fun param =>
          .ofDef param (md.resolveType (chain.site frame 0).bindings param.type)) := by
  refine ⟨_, _, _, Site.showsArguments_iff.2 rfl, Site.showsParameters_iff.2 rfl,
    Body.forall₂_showsAs_iff.2 rfl, ?resolved,
    fun hdeclared => Site.parameters_of_declared ?declared⟩
  case resolved =>
    obtain ⟨visited, hsearch⟩ :=
      HoistChain.search_site frame (Nat.le_refl chain.length) hlength
    rw [Frame.resolve, Frame.origin, HoistChain.site?_frame hmethod htype]
    simp only [Except.map]
    rw [hsearch, Origin.present, Origin.method]
    simp only [HoistChain.site, HoistChain.declaringType_zero]
  case declared =>
    rcases hdeclared with hlt | hnil
    · exact if_neg (by omega)
    · simp [HoistChain.site, hnil]

open NumbersInLambda

theorem resolve_numbersInLambda :
    chain.length ≤ maxUnwrapDepth ∧
      List.Forall₂ (Body.ShowsAs table) (chain.bodies frame chain.length) shownBodies ∧
      frame.resolve table = .ok { method := shown, bodies := shownBodies } := by
  have hlength : chain.length ≤ maxUnwrapDepth := by decide
  obtain ⟨arguments, parameters, bodies, -, -, hbodies, hresolve, -⟩ :=
    resolve_hoisted chain hlength frame rfl rfl
  have hshown : frame.resolve table = .ok { method := shown, bodies := shownBodies } := by rfl
  cases hresolve.symm.trans hshown
  exact ⟨hlength, hbodies, hshown⟩

end Unmangle
