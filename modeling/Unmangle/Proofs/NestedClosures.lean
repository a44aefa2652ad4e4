import Unmangle.Proofs.NameSuffixes
import Unmangle.Proofs.Searches
import Unmangle.Proofs.ShownBodies
import Mathlib.Data.List.Infix

/-!
# Closures in closures

The name of a lambda in a lambda holds the name of the outer one in its brackets, and so on down to
the name of a method. Such a name comes apart step by step, and two limits apply: a step trusts the
name in the brackets only up to a number of layers, and there are so many steps. A search that ended
between the two would show a name that is half taken apart.

It does not, because both limits count the same layers. The name in the brackets has one layer less
than the name itself and is trusted below `maxFragmentNesting` layers (`isWellFormedWithin_nest`),
so the first step is taken exactly if there are enough steps for all the layers. Once it has been
taken the names get shorter, and nothing stands in the way of the others.
-/

namespace Unmangle

namespace GeneratedName

/-! ## Names around names -/

/-- The name of a body inside other bodies, the innermost body first, inside a method. -/
def nest (plain : String) : List Ending → String
  | [] => plain
  | ending :: outer => "<" ++ nest plain outer ++ ">" ++ ending.text

namespace Ending

/-- The ending is that of a lambda or of a local function. The own name of a local function is an
identifier; what matters of it is that its brackets pair off. -/
def IsClosure : Ending → Prop
  | lambda _ _ | onlyLambda _ => True
  | localFunction own .. => IsBalanced own
  | stateMachine .. => False

instance : DecidablePred IsClosure
  | lambda _ _ | onlyLambda _ => isTrue trivial
  | localFunction own _ _ _ _ => inferInstanceAs (Decidable (IsBalanced own))
  | stateMachine _ _ _ => isFalse id

/-- The body that a name with this ending stands for. -/
def bodyKind (ending : Ending) : BodyKind :=
  match ending.localName? with
  | some own => .localFunction own
  | none => .lambda ending.lambdaOrdinal?

variable {ending : Ending}

theorem isBalanced_toString (w : UInt32) : IsBalanced (toString w) := by
  refine closesFrom_of_not_mem (fun hmem => ?_) fun hmem => ?_
  all_goals exact absurd (Text.isDigit_of_mem_toString hmem) (by decide)

theorem isBalanced_text (h : ending.IsClosure) : IsBalanced ending.text := by
  have hunderscore : IsBalanced "_" := by decide
  cases ending with
  | lambda method ordinal =>
      have hfront : IsBalanced (.singleton 'b' ++ "__") := by decide
      exact hfront.append
        (((isBalanced_toString method).append hunderscore).append (isBalanced_toString ordinal))
  | onlyLambda method =>
      have hfront : IsBalanced (.singleton 'b' ++ "__") := by decide
      exact hfront.append (isBalanced_toString method)
  | localFunction own method ordinal hne hbar =>
      have hfront : IsBalanced (.singleton 'g' ++ "__") := by decide
      have hown : IsBalanced (own ++ "|") := IsBalanced.append h (by decide)
      exact hfront.append (((hown.append (isBalanced_toString method)).append hunderscore).append
        (isBalanced_toString ordinal))
  | stateMachine => exact h.elim

theorem isHoistedBody_name (h : ending.IsClosure) (enclosing : String) :
    (ending.name enclosing).kind.isHoistedBody = true := by
  cases ending with
  | lambda | onlyLambda | localFunction => rfl
  | stateMachine => exact h.elim

theorem closureKind?_name (h : ending.IsClosure) (enclosing : String) :
    Site.closureKind? (ending.name enclosing) = some ending.bodyKind := by
  have hlambda : (ending.name enclosing).lambdaOrdinal? = ending.lambdaOrdinal? :=
    lambdaOrdinal?_name
  have hlocal : (ending.name enclosing).localName? = ending.localName? := localName?_name
  cases ending with
  | lambda | onlyLambda => exact congrArg (fun ordinal => some (BodyKind.lambda ordinal)) hlambda
  | localFunction => exact congrArg (Option.map BodyKind.localFunction) hlocal
  | stateMachine => exact h.elim

end Ending

variable {plain : String} {endings : List Ending}

/-- A trusted name that is not made up is an identifier, without brackets. -/
theorem isPlainName_of_trusted (hplain : parse? plain = none)
    (htrusted : isWellFormedFragment plain = true) : isPlainName plain.toList = true := by
  rwa [isWellFormedFragment, maxFragmentNesting, isWellFormedWithin, hplain] at htrusted

theorem isBalanced_of_isPlainName (h : isPlainName plain.toList = true) : IsBalanced plain := by
  have hchars : ∀ c ∈ plain.toList, isIdentifierStart c = true ∨ isIdentifierRest c = true := by
    unfold isPlainName at h
    split at h
    · next first rest htext =>
        rw [Bool.and_eq_true, List.all_eq_true] at h
        rw [htext, List.forall_mem_cons, List.forall_mem_cons]
        exact ⟨.inr (by decide), .inl h.1, fun c hc => .inr (h.2 c hc)⟩
    · next first rest _ htext =>
        rw [Bool.and_eq_true, List.all_eq_true] at h
        rw [htext, List.forall_mem_cons]
        exact ⟨.inl h.1, fun c hc => .inr (h.2 c hc)⟩
    · cases h
  refine closesFrom_of_not_mem (fun hmem => ?_) fun hmem => ?_
  all_goals exact absurd (hchars _ hmem) (by decide)

theorem isBalanced_nest (hplain : IsBalanced plain) (h : ∀ ending ∈ endings, ending.IsClosure) :
    IsBalanced (nest plain endings) := by
  induction endings with
  | nil => exact hplain
  | cons ending outer ih =>
      obtain ⟨hending, houter⟩ := List.forall_mem_cons.1 h
      exact (ih houter).enclosed.append (Ending.isBalanced_text hending)

/-- The reader takes one layer off. -/
theorem parse?_nest {ending : Ending} {outer : List Ending} (hplain : IsBalanced plain)
    (h : ∀ ending ∈ outer, ending.IsClosure) :
    parse? (nest plain (ending :: outer)) = some (ending.name (nest plain outer)) :=
  Ending.parse?_text (isBalanced_nest hplain h)

/-- A name around a plain one is trusted if it has fewer layers than may be peeled off. -/
theorem isWellFormedWithin_nest (hplain : parse? plain = none)
    (hname : isPlainName plain.toList = true) (h : ∀ ending ∈ endings, ending.IsClosure)
    (peels : Nat) :
    isWellFormedWithin peels (nest plain endings) = true ↔ endings.length < peels := by
  induction peels generalizing endings with
  | zero => exact iff_of_false Bool.false_ne_true (Nat.not_lt_zero _)
  | succ peels ih =>
      rw [isWellFormedWithin]
      cases endings with
      | nil =>
          rw [nest, hplain]
          exact iff_of_true hname (Nat.succ_pos peels)
      | cons ending outer =>
          have houter := (List.forall_mem_cons.1 h).2
          rw [parse?_nest (isBalanced_of_isPlainName hname) houter]
          exact (ih houter).trans Nat.succ_lt_succ_iff.symm

end GeneratedName

open GeneratedName (Ending nest)

/-! ## Closures of one type -/

/-- A method with a plain name, bodies nested in it, and the one type that has all of them. -/
structure NestedClosures (md : Metadata) where
  owner : TypeToken
  type : NamedType
  plain : String
  /-- How the names of the bodies end, the innermost body first. -/
  endings : List Ending
  /-- The innermost of some bodies, or the method itself for none. -/
  method : List Ending → MethodDef
  declared : md.typeDef? owner = some (.named type)
  ordinary : type.isStateMachine = false
  written : GeneratedName.parse? plain = none
  trusted : isWellFormedFragment plain = true
  closures : ∀ ending ∈ endings, ending.IsClosure
  /-- The type has one method of each name. -/
  once : ∀ layers, layers <:+ endings → ∃ token,
    (md.methodsOf owner).filter (fun entry => entry.2.name == nest plain layers) =
      [(token, method layers)]

namespace NestedClosures

variable {md : Metadata} (c : NestedClosures md) (frame : Frame)

/-- Where the search stands at one of the methods. -/
def site (layers : List Ending) : Site :=
  { method := c.method layers
    owner := c.owner
    typeArgs :=
      match md.definitionOf frame.declaringType with
      | .ok found => found.args
      | .error _ => []
    methodArgs := frame.methodGenericArgs
    actualTypes := if layers.length = c.endings.length then frame.parameterTypes else [] }

/-- The bodies that are passed on the way out, the innermost first. -/
def bodies : List Ending → List Body
  | [] => []
  | ending :: outer => ⟨ending.bodyKind, c.site frame (ending :: outer)⟩ :: bodies outer

variable {c frame} {layers outer : List Ending} {ending : Ending}

theorem exists_mem (h : layers <:+ c.endings) :
    ∃ token, (token, c.method layers) ∈ md.methodsOf c.owner ∧
      (c.method layers).name = nest c.plain layers := by
  obtain ⟨token, honly⟩ := c.once layers h
  have hmem := List.mem_filter.1 (honly ▸ List.mem_singleton_self (token, c.method layers))
  exact ⟨token, hmem.1, eq_of_beq hmem.2⟩

theorem name_method (h : layers <:+ c.endings) :
    (c.method layers).name = nest c.plain layers := by
  obtain ⟨-, -, hname⟩ := c.exists_mem h
  exact hname

theorem declaringType_method (h : layers <:+ c.endings) :
    (c.method layers).declaringType = c.owner := by
  obtain ⟨token, hmem, -⟩ := c.exists_mem h
  exact (Metadata.mem_methodsOf_iff.1 hmem).2

/-- The search for a method looks at the type itself first, and there it has no choice. -/
theorem findByName_method (h : layers <:+ c.endings) (hint : Option UInt32) :
    ∃ token, md.findByName c.owner (nest c.plain layers) hint = some (token, c.method layers) := by
  obtain ⟨token, honly⟩ := c.once layers h
  refine ⟨token, ?_⟩
  rw [Metadata.findByName, Metadata.enclosingTypes, Metadata.maxEnclosingSearch,
    Metadata.enclosingFrom, if_neg List.not_mem_nil, List.findSome?_cons, honly,
    Metadata.pickByOrdinal_singleton]

theorem trusted_iff (h : layers <:+ c.endings) :
    isWellFormedFragment (nest c.plain layers) = true ↔ layers.length < maxFragmentNesting :=
  GeneratedName.isWellFormedWithin_nest c.written
    (GeneratedName.isPlainName_of_trusted c.written c.trusted)
    (fun ending hending => c.closures ending (h.mem hending)) maxFragmentNesting

theorem site?_frame (hmethod : md.methodDef? frame.method = some (c.method c.endings))
    (htype : ∀ found, md.definitionOf frame.declaringType = .ok found →
      found.definition = c.owner) :
    frame.site? md = .ok (c.site frame c.endings) := by
  rw [Frame.site?, hmethod, site, if_pos rfl]
  cases hfound : md.definitionOf frame.declaringType with
  | ok found => simp only [htype found hfound]
  | error => simp only [c.declaringType_method (List.suffix_refl _)]

/-- The type itself is where a frame can lead to, as can an instance of it and nothing at all. -/
theorem definition_eq_owner (h : frame.declaringType = c.owner) :
    ∀ found, md.definitionOf frame.declaringType = .ok found → found.definition = c.owner := by
  intro found hfound
  rw [h, Metadata.definitionOf_eq_ok_iff.2 (.definition c.declared)] at hfound
  cases hfound
  rfl

/-! ## The steps -/

theorem hoistedName?_site (h : ending :: outer <:+ c.endings) :
    (c.site frame (ending :: outer)).hoistedName? = some (ending.name (nest c.plain outer)) := by
  have hplain : IsBalanced c.plain := GeneratedName.isBalanced_of_isPlainName
    (GeneratedName.isPlainName_of_trusted c.written c.trusted)
  refine Site.hoistedName?_of_parse? ?_ (Ending.isHoistedBody_name ?_ _)
  · rw [site, c.name_method h]
    exact GeneratedName.parse?_nest hplain fun other hother =>
      c.closures other (h.mem (List.mem_cons_of_mem _ hother))
  · exact c.closures ending (h.mem List.mem_cons_self)

theorem stateMachine?_site : (c.site frame layers).stateMachine? md = none := by
  have hdeclared : md.typeDef? (c.site frame layers).owner = some (.named c.type) := c.declared
  rw [Site.stateMachine?_of_named hdeclared, c.ordinary]
  rfl

theorem step_nil : (c.site frame []).step md = .stay := by
  have hname : (c.site frame []).hoistedName? = none := by
    refine Site.hoistedName?_eq_none fun name hname => ?_
    have hplain : (c.site frame []).method.name = c.plain := c.name_method List.nil_suffix
    rw [hplain, c.written] at hname
    cases hname
  exact (Site.Takes.rest (by simp [hname]) (by simp [stateMachine?_site])).step_eq

/-- A step takes one layer off, as long as the layers that are left can be trusted. -/
theorem step_cons (h : ending :: outer <:+ c.endings)
    (hlength : outer.length < maxFragmentNesting) :
    (c.site frame (ending :: outer)).step md =
      .outward { body := some ⟨ending.bodyKind, c.site frame (ending :: outer)⟩ }
        (c.site frame outer) := by
  have houter : outer <:+ c.endings := (List.suffix_cons ending outer).trans h
  -- The types at run time are known of the innermost body only, and that is left behind here.
  have hruntime : (if outer.length = c.endings.length then frame.parameterTypes else []) = [] := by
    have hle := h.length_le
    rw [List.length_cons] at hle
    exact if_neg (by omega)
  have houtward : (c.site frame (ending :: outer)).outward md (c.method outer) =
      c.site frame outer := by
    rw [Site.outward_of_eq (c.declaringType_method houter)]
    simp only [site, hruntime]
  obtain ⟨token, hfound⟩ :=
    c.findByName_method houter (ending.name (nest c.plain outer)).ordinalHint?
  rw [← houtward]
  have hbody : Site.closureKind? (ending.name (nest c.plain outer)) = some ending.bodyKind :=
    Ending.closureKind?_name (c.closures ending (h.mem List.mem_cons_self)) _
  exact (Site.Takes.leaveClosure (hoistedName?_site h) ((trusted_iff houter).2 hlength) hbody
    hfound).step_eq

/-- Where there are too many layers no step is taken, not even the first. -/
theorem step_of_many (h : ending :: outer <:+ c.endings)
    (hlength : maxFragmentNesting ≤ outer.length) :
    (c.site frame (ending :: outer)).step md = .stay := by
  have houter : outer <:+ c.endings := (List.suffix_cons ending outer).trans h
  have hdistrust : isWellFormedFragment (nest c.plain outer) = false :=
    Bool.eq_false_iff.2 (mt (trusted_iff houter).1 (Nat.not_lt.2 hlength))
  refine (Site.Takes.rest (fun name hname => ?_) (by simp [stateMachine?_site])).step_eq
  cases (hoistedName?_site h).symm.trans hname
  exact hdistrust

/-! ## The run -/

/-- From layers that can be taken off one by one the search comes to the method with the plain
name. -/
theorem reaches_site (h : layers <:+ c.endings) (hlength : layers.length ≤ maxFragmentNesting)
    (passed : Passed) :
    Origin.Reaches md layers.length (c.site frame layers) passed (c.site frame [])
      (((c.bodies frame layers).map fun body => { body := some body }).foldl Passed.after
        passed) := by
  induction layers generalizing passed with
  | nil => exact .start
  | cons ending outer ih =>
      have houter : outer <:+ c.endings := (List.suffix_cons ending outer).trans h
      exact .of_step (step_cons h hlength) (ih houter (Nat.le_of_succ_le hlength) _)

/-- The search ends there, with a body for each layer, if there are steps enough. -/
theorem search_site (h : layers <:+ c.endings) (hlength : layers.length ≤ maxFragmentNesting)
    {steps : Nat} (hsteps : layers.length ≤ steps) :
    ∃ visited, Origin.search md steps (c.site frame layers) =
      { site := c.site frame [], bodies := (c.bodies frame layers).reverse, visited } := by
  have hreaches : Origin.Reaches md _ (c.site frame layers) {} (c.site frame []) _ :=
    reaches_site h hlength {}
  obtain ⟨visited, hsearch⟩ := hreaches.search_of_stay step_nil hsteps
  refine ⟨visited, hsearch.trans ?_⟩
  simp [Origin.ending_foldl_after, ← List.map_reverse, List.flatMap_map]

/-! ## Tables of nested closures -/

/-- The table of a program with one type, on which there are a method and bodies nested in it. -/
def table (endings : List Ending) : Metadata :=
  { types := .ofList [(1, .named { name := "Program" })]
    methods := .ofList (endings.tails.map fun layers =>
      (.ofNat layers.length, { name := nest "Main" layers, declaringType := ⟨1⟩ })) }

/-- What is to be checked of the endings for the names in the table to be apart. -/
def ofTable (endings : List Ending) (closures : ∀ ending ∈ endings, ending.IsClosure)
    (once : ∀ layers ∈ endings.tails,
      ((table endings).methodsOf ⟨1⟩).filter (fun entry => entry.2.name == nest "Main" layers) =
        [(⟨.ofNat layers.length⟩, { name := nest "Main" layers, declaringType := ⟨1⟩ })]) :
    NestedClosures (table endings) where
  owner := ⟨1⟩
  type := { name := "Program" }
  plain := "Main"
  endings := endings
  method layers := { name := nest "Main" layers, declaringType := ⟨1⟩ }
  declared := rfl
  ordinary := by decide +kernel
  written := by decide +kernel
  trusted := by decide +kernel
  closures := closures
  once layers hlayers := ⟨_, once layers ((List.mem_tails _ _).2 hlayers)⟩

/-- The frame of the innermost body. -/
def innermost (endings : List Ending) : Frame :=
  { declaringType := ⟨1⟩, method := ⟨.ofNat endings.length⟩ }

/-- A local function in a lambda. -/
def localInLambda : List Ending :=
  [.localFunction "Local" 0 1 (by decide) (by decide), .lambda 0 0]

/-- One lambda more around each other than a search takes apart. -/
def nineLambdas : List Ending := List.replicate 9 (.onlyLambda 0)

/-! ## The main theorem -/

/-- A name of nested closures is taken apart to the end or not at all. Up to the limit of the
search, the frame of the innermost body shows as the method with the plain name and, inside it, a
body for each layer. Beyond the limit it shows under the whole name, and nothing inside. -/
theorem resolve_innermost (c : NestedClosures md) (frame : Frame)
    (hmethod : md.methodDef? frame.method = some (c.method c.endings))
    (htype : ∀ found, md.definitionOf frame.declaringType = .ok found →
      found.definition = c.owner) :
    ∃ call, frame.resolve md = .ok call ∧
      (c.endings.length ≤ maxUnwrapDepth →
        call.method = Origin.method md { site := c.site frame [] } ∧
          call.method.name = c.plain ∧
          List.Forall₂ (Body.ShowsAs md) (c.bodies frame c.endings).reverse call.bodies) ∧
      (maxUnwrapDepth < c.endings.length →
        call.method = Origin.method md { site := c.site frame c.endings } ∧
          call.method.name = nest c.plain c.endings ∧ call.bodies = []) := by
  -- There are as many steps as a trusted name may have layers.
  have hlimits : maxUnwrapDepth = maxFragmentNesting := rfl
  have hresolve : frame.resolve md =
      .ok ((Origin.search md maxUnwrapDepth (c.site frame c.endings)).present md) := by
    rw [Frame.resolve, Frame.origin, site?_frame hmethod htype]
    rfl
  refine ⟨_, hresolve, fun hlength => ?_, fun hlength => ?_⟩
  · obtain ⟨visited, hsearch⟩ : ∃ visited,
        Origin.search md maxUnwrapDepth (c.site frame c.endings) =
          { site := c.site frame [], bodies := (c.bodies frame c.endings).reverse, visited } :=
      search_site (List.suffix_refl c.endings) (hlimits ▸ hlength) hlength
    rw [hsearch]
    exact ⟨rfl, c.name_method List.nil_suffix, Body.forall₂_showsAs_iff.2 rfl⟩
  · obtain ⟨ending, outer, hendings⟩ : ∃ ending outer, c.endings = ending :: outer :=
      List.exists_cons_of_length_pos (by omega)
    have hstay : (c.site frame c.endings).step md = .stay := by
      rw [hendings, List.length_cons] at hlength
      rw [hendings]
      exact step_of_many (hendings ▸ List.suffix_refl c.endings)
        (hlimits ▸ Nat.le_of_lt_succ hlength)
    rw [maxUnwrapDepth, Origin.search_of_stay hstay]
    exact ⟨rfl, c.name_method (List.suffix_refl c.endings), rfl⟩

theorem resolve_localInLambda :
    (∃ call, (innermost localInLambda).resolve (table localInLambda) = .ok call ∧
      call.method.name = "Main" ∧
      call.bodies =
        [{ isLambda := true, ordinal := some 0, parametersKnown := true },
         { name := "Local", parametersKnown := true }]) ∧
    ∃ call, (innermost nineLambdas).resolve (table nineLambdas) = .ok call ∧
      call.method.name = nest "Main" nineLambdas ∧ call.bodies = [] := by
  constructor
  · obtain ⟨call, hresolve, hshallow, -⟩ :=
      resolve_innermost (ofTable localInLambda (by decide) (by decide +kernel))
        (innermost localInLambda) (by decide +kernel) (definition_eq_owner rfl)
    obtain ⟨-, hname, hbodies⟩ := hshallow (by decide)
    exact ⟨call, hresolve, hname, (Body.forall₂_showsAs_iff.1 hbodies).symm.trans (by rfl)⟩
  · obtain ⟨call, hresolve, -, hdeep⟩ :=
      resolve_innermost (ofTable nineLambdas (by decide) (by decide +kernel))
        (innermost nineLambdas) (by decide +kernel) (definition_eq_owner rfl)
    obtain ⟨-, hname, hbodies⟩ := hdeep (by decide)
    exact ⟨call, hresolve, hname, hbodies⟩

end NestedClosures

end Unmangle
