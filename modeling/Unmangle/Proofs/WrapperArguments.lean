import Unmangle.Proofs.Moves

/-!
# The arguments of a wrapper

A type that the compiler makes for the bodies within a generic method of a generic type takes over
the arguments of both, those of the type first. Bodies within bodies hand them on, wrapper to
wrapper, and at the method that was written they have to come apart again where they were joined:
so many of them for the type as it declares, the rest for the method.

The law is an invariant of single moves. On every wrapper the whole list is bound to the type, and
what is bound to the method is of no account, since a move to another type forgets it; on the type
of the method the list is split. A move within a type changes neither, and a move into a wrapper
takes as many arguments as it declares, which is all of them. The arguments that a frame reports
for its own method are such a list of no account, and nothing of them comes through.
-/

namespace Unmangle

namespace Origin

/-- The moves go from wrapper to wrapper, each with as many generic parameters as there are
arguments, until they come to the type `target`, and none of them leaves it. -/
structure ComesTo (md : Metadata) (target : TypeToken) (count : Nat)
    (moves : List (Site × Site)) : Prop where
  remains : ∀ move ∈ moves, move.1.owner = target → move.2.owner = target
  takesOver : ∀ move ∈ moves, move.2.owner ≠ move.1.owner → move.2.owner ≠ target →
    Site.genericArity md move.2.owner = count

end Origin

namespace Site

/-- The site has the arguments of the wrapper: all for the type on the way to `target`, and there
as many for the type as it declares and the rest for the method. -/
structure HasArguments (md : Metadata) (target : TypeToken) (args : List TypeToken)
    (site : Site) : Prop where
  whole : site.owner ≠ target → site.typeArgs = args
  split : site.owner = target →
    site.bindings = ⟨args.take (genericArity md target), args.drop (genericArity md target)⟩ ∧
      site.actualTypes = []

variable {md : Metadata} {target : TypeToken} {args : List TypeToken} {site : Site}
  {method : MethodDef}

/-- One move keeps the arguments, or splits them. -/
theorem HasArguments.outward (h : site.HasArguments md target args)
    (hremains : site.owner = target → (site.outward md method).owner = target)
    (htakes : (site.outward md method).owner ≠ site.owner →
      (site.outward md method).owner ≠ target →
      genericArity md (site.outward md method).owner = args.length) :
    (site.outward md method).HasArguments md target args := by
  by_cases hsame : method.declaringType = site.owner
  · rw [outward_of_eq hsame]
    exact ⟨h.whole, fun howner => ⟨(h.split howner).1, rfl⟩⟩
  · rw [outward_of_ne hsame] at hremains htakes ⊢
    dsimp only at hremains htakes
    -- The arguments are still together, since no move leaves the type where they are split.
    have howner : site.owner ≠ target := fun heq => hsame ((hremains heq).trans heq.symm)
    have htogether := h.whole howner
    refine ⟨fun hnext => ?_, fun hnext => ?_⟩
    · show site.typeArgs.take _ = args
      rw [htakes hsame hnext, htogether, List.take_length]
    · subst hnext
      rw [bindings, htogether]
      exact ⟨rfl, rfl⟩

end Site

section Search

variable {md : Metadata} {target : TypeToken} {args : List TypeToken} {site : Site}

/-- The frame of a wrapper starts with all arguments bound to the type. -/
theorem Frame.hasArguments_site {frame : Frame} {wrapper : TypeToken} {wrapperType : NamedType}
    (hframe : md.typeDef? frame.declaringType = some (.genericInstance wrapper args))
    (hwrapper : md.typeDef? wrapper = some (.named wrapperType)) (hne : wrapper ≠ target)
    (hsite : frame.site? md = .ok site) : site.HasArguments md target args := by
  cases hmethod : md.methodDef? frame.method with
  | none => rw [Frame.site?, hmethod] at hsite; cases hsite
  | some method =>
      have hown := Frame.site?_of_standsFor hmethod (.instantiation hframe hwrapper)
      cases hown.symm.trans hsite
      exact ⟨fun _ => rfl, fun howner => absurd howner hne⟩

/-- The run lemma: the search ends with the arguments that the last site should have. -/
theorem Origin.hasArguments_search {steps : Nat}
    (hstart : site.HasArguments md target args)
    (hmoves : ComesTo md target args.length (moves md steps site)) :
    (search md steps site).site.HasArguments md target args := by
  refine search_site_of_moves hstart fun move hmove h => ?_
  have hremains := hmoves.remains move hmove
  have htakes := hmoves.takesOver move hmove
  obtain ⟨method, hmethod⟩ := exists_outward_of_mem_moves hmove
  rw [hmethod] at hremains htakes ⊢
  exact h.outward hremains htakes

end Search

/-! ## An async lambda in a generic method of a generic type

`Box<T>.Convert<U>(U item, T[] all)` holds an async lambda, so the machine of the lambda is nested
in the type of the closures, and both take over `T` and `U`. -/

namespace BoxedConvert

def box : NamedType := { name := "Box\x601", genericParams := ["T"] }

def closures : NamedType :=
  { name := "<>c__DisplayClass0_0\x602"
    declaringType := some ⟨1⟩
    genericParams := ["T", "U"]
    compilerGenerated := true }

def machine : NamedType :=
  { name := "<<Convert>b__0>d\x602"
    declaringType := some ⟨2⟩
    genericParams := ["T", "U"]
    interfaces := [NamedType.asyncStateMachine]
    compilerGenerated := true }

def convert : MethodDef :=
  { name := "Convert"
    declaringType := ⟨1⟩
    genericParams := ["U"]
    parameters := [{ name := "item", type := ⟨8⟩ }, { name := "all", type := ⟨9⟩ }] }

def lambda : MethodDef :=
  { name := "<Convert>b__0", declaringType := ⟨2⟩, stateMachine := some ⟨.async, ⟨3⟩⟩ }

def moveNext : MethodDef := { name := "MoveNext", declaringType := ⟨3⟩ }

def table : Metadata :=
  { types := .ofList
      [(1, .named box), (2, .named closures), (3, .named machine),
       (4, .named { name := "Int32", space := some "System" }),
       (5, .named { name := "String", space := some "System" }),
       (6, .genericInstance ⟨3⟩ [⟨4⟩, ⟨5⟩]),
       (7, .genericParam "T" .type 0), (8, .genericParam "U" .method 0), (9, .array ⟨7⟩ 1)]
    methods := .ofList [(1, convert), (2, lambda), (3, moveNext)] }

/-- The frame of the machine, with arguments for a method that has no parameters for them. -/
def frame : Frame :=
  { declaringType := ⟨6⟩, method := ⟨3⟩, methodGenericArgs := [⟨5⟩, ⟨5⟩, ⟨5⟩] }

def site : Site :=
  { method := moveNext
    owner := ⟨3⟩
    typeArgs := [⟨4⟩, ⟨5⟩]
    methodArgs := [⟨5⟩, ⟨5⟩, ⟨5⟩] }

end BoxedConvert

/-! ## The main theorem -/

/-- The frame of a wrapper shows its method with the arguments of the wrapper: the first of them on
the type, as many as it declares, and the others on the method, whose parameters are resolved under
both. What the frame says on the arguments of its own method does not matter. -/
theorem resolve_wrapper {md : Metadata} {frame : Frame} {wrapper target : TypeToken}
    {args : List TypeToken} {wrapperType type : NamedType} {site : Site} {origin : Origin}
    (hframe : md.typeDef? frame.declaringType = some (.genericInstance wrapper args))
    (hwrapper : md.typeDef? wrapper = some (.named wrapperType))
    (hsite : frame.site? md = .ok site)
    (horigin : Origin.search md maxUnwrapDepth site = origin)
    (hknown : origin.orphanName = none)
    (htarget : origin.site.owner = target) (hne : wrapper ≠ target)
    (htype : md.named? target = some type)
    (hmoves : Origin.ComesTo md target args.length (Origin.moves md maxUnwrapDepth site))
    (harity : type.genericParams.length ≤ args.length) :
    let arity := type.genericParams.length
    let method := origin.site.method
    let bindings : Bindings := ⟨args.take arity, args.drop arity⟩
    frame.resolve md = .ok
      { method :=
          { declaringType :=
              some (md.resolveNamed type ((args.take arity).map (md.resolveType {})))
            name := method.name
            kind := .ofName method.name
            genericArguments := method.genericParams.zipIdx.map fun (name, position) =>
              match args[arity + position]? with
              | some arg => md.resolveType {} arg
              | none => .genericParam name
            parameters := method.parameters.map fun param =>
              .ofDef param (md.resolveType bindings param.type)
            parametersKnown := true
            isAsync := origin.isAsync }
        bodies := origin.bodies.map (·.present md) } ∧
    (∀ position, position.toNat < arity →
      bindings.lookup .type position = args[position.toNat]?) ∧
    ∀ position, bindings.lookup .method position = args[arity + position.toNat]? := by
  intro arity method bindings
  refine ⟨?resolved, fun position hposition => ?type, fun position => ?method⟩
  case type => exact List.getElem?_take_of_lt hposition
  case method => exact List.getElem?_drop
  case resolved =>
    have hstart : site.HasArguments md target args :=
      Frame.hasArguments_site hframe hwrapper hne hsite
    have hend : origin.site.HasArguments md target args :=
      horigin ▸ Origin.hasArguments_search hstart hmoves
    have hcount : Site.genericArity md target = arity := by rw [Site.genericArity, htype]
    obtain ⟨hbindings, hdeclared⟩ := hend.split htarget
    rw [hcount] at hbindings
    have htypeArgs : origin.site.typeArgs = args.take arity := congrArg Bindings.typeArgs hbindings
    have hmethodArgs : origin.site.methodArgs = args.drop arity :=
      congrArg Bindings.methodArgs hbindings
    have hown : Origin.ownArguments type (args.take arity) = args.take arity := by
      have hlength : arity ≤ (args.take arity).length := by
        rw [List.length_take]
        exact Nat.le_min.2 ⟨Nat.le_refl _, harity⟩
      rw [Origin.ownArguments, if_pos hlength, List.take_take, Nat.min_self]
    rw [Frame.resolve, Frame.origin, hsite]
    simp only [Except.map]
    rw [horigin, Origin.present, Origin.method, hknown]
    simp only [Origin.declaringType, htarget, htype, htypeArgs, hown,
      Site.parameters_of_declared hdeclared, hbindings, Site.genericArguments, hmethodArgs,
      List.getElem?_drop]
    rfl

theorem resolve_boxedConvert :
    BoxedConvert.frame.site? BoxedConvert.table = .ok BoxedConvert.site ∧
      BoxedConvert.frame.resolve BoxedConvert.table = .ok
        { method :=
            { declaringType := some (.named none [.mk "Box" [.primitive "int" "System.Int32"]])
              name := "Convert"
              genericArguments := [.primitive "string" "System.String"]
              parameters :=
                [{ name := "item", type := .primitive "string" "System.String" },
                 { name := "all", type := .array (.primitive "int" "System.Int32") 1 }]
              parametersKnown := true
              isAsync := true }
          bodies := [{ parametersKnown := true, isLambda := true }] } := by
  have hframe : BoxedConvert.table.typeDef? BoxedConvert.frame.declaringType =
      some (.genericInstance ⟨3⟩ [⟨4⟩, ⟨5⟩]) := rfl
  have hwrapper : BoxedConvert.table.typeDef? ⟨3⟩ = some (.named BoxedConvert.machine) := rfl
  have hsite : BoxedConvert.frame.site? BoxedConvert.table = .ok BoxedConvert.site := rfl
  have htype : BoxedConvert.table.named? ⟨1⟩ = some BoxedConvert.box := rfl
  have hmoves : Origin.ComesTo BoxedConvert.table ⟨1⟩ 2
      (Origin.moves BoxedConvert.table maxUnwrapDepth BoxedConvert.site) :=
    ⟨by decide +kernel, by decide +kernel⟩
  have hresolve :=
    (resolve_wrapper hframe hwrapper hsite rfl rfl rfl (by decide) htype hmoves (by decide)).1
  exact ⟨hsite, hresolve.trans (by rfl)⟩

end Unmangle
