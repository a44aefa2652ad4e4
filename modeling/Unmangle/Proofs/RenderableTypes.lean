import Unmangle.Proofs.SegmentArguments
import Unmangle.Proofs.TypeDepth
import Unmangle.Proofs.TypeShapes

/-!
# What is resolved can be shown

The renderer takes any type there can be, also ones that no source could spell: a name of no
segments, a tuple of nothing, an array of any rank at all, for which it writes no more commas than
the highest rank has. None of these comes out of a resolution, whatever the metadata say. The types
around a type may run in circles, and its chain is cut then. A rank may be any number, and one that
is too high is not resolved, while one that is zero counts as one. A keyword stands for a definition
that the metadata have, and which is given no arguments.

So the renderer never has to cut the brackets of an array that was resolved. `renderWith` shows
types as the renderer does but takes the brackets of arrays from a function that it is given, and it
makes no difference to leave them uncut.
-/

namespace Unmangle

/-- The type is one of those that a source can spell, whatever the types in it are. -/
def SourceType.IsRenderable (md : Metadata) : SourceType → Prop
  | .named _ segments => 1 ≤ segments.length ∧ segments.length ≤ maxTypeDepth
  | .array _ rank => 1 ≤ rank ∧ rank ≤ maxArrayRank
  | .tuple elements => 1 ≤ elements.length
  | .primitive keyword fullName =>
    ∃ token found, md.StandsFor token found ∧ found.args = [] ∧
      found.type.space = some "System" ∧ (found.type.name, keyword) ∈ NamedType.keywords ∧
      fullName = "System." ++ found.type.name
  | .dynamic => False
  | .genericParam _ | .pointer _ | .byRef _ | .nullable _ | .foreignUnit | .unresolved
  | .truncated => True

/-! ## Shapes -/

namespace Metadata

variable {md : Metadata} {type : NamedType}

/-- There is a segment for every type of the chain. -/
theorem length_segments_of_spellNested {args : List SourceType} {space : Option String}
    {segments : List TypeSegment} (h : md.spellNested type args = .named space segments) :
    1 ≤ segments.length ∧ segments.length ≤ maxTypeDepth := by
  rw [spellNested] at h
  cases h
  rw [length_dealArguments, List.length_reverse]
  exact ⟨List.length_pos_iff.2 (declaringChain_ne_nil _), length_declaringChain_le _ type⟩

/-- What a single step makes is renderable. -/
theorem isRenderable_of_isMade {node : SourceType} (h : node.IsMade md) : node.IsRenderable md := by
  cases h with
  | truncated | unresolved | genericParam | pointer | byRef => exact trivial
  | array element one_le rank_le => exact ⟨one_le, rank_le⟩
  | @spelled token found args hstands hlength =>
      have hspelling := spelling_resolveNamed md found.type args
      generalize md.resolveNamed found.type args = result at hspelling ⊢
      cases hspelling with
      | foreignUnit | nullable => exact trivial
      | tuple hargs => exact List.length_pos_iff.2 hargs
      | nested hnested => exact length_segments_of_spellNested hnested
      | primitive hargs hkeyword =>
          rw [hargs] at hlength
          obtain ⟨hspace, hmem⟩ := NamedType.of_mem_keyword? hkeyword
          refine ⟨token, found, hstands, List.length_eq_zero_iff.1 hlength.symm, hspace, hmem, ?_⟩
          rw [NamedType.qualifiedName, hspace]
          rfl

end Metadata

/-! ## Brackets that are not cut -/

mutual

/-- The rendering of a type, with these brackets for an array of each rank. -/
def SourceType.renderWith (brackets : Nat → String) (options : FormatOptions) :
    SourceType → Rendering
  | .named space segments =>
    renderSpace options space ++ separated "." (renderSegmentsWith brackets options segments)
  | .array element rank =>
    element.renderWith brackets options ++ [punctuation (brackets rank)]
  | .pointer element => element.renderWith brackets options ++ [punctuation "*"]
  | .byRef element => element.renderWith brackets options ++ [punctuation "&"]
  | .nullable element => element.renderWith brackets options ++ [punctuation "?"]
  | .tuple elements =>
    punctuation "(" :: separated ", " (renderTypesWith brackets options elements) ++
      [punctuation ")"]
  | .primitive keyword fullName => (SourceType.primitive keyword fullName).render options
  | .genericParam name => (SourceType.genericParam name).render options
  | .dynamic => SourceType.dynamic.render options
  | .foreignUnit => SourceType.foreignUnit.render options
  | .unresolved => SourceType.unresolved.render options
  | .truncated => SourceType.truncated.render options

def renderTypesWith (brackets : Nat → String) (options : FormatOptions) :
    List SourceType → List Rendering
  | [] => []
  | type :: rest => type.renderWith brackets options :: renderTypesWith brackets options rest

def TypeSegment.renderWith (brackets : Nat → String) (options : FormatOptions) :
    TypeSegment → Rendering
  | .mk name args =>
    .styled name .typeName :: joinArguments options args (renderTypesWith brackets options args)

def renderSegmentsWith (brackets : Nat → String) (options : FormatOptions) :
    List TypeSegment → List Rendering
  | [] => []
  | segment :: rest =>
    segment.renderWith brackets options :: renderSegmentsWith brackets options rest

end

/-- The brackets are those of the renderer for the arrays among the types. -/
def SuitsArrays (brackets : Nat → String) (types : List SourceType) : Prop :=
  ∀ element rank, .array element rank ∈ types → brackets rank = rankBrackets rank

theorem SuitsArrays.mono {brackets : Nat → String} {types others : List SourceType}
    (h : SuitsArrays brackets others) (hsubset : types ⊆ others) : SuitsArrays brackets types :=
  fun element rank hmem => h element rank (hsubset hmem)

variable {brackets : Nat → String} (options : FormatOptions)

mutual

theorem SourceType.renderWith_eq_render :
    ∀ type : SourceType, SuitsArrays brackets type.nodes →
      type.renderWith brackets options = type.render options
  | .named space segments, h => by
    rw [SourceType.renderWith, SourceType.render,
      renderSegmentsWith_eq segments (h.mono (List.subset_cons_self _ _))]
  | .array element rank, h => by
    rw [SourceType.renderWith, SourceType.render,
      element.renderWith_eq_render (h.mono (List.subset_cons_self _ _)),
      h element rank List.mem_cons_self]
  | .pointer element, h => by
    rw [SourceType.renderWith, SourceType.render,
      element.renderWith_eq_render (h.mono (List.subset_cons_self _ _))]
  | .byRef element, h => by
    rw [SourceType.renderWith, SourceType.render,
      element.renderWith_eq_render (h.mono (List.subset_cons_self _ _))]
  | .nullable element, h => by
    rw [SourceType.renderWith, SourceType.render,
      element.renderWith_eq_render (h.mono (List.subset_cons_self _ _))]
  | .tuple elements, h => by
    rw [SourceType.renderWith, SourceType.render,
      renderTypesWith_eq elements (h.mono (List.subset_cons_self _ _))]
  | .primitive _ _, _ | .genericParam _, _ | .dynamic, _ | .foreignUnit, _ | .unresolved, _
  | .truncated, _ => by
    rw [SourceType.renderWith]

theorem renderTypesWith_eq :
    ∀ types : List SourceType, SuitsArrays brackets (typeNodes types) →
      renderTypesWith brackets options types = renderTypes options types
  | [], _ => rfl
  | type :: rest, h => by
    rw [renderTypesWith, renderTypes,
      type.renderWith_eq_render (h.mono (List.subset_append_left _ _)),
      renderTypesWith_eq rest (h.mono (List.subset_append_right _ _))]

theorem TypeSegment.renderWith_eq :
    ∀ segment : TypeSegment, SuitsArrays brackets segment.nodes →
      segment.renderWith brackets options = segment.render options
  | .mk name args, h => by
    rw [TypeSegment.renderWith, TypeSegment.render, renderTypesWith_eq args h]

theorem renderSegmentsWith_eq :
    ∀ segments : List TypeSegment, SuitsArrays brackets (segmentNodes segments) →
      renderSegmentsWith brackets options segments = renderSegments options segments
  | [], _ => rfl
  | segment :: rest, h => by
    rw [renderSegmentsWith, renderSegments,
      segment.renderWith_eq (h.mono (List.subset_append_left _ _)),
      renderSegmentsWith_eq rest (h.mono (List.subset_append_right _ _))]

end

/-- Brackets with a comma less than the rank, however high that is. -/
def uncutBrackets (rank : Nat) : String :=
  .ofList ('[' :: List.replicate (rank - 1) ',' ++ [']'])

theorem uncutBrackets_eq {rank : Nat} (h : rank ≤ maxArrayRank) :
    uncutBrackets rank = rankBrackets rank := by
  rw [uncutBrackets, rankBrackets, Nat.min_eq_left h]

namespace Metadata

/-- Whatever the metadata are, at every level of a resolved type there is a type that can be
spelled: a name has segments, and no more than fit a path, an array has a rank that arrays can have,
a tuple has elements, a keyword is that of a definition without arguments, and nothing is `dynamic`.
The renderer shows it all and cuts no brackets. -/
theorem resolveType_isRenderable (md : Metadata) (bindings : Bindings) (token : TypeToken) :
    (∀ node ∈ (md.resolveType bindings token).nodes, node.IsRenderable md) ∧
    ∀ options, (md.resolveType bindings token).renderWith uncutBrackets options =
      (md.resolveType bindings token).render options := by
  have hshapes : ∀ node ∈ (md.resolveType bindings token).nodes, node.IsRenderable md :=
    fun node hnode => isRenderable_of_isMade (isMade_of_mem_resolveType hnode)
  refine ⟨hshapes, fun options => SourceType.renderWith_eq_render options _ ?_⟩
  intro element rank hmem
  exact uncutBrackets_eq (hshapes _ hmem).2

/-- Arrays whose ranks are out of bounds on either side, in a tuple. -/
def oddRanks : Metadata :=
  { types := .ofList
      [(1, .named { name := "Int32", space := some "System" }),
       (2, .array ⟨1⟩ 0), (3, .array ⟨1⟩ 33),
       (4, .named { name := "ValueTuple\x602", space := some "System" }),
       (5, .genericInstance ⟨4⟩ [⟨2⟩, ⟨3⟩])] }

theorem resolveType_oddRanks :
    oddRanks.resolveType {} ⟨5⟩ =
        .tuple [.array (.primitive "int" "System.Int32") 1, .unresolved] ∧
      .primitive "int" "System.Int32" ∈ (oddRanks.resolveType {} ⟨5⟩).nodes ∧
      (SourceType.primitive "int" "System.Int32").IsRenderable oddRanks ∧
      ((oddRanks.resolveType {} ⟨5⟩).renderWith uncutBrackets {}).plain = "(int[], ?)" := by
  have hresult : oddRanks.resolveType {} ⟨5⟩ =
      .tuple [.array (.primitive "int" "System.Int32") 1, .unresolved] := rfl
  have hmem : .primitive "int" "System.Int32" ∈ (oddRanks.resolveType {} ⟨5⟩).nodes := by
    rw [hresult]
    simp [SourceType.nodes, typeNodes]
  obtain ⟨hshapes, hbrackets⟩ := resolveType_isRenderable oddRanks {} ⟨5⟩
  refine ⟨hresult, hmem, hshapes _ hmem, ?_⟩
  rw [hbrackets, hresult]
  decide +kernel

/-- A type that is nested in itself has as many segments as fit a path. -/
example :
    ({ types := .ofList [(1, .named { name := "Ring", declaringType := some ⟨1⟩ })] } :
        Metadata).resolveType {} ⟨1⟩ =
      .named none (List.replicate maxTypeDepth (.mk "Ring" [])) := rfl

end Metadata

end Unmangle
