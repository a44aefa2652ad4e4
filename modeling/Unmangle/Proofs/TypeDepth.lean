import Unmangle.Proofs.NodeCount
import Unmangle.Rendering.Type

/-!
# Resolution ends, and how deep its result nests

Metadata may lead in circles, so neither the tokens nor the types bound to parameters get smaller
from one call of the resolution to the next. What ends it are its guards. `Resolves` has a rule for
each thing that a call can do and no fuel, hence a call has a result in it only if it makes finitely
many further calls. Every call has one (`resolves_iff_resolveAt`).

The result is bounded by the path. Each call below a call has one more token on its path, whether or
not a node is made on the way: where a parameter is bound, the path grows and the type does not. A
call on the last place of the path may still find a definition and show its open parameters, one
level further down, and that is where the bound for the height comes from.

To show a type is to descend into it once more. `renderWithin` descends so many levels and no more,
and leaves what is below to a function that is given to it. At the height of the type that function
makes no difference.
-/

namespace Unmangle

/-! ## The height of a type -/

mutual

/-- How many types are below each other, at most: a type without others in it has height one. -/
def SourceType.height : SourceType → Nat
  | .named _ segments => segmentsHeight segments + 1
  | .array element _ | .pointer element | .byRef element | .nullable element => element.height + 1
  | .tuple elements => typesHeight elements + 1
  | .primitive _ _ | .genericParam _ | .dynamic | .foreignUnit | .unresolved | .truncated => 1

def typesHeight : List SourceType → Nat
  | [] => 0
  | type :: rest => max type.height (typesHeight rest)

def TypeSegment.height : TypeSegment → Nat
  | .mk _ args => typesHeight args

def segmentsHeight : List TypeSegment → Nat
  | [] => 0
  | segment :: rest => max segment.height (segmentsHeight rest)

end

theorem typesHeight_le_iff {types : List SourceType} {bound : Nat} :
    typesHeight types ≤ bound ↔ ∀ type ∈ types, type.height ≤ bound := by
  induction types with
  | nil => simp [typesHeight]
  | cons type rest ih => rw [typesHeight, Nat.max_le, ih, List.forall_mem_cons]

theorem segmentsHeight_le_iff {segments : List TypeSegment} {bound : Nat} :
    segmentsHeight segments ≤ bound ↔
      ∀ type ∈ segments.flatMap (·.args), type.height ≤ bound := by
  induction segments with
  | nil => simp [segmentsHeight]
  | cons segment rest ih =>
      obtain ⟨name, args⟩ := segment
      rw [segmentsHeight, Nat.max_le, TypeSegment.height, typesHeight_le_iff, ih,
        List.flatMap_cons, List.forall_mem_append]
      rfl

/-! ## Showing a type down to some level -/

theorem renderTypes_eq_map (options : FormatOptions) (types : List SourceType) :
    renderTypes options types = types.map (·.render options) := by
  induction types with
  | nil => rfl
  | cons type rest ih => rw [renderTypes, ih, List.map_cons]

theorem renderSegments_eq_map (options : FormatOptions) (segments : List TypeSegment) :
    renderSegments options segments = segments.map (·.render options) := by
  induction segments with
  | nil => rfl
  | cons segment rest ih => rw [renderSegments, ih, List.map_cons]

/-- Shows a type as far as so many calls below each other get. What is further down is shown by
`below`. -/
def SourceType.renderWithin (options : FormatOptions) (below : SourceType → Rendering) :
    Nat → SourceType → Rendering
  | 0, type => below type
  | depth + 1, .named space segments =>
    renderSpace options space ++ separated "." (segments.map fun segment =>
      .styled segment.name .typeName :: joinArguments options segment.args
        (segment.args.map (renderWithin options below depth)))
  | depth + 1, .array element rank =>
    renderWithin options below depth element ++ [punctuation (rankBrackets rank)]
  | depth + 1, .pointer element => renderWithin options below depth element ++ [punctuation "*"]
  | depth + 1, .byRef element => renderWithin options below depth element ++ [punctuation "&"]
  | depth + 1, .nullable element => renderWithin options below depth element ++ [punctuation "?"]
  | depth + 1, .tuple elements =>
    punctuation "(" :: separated ", " (elements.map (renderWithin options below depth)) ++
      [punctuation ")"]
  | _ + 1, .primitive keyword fullName => (SourceType.primitive keyword fullName).render options
  | _ + 1, .genericParam name => (SourceType.genericParam name).render options
  | _ + 1, .dynamic => SourceType.dynamic.render options
  | _ + 1, .foreignUnit => SourceType.foreignUnit.render options
  | _ + 1, .unresolved => SourceType.unresolved.render options
  | _ + 1, .truncated => SourceType.truncated.render options

theorem SourceType.one_le_height (type : SourceType) : 1 ≤ type.height := by
  cases type <;> simp [SourceType.height]

theorem TypeSegment.render_eq (options : FormatOptions) (segment : TypeSegment) :
    segment.render options = .styled segment.name .typeName ::
      joinArguments options segment.args (segment.args.map (·.render options)) := by
  obtain ⟨name, args⟩ := segment
  rw [TypeSegment.render, renderTypes_eq_map]
  rfl

/-- As many calls below each other as the type is high show all of it. -/
theorem renderWithin_eq_render (options : FormatOptions) (below : SourceType → Rendering)
    {depth : Nat} {type : SourceType} (h : type.height ≤ depth) :
    type.renderWithin options below depth = type.render options := by
  induction depth generalizing type with
  | zero => exact absurd (Nat.le_trans type.one_le_height h) (by decide)
  | succ depth ih =>
      have hall : ∀ {types : List SourceType}, typesHeight types ≤ depth →
          types.map (SourceType.renderWithin options below depth) =
            types.map (·.render options) :=
        fun hheight => List.map_congr_left fun type htype =>
          ih (typesHeight_le_iff.1 hheight type htype)
      cases type with
      | named space segments =>
          have hsegments : segmentsHeight segments ≤ depth := Nat.le_of_succ_le_succ h
          rw [SourceType.renderWithin, SourceType.render, renderSegments_eq_map]
          congr 2
          refine List.map_congr_left fun segment hsegment => ?_
          rw [TypeSegment.render_eq, hall (typesHeight_le_iff.2 fun arg harg =>
            segmentsHeight_le_iff.1 hsegments arg
              (List.mem_flatMap.2 ⟨segment, hsegment, harg⟩))]
      | tuple elements =>
          rw [SourceType.renderWithin, SourceType.render, renderTypes_eq_map,
            hall (Nat.le_of_succ_le_succ h)]
      | array | pointer | byRef | nullable =>
          rw [SourceType.renderWithin, SourceType.render, ih (Nat.le_of_succ_le_succ h)]
      | primitive | genericParam | dynamic | foreignUnit | unresolved | truncated => rfl

namespace Metadata

variable {md : Metadata}

theorem height_spellNested_le {type : NamedType} {args : List SourceType} {bound : Nat}
    (hbound : 1 ≤ bound) (hargs : ∀ arg ∈ args, arg.height ≤ bound) :
    (md.spellNested type args).height ≤ bound + 1 := by
  have hchain : (md.declaringChain (maxTypeDepth - 1) type).reverse ≠ [] :=
    mt List.reverse_eq_nil_iff.1 (declaringChain_ne_nil _)
  simp only [spellNested, SourceType.height]
  refine Nat.succ_le_succ (segmentsHeight_le_iff.2 ?_)
  rw [args_dealArguments hchain]
  intro arg harg
  split at harg
  · obtain ⟨name, -, rfl⟩ := List.mem_map.1 harg
    exact hbound
  · exact hargs arg harg

theorem height_resolveNamed_le {type : NamedType} {args : List SourceType} {bound : Nat}
    (hbound : 1 ≤ bound) (hargs : ∀ arg ∈ args, arg.height ≤ bound) :
    (md.resolveNamed type args).height ≤ bound + 1 := by
  have hspelling := spelling_resolveNamed md type args
  generalize md.resolveNamed type args = result at hspelling ⊢
  cases hspelling with
  | foreignUnit | primitive =>
      rw [SourceType.height]
      exact Nat.le_add_left 1 bound
  | @nullable element heq =>
      rw [SourceType.height]
      refine Nat.succ_le_succ (hargs element ?_)
      rw [heq]
      exact List.mem_singleton_self element
  | tuple =>
      rw [SourceType.height]
      exact Nat.succ_le_succ (typesHeight_le_iff.2 hargs)
  | nested hnested =>
      rw [← hnested]
      exact height_spellNested_le hbound hargs

/-- What is made of parts is one level higher, at most. Where there are no parts it may have two
levels, since a definition shows its open parameters. -/
theorem height_assemble_le (token : TypeToken) {parts : List SourceType} {bound : Nat}
    (hbound : 1 ≤ bound) (hparts : ∀ part ∈ parts, part.height ≤ bound) :
    (md.assemble token parts).height ≤ bound + 1 := by
  have hleaf : 1 ≤ bound + 1 := Nat.le_add_left 1 bound
  have hhead : ∀ type : SourceType, type.height ≤ bound → (parts.headD type).height ≤ bound :=
    fun _ htype => headD_of_forall (P := fun type => type.height ≤ bound) htype hparts
  rw [assemble]
  split
  · exact hleaf
  · exact height_resolveNamed_le hbound (List.forall_mem_nil _)
  · split
    · exact height_resolveNamed_le hbound hparts
    · exact hleaf
  · exact Nat.le_succ_of_le (hhead _ hbound)
  · cases parts with
    | nil => exact hleaf
    | cons element rest => exact Nat.succ_le_succ (hparts element List.mem_cons_self)
  · exact Nat.succ_le_succ (hhead .unresolved hbound)
  · exact Nat.succ_le_succ (hhead .unresolved hbound)

/-! ## The resolution by its calls -/

/-- A guard stops a call: the path is full, all tokens that may be expanded have been, or the token
is on the path already. -/
def IsGuarded (path : List TypeToken) (token : TypeToken) (count : Nat) : Prop :=
  maxTypeDepth ≤ path.length ∨ maxTypeNodes ≤ count ∨ token ∈ path

theorem not_isGuarded {path : List TypeToken} {token : TypeToken} {count : Nat}
    (hdepth : path.length < maxTypeDepth) (hcount : count < maxTypeNodes) (hpath : token ∉ path) :
    ¬ IsGuarded path token count := by
  rintro (hfull | hmany | hmet)
  · exact absurd hfull (Nat.not_le.2 hdepth)
  · exact absurd hmany (Nat.not_le.2 hcount)
  · exact hpath hmet

mutual

/-- A call for a token, below the tokens of `path` and after `count` tokens have been expanded, ends
with a type and a new count. -/
inductive Resolves (md : Metadata) :
    List TypeToken → Bindings → TypeToken → Nat → SourceType → Nat → Prop
  | guarded {path : List TypeToken} {bindings : Bindings} {token : TypeToken} {count : Nat}
      (hguard : IsGuarded path token count) :
      Resolves md path bindings token count .truncated count
  | missing {path : List TypeToken} {bindings : Bindings} {token : TypeToken} {count : Nat}
      (hguard : ¬ IsGuarded path token count) (hmissing : md.typeDef? token = none) :
      Resolves md path bindings token count .unresolved count
  | expanded {path : List TypeToken} {bindings : Bindings} {token : TypeToken} {count after : Nat}
      {definition : TypeDef} {parts : List SourceType}
      (hguard : ¬ IsGuarded path token count) (hdefinition : md.typeDef? token = some definition)
      (hparts : ResolvesAll md (token :: path) (md.next bindings token) (count + 1) parts after) :
      Resolves md path bindings token count (md.assemble token parts) after

/-- The calls for several tokens, one after the other. -/
inductive ResolvesAll (md : Metadata) :
    List TypeToken → List (Bindings × TypeToken) → Nat → List SourceType → Nat → Prop
  | nil {path : List TypeToken} {count : Nat} : ResolvesAll md path [] count [] count
  | cons {path : List TypeToken} {next : Bindings × TypeToken}
      {rest : List (Bindings × TypeToken)} {count middle after : Nat} {part : SourceType}
      {parts : List SourceType} (hpart : Resolves md path next.1 next.2 count part middle)
      (hparts : ResolvesAll md path rest middle parts after) :
      ResolvesAll md path (next :: rest) count (part :: parts) after

end

theorem resolves_of_guard {path : List TypeToken} {bindings : Bindings} {token : TypeToken}
    {count after : Nat} {type : SourceType} (hguard : IsGuarded path token count) :
    md.Resolves path bindings token count type after ↔ type = .truncated ∧ after = count := by
  constructor
  · intro h
    cases h with
    | guarded => exact ⟨rfl, rfl⟩
    | missing hclear => exact absurd hguard hclear
    | expanded hclear => exact absurd hguard hclear
  · rintro ⟨rfl, rfl⟩
    exact .guarded hguard

theorem resolves_of_missing {path : List TypeToken} {bindings : Bindings} {token : TypeToken}
    {count after : Nat} {type : SourceType} (hclear : ¬ IsGuarded path token count)
    (hmissing : md.typeDef? token = none) :
    md.Resolves path bindings token count type after ↔ type = .unresolved ∧ after = count := by
  constructor
  · intro h
    cases h with
    | guarded hguard => exact absurd hguard hclear
    | missing => exact ⟨rfl, rfl⟩
    | expanded _ hdefinition => cases hmissing.symm.trans hdefinition
  · rintro ⟨rfl, rfl⟩
    exact .missing hclear hmissing

theorem resolves_of_typeDef? {path : List TypeToken} {bindings : Bindings} {token : TypeToken}
    {count after : Nat} {type : SourceType} {definition : TypeDef}
    (hclear : ¬ IsGuarded path token count) (hdefinition : md.typeDef? token = some definition) :
    md.Resolves path bindings token count type after ↔
      ∃ parts, md.ResolvesAll (token :: path) (md.next bindings token) (count + 1) parts after ∧
        type = md.assemble token parts := by
  constructor
  · intro h
    cases h with
    | guarded hguard => exact absurd hguard hclear
    | missing _ hmissing => cases hmissing.symm.trans hdefinition
    | expanded _ _ hparts => exact ⟨_, hparts, rfl⟩
  · rintro ⟨parts, hparts, rfl⟩
    exact .expanded hclear hdefinition hparts

/-- Several calls have the results that each of them has after the ones before it. -/
theorem resolvesAll_iff {path : List TypeToken}
    {f : Bindings × TypeToken → Array TypeToken → SourceType × Array TypeToken}
    (hf : ∀ next state type after, md.Resolves path next.1 next.2 state.size type after ↔
      type = (f next state).1 ∧ after = (f next state).2.size)
    {nexts : List (Bindings × TypeToken)} {state : Array TypeToken} {parts : List SourceType}
    {after : Nat} :
    md.ResolvesAll path nexts state.size parts after ↔
      parts = (mapThreading f nexts state).1 ∧ after = (mapThreading f nexts state).2.size := by
  induction nexts generalizing state parts with
  | nil =>
      constructor
      · rintro ⟨⟩
        exact ⟨rfl, rfl⟩
      · rintro ⟨rfl, rfl⟩
        exact .nil
  | cons next rest ih =>
      rw [mapThreading_cons]
      constructor
      · intro h
        cases h with
        | cons hpart hparts =>
            obtain ⟨rfl, rfl⟩ := (hf next state _ _).1 hpart
            obtain ⟨rfl, rfl⟩ := ih.1 hparts
            exact ⟨rfl, rfl⟩
      · rintro ⟨rfl, rfl⟩
        exact .cons ((hf next state _ _).2 ⟨rfl, rfl⟩) (ih.2 ⟨rfl, rfl⟩)

/-- Every call ends, with what the resolution gives and with nothing else. The room is what is left
of the path, and it runs out where the path is full. -/
theorem resolves_iff_resolveAt (room : Nat) (path : List TypeToken) (bindings : Bindings)
    (token : TypeToken) (expanded : Array TypeToken) (hroom : room + path.length = maxTypeDepth)
    (type : SourceType) (after : Nat) :
    md.Resolves path bindings token expanded.size type after ↔
      type = (md.resolveAt room path bindings token expanded).1 ∧
        after = (md.resolveAt room path bindings token expanded).2.size := by
  revert hroom type after
  refine resolveAt_room_induction
    (motive := fun room path bindings token expanded result =>
      room + path.length = maxTypeDepth → ∀ type after,
        (md.Resolves path bindings token expanded.size type after ↔
          type = result.1 ∧ after = result.2.size))
    ?full ?guard ?missing ?expand room path bindings token expanded
  case full =>
    intro path bindings token expanded hroom type after
    exact resolves_of_guard (.inl (by omega))
  case guard =>
    intro room path bindings token expanded hguard hroom type after
    exact resolves_of_guard (.inr hguard)
  case missing =>
    intro room path bindings token expanded hsize hpath hmissing hroom type after
    exact resolves_of_missing (not_isGuarded (by omega) hsize hpath) hmissing
  case expand =>
    intro room path bindings token expanded definition hsize hpath hdefinition ih parts hroom type
      after
    have hnext : room + (token :: path).length = maxTypeDepth := by
      rw [List.length_cons]
      omega
    rw [resolves_of_typeDef? (not_isGuarded (by omega) hsize hpath) hdefinition,
      ← Array.size_push token, exists_congr fun _ =>
        and_congr_left' (resolvesAll_iff fun next state => ih next state hnext)]
    constructor
    · rintro ⟨_, ⟨rfl, hafter⟩, htype⟩
      exact ⟨htype, hafter⟩
    · rintro ⟨htype, hafter⟩
      exact ⟨_, ⟨rfl, hafter⟩, htype⟩

/-! ## The bound for the height -/

theorem height_resolveAt_le (room : Nat) (path : List TypeToken) (bindings : Bindings)
    (token : TypeToken) (expanded : Array TypeToken) :
    (md.resolveAt room path bindings token expanded).1.height ≤ room + 1 := by
  refine resolveAt_room_induction
    (motive := fun room _ _ _ _ result => result.1.height ≤ room + 1)
    ?full ?guard ?missing ?expand room path bindings token expanded
  case full =>
    intro path bindings token expanded
    exact Nat.le_refl 1
  case guard =>
    intro room path bindings token expanded _
    exact Nat.le_add_left 1 (room + 1)
  case missing =>
    intro room path bindings token expanded _ _ _
    exact Nat.le_add_left 1 (room + 1)
  case expand =>
    intro room path bindings token expanded definition _ _ _ ih
    exact height_assemble_le token (Nat.le_add_left 1 room) (forall_mem_mapThreading ih _ _)

/-- Whatever the metadata are, a resolution ends with one result. The type is not more than one
level higher than the longest path, so that showing it takes no more calls below each other, and not
more tokens have been expanded than the cap. -/
theorem resolveType_ends (md : Metadata) (bindings : Bindings) (token : TypeToken) :
    (∀ type count, md.Resolves [] bindings token 0 type count ↔
      type = md.resolveType bindings token ∧
        count = (md.resolveLogged bindings token).2.size) ∧
    (md.resolveType bindings token).height ≤ maxTypeDepth + 1 ∧
    (md.resolveLogged bindings token).2.size ≤ maxTypeNodes ∧
    ∀ options below, (md.resolveType bindings token).renderWithin options below (maxTypeDepth + 1) =
      (md.resolveType bindings token).render options := by
  have hheight : (md.resolveType bindings token).height ≤ maxTypeDepth + 1 :=
    height_resolveAt_le maxTypeDepth [] bindings token #[]
  refine ⟨?resolves, hheight, ?count, ?shows⟩
  case resolves => exact resolves_iff_resolveAt maxTypeDepth [] bindings token #[] rfl
  case count => exact size_resolveAt_le maxTypeDepth [] bindings token #[] (Nat.zero_le _)
  case shows => exact fun options below => renderWithin_eq_render options below hheight

/-- Arrays around each other, as many as fit on a path above a definition with an open
parameter. -/
def nestedArrays : Metadata :=
  { types := .ofList ((List.range 31).map (fun level =>
        (.ofNat level, TypeDef.array ⟨.ofNat (level + 1)⟩ 1)) ++
      [(31, .named { name := "List`1", genericParams := ["T"] })]) }

/-- The bound for the height is met. -/
example : (nestedArrays.resolveType {} ⟨0⟩).height = maxTypeDepth + 1 := by decide +kernel

end Metadata

end Unmangle
