import Unmangle.Proofs.NameSuffixes
import Unmangle.Proofs.Resolution
import Unmangle.Proofs.SegmentArguments
import Unmangle.Renderer
import Mathlib.Data.List.TakeDrop

/-!
# Names without line breaks

The lines of a trace are told apart by line breaks alone, so a line break in a name would tear the
line of a frame in two. Names come from the metadata and from nowhere else: what shows is a name of
the table, a part of one that a generated name is taken apart into, two of them joined by a dot, or
a word of the renderer. So if no name of the table breaks a line, no frame does.

Here the names are followed from the table to resolved types, where `assemble` is the only place
that makes a type. `CallNames.lean` follows them through the search for the origin of a frame, and
`FrameLine.lean` to the line on which the frame shows.
-/

namespace Unmangle

/-- A text without line breaks. -/
def IsLine (text : String) : Prop := '\n' ∉ text.toList

instance {text : String} : Decidable (IsLine text) := inferInstanceAs (Decidable (_ ∉ _))

theorem isLine_ofList {text : List Char} : IsLine (.ofList text) ↔ '\n' ∉ text := by
  rw [IsLine, String.toList_ofList]

theorem isLine_append {first second : String} :
    IsLine (first ++ second) ↔ IsLine first ∧ IsLine second := by
  simp [IsLine, String.toList_append]

/-- A part of a line is a line. -/
theorem IsLine.of_subset {text : String} (h : IsLine text) {part : List Char}
    (hpart : part ⊆ text.toList) : IsLine (.ofList part) :=
  isLine_ofList.2 fun hmem => h (hpart hmem)

theorem isLine_toString (n : Nat) : IsLine (toString n) := by
  intro hmem
  exact absurd (Text.isDigit_of_mem_toString hmem) (by decide)

/-- Names without line breaks. -/
def AreLines (names : List String) : Prop := ∀ name ∈ names, IsLine name

instance {names : List String} : Decidable (AreLines names) :=
  inferInstanceAs (Decidable (∀ name ∈ names, IsLine name))

@[simp]
theorem areLines_nil : AreLines [] := fun _ h => nomatch h

@[simp]
theorem areLines_cons {name : String} {names : List String} :
    AreLines (name :: names) ↔ IsLine name ∧ AreLines names := List.forall_mem_cons

@[simp]
theorem areLines_append {first second : List String} :
    AreLines (first ++ second) ↔ AreLines first ∧ AreLines second := List.forall_mem_append

@[simp]
theorem areLines_flatMap {α : Type} {l : List α} {names : α → List String} :
    AreLines (l.flatMap names) ↔ ∀ a ∈ l, AreLines (names a) := List.forall_mem_flatMap

theorem AreLines.of_subset {names part : List String} (h : AreLines names) (hpart : part ⊆ names) :
    AreLines part := fun name hname => h name (hpart hname)

/-! ## The names of a table -/

def NamedType.names (type : NamedType) : List String :=
  type.name :: type.space.toList ++ type.genericParams

def TypeDef.names : TypeDef → List String
  | .named type => type.names
  | .genericParam name _ _ => [name]
  | .genericInstance _ _ | .array _ _ | .pointer _ | .byRef _ => []

def MethodDef.names (method : MethodDef) : List String :=
  method.name :: method.genericParams ++ method.parameters.flatMap (·.name.toList)

/-- All names in a table: of types, methods, parameters and generic parameters, and namespaces. -/
def Metadata.names (md : Metadata) : List String :=
  md.types.entries.flatMap (·.2.names) ++ md.methods.entries.flatMap (·.2.names)

namespace Metadata

variable {md : Metadata} {type : NamedType} {token : TypeToken}

theorem names_of_typeDef? {definition : TypeDef} (h : md.typeDef? token = some definition) :
    definition.names ⊆ md.names := by
  intro name hname
  refine List.mem_append_left _ (List.mem_flatMap.2 ⟨_, TokenMap.mem_of_get? h, hname⟩)

theorem names_of_mem_methods {entry : UInt32 × MethodDef} (h : entry ∈ md.methods.entries) :
    entry.2.names ⊆ md.names := by
  intro name hname
  exact List.mem_append_right _ (List.mem_flatMap.2 ⟨_, h, hname⟩)

theorem names_of_named? (h : md.named? token = some type) : type.names ⊆ md.names := by
  obtain ⟨found, hfound, rfl⟩ := named?_eq_some_iff.1 h
  exact names_of_typeDef? hfound.typeDef?_definition

theorem names_of_mem_methodsOf {entry : MethodToken × MethodDef} (h : entry ∈ md.methodsOf token) :
    entry.2.names ⊆ md.names :=
  names_of_mem_methods (mem_methodsOf_iff.1 h).1

/-- A method that a search finds by name is one of the table. -/
theorem names_of_findByName {name : String} {hint : Option UInt32}
    {found : MethodToken × MethodDef} (h : md.findByName token name hint = some found) :
    found.2.names ⊆ md.names := by
  obtain ⟨type, -, hpick⟩ := List.exists_of_findSome?_eq_some h
  exact names_of_mem_methodsOf (List.mem_filter.1 (mem_of_pickByOrdinal hpick)).1

theorem names_of_findStateMachineOwner {machine : TypeToken} {found : MethodToken × MethodDef}
    (h : md.findStateMachineOwner token machine = some found) : found.2.names ⊆ md.names := by
  obtain ⟨type, -, hfind⟩ := List.exists_of_findSome?_eq_some h
  exact names_of_mem_methodsOf (List.mem_of_find?_eq_some hfind)

theorem names_of_machineOwner? {site : Site} {method : MethodDef}
    (h : site.machineOwner? md type = some method) : method.names ⊆ md.names := by
  obtain ⟨outer, -, h⟩ := Option.bind_eq_some_iff.1 h
  obtain ⟨found, hfound, rfl⟩ := Option.map_eq_some_iff.1 h
  rcases Option.or_eq_some_iff.1 hfound with hsaid | ⟨-, htold⟩
  · exact names_of_findStateMachineOwner hsaid
  · obtain ⟨name, -, hfind⟩ := Option.bind_eq_some_iff.1 htold
    exact names_of_findByName hfind

end Metadata

theorem NamedType.areLines_names {type : NamedType} : AreLines type.names ↔
    IsLine type.name ∧ AreLines type.space.toList ∧ AreLines type.genericParams := by
  simp [names]

theorem isLine_keyword {type : NamedType} {keyword : String} (h : keyword ∈ type.keyword?) :
    IsLine keyword := by
  have hall : ∀ entry ∈ NamedType.keywords, IsLine entry.2 := by decide
  exact hall _ (NamedType.of_mem_keyword? h).2

theorem isLine_qualifiedName {type : NamedType} (h : AreLines type.names) :
    IsLine type.qualifiedName := by
  obtain ⟨hname, hspace, -⟩ := NamedType.areLines_names.1 h
  rw [NamedType.qualifiedName]
  split
  · next space heq =>
      rw [heq] at hspace
      split
      · exact hname
      · exact isLine_append.2 ⟨isLine_append.2 ⟨hspace space List.mem_cons_self, by decide⟩, hname⟩
  · exact hname

/-! ## Names taken apart -/

namespace GeneratedName

theorem afterOpening?_subset {text inside : List Char} (h : afterOpening? text = some inside) :
    inside ⊆ text := by
  obtain ⟨isOld, rfl⟩ := afterOpening?_eq_some_iff.1 h
  exact fun c hc => List.mem_append_right _ (List.mem_cons_of_mem _ hc)

theorem dropUnderscores_subset (text : List Char) : dropUnderscores text ⊆ text := by
  intro c hc
  unfold dropUnderscores at hc
  split at hc
  · simp [hc]
  · exact hc

/-- The parts of a generated name are parts of the name. -/
theorem isLine_of_parse? {text : String} {name : GeneratedName} (h : parse? text = some name)
    (htext : IsLine text) : IsLine name.enclosing ∧ IsLine name.suffix := by
  obtain ⟨inside, enclosing, kind, rest, hinside, hsplit, -, rfl⟩ := parse?_eq_some_iff.1 h
  obtain ⟨rfl, -⟩ := splitAtClosing?_eq_some_iff.1 hsplit
  have hparts : enclosing ++ '>' :: kind :: rest ⊆ text.toList := afterOpening?_subset hinside
  constructor
  · exact htext.of_subset fun c hc => hparts (List.mem_append_left _ hc)
  · exact htext.of_subset fun c hc =>
      hparts (List.mem_append_right _ (by simp [dropUnderscores_subset rest hc]))

theorem isLine_of_localName? {name : GeneratedName} {own : String} (h : name.localName? = some own)
    (hsuffix : IsLine name.suffix) : IsLine own := by
  rw [localName?] at h
  split at h
  · obtain ⟨⟨before, after⟩, hsplit, rfl⟩ := Option.map_eq_some_iff.1 h
    obtain ⟨hparts, -⟩ := splitAtBar?_eq_some_iff.1 hsplit
    exact hsuffix.of_subset (hparts ▸ List.subset_append_left _ _)
  · cases h

end GeneratedName

theorem isLine_splitArity {name : String} (h : IsLine name) : IsLine (splitArity name).1 := by
  rw [splitArity]
  split
  · exact h
  · next base count hsplit =>
      split
      · refine h.of_subset fun c hc => ?_
        rw [(splitAtLastTick?_eq_some_iff.1 hsplit).1]
        exact List.mem_append_left _ hc
      · exact h

/-! ## The names in a type -/

namespace SourceType

/-- The names at the top of a type. -/
def ownNames : SourceType → List String
  | .named space segments => space.toList ++ segments.map (·.name)
  | .primitive keyword fullName => [keyword, fullName]
  | .genericParam name => [name]
  | _ => []

/-- All names in a type. -/
def names (type : SourceType) : List String := type.nodes.flatMap (·.ownNames)

theorem names_named (space : Option String) (segments : List TypeSegment) :
    (named space segments).names =
      space.toList ++ segments.map (·.name) ++ (segments.flatMap (·.args)).flatMap (·.names) := by
  rw [names, nodes, List.flatMap_cons, segmentNodes_eq_flatMap, List.flatMap_assoc]
  rfl

theorem names_tuple (elements : List SourceType) :
    (tuple elements).names = elements.flatMap (·.names) := by
  rw [names, nodes, List.flatMap_cons, typeNodes_eq_flatMap, List.flatMap_assoc]
  rfl

@[simp]
theorem names_array (element : SourceType) (rank : Nat) :
    (array element rank).names = element.names := rfl

@[simp]
theorem names_pointer (element : SourceType) : (pointer element).names = element.names := rfl

@[simp]
theorem names_byRef (element : SourceType) : (byRef element).names = element.names := rfl

@[simp]
theorem names_nullable (element : SourceType) : (nullable element).names = element.names := rfl

@[simp]
theorem names_genericParam (name : String) : (genericParam name).names = [name] := rfl

@[simp]
theorem names_primitive (keyword fullName : String) :
    (primitive keyword fullName).names = [keyword, fullName] := rfl

@[simp]
theorem names_dynamic : dynamic.names = [] := rfl

end SourceType

namespace Metadata

variable {md : Metadata} (hmd : AreLines md.names)
include hmd

theorem areLines_declaringChain {type : NamedType} (htype : AreLines type.names) (room : Nat) :
    ∀ outer ∈ md.declaringChain room type, AreLines outer.names := by
  induction room generalizing type with
  | zero => simpa [declaringChain] using htype
  | succ room ih =>
      rw [declaringChain]
      refine List.forall_mem_cons.2 ⟨htype, ?_⟩
      split
      · next outer houter =>
          obtain ⟨token, -, hdef⟩ := Option.bind_eq_some_iff.1 houter
          exact ih (hmd.of_subset (names_of_typeDef? hdef))
      · intro outer houter
        cases houter

theorem areLines_spellNested {type : NamedType} (htype : AreLines type.names)
    {args : List SourceType} (hargs : ∀ arg ∈ args, AreLines arg.names) :
    AreLines (md.spellNested type args).names := by
  have hne : (md.declaringChain (maxTypeDepth - 1) type).reverse ≠ [] :=
    mt List.reverse_eq_nil_iff.1 (declaringChain_ne_nil _)
  have hchain : ∀ outer ∈ (md.declaringChain (maxTypeDepth - 1) type).reverse,
      AreLines outer.names := fun outer houter =>
    areLines_declaringChain hmd htype _ outer (List.mem_reverse.1 houter)
  rw [spellNested, SourceType.names_named, args_dealArguments hne, name_dealArguments]
  simp only [areLines_append, areLines_flatMap]
  refine ⟨⟨?ofSpace, ?ofSegments⟩, ?ofArgs⟩
  case ofSpace =>
    cases hhead : (md.declaringChain (maxTypeDepth - 1) type).reverse.head? with
    | none => exact areLines_nil
    | some outer => exact (NamedType.areLines_names.1 (hchain outer (List.mem_of_head? hhead))).2.1
  case ofSegments =>
    intro name hname
    obtain ⟨outer, houter, rfl⟩ := List.mem_map.1 hname
    exact isLine_splitArity (NamedType.areLines_names.1 (hchain outer houter)).1
  case ofArgs =>
    split
    · intro arg harg name hname
      obtain ⟨param, hparam, rfl⟩ := List.mem_map.1 harg
      cases List.mem_singleton.1 hname
      exact (NamedType.areLines_names.1 htype).2.2 name hparam
    · exact hargs

/-- A definition and its arguments are spelled by names of the table and of the arguments. -/
theorem areLines_resolveNamed {type : NamedType} (htype : AreLines type.names)
    {args : List SourceType} (hargs : ∀ arg ∈ args, AreLines arg.names) :
    AreLines (md.resolveNamed type args).names := by
  have hspelling := spelling_resolveNamed md type args
  generalize md.resolveNamed type args = result at hspelling ⊢
  cases hspelling with
  | foreignUnit => exact areLines_nil
  | primitive heq hkeyword =>
      intro name hname
      rcases List.mem_cons.1 hname with rfl | hname
      · exact isLine_keyword hkeyword
      · exact List.mem_singleton.1 hname ▸ isLine_qualifiedName htype
  | @nullable element heq =>
      rw [SourceType.names_nullable]
      refine hargs element ?_
      rw [heq]
      exact List.mem_singleton_self element
  | tuple =>
      rw [SourceType.names_tuple, areLines_flatMap]
      exact hargs
  | nested hnested =>
      rw [← hnested]
      exact areLines_spellNested hmd htype hargs

theorem areLines_assemble (token : TypeToken) {parts : List SourceType}
    (hparts : ∀ part ∈ parts, AreLines part.names) : AreLines (md.assemble token parts).names := by
  have hhead : ∀ type : SourceType, AreLines type.names → AreLines (parts.headD type).names :=
    fun _ htype => headD_of_forall (P := fun type => AreLines type.names) htype hparts
  rw [assemble]
  split
  · exact areLines_nil
  · next type hdef =>
      exact areLines_resolveNamed hmd (hmd.of_subset (names_of_typeDef? hdef))
        (List.forall_mem_nil _)
  · split
    · next type hdef =>
        exact areLines_resolveNamed hmd (hmd.of_subset (names_of_typeDef? hdef)) hparts
    · exact areLines_nil
  · next name owner position hdef => exact hhead _ (hmd.of_subset (names_of_typeDef? hdef))
  · cases parts with
    | nil => exact areLines_nil
    | cons element parts => exact hparts element List.mem_cons_self
  · exact hhead .unresolved areLines_nil
  · exact hhead .unresolved areLines_nil

theorem areLines_resolveAt (room : Nat) (path : List TypeToken) (bindings : Bindings)
    (token : TypeToken) (expanded : Array TypeToken) :
    AreLines (md.resolveAt room path bindings token expanded).1.names := by
  refine resolveAt_induction (motive := fun _ _ result => AreLines result.1.names)
    ?guard ?missing ?expand room path bindings token expanded
  case guard => exact fun _ _ => areLines_nil
  case missing => exact fun _ _ _ => areLines_nil
  case expand =>
    intro room path bindings token expanded definition _ _ ih
    exact areLines_assemble hmd token (forall_mem_mapThreading ih _ _)

theorem areLines_resolveType (bindings : Bindings) (token : TypeToken) :
    AreLines (md.resolveType bindings token).names :=
  areLines_resolveAt hmd _ _ _ _ _

end Metadata

end Unmangle
