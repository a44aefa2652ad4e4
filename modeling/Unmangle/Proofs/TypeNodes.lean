import Unmangle.Source.Resolve

/-!
# The types within a type

A resolved type is a tree, and what is said about it "at every level" is said about the list of its
nodes. The spelling of a named definition is where a node could get lost: it deals the arguments
out to the segments of a nested name, or wraps them as a nullable type or a tuple, or forgets them
in front of the type of no value. Apart from the last, every argument it is given is somewhere in
the result, with all its nodes (`mem_nodes_resolveNamed`).
-/

namespace Unmangle

mutual

/-- A type and all types in it, the type itself first. -/
def SourceType.nodes : SourceType → List SourceType
  | .named space segments => .named space segments :: segmentNodes segments
  | .array element rank => .array element rank :: element.nodes
  | .pointer element => .pointer element :: element.nodes
  | .byRef element => .byRef element :: element.nodes
  | .nullable element => .nullable element :: element.nodes
  | .tuple elements => .tuple elements :: typeNodes elements
  | .primitive keyword fullName => [.primitive keyword fullName]
  | .genericParam name => [.genericParam name]
  | .dynamic => [.dynamic]
  | .foreignUnit => [.foreignUnit]
  | .unresolved => [.unresolved]
  | .truncated => [.truncated]

def typeNodes : List SourceType → List SourceType
  | [] => []
  | type :: rest => type.nodes ++ typeNodes rest

def TypeSegment.nodes : TypeSegment → List SourceType
  | .mk _ args => typeNodes args

def segmentNodes : List TypeSegment → List SourceType
  | [] => []
  | segment :: rest => segment.nodes ++ segmentNodes rest

end

theorem SourceType.mem_nodes_self (type : SourceType) : type ∈ type.nodes := by
  cases type <;> simp [nodes]

theorem typeNodes_eq_flatMap (types : List SourceType) :
    typeNodes types = types.flatMap (·.nodes) := by
  induction types with
  | nil => rw [typeNodes, List.flatMap_nil]
  | cons type rest ih => rw [typeNodes, ih, List.flatMap_cons]

theorem segmentNodes_eq_flatMap (segments : List TypeSegment) :
    segmentNodes segments = (segments.flatMap (·.args)).flatMap (·.nodes) := by
  induction segments with
  | nil => rw [segmentNodes, List.flatMap_nil, List.flatMap_nil]
  | cons segment rest ih =>
      obtain ⟨name, args⟩ := segment
      rw [segmentNodes, ih, List.flatMap_cons, List.flatMap_append, TypeSegment.nodes,
        typeNodes_eq_flatMap, TypeSegment.args]

/-- No argument is lost or doubled in a nested name. -/
theorem args_dealArguments {chain : List NamedType} (h : chain ≠ []) :
    ∀ args, (Metadata.dealArguments chain args).flatMap (·.args) = args := by
  induction chain with
  | nil => exact absurd rfl h
  | cons type inner ih =>
      intro args
      cases inner with
      | nil => simp [Metadata.dealArguments, TypeSegment.args]
      | cons next inner =>
          rw [Metadata.dealArguments, List.flatMap_cons, ih (List.cons_ne_nil next inner),
            TypeSegment.args, List.take_append_drop]
          exact List.cons_ne_nil next inner

theorem name_dealArguments (chain : List NamedType) (args : List SourceType) :
    (Metadata.dealArguments chain args).map (·.name) =
      chain.map fun type => (splitArity type.name).1 := by
  fun_induction Metadata.dealArguments chain args with
  | case1 => rfl
  | case2 => rfl
  | case3 args type inner hinner base arity hsplit own ih =>
      rw [List.map_cons, ih, List.map_cons, hsplit]
      rfl

theorem length_dealArguments (chain : List NamedType) (args : List SourceType) :
    (Metadata.dealArguments chain args).length = chain.length := by
  have h := congrArg List.length (name_dealArguments chain args)
  rwa [List.length_map, List.length_map] at h

theorem NamedType.of_mem_keyword? {type : NamedType} {keyword : String}
    (h : keyword ∈ type.keyword?) :
    type.space = some "System" ∧ (type.name, keyword) ∈ keywords := by
  rw [keyword?] at h
  split at h
  · next hspace => exact ⟨beq_iff_eq.1 hspace, mem_of_lookup_eq_some h⟩
  · cases h

namespace Metadata

variable {md : Metadata} {type : NamedType} {node : SourceType}

theorem declaringChain_ne_nil (room : Nat) : md.declaringChain room type ≠ [] := by
  cases room <;> exact List.cons_ne_nil _ _

theorem nodes_spellNested (args : List SourceType) :
    (md.spellNested type args).nodes = md.spellNested type args ::
      (if args.isEmpty then type.genericParams.map .genericParam else args).flatMap (·.nodes) := by
  have hchain : (md.declaringChain (maxTypeDepth - 1) type).reverse ≠ [] :=
    mt List.reverse_eq_nil_iff.1 (declaringChain_ne_nil _)
  simp only [spellNested, SourceType.nodes, segmentNodes_eq_flatMap, args_dealArguments hchain]

theorem resolveNamed_foreignUnit (h : type.isForeignUnit = true) (args : List SourceType) :
    md.resolveNamed type args = .foreignUnit := if_pos h

/-- The ways in which a definition is spelled with its arguments. -/
inductive Spelling (md : Metadata) (type : NamedType) (args : List SourceType) : SourceType → Prop
  | foreignUnit (hunit : type.isForeignUnit = true) : Spelling md type args .foreignUnit
  | primitive {keyword : String} (hargs : args = []) (hkeyword : keyword ∈ type.keyword?) :
      Spelling md type args (.primitive keyword type.qualifiedName)
  | nullable {element : SourceType} (hargs : args = [element]) :
      Spelling md type args (.nullable element)
  | tuple (hargs : args ≠ []) : Spelling md type args (.tuple args)
  | nested {space : Option String} {segments : List TypeSegment}
      (hnested : md.spellNested type args = .named space segments) :
      Spelling md type args (.named space segments)

theorem spelling_resolveNamed (md : Metadata) (type : NamedType) (args : List SourceType) :
    Spelling md type args (md.resolveNamed type args) := by
  unfold resolveNamed
  split
  · next hunit => exact .foreignUnit hunit
  · match args with
    | [] =>
        cases hkeyword : type.keyword? with
        | some keyword => exact .primitive rfl hkeyword
        | none => exact .nested rfl
    | [element] =>
        dsimp only
        split
        · exact .nullable rfl
        · split
          · exact .tuple (List.cons_ne_nil _ _)
          · exact .nested rfl
    | first :: second :: rest =>
        dsimp only
        split
        · exact .tuple (List.cons_ne_nil _ _)
        · exact .nested rfl

/-- A node of a spelling is the whole, an open parameter of the definition, or in an argument. -/
theorem of_mem_nodes_resolveNamed {args : List SourceType}
    (h : node ∈ (md.resolveNamed type args).nodes) :
    node = md.resolveNamed type args ∨ (∃ name, node = .genericParam name) ∨
      ∃ arg ∈ args, node ∈ arg.nodes := by
  have hspelling := spelling_resolveNamed md type args
  generalize md.resolveNamed type args = result at h hspelling ⊢
  cases hspelling with
  | foreignUnit | primitive => exact .inl (List.mem_singleton.1 h)
  | @nullable element hargs =>
      refine (List.mem_cons.1 h).imp_right fun h => .inr ⟨element, ?_, h⟩
      rw [hargs]
      exact List.mem_singleton_self element
  | tuple hargs =>
      rw [SourceType.nodes, typeNodes_eq_flatMap] at h
      exact (List.mem_cons.1 h).imp_right fun h => .inr (List.mem_flatMap.1 h)
  | nested hnested =>
      rw [← hnested, nodes_spellNested] at h
      rw [← hnested]
      refine (List.mem_cons.1 h).imp_right fun h => ?_
      obtain ⟨arg, harg, hnode⟩ := List.mem_flatMap.1 h
      split at harg
      · obtain ⟨name, -, rfl⟩ := List.mem_map.1 harg
        exact .inl ⟨name, List.mem_singleton.1 hnode⟩
      · exact .inr ⟨arg, harg, hnode⟩

/-- No argument of a definition is forgotten, unless it is the type of no value. -/
theorem mem_nodes_resolveNamed (hunit : type.isForeignUnit = false) {args : List SourceType}
    {arg : SourceType} (harg : arg ∈ args) (hnode : node ∈ arg.nodes) :
    node ∈ (md.resolveNamed type args).nodes := by
  have hmem : node ∈ args.flatMap (·.nodes) := List.mem_flatMap.2 ⟨arg, harg, hnode⟩
  have hspelling := spelling_resolveNamed md type args
  generalize md.resolveNamed type args = result at hspelling ⊢
  cases hspelling with
  | foreignUnit hforeign => exact absurd (hunit.symm.trans hforeign) Bool.false_ne_true
  | primitive hargs =>
      rw [hargs] at harg
      cases harg
  | nullable hargs =>
      rw [hargs] at harg
      rw [SourceType.nodes, ← List.mem_singleton.1 harg]
      exact List.mem_cons_of_mem _ hnode
  | tuple =>
      rw [SourceType.nodes, typeNodes_eq_flatMap]
      exact List.mem_cons_of_mem _ hmem
  | nested hnested =>
      rw [← hnested, nodes_spellNested, if_neg (by simp [List.ne_nil_of_mem harg])]
      exact List.mem_cons_of_mem _ hmem

theorem resolveNamed_ne_truncated (args : List SourceType) :
    md.resolveNamed type args ≠ .truncated := by
  intro h
  have hspelling := spelling_resolveNamed md type args
  rw [h] at hspelling
  cases hspelling

/-- A mark of truncation in a spelling is one of an argument. -/
theorem truncated_mem_resolveNamed {args : List SourceType} :
    .truncated ∈ (md.resolveNamed type args).nodes ↔
      type.isForeignUnit = false ∧ ∃ arg ∈ args, .truncated ∈ arg.nodes := by
  constructor
  · intro h
    rcases of_mem_nodes_resolveNamed h with heq | ⟨_, heq⟩ | harg
    · exact absurd heq.symm (resolveNamed_ne_truncated args)
    · cases heq
    · refine ⟨Bool.eq_false_iff.2 fun hunit => ?_, harg⟩
      rw [resolveNamed_foreignUnit hunit] at h
      cases List.mem_singleton.1 h
  · rintro ⟨hunit, arg, harg, hnode⟩
    exact mem_nodes_resolveNamed hunit harg hnode

end Metadata

end Unmangle
