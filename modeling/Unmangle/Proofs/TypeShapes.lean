import Unmangle.Proofs.Resolution

/-!
# The shapes that a resolution makes

Each node of a resolved type was made by one step, and `assemble` is the only place where a step
makes anything, so a resolved type has at every level one of the few shapes of `IsMade`. The rank of
an array comes from the metadata, where it may be any number, and it is what a step leads to that
keeps it small: a step behind which there is an element has looked at the rank before.

What no step makes is `dynamic`. A parameter has it from a mark of its own, and never from a token.
-/

namespace Unmangle

/-- The type is one that a single step makes. -/
inductive SourceType.IsMade (md : Metadata) : SourceType → Prop
  | truncated : IsMade md .truncated
  | unresolved : IsMade md .unresolved
  | genericParam (name : String) : IsMade md (.genericParam name)
  /-- A definition of the metadata, spelled with as many arguments as its token has. -/
  | spelled {token : TypeToken} {found : Metadata.Instantiation} {args : List SourceType}
      (hstands : md.StandsFor token found) (hlength : args.length = found.args.length) :
      IsMade md (md.resolveNamed found.type args)
  | array (element : SourceType) {rank : Nat} (one_le : 1 ≤ rank) (rank_le : rank ≤ maxArrayRank) :
      IsMade md (.array element rank)
  | pointer (element : SourceType) : IsMade md (.pointer element)
  | byRef (element : SourceType) : IsMade md (.byRef element)

namespace Metadata

variable {md : Metadata} {token : TypeToken} {bindings : Bindings} {node : SourceType}

theorem isMade_of_mem_resolveNamed {found : Instantiation} {args : List SourceType}
    (hstands : md.StandsFor token found) (hlength : args.length = found.args.length)
    (h : node ∈ (md.resolveNamed found.type args).nodes) :
    node.IsMade md ∨ ∃ arg ∈ args, node ∈ arg.nodes := by
  rcases of_mem_nodes_resolveNamed h with rfl | ⟨name, rfl⟩ | harg
  · exact .inl (.spelled hstands hlength)
  · exact .inl (.genericParam name)
  · exact .inr harg

/-- The first part, or what stands in its place. -/
theorem isMade_of_mem_headD {parts : List SourceType} {instead : SourceType}
    (hinstead : ∀ node ∈ instead.nodes, node.IsMade md) (h : node ∈ (parts.headD instead).nodes) :
    node.IsMade md ∨ ∃ part ∈ parts, node ∈ part.nodes := by
  refine headD_of_forall (P := fun type => node ∈ type.nodes →
    node.IsMade md ∨ ∃ part ∈ parts, node ∈ part.nodes) ?_ ?_ h
  · exact fun hnode => .inl (hinstead node hnode)
  · exact fun part hpart hnode => .inr ⟨part, hpart, hnode⟩

theorem isMade_of_mem_assemble {parts : List SourceType}
    (hlength : parts.length = (md.next bindings token).length)
    (h : node ∈ (md.assemble token parts).nodes) :
    node.IsMade md ∨ ∃ part ∈ parts, node ∈ part.nodes := by
  have hunresolved : ∀ node ∈ SourceType.unresolved.nodes, node.IsMade md := by
    intro node hnode
    cases List.mem_singleton.1 hnode
    exact .unresolved
  rw [assemble] at h
  rw [next] at hlength
  cases hdefinition : md.typeDef? token with
  | none =>
      rw [hdefinition] at h
      exact .inl (hunresolved node h)
  | some definition =>
      rw [hdefinition] at h hlength
      cases definition with
      | named type =>
          obtain hmade | ⟨_, harg, -⟩ := isMade_of_mem_resolveNamed (.definition hdefinition) rfl h
          · exact .inl hmade
          · cases harg
      | genericInstance definition args =>
          dsimp only at h
          split at h
          · next type htype =>
              rw [List.length_map] at hlength
              exact isMade_of_mem_resolveNamed (.instantiation hdefinition htype) hlength h
          · exact .inl (hunresolved node h)
      | genericParam name owner position =>
          refine isMade_of_mem_headD (fun node hnode => ?_) h
          cases List.mem_singleton.1 hnode
          exact .genericParam name
      | array element rank =>
          cases parts with
          | nil => exact .inl (hunresolved node h)
          | cons part rest =>
              have hrank : rank.toNat ≤ maxArrayRank := by
                refine Nat.not_lt.1 fun hlarge => ?_
                dsimp only at hlength
                rw [if_pos hlarge] at hlength
                cases hlength
              rcases List.mem_cons.1 h with rfl | h
              · exact .inl (.array part (Nat.le_max_right _ _) (Nat.max_le.2 ⟨hrank, by decide⟩))
              · exact .inr ⟨part, List.mem_cons_self, h⟩
      | pointer element =>
          rcases List.mem_cons.1 h with rfl | h
          · exact .inl (.pointer _)
          · exact isMade_of_mem_headD hunresolved h
      | byRef element =>
          rcases List.mem_cons.1 h with rfl | h
          · exact .inl (.byRef _)
          · exact isMade_of_mem_headD hunresolved h

theorem isMade_of_mem_resolveAt (room : Nat) (path : List TypeToken) (bindings : Bindings)
    (token : TypeToken) (expanded : Array TypeToken) :
    ∀ node ∈ (md.resolveAt room path bindings token expanded).1.nodes, node.IsMade md := by
  refine resolveAt_induction
    (motive := fun _ _ result => ∀ node ∈ result.1.nodes, node.IsMade md) ?_ ?_ ?_
    room path bindings token expanded
  · intro token expanded node hnode
    cases List.mem_singleton.1 hnode
    exact .truncated
  · intro token expanded hmissing node hnode
    cases List.mem_singleton.1 hnode
    exact .unresolved
  · intro room path bindings token expanded definition hsize hdefinition ih parts node hnode
    rcases isMade_of_mem_assemble (length_mapThreading _ _) hnode with hmade | ⟨part, hpart, hnode⟩
    · exact hmade
    · exact forall_mem_mapThreading (p := fun part => ∀ node ∈ part.nodes, node.IsMade md) ih
        _ _ part hpart node hnode

theorem isMade_of_mem_resolveType (h : node ∈ (md.resolveType bindings token).nodes) :
    node.IsMade md :=
  isMade_of_mem_resolveAt _ _ _ _ _ node h

theorem dynamic_not_mem_resolveType :
    SourceType.dynamic ∉ (md.resolveType bindings token).nodes := by
  intro h
  generalize hnode : SourceType.dynamic = node at h
  cases isMade_of_mem_resolveType h with
  | @spelled token found args hstands hlength =>
      have hspelling := spelling_resolveNamed md found.type args
      rw [← hnode] at hspelling
      cases hspelling
  | truncated | unresolved | genericParam | array | pointer | byRef => cases hnode

end Metadata

end Unmangle
