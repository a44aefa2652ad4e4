import Unmangle.Proofs.Resolution
import Mathlib

/-!
# The guards of a resolution do not show unless they strike

A resolution carries along the path it has taken and the list of all tokens it has expanded, only
to stop where the metadata would not let it end. `resolveFree` is the resolution without all that,
ended by its fuel alone. The two agree wherever no mark of truncation is in the result, and there
is none in it if the unfolding of the token stays within what the guards allow.

The first half needs no bookkeeping. A guard that strikes leaves its mark in the place where it
strikes, so a result without marks was put together from results without marks, except where the
arguments of a definition are forgotten, and there it does not matter what became of them.

The second half has to follow the list of expanded tokens from argument to argument. Each of them
adds as many tokens as it visits, at most, since a token that leads nowhere is visited and not
added. So what bounds the visits of the whole bounds the list wherever the guard looks at it.
-/

namespace Unmangle

/-- No guard left its mark in a type. -/
def SourceType.IsWhole (type : SourceType) : Prop := .truncated ∉ type.nodes

theorem SourceType.truncated_not_isWhole : ¬ SourceType.truncated.IsWhole := by
  simp [IsWhole, nodes]

namespace Metadata

/-- Resolves a token without any guard, for as long as the fuel lasts. -/
def resolveFree (md : Metadata) : Nat → Bindings → TypeToken → SourceType
  | 0, _, _ => .truncated
  | fuel + 1, bindings, token =>
    match md.typeDef? token with
    | none => .unresolved
    | some (.named type) => md.resolveNamed type []
    | some (.genericInstance definition args) =>
      match md.typeDef? definition with
      | some (.named type) => md.resolveNamed type (args.map (resolveFree md fuel bindings))
      | _ => .unresolved
    | some (.genericParam name owner position) =>
      match bindings.lookup owner position with
      | some bound => resolveFree md fuel {} bound
      | none => .genericParam name
    | some (.array element rank) =>
      if rank.toNat > maxArrayRank then .unresolved
      else .array (resolveFree md fuel bindings element) (max rank.toNat 1)
    | some (.pointer element) => .pointer (resolveFree md fuel bindings element)
    | some (.byRef element) => .byRef (resolveFree md fuel bindings element)

/-- The visits of the unfolding of a token along paths of up to `length` tokens, each told by the
path that ends in it. -/
def visits (md : Metadata) : Nat → Bindings → TypeToken → List (List TypeToken)
  | 0, _, _ => []
  | length + 1, bindings, token =>
    [token] :: ((md.next bindings token).flatMap fun next =>
      visits md length next.1 next.2).map (token :: ·)

/-- The unfolding of a token stays within what the guards allow, however far it is followed: no
path is too long, there are not too many visits, and no token is met twice on one path. -/
structure WithinGuards (md : Metadata) (bindings : Bindings) (token : TypeToken) : Prop where
  length_le : ∀ length, ∀ path ∈ md.visits length bindings token, path.length ≤ maxTypeDepth
  count_le : ∀ length, (md.visits length bindings token).length ≤ maxTypeNodes
  nodup : ∀ length, ∀ path ∈ md.visits length bindings token, path.Nodup

variable {md : Metadata} {bindings : Bindings} {token : TypeToken}

theorem resolveFree_succ (fuel : Nat) :
    md.resolveFree (fuel + 1) bindings token =
      md.assemble token
        ((md.next bindings token).map fun next => md.resolveFree fuel next.1 next.2) := by
  rw [resolveFree, next, assemble]
  cases md.typeDef? token with
  | none => rfl
  | some definition =>
      cases definition with
      | named | pointer | byRef => rfl
      | genericInstance definition args =>
          rw [List.map_map]
          rfl
      | genericParam name owner position =>
          dsimp only
          split
          · next hbound => rw [hbound]; rfl
          · next hbound => rw [hbound]; rfl
      | array element rank =>
          dsimp only
          split <;> rfl

/-! ## A result without marks -/

/-- Parts without marks make a type without marks. -/
theorem isWhole_assemble {parts : List SourceType} (h : ∀ part ∈ parts, part.IsWhole) :
    (md.assemble token parts).IsWhole := by
  have hmark : ∀ part ∈ parts, .truncated ∉ part.nodes := h
  rw [SourceType.IsWhole, assemble]
  cases md.typeDef? token with
  | none => simp [SourceType.nodes]
  | some definition =>
      cases definition with
      | named type => simp [truncated_mem_resolveNamed]
      | genericInstance definition args =>
          dsimp only
          split
          · rw [truncated_mem_resolveNamed]
            rintro ⟨-, part, hpart, hnode⟩
            exact hmark part hpart hnode
          · simp [SourceType.nodes]
      | genericParam | array | pointer | byRef =>
          cases parts with
          | nil => simp [SourceType.nodes]
          | cons part rest => simpa [SourceType.nodes] using hmark part List.mem_cons_self

/-- A type without marks is made of parts without marks, or it is the same whatever the parts. -/
theorem whole_or_forgotten {parts : List SourceType}
    (hlength : parts.length = (md.next bindings token).length)
    (h : (md.assemble token parts).IsWhole) :
    (∀ part ∈ parts, part.IsWhole) ∨
      ∀ others, md.assemble token others = md.assemble token parts := by
  rw [SourceType.IsWhole] at h
  have hnext := hlength
  rw [next] at hnext
  simp only [assemble] at h ⊢
  cases hdefinition : md.typeDef? token with
  | none => exact .inr fun _ => rfl
  | some definition =>
      rw [hdefinition] at h hnext
      cases definition with
      | named type => exact .inr fun _ => rfl
      | genericInstance definition args =>
          dsimp only at h ⊢
          split at h
          · next type _ =>
              cases hunit : type.isForeignUnit with
              | true =>
                  refine .inr fun others => ?_
                  rw [resolveNamed_foreignUnit hunit, resolveNamed_foreignUnit hunit]
              | false =>
                  refine .inl fun part hpart hnode => ?_
                  exact h (mem_nodes_resolveNamed hunit hpart hnode)
          · exact .inr fun _ => rfl
      | genericParam name owner position =>
          refine .inl fun part hpart => ?_
          dsimp only at hnext h
          cases hbound : bindings.lookup owner position with
          | none =>
              rw [hbound] at hnext
              rw [List.eq_nil_of_length_eq_zero hnext] at hpart
              cases hpart
          | some bound =>
              rw [hbound] at hnext
              obtain ⟨only, rfl⟩ := List.length_eq_one_iff.1 hnext
              rw [List.mem_singleton.1 hpart]
              exact h
      | array element rank =>
          refine .inl fun part hpart => ?_
          dsimp only at hnext h
          split at hnext
          · rw [List.eq_nil_of_length_eq_zero hnext] at hpart
            cases hpart
          · obtain ⟨only, rfl⟩ := List.length_eq_one_iff.1 hnext
            rw [List.mem_singleton.1 hpart]
            exact fun hnode => h (List.mem_cons_of_mem _ hnode)
      | pointer element | byRef element =>
          obtain ⟨only, rfl⟩ := List.length_eq_one_iff.1 hnext
          refine .inl fun part hpart => ?_
          rw [List.mem_singleton.1 hpart]
          exact fun hnode => h (List.mem_cons_of_mem _ hnode)

theorem mapThreading_fst_eq_map {α β σ : Type} {f : α → σ → β × σ} {g : α → β} {p : β → Prop}
    (hf : ∀ a state, p (f a state).1 → (f a state).1 = g a) :
    ∀ (as : List α) (state : σ), (∀ b ∈ (mapThreading f as state).1, p b) →
      (mapThreading f as state).1 = as.map g
  | [], _, _ => rfl
  | a :: rest, state, h => by
    rw [mapThreading_cons] at h ⊢
    have hfirst := hf a state (h _ List.mem_cons_self)
    have hrest := mapThreading_fst_eq_map hf rest (f a state).2
      fun b hb => h b (List.mem_cons_of_mem _ hb)
    rw [List.map_cons, ← hfirst, ← hrest]

theorem resolveAt_eq_resolveFree (room : Nat) :
    ∀ (path : List TypeToken) (bindings : Bindings) (token : TypeToken)
      (expanded : Array TypeToken) (fuel : Nat), room ≤ fuel →
      (md.resolveAt room path bindings token expanded).1.IsWhole →
      (md.resolveAt room path bindings token expanded).1 = md.resolveFree fuel bindings token := by
  induction room with
  | zero =>
      intro path bindings token expanded fuel _ h
      exact absurd h SourceType.truncated_not_isWhole
  | succ room ih =>
      intro path bindings token expanded fuel hfuel h
      obtain ⟨fuel, rfl⟩ : ∃ less, fuel = less + 1 := ⟨fuel - 1, by omega⟩
      have hsize : expanded.size < maxTypeNodes := Nat.lt_of_not_le fun hfull => by
        rw [resolveAt_of_guard (.inl hfull)] at h
        exact SourceType.truncated_not_isWhole h
      have hpath : token ∉ path := fun hmet => by
        rw [resolveAt_of_guard (.inr hmet)] at h
        exact SourceType.truncated_not_isWhole h
      rw [resolveFree_succ]
      cases hdefinition : md.typeDef? token with
      | none =>
          rw [resolveAt_missing hsize hpath hdefinition, assemble, hdefinition]
      | some definition =>
          rw [resolveAt_succ hsize hpath hdefinition] at h ⊢
          dsimp only at h ⊢
          rcases whole_or_forgotten (length_mapThreading _ _) h with hparts | hforgotten
          · rw [mapThreading_fst_eq_map (p := SourceType.IsWhole) ?_ _ _ hparts]
            intro next state hwhole
            exact ih _ _ _ _ _ (Nat.le_of_succ_le_succ hfuel) hwhole
          · exact (hforgotten _).symm

/-! ## An unfolding that the guards allow -/

theorem length_visits_succ (length : Nat) :
    (md.visits (length + 1) bindings token).length =
      ((md.next bindings token).map fun next =>
        (md.visits length next.1 next.2).length).sum + 1 := by
  rw [visits, List.length_cons, List.length_map, List.length_flatMap]

theorem cons_mem_visits_succ {length : Nat} {next : Bindings × TypeToken} {path : List TypeToken}
    (hnext : next ∈ md.next bindings token) (hpath : path ∈ md.visits length next.1 next.2) :
    token :: path ∈ md.visits (length + 1) bindings token := by
  rw [visits]
  exact List.mem_cons_of_mem _ (List.mem_map_of_mem (List.mem_flatMap.2 ⟨next, hnext, hpath⟩))

/-- Where each element costs no more than it should, all of them together do. -/
theorem mapThreading_within {α β τ : Type} {f : α → Array τ → β × Array τ} {cost : α → Nat}
    {p : β → Prop} {bound : Nat} :
    ∀ (as : List α) (state : Array τ),
      (∀ a ∈ as, ∀ state : Array τ, state.size + cost a ≤ bound →
        p (f a state).1 ∧ (f a state).2.size ≤ state.size + cost a) →
      state.size + (as.map cost).sum ≤ bound →
      (∀ b ∈ (mapThreading f as state).1, p b) ∧
        (mapThreading f as state).2.size ≤ state.size + (as.map cost).sum
  | [], state, _, _ => ⟨fun _ hb => absurd hb List.not_mem_nil, Nat.le_refl _⟩
  | a :: rest, state, hf, hbound => by
    rw [List.map_cons, List.sum_cons] at hbound ⊢
    obtain ⟨hfirst, hsize⟩ := hf a List.mem_cons_self state (by omega)
    obtain ⟨hothers, hrest⟩ := mapThreading_within rest (f a state).2
      (fun b hb => hf b (List.mem_cons_of_mem _ hb)) (by omega)
    rw [mapThreading_cons]
    refine ⟨fun b hb => ?_, by dsimp only; omega⟩
    rcases List.mem_cons.1 hb with rfl | hb
    · exact hfirst
    · exact hothers b hb

theorem resolveAt_isWhole (room : Nat) :
    ∀ (path : List TypeToken) (bindings : Bindings) (token : TypeToken)
      (expanded : Array TypeToken),
      (∀ trail ∈ md.visits (room + 1) bindings token,
        trail.length ≤ room ∧ trail.Nodup ∧ ∀ met ∈ trail, met ∉ path) →
      expanded.size + (md.visits (room + 1) bindings token).length ≤ maxTypeNodes →
      (md.resolveAt room path bindings token expanded).1.IsWhole ∧
        (md.resolveAt room path bindings token expanded).2.size ≤
          expanded.size + (md.visits (room + 1) bindings token).length := by
  induction room with
  | zero =>
      intro path bindings token expanded htrails _
      have hlength := (htrails [token] (by rw [visits]; exact List.mem_cons_self)).1
      exact absurd hlength (by simp)
  | succ room ih =>
      intro path bindings token expanded htrails hcount
      have hpath : token ∉ path :=
        (htrails [token] (by rw [visits]; exact List.mem_cons_self)).2.2 token List.mem_cons_self
      rw [length_visits_succ] at hcount ⊢
      cases hdefinition : md.typeDef? token with
      | none =>
          rw [resolveAt_missing (by omega) hpath hdefinition]
          exact ⟨by simp [SourceType.IsWhole, SourceType.nodes], by dsimp only; omega⟩
      | some definition =>
          rw [resolveAt_succ (by omega) hpath hdefinition]
          dsimp only
          have hpart : ∀ next ∈ md.next bindings token, ∀ state : Array TypeToken,
              state.size + (md.visits (room + 1) next.1 next.2).length ≤ maxTypeNodes →
              (md.resolveAt room (token :: path) next.1 next.2 state).1.IsWhole ∧
                (md.resolveAt room (token :: path) next.1 next.2 state).2.size ≤
                  state.size + (md.visits (room + 1) next.1 next.2).length := by
            intro next hnext state hstate
            refine ih _ _ _ _ (fun trail htrail => ?_) hstate
            obtain ⟨hlength, hnodup, hfresh⟩ := htrails _ (cons_mem_visits_succ hnext htrail)
            obtain ⟨htoken, hnodup⟩ := List.nodup_cons.1 hnodup
            refine ⟨Nat.le_of_succ_le_succ hlength, hnodup, fun met hmet => ?_⟩
            rw [List.mem_cons, not_or]
            exact ⟨fun heq => htoken (heq ▸ hmet), hfresh met (List.mem_cons_of_mem _ hmet)⟩
          obtain ⟨hwhole, hsize⟩ := mapThreading_within _ (expanded.push token) hpart
            (by rw [Array.size_push]; omega)
          rw [Array.size_push] at hsize
          exact ⟨isWhole_assemble hwhole, by omega⟩

/-- The guards are transparent. A type without their mark is the one that is resolved without them,
by any fuel that the longest path allowed does not use up; and there is no mark where the unfolding
stays within what the guards allow. -/
theorem resolveType_guards (md : Metadata) (bindings : Bindings) (token : TypeToken) :
    ((md.resolveType bindings token).IsWhole →
      ∀ fuel, maxTypeDepth ≤ fuel →
        md.resolveType bindings token = md.resolveFree fuel bindings token) ∧
    (md.WithinGuards bindings token → (md.resolveType bindings token).IsWhole) := by
  constructor
  · intro hwhole fuel hfuel
    exact resolveAt_eq_resolveFree maxTypeDepth [] bindings token #[] fuel hfuel hwhole
  · intro hallowed
    refine (resolveAt_isWhole maxTypeDepth [] bindings token #[] (fun trail htrail => ?_) ?_).1
    · exact ⟨hallowed.length_le _ trail htrail, hallowed.nodup _ trail htrail,
        fun _ _ => List.not_mem_nil⟩
    · rw [Array.size_empty, Nat.zero_add]
      exact hallowed.count_le _

/-- An instance of a generic type over an array of what an open parameter is bound to. -/
def boxedElements : Metadata :=
  { types := .ofList
      [(1, .named { name := "Box`1", space := some "Lib", genericParams := ["T"] }),
        (2, .genericInstance ⟨1⟩ [⟨3⟩]), (3, .array ⟨4⟩ 2), (4, .genericParam "T" .type 0),
        (5, .named { name := "Int32", space := some "System" })] }

theorem withinGuards_boxedElements :
    boxedElements.WithinGuards { typeArgs := [⟨5⟩] } ⟨2⟩ := by
  have hvisits : ∀ length, (boxedElements.visits length { typeArgs := [⟨5⟩] } ⟨2⟩).Sublist
      [[⟨2⟩], [⟨2⟩, ⟨3⟩], [⟨2⟩, ⟨3⟩, ⟨4⟩], [⟨2⟩, ⟨3⟩, ⟨4⟩, ⟨5⟩]]
    | 0 | 1 | 2 | 3 => by decide
    | _ + 4 => List.Sublist.refl _
  have hpaths : ∀ path ∈ [[(⟨2⟩ : TypeToken)], [⟨2⟩, ⟨3⟩], [⟨2⟩, ⟨3⟩, ⟨4⟩], [⟨2⟩, ⟨3⟩, ⟨4⟩, ⟨5⟩]],
      path.length ≤ maxTypeDepth ∧ path.Nodup := by decide
  exact
    { length_le := fun length path hpath => (hpaths path ((hvisits length).subset hpath)).1
      count_le := fun length => Nat.le_trans (hvisits length).length_le (by decide)
      nodup := fun length path hpath => (hpaths path ((hvisits length).subset hpath)).2 }

theorem resolveType_boxedElements :
    boxedElements.WithinGuards { typeArgs := [⟨5⟩] } ⟨2⟩ ∧
      (∀ fuel, maxTypeDepth ≤ fuel →
        boxedElements.resolveType { typeArgs := [⟨5⟩] } ⟨2⟩ =
          boxedElements.resolveFree fuel { typeArgs := [⟨5⟩] } ⟨2⟩) ∧
      boxedElements.resolveType { typeArgs := [⟨5⟩] } ⟨2⟩ =
        .named (some "Lib") [.mk "Box" [.array (.primitive "int" "System.Int32") 2]] := by
  obtain ⟨hfree, hwhole⟩ := resolveType_guards boxedElements { typeArgs := [⟨5⟩] } ⟨2⟩
  exact ⟨withinGuards_boxedElements, hfree (hwhole withinGuards_boxedElements), rfl⟩

end Metadata

end Unmangle
