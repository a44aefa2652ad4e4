import Unmangle.Proofs.TypeNodes

/-!
# One step of a resolution

Whatever a token stands for, resolving it goes the same way: the tokens it leads to are resolved
one after the other, and the type is put together from the results. `next` says where a token
leads and `assemble` what is made of the results, so that `resolveAt_succ` is the only place that
looks into the cases of a definition to say what a step does. What a guard does to a step stands
beside it.
-/

namespace Unmangle

section Threading

variable {α β σ : Type} {f : α → σ → β × σ}

theorem mapThreading_cons (a : α) (rest : List α) (state : σ) :
    mapThreading f (a :: rest) state =
      ((f a state).1 :: (mapThreading f rest (f a state).2).1,
        (mapThreading f rest (f a state).2).2) := rfl

theorem mapThreading_map {γ : Type} (g : γ → α) :
    ∀ (cs : List γ) (state : σ),
      mapThreading f (cs.map g) state = mapThreading (fun c => f (g c)) cs state
  | [], _ => rfl
  | c :: rest, state => by
    rw [List.map_cons, mapThreading_cons, mapThreading_cons, mapThreading_map g rest]

theorem length_mapThreading :
    ∀ (as : List α) (state : σ), (mapThreading f as state).1.length = as.length
  | [], _ => rfl
  | a :: rest, state => by
    rw [mapThreading_cons, List.length_cons, List.length_cons, length_mapThreading rest]

theorem forall_mem_mapThreading {p : β → Prop} (h : ∀ a state, p (f a state).1) :
    ∀ (as : List α) (state : σ), ∀ b ∈ (mapThreading f as state).1, p b
  | [], _, b, hb => nomatch hb
  | a :: rest, state, b, hb => by
    rw [mapThreading_cons] at hb
    rcases List.mem_cons.1 hb with rfl | hb
    · exact h a state
    · exact forall_mem_mapThreading h rest _ b hb

/-- What each element keeps of the state, all of them keep. -/
theorem mapThreading_keeps {Kept : σ → Prop} (h : ∀ a state, Kept state → Kept (f a state).2) :
    ∀ (as : List α) (state : σ), Kept state → Kept (mapThreading f as state).2
  | [], _, hstate => hstate
  | a :: rest, state, hstate => mapThreading_keeps h rest (f a state).2 (h a state hstate)

/-- Elements that all give the same and leave the state alone. -/
theorem mapThreading_replicate {a : α} {b : β} {state : σ} (h : f a state = (b, state)) :
    ∀ count, mapThreading f (List.replicate count a) state = (List.replicate count b, state)
  | 0 => rfl
  | count + 1 => by
    rw [List.replicate_succ, mapThreading_cons, h, mapThreading_replicate h count,
      List.replicate_succ]

end Threading

namespace Metadata

/-- The tokens that a token leads to, each with the bindings under which it is resolved. -/
def next (md : Metadata) (bindings : Bindings) (token : TypeToken) : List (Bindings × TypeToken) :=
  match md.typeDef? token with
  | some (.genericInstance _ args) => args.map (bindings, ·)
  | some (.genericParam _ owner position) =>
    ((bindings.lookup owner position).map (({} : Bindings), ·)).toList
  | some (.array element rank) => if rank.toNat > maxArrayRank then [] else [(bindings, element)]
  | some (.pointer element) | some (.byRef element) => [(bindings, element)]
  | some (.named _) | none => []

/-- The type that is made of what a token leads to. -/
def assemble (md : Metadata) (token : TypeToken) (parts : List SourceType) : SourceType :=
  match md.typeDef? token with
  | none => .unresolved
  | some (.named type) => md.resolveNamed type []
  | some (.genericInstance definition _) =>
    match md.typeDef? definition with
    | some (.named type) => md.resolveNamed type parts
    | _ => .unresolved
  | some (.genericParam name _ _) => parts.headD (.genericParam name)
  | some (.array _ rank) =>
    match parts with
    | [] => .unresolved
    | element :: _ => .array element (max rank.toNat 1)
  | some (.pointer _) => .pointer (parts.headD .unresolved)
  | some (.byRef _) => .byRef (parts.headD .unresolved)

/-- What holds of all parts holds of the first one, or else of what stands in its place. -/
theorem headD_of_forall {P : SourceType → Prop} {parts : List SourceType} {instead : SourceType}
    (hinstead : P instead) (hparts : ∀ part ∈ parts, P part) : P (parts.headD instead) := by
  cases parts with
  | nil => exact hinstead
  | cons part rest => exact hparts part List.mem_cons_self

variable {md : Metadata} {room : Nat} {path : List TypeToken} {bindings : Bindings}
  {token : TypeToken} {expanded : Array TypeToken}

/-- A guard that strikes leaves its mark and nothing else. -/
theorem resolveAt_of_guard (h : maxTypeNodes ≤ expanded.size ∨ token ∈ path) :
    md.resolveAt room path bindings token expanded = (.truncated, expanded) := by
  cases room with
  | zero => rfl
  | succ room =>
      rw [resolveAt]
      split
      · rfl
      · next hsize => rw [if_pos (h.resolve_left hsize)]

theorem resolveAt_missing (hsize : expanded.size < maxTypeNodes) (hpath : token ∉ path)
    (h : md.typeDef? token = none) :
    md.resolveAt (room + 1) path bindings token expanded = (.unresolved, expanded) := by
  rw [resolveAt, if_neg (Nat.not_le.2 hsize), if_neg hpath, h]

/-- What a step does where no guard strikes. -/
theorem resolveAt_succ {definition : TypeDef} (hsize : expanded.size < maxTypeNodes)
    (hpath : token ∉ path) (h : md.typeDef? token = some definition) :
    md.resolveAt (room + 1) path bindings token expanded =
      let parts := mapThreading
        (fun next => md.resolveAt room (token :: path) next.1 next.2)
        (md.next bindings token) (expanded.push token)
      (md.assemble token parts.1, parts.2) := by
  rw [resolveAt, if_neg (Nat.not_le.2 hsize), if_neg hpath, next]
  simp only [assemble, h]
  cases definition with
  | named type => rfl
  | genericInstance definition args =>
      rw [mapThreading_map]
      dsimp only
      generalize md.typeDef? definition = found
      cases found with
      | none => rfl
      | some found => cases found <;> rfl
  | genericParam name owner position =>
      dsimp only
      split
      · next hbound => rw [hbound]; rfl
      · next hbound => rw [hbound]; rfl
  | array element rank =>
      dsimp only
      split <;> rfl
  | pointer element | byRef element => rfl

/-- The four ways in which a token is resolved, by the room that is left on the path: there is none,
another guard strikes, the token is missing, or the type is put together from what is made of the
tokens that this one leads to, one after the other, with less room. -/
theorem resolveAt_room_induction
    {motive : Nat → List TypeToken → Bindings → TypeToken → Array TypeToken →
      SourceType × Array TypeToken → Prop}
    (full : ∀ path bindings token expanded,
      motive 0 path bindings token expanded (.truncated, expanded))
    (guard : ∀ room path bindings token expanded, maxTypeNodes ≤ expanded.size ∨ token ∈ path →
      motive (room + 1) path bindings token expanded (.truncated, expanded))
    (missing : ∀ room path bindings token expanded, expanded.size < maxTypeNodes → token ∉ path →
      md.typeDef? token = none →
      motive (room + 1) path bindings token expanded (.unresolved, expanded))
    (expand : ∀ room path bindings token expanded definition, expanded.size < maxTypeNodes →
      token ∉ path → md.typeDef? token = some definition →
      (∀ next : Bindings × TypeToken, ∀ state, motive room (token :: path) next.1 next.2 state
        (md.resolveAt room (token :: path) next.1 next.2 state)) →
      let parts := mapThreading
        (fun next => md.resolveAt room (token :: path) next.1 next.2)
        (md.next bindings token) (expanded.push token)
      motive (room + 1) path bindings token expanded (md.assemble token parts.1, parts.2))
    (room : Nat) (path : List TypeToken) (bindings : Bindings) (token : TypeToken)
    (expanded : Array TypeToken) :
    motive room path bindings token expanded
      (md.resolveAt room path bindings token expanded) := by
  induction room generalizing path bindings token expanded with
  | zero => exact full path bindings token expanded
  | succ room ih =>
      by_cases hguard : maxTypeNodes ≤ expanded.size ∨ token ∈ path
      · rw [resolveAt_of_guard hguard]
        exact guard room path bindings token expanded hguard
      · rw [not_or, Nat.not_le] at hguard
        cases hdefinition : md.typeDef? token with
        | none =>
            rw [resolveAt_missing hguard.1 hguard.2 hdefinition]
            exact missing room path bindings token expanded hguard.1 hguard.2 hdefinition
        | some definition =>
            rw [resolveAt_succ hguard.1 hguard.2 hdefinition]
            exact expand room path bindings token expanded definition hguard.1 hguard.2 hdefinition
              fun next state => ih _ _ _ _

/-- What is made of a token is the mark of a guard, something unknown, or put together from what is
made of the tokens that this one leads to, one after the other. -/
theorem resolveAt_induction
    {motive : TypeToken → Array TypeToken → SourceType × Array TypeToken → Prop}
    (guard : ∀ token expanded, motive token expanded (.truncated, expanded))
    (missing : ∀ token expanded, md.typeDef? token = none →
      motive token expanded (.unresolved, expanded))
    (expand : ∀ room path bindings token expanded definition, expanded.size < maxTypeNodes →
      md.typeDef? token = some definition →
      (∀ next : Bindings × TypeToken, ∀ state, motive next.2 state
        (md.resolveAt room (token :: path) next.1 next.2 state)) →
      let parts := mapThreading
        (fun next => md.resolveAt room (token :: path) next.1 next.2)
        (md.next bindings token) (expanded.push token)
      motive token expanded (md.assemble token parts.1, parts.2))
    (room : Nat) (path : List TypeToken) (bindings : Bindings) (token : TypeToken)
    (expanded : Array TypeToken) :
    motive token expanded (md.resolveAt room path bindings token expanded) := by
  refine resolveAt_room_induction
    (motive := fun _ _ _ token expanded result => motive token expanded result)
    (fun _ _ token expanded => guard token expanded)
    (fun _ _ _ token expanded _ => guard token expanded)
    (fun _ _ _ token expanded _ _ hmissing => missing token expanded hmissing) ?_
    room path bindings token expanded
  intro room path bindings token expanded definition hsize _ hdefinition ih
  exact expand room path bindings token expanded definition hsize hdefinition ih

end Metadata

end Unmangle
