import Unmangle.Proofs.Resolution
import Mathlib.Algebra.Order.BigOperators.Group.List
import Mathlib.Algebra.Order.Ring.Nat

/-!
# How many nodes one resolution makes

`maxTypeNodes` caps the tokens that one resolution expands, and a token that is expanded makes one
node. Two kinds of nodes are made without one: a token that leads nowhere is not expanded and
leaves an unresolved reference in its place, and a definition that is spelled without arguments
brings its open parameters along. So the cap holds for the nodes of all other kinds, but a type as
a whole can have more: an instance of a definition with as many missing arguments as the cap
allows tokens is over it by itself.

The nodes are counted against the log of the expanded tokens. The tokens that a token leads to are
resolved one after the other, and each adds to the log what its nodes cost (`resolveAt_ledger`),
apart from the reference that it leaves if it is missing: nothing is added then, so the token that
led to it has to pay. The count is of the nodes with any property that the marks of the guards do
not have, since those are free.
-/

namespace Unmangle

namespace SourceType

def isTruncated : SourceType → Bool
  | truncated => true
  | _ => false

/-- Neither a mark in the place of a type nor an open parameter. -/
def isBuilt : SourceType → Bool
  | unresolved | truncated | genericParam _ => false
  | _ => true

/-- The nodes of a type at all levels, apart from the marks of the guards. -/
def nodeCount (type : SourceType) : Nat := type.nodes.countP (!·.isTruncated)

end SourceType

theorem countP_cons_le {α : Type} {p : α → Bool} (a : α) (as : List α) :
    (a :: as).countP p ≤ as.countP p + 1 := by
  rw [List.countP_cons]
  refine Nat.add_le_add_left ?_ _
  split <;> decide

theorem length_flatMap_le {α β : Type} {f : α → List β} {as : List α} {width : Nat}
    (h : ∀ a ∈ as, (f a).length ≤ width) : (as.flatMap f).length ≤ as.length * width := by
  rw [List.length_flatMap, ← List.length_map (fun a => (f a).length)]
  refine List.sum_le_card_nsmul _ _ fun length hlength => ?_
  obtain ⟨a, ha, rfl⟩ := List.mem_map.1 hlength
  exact h a ha

namespace Metadata

/-- The reference that a token leaves if it leads nowhere. -/
def gap (md : Metadata) (token : TypeToken) : List SourceType :=
  if (md.typeDef? token).isNone then [.unresolved] else []

/-- The parameters that a definition shows where it is given no arguments. -/
def openParams (md : Metadata) (definition : TypeToken) : List SourceType :=
  match md.typeDef? definition with
  | some (.named type) => type.genericParams.map .genericParam
  | _ => []

/-- The nodes besides its own that a token brings along where it is expanded: the gaps that it
leads to, and the open parameters of its definition. -/
def uncounted (md : Metadata) (token : TypeToken) : List SourceType :=
  match md.typeDef? token with
  | some (.named _) => md.openParams token
  | some (.genericInstance definition args) =>
    if args.isEmpty then md.openParams definition else args.flatMap md.gap
  | some (.array element rank) => if rank.toNat > maxArrayRank then [] else md.gap element
  | some (.pointer element) | some (.byRef element) => md.gap element
  | some (.genericParam _ _ _) | none => []

variable {md : Metadata} {type : NamedType} {bindings : Bindings} {token : TypeToken}
  {p : SourceType → Bool}

theorem gap_of_typeDef? {definition : TypeDef} (h : md.typeDef? token = some definition) :
    md.gap token = [] := by
  rw [gap, h]
  rfl

theorem length_gap_le (md : Metadata) (token : TypeToken) : (md.gap token).length ≤ 1 := by
  rw [gap]
  split <;> decide

/-! ## The nodes of one step -/

/-- A spelling adds one node to those of the arguments, or of the open parameters. -/
theorem countP_resolveNamed_le (h : md.typeDef? token = some (.named type))
    (args : List SourceType) :
    (md.resolveNamed type args).nodes.countP p ≤
      ((if args.isEmpty then md.openParams token else args).flatMap (·.nodes)).countP p + 1 := by
  have hle : (md.resolveNamed type args).nodes.Sublist (md.resolveNamed type args ::
      (if args.isEmpty then md.openParams token else args).flatMap (·.nodes)) := by
    rw [openParams, h]
    have hspelling := spelling_resolveNamed md type args
    generalize md.resolveNamed type args = result at hspelling ⊢
    cases hspelling with
    | foreignUnit | primitive => exact (List.nil_sublist _).cons_cons _
    | nullable hargs => simp [hargs, SourceType.nodes]
    | tuple hargs => rw [SourceType.nodes, typeNodes_eq_flatMap, if_neg (by simp [hargs])]
    | nested hnested => rw [← hnested, nodes_spellNested]
  exact Nat.le_trans hle.countP_le (countP_cons_le ..)

theorem flatMap_nodes_openParams :
    (md.openParams token).flatMap (·.nodes) = md.openParams token := by
  rw [openParams]
  split
  · rw [List.flatMap_map, List.map_eq_flatMap]
    rfl
  · rfl

theorem countP_assemble_instance_le {definition : TypeToken} {args : List TypeToken}
    (h : md.typeDef? token = some (.genericInstance definition args)) (parts : List SourceType) :
    (md.assemble token parts).nodes.countP p ≤
      ((if parts.isEmpty then md.openParams definition else parts).flatMap (·.nodes)).countP p +
        1 := by
  rw [assemble, h]
  dsimp only
  split
  · next hdefinition => exact countP_resolveNamed_le hdefinition parts
  · exact Nat.le_trans (countP_cons_le _ []) (Nat.succ_le_succ (Nat.zero_le _))

/-- What a token is put together to has no more nodes than its parts and its own, those it brings
along included. The gaps among the parts are paid for by the token. -/
theorem countP_assemble_le {definition : TypeDef} (h : md.typeDef? token = some definition)
    (parts : List SourceType) (hlength : parts.length = (md.next bindings token).length) :
    (md.assemble token parts).nodes.countP p +
        ((md.next bindings token).flatMap (md.gap ·.2)).countP p ≤
      (parts.flatMap (·.nodes)).countP p + (md.uncounted token).countP p + 1 := by
  cases definition with
  | named type =>
      have hnamed := countP_resolveNamed_le (p := p) h []
      rw [List.isEmpty_nil, if_pos rfl, flatMap_nodes_openParams] at hnamed
      simp only [next, assemble, uncounted, h, List.flatMap_nil, List.countP_nil]
      omega
  | genericInstance definition args =>
      have hinstance := countP_assemble_instance_le (p := p) h parts
      have hgaps : (args.map (bindings, ·)).flatMap (md.gap ·.2) = args.flatMap md.gap :=
        List.flatMap_map ..
      simp only [next, uncounted, h, List.length_map, hgaps] at hlength ⊢
      cases args with
      | nil =>
          obtain rfl : parts = [] := List.eq_nil_of_length_eq_zero hlength
          rw [List.isEmpty_nil, if_pos rfl, flatMap_nodes_openParams] at hinstance
          simp only [List.isEmpty_nil, List.flatMap_nil, List.countP_nil, if_pos]
          omega
      | cons arg args =>
          obtain ⟨part, rest, rfl⟩ := List.exists_cons_of_length_eq_add_one hlength
          rw [List.isEmpty_cons, if_neg Bool.false_ne_true] at hinstance ⊢
          omega
  | genericParam name owner position =>
      simp only [next, assemble, uncounted, h] at hlength ⊢
      cases hbound : bindings.lookup owner position with
      | none =>
          obtain rfl : parts = [] := List.eq_nil_of_length_eq_zero (by rw [hlength, hbound]; rfl)
          exact countP_cons_le _ []
      | some bound =>
          obtain ⟨part, rfl⟩ := List.length_eq_one_iff.1 (by rw [hlength, hbound]; rfl)
          -- A bound parameter makes no node itself: what it is charged for pays for the gap.
          have hgap := Nat.le_trans (List.countP_le_length (p := p)) (length_gap_le md bound)
          simp only [Option.map_some, Option.toList_some, List.flatMap_singleton, List.headD_cons,
            List.countP_nil]
          omega
  | array element rank =>
      simp only [next, assemble, uncounted, h] at hlength ⊢
      split at hlength
      · next hrank =>
          obtain rfl : parts = [] := List.eq_nil_of_length_eq_zero hlength
          rw [if_pos hrank, if_pos hrank]
          exact countP_cons_le _ []
      · next hrank =>
          obtain ⟨part, rfl⟩ := List.length_eq_one_iff.1 hlength
          have hnode := countP_cons_le (p := p) (.array part (max rank.toNat 1)) part.nodes
          simp only [if_neg hrank, SourceType.nodes, List.flatMap_singleton]
          omega
  | pointer element | byRef element =>
      simp only [next, assemble, uncounted, h] at hlength ⊢
      obtain ⟨part, rfl⟩ := List.length_eq_one_iff.1 hlength
      simp only [List.headD_cons, SourceType.nodes, List.flatMap_singleton]
      rw [Nat.add_right_comm]
      exact Nat.add_le_add_right (countP_cons_le _ _) _

/-! ## The log of a resolution -/

/-- What a log allows for: a node for each token, and the nodes that the token brings along. -/
def ledger (md : Metadata) (p : SourceType → Bool) (expanded : Array TypeToken) : Nat :=
  expanded.size + (expanded.toList.flatMap md.uncounted).countP p

theorem ledger_push (expanded : Array TypeToken) :
    md.ledger p (expanded.push token) =
      md.ledger p expanded + (md.uncounted token).countP p + 1 := by
  rw [ledger, ledger, Array.size_push, Array.toList_push, List.flatMap_append,
    List.countP_append, List.flatMap_singleton]
  omega

/-- Where each element pays for its result, apart from what it is owed, all of them together do. -/
theorem mapThreading_ledger {α σ : Type} {f : α → σ → SourceType × σ}
    (owed : α → List SourceType) (ledger : σ → Nat)
    (hf : ∀ a state, (f a state).1.nodes.countP p + ledger state ≤
      (owed a).countP p + ledger (f a state).2) :
    ∀ (as : List α) (state : σ),
      ((mapThreading f as state).1.flatMap (·.nodes)).countP p + ledger state ≤
        (as.flatMap owed).countP p + ledger (mapThreading f as state).2
  | [], _ => Nat.le_refl _
  | a :: rest, state => by
    have hfirst := hf a state
    have hrest := mapThreading_ledger owed ledger hf rest (f a state).2
    rw [mapThreading_cons]
    simp only [List.flatMap_cons, List.countP_append]
    omega

/-- The nodes of a result are paid for by what its resolution adds to the log, apart from the
reference that stands for a missing token. -/
theorem resolveAt_ledger (hp : p .truncated = false) (room : Nat) (path : List TypeToken)
    (bindings : Bindings) (token : TypeToken) (expanded : Array TypeToken) :
    (md.resolveAt room path bindings token expanded).1.nodes.countP p + md.ledger p expanded ≤
      (md.gap token).countP p + md.ledger p (md.resolveAt room path bindings token expanded).2 := by
  refine resolveAt_induction
    (motive := fun token expanded result => result.1.nodes.countP p + md.ledger p expanded ≤
      (md.gap token).countP p + md.ledger p result.2)
    (fun token expanded => ?guard) (fun token expanded hmissing => ?missing)
    (fun room path bindings token expanded definition _ hdefinition ih => ?expand)
    room path bindings token expanded
  case guard =>
    rw [SourceType.nodes, List.countP_singleton, hp]
    simp
  case missing =>
    rw [gap, hmissing]
    exact Nat.le_refl _
  case expand =>
    intro parts
    have hparts : (parts.1.flatMap (·.nodes)).countP p + md.ledger p (expanded.push token) ≤
        ((md.next bindings token).flatMap (md.gap ·.2)).countP p + md.ledger p parts.2 :=
      mapThreading_ledger (fun next : Bindings × TypeToken => md.gap next.2) (md.ledger p) ih _ _
    rw [ledger_push] at hparts
    have hassemble := countP_assemble_le (p := p) hdefinition parts.1 (length_mapThreading ..)
    dsimp only
    omega

theorem size_resolveAt_le (room : Nat) (path : List TypeToken) (bindings : Bindings)
    (token : TypeToken) (expanded : Array TypeToken) (hsize : expanded.size ≤ maxTypeNodes) :
    (md.resolveAt room path bindings token expanded).2.size ≤ maxTypeNodes := by
  revert hsize
  refine resolveAt_induction
    (motive := fun _ expanded result =>
      expanded.size ≤ maxTypeNodes → result.2.size ≤ maxTypeNodes)
    (fun _ _ => id) (fun _ _ _ => id) ?_ room path bindings token expanded
  intro room path bindings token expanded definition hroom _ ih _ _
  refine mapThreading_keeps (fun next state => ih next state) _ _ ?_
  rw [Array.size_push]
  exact hroom

/-- A token that is missing leaves nothing in the log. -/
theorem gap_eq_nil_or_log_eq_empty (md : Metadata) (bindings : Bindings) (token : TypeToken) :
    md.gap token = [] ∨ (md.resolveLogged bindings token).2 = #[] := by
  cases h : md.typeDef? token with
  | some definition => exact .inl (gap_of_typeDef? h)
  | none =>
      rw [resolveLogged, maxTypeDepth, resolveAt_missing (by decide) List.not_mem_nil h]
      exact .inr rfl

theorem not_isBuilt_of_mem_gap {node : SourceType} (h : node ∈ md.gap token) : ¬ node.isBuilt := by
  rw [gap] at h
  split at h
  · rw [List.mem_singleton.1 h]
    exact Bool.false_ne_true
  · cases h

theorem not_isBuilt_of_mem_openParams {node : SourceType} (h : node ∈ md.openParams token) :
    ¬ node.isBuilt := by
  rw [openParams] at h
  split at h
  · obtain ⟨name, -, rfl⟩ := List.mem_map.1 h
    exact Bool.false_ne_true
  · cases h

theorem not_isBuilt_of_mem_uncounted {node : SourceType} (h : node ∈ md.uncounted token) :
    ¬ node.isBuilt := by
  rw [uncounted] at h
  split at h
  · exact not_isBuilt_of_mem_openParams h
  · split at h
    · exact not_isBuilt_of_mem_openParams h
    · obtain ⟨arg, -, harg⟩ := List.mem_flatMap.1 h
      exact not_isBuilt_of_mem_gap harg
  · split at h
    · cases h
    · exact not_isBuilt_of_mem_gap h
  · exact not_isBuilt_of_mem_gap h
  · exact not_isBuilt_of_mem_gap h
  · cases h
  · cases h

theorem countP_resolveType_le (hp : p .truncated = false) (bindings : Bindings)
    (token : TypeToken) :
    let log := (md.resolveLogged bindings token).2
    (md.resolveType bindings token).nodes.countP p ≤
      log.size + (md.gap token ++ log.toList.flatMap md.uncounted).countP p := by
  intro log
  have hledger : (md.resolveType bindings token).nodes.countP p ≤
      (md.gap token).countP p + md.ledger p log :=
    resolveAt_ledger hp maxTypeDepth [] bindings token #[]
  rw [ledger] at hledger
  rw [List.countP_append]
  omega

/-- One resolution expands no more tokens than the cap, and it makes no more nodes than it expands
tokens as long as unresolved references and open parameters do not count. Where they do, what the
tokens bring along comes on top. So the cap holds for all nodes if no token brings any along, and
it is missed at most by as many nodes for each token as the widest of them brings. -/
theorem nodes_resolveType_le (md : Metadata) (bindings : Bindings) (token : TypeToken) :
    let log := (md.resolveLogged bindings token).2
    log.size ≤ maxTypeNodes ∧
    (md.resolveType bindings token).nodes.countP (·.isBuilt) ≤ log.size ∧
    (md.resolveType bindings token).nodeCount ≤
      log.size + (md.gap token ++ log.toList.flatMap md.uncounted).length ∧
    ∀ width, (∀ met ∈ log, (md.uncounted met).length ≤ width) →
      (md.resolveType bindings token).nodeCount ≤ maxTypeNodes * (width + 1) := by
  intro log
  have hsize : log.size ≤ maxTypeNodes := size_resolveAt_le _ _ _ _ _ (Nat.zero_le _)
  have hbuilt : (md.gap token ++ log.toList.flatMap md.uncounted).countP (·.isBuilt) = 0 := by
    rw [List.countP_eq_zero]
    intro node hnode
    rcases List.mem_append.1 hnode with hgap | hlog
    · exact not_isBuilt_of_mem_gap hgap
    · obtain ⟨met, -, hmet⟩ := List.mem_flatMap.1 hlog
      exact not_isBuilt_of_mem_uncounted hmet
  have hcount : (md.resolveType bindings token).nodeCount ≤
      log.size + (md.gap token ++ log.toList.flatMap md.uncounted).length :=
    Nat.le_trans (countP_resolveType_le rfl bindings token)
      (Nat.add_le_add_left List.countP_le_length _)
  refine ⟨hsize, ?_, hcount, fun width hwidth => ?_⟩
  · have h : (md.resolveType bindings token).nodes.countP (·.isBuilt) ≤ log.size + _ :=
      countP_resolveType_le rfl bindings token
    rwa [hbuilt] at h
  · rw [List.length_append] at hcount
    rcases gap_eq_nil_or_log_eq_empty md bindings token with hgap | hlog
    · have hbrought : (log.toList.flatMap md.uncounted).length ≤ log.size * width :=
        length_flatMap_le fun met hmet => hwidth met (Array.mem_def.2 hmet)
      rw [hgap, List.length_nil] at hcount
      calc (md.resolveType bindings token).nodeCount
        _ ≤ log.size + log.size * width := by omega
        _ = log.size * (width + 1) := by rw [Nat.mul_succ, Nat.add_comm]
        _ ≤ maxTypeNodes * (width + 1) := Nat.mul_le_mul_right _ hsize
    · -- The type is a single reference: nothing was expanded.
      have hgap := length_gap_le md token
      rw [show log = #[] from hlog] at hcount
      rw [Array.size_empty, Array.toList_empty, List.flatMap_nil, List.length_nil] at hcount
      rw [maxTypeNodes]
      omega

/-- An instance of a pair whose arguments are the same array of numbers. -/
def pairOfArrays : Metadata :=
  { types := .ofList
      [(1, .named { name := "Pair`2", genericParams := ["A", "B"] }),
        (2, .genericInstance ⟨1⟩ [⟨3⟩, ⟨3⟩]), (3, .array ⟨4⟩ 1),
        (4, .named { name := "Int32", space := some "System" })] }

theorem nodes_pairOfArrays :
    (∀ met ∈ (pairOfArrays.resolveLogged {} ⟨2⟩).2, (pairOfArrays.uncounted met).length ≤ 0) ∧
      (pairOfArrays.resolveType {} ⟨2⟩).nodeCount ≤ maxTypeNodes := by
  have hlog : ∀ met ∈ (pairOfArrays.resolveLogged {} ⟨2⟩).2,
      (pairOfArrays.uncounted met).length ≤ 0 := by
    decide
  exact ⟨hlog, (nodes_resolveType_le pairOfArrays {} ⟨2⟩).2.2.2 0 hlog⟩

/-! ## Where the cap is missed -/

/-- A definition without parameters, and an instance of it with missing arguments. -/
def missingArguments (count : Nat) : Metadata :=
  { types := .ofList
      [(1, .named { name := "Row" }), (2, .genericInstance ⟨1⟩ (List.replicate count ⟨3⟩))] }

/-- Only definitions of the namespace `System` and the type of no value have a spelling of their
own. -/
theorem resolveNamed_of_space (hunit : type.isForeignUnit = false)
    (hspace : type.space ≠ some "System") (args : List SourceType) :
    md.resolveNamed type args = md.spellNested type args := by
  have hsystem : (type.space == some "System") = false := beq_false_of_ne hspace
  have hkeyword : type.keyword? = none := by
    rw [NamedType.keyword?, hsystem]
    rfl
  have hnullable : type.isNullable = false := by
    rw [NamedType.isNullable, hsystem, Bool.false_and]
  have htuple : type.isValueTuple = false := by
    rw [NamedType.isValueTuple, hsystem, Bool.false_and]
  rcases args with _ | ⟨first, _ | ⟨second, rest⟩⟩ <;>
    simp [resolveNamed, hunit, hkeyword, hnullable, htuple]

/-- No number of tokens is a cap for the nodes: the missing arguments come on top. -/
theorem nodeCount_missingArguments (count : Nat) :
    ((missingArguments count).resolveType {} ⟨2⟩).nodeCount = count + 1 := by
  have hinstance : (missingArguments count).typeDef? ⟨2⟩ =
      some (.genericInstance ⟨1⟩ (List.replicate count ⟨3⟩)) := rfl
  have hdefinition : (missingArguments count).typeDef? ⟨1⟩ = some (.named { name := "Row" }) := rfl
  have hmissing : (missingArguments count).typeDef? ⟨3⟩ = none := rfl
  have hnext : (missingArguments count).next {} ⟨2⟩ = List.replicate count ({}, ⟨3⟩) := by
    rw [next, hinstance]
    exact List.map_replicate
  have hpart : (missingArguments count).resolveAt 31 [⟨2⟩] {} ⟨3⟩ #[⟨2⟩] =
      (.unresolved, #[⟨2⟩]) :=
    resolveAt_missing (by decide) (by decide) hmissing
  have hparts := mapThreading_replicate (a := (({} : Bindings), (⟨3⟩ : TypeToken)))
    (f := fun next => (missingArguments count).resolveAt 31 [⟨2⟩] next.1 next.2) hpart count
  have htype : (missingArguments count).resolveType {} ⟨2⟩ =
      (missingArguments count).spellNested { name := "Row" }
        (List.replicate count .unresolved) := by
    rw [resolveType, resolveLogged, maxTypeDepth,
      resolveAt_succ (by decide) List.not_mem_nil hinstance, hnext]
    dsimp only
    rw [List.push_toArray, List.nil_append, hparts, assemble, hinstance]
    dsimp only
    rw [hdefinition]
    exact resolveNamed_of_space (by decide) (by decide) _
  have hargs : ∀ args : List SourceType,
      (if args.isEmpty then ([] : List String).map SourceType.genericParam else args) = args := by
    intro args
    cases args <;> rfl
  rw [htype, SourceType.nodeCount, nodes_spellNested, hargs]
  simp [List.countP_flatMap, SourceType.nodes, SourceType.isTruncated, spellNested]

theorem missingArguments_exceed_cap :
    ¬ ((missingArguments maxTypeNodes).resolveType {} ⟨2⟩).nodeCount ≤ maxTypeNodes := by
  rw [nodeCount_missingArguments]
  exact Nat.not_succ_le_self _

end Metadata

end Unmangle
