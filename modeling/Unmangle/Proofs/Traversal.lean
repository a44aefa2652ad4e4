import Unmangle.Exception.Walk

/-!
# The walk is a depth-first traversal

The walk keeps a stack of its own, and what is pending on it was put there while the exceptions
seen were others than those seen when its turn comes. Here the same search is written as anyone
would write it first: visiting an exception visits the exceptions nested in it, one after the
other, and each of these visits starts from what the one before it has seen.

`walk_eq_traverse` says that the two give the same events, and in the same order. The stack is
related to the recursion one item at a time: what the walk makes of a stack is what the traversal
makes of its first item, followed by what the walk makes of the rest under the exceptions seen by
then. Nothing is assumed of the graph, which may be cyclic and may have links that lead out of it.
-/

namespace Unmangle.Traversal

/-- The exceptions entered so far, each with its ordinal, oldest first. -/
abbrev Seen := List (ExceptionId × Nat)

def Seen.ids (seen : Seen) : List ExceptionId := seen.map (·.1)

/-- What a part of the traversal gives, and what has been seen after it. -/
structure Trail (before : Seen) where
  events : List WalkEvent
  after : Seen
  grows : before <+: after

theorem unseen_le_of_grows {g : ExceptionGraph} {before after : Seen} (h : before <+: after) :
    Walk.unseen g after.ids ≤ Walk.unseen g before.ids := by
  rw [Walk.unseen, Walk.unseen, ← List.countP_eq_length_filter, ← List.countP_eq_length_filter]
  refine List.countP_mono_left fun id _ hid => ?_
  simp only [decide_eq_true_eq] at hid ⊢
  exact fun hmem => hid ((h.map (·.1)).subset hmem)

theorem not_mem_ids {seen : Seen} {id : ExceptionId} (h : seen.lookup id = none) :
    id ∉ seen.ids := by
  simp only [Seen.ids, List.mem_map, not_exists, not_and]
  rintro entry hentry rfl
  exact absurd (List.lookup_eq_none_iff.1 h entry hentry) (by simp)

theorem unseen_enter_lt {g : ExceptionGraph} {seen : Seen} {id : ExceptionId}
    {record : ExceptionRecord} (hnew : seen.lookup id = none) (hfound : g.get? id = some record)
    (ordinal : Nat) :
    Walk.unseen g (Seen.ids (seen ++ [(id, ordinal)])) < Walk.unseen g seen.ids := by
  rw [Seen.ids, List.map_append]
  exact Walk.unseen_concat_lt (not_mem_ids hnew) (Walk.lt_size_of_get? hfound)

mutual

/-- Visits one exception at some depth. -/
def visit (g : ExceptionGraph) (limit : Nat) (seen : Seen) (id : ExceptionId) (depth : Nat) :
    Trail seen :=
  match _new : seen.lookup id with
  | some ordinal => ⟨[.duplicate ordinal depth], seen, List.prefix_rfl⟩
  | none =>
    if limit ≤ depth then ⟨[.truncated depth], seen, List.prefix_rfl⟩
    else
      match _found : g.get? id with
      | none => ⟨[.missing id depth], seen, List.prefix_rfl⟩
      | some record =>
        let ordinal := seen.length + 1
        let inside := visitAll g limit (seen ++ [(id, ordinal)]) record.nested (depth + 1)
        { events :=
            .enter id depth ordinal :: inside.events ++ if depth = 0 then [] else [.leave depth]
          after := inside.after
          grows := (List.prefix_append _ _).trans inside.grows }
termination_by (Walk.unseen g seen.ids, 0)
decreasing_by exact .left _ _ (unseen_enter_lt _new _found _)

/-- Visits exceptions in order, each with what has been seen by then. -/
def visitAll (g : ExceptionGraph) (limit : Nat) (seen : Seen) (ids : List ExceptionId)
    (depth : Nat) : Trail seen :=
  match ids with
  | [] => ⟨[], seen, List.prefix_rfl⟩
  | id :: rest =>
    match visit g limit seen id depth with
    | ⟨first, between, grows⟩ =>
      let others := visitAll g limit between rest depth
      ⟨first ++ others.events, others.after, grows.trans others.grows⟩
termination_by (Walk.unseen g seen.ids, ids.length + 1)
decreasing_by
  · exact .right _ (by simp)
  · rcases Nat.lt_or_eq_of_le (unseen_le_of_grows (g := g) grows) with hlt | heq
    · exact .left _ _ hlt
    · rw [heq]
      exact .right _ (by simp)

end

/-- The events of the traversal from `root`, where nothing has been seen. -/
def traverse (g : ExceptionGraph) (root : ExceptionId) (maxDepth : Nat) : List WalkEvent :=
  (visit g (max maxDepth 1) [] root 0).events

section Equations

variable {g : ExceptionGraph} {limit depth : Nat} {seen : Seen} {id : ExceptionId}

theorem visit_duplicate {ordinal : Nat} (h : seen.lookup id = some ordinal) :
    visit g limit seen id depth = ⟨[.duplicate ordinal depth], seen, List.prefix_rfl⟩ := by
  rw [visit]
  split
  · next found hfound => rw [Option.some.inj (hfound.symm.trans h)]
  · next hnew => rw [h] at hnew; cases hnew

theorem visit_truncated (hnew : seen.lookup id = none) (hdeep : limit ≤ depth) :
    visit g limit seen id depth = ⟨[.truncated depth], seen, List.prefix_rfl⟩ := by
  rw [visit]
  split
  · next found hfound => rw [hnew] at hfound; cases hfound
  · rw [if_pos hdeep]

theorem visit_missing (hnew : seen.lookup id = none) (hshallow : depth < limit)
    (h : g.get? id = none) :
    visit g limit seen id depth = ⟨[.missing id depth], seen, List.prefix_rfl⟩ := by
  rw [visit]
  split
  · next found hfound => rw [hnew] at hfound; cases hfound
  · rw [if_neg (Nat.not_le.2 hshallow)]
    split
    · rfl
    · next record hfound => rw [h] at hfound; cases hfound

theorem visit_enter {record : ExceptionRecord} (hnew : seen.lookup id = none)
    (hshallow : depth < limit) (h : g.get? id = some record) :
    visit g limit seen id depth =
      let inside :=
        visitAll g limit (seen ++ [(id, seen.length + 1)]) record.nested (depth + 1)
      { events :=
          .enter id depth (seen.length + 1) ::
            inside.events ++ if depth = 0 then [] else [.leave depth]
        after := inside.after
        grows := (List.prefix_append _ _).trans inside.grows } := by
  rw [visit]
  split
  · next found hfound => rw [hnew] at hfound; cases hfound
  · rw [if_neg (Nat.not_le.2 hshallow)]
    split
    · next hmissing => rw [h] at hmissing; cases hmissing
    · next found hfound => cases hfound.symm.trans h; rfl

theorem visitAll_nil : visitAll g limit seen [] depth = ⟨[], seen, List.prefix_rfl⟩ := by
  rw [visitAll]

theorem visitAll_cons {rest : List ExceptionId} :
    visitAll g limit seen (id :: rest) depth =
      let first := visit g limit seen id depth
      let others := visitAll g limit first.after rest depth
      ⟨first.events ++ others.events, others.after, first.grows.trans others.grows⟩ := by
  rw [visitAll]

end Equations

/-! ## Ordinals

An exception is entered under the number of exceptions seen with it, so what the traversal
remembers is the list of ids that the walk keeps, numbered from one. -/

/-- The exceptions seen are numbered in their order. -/
def Seen.Numbered (seen : Seen) : Prop := seen = seen.ids.zipIdx 1

theorem lookup_zipIdx (id : ExceptionId) (ids : List ExceptionId) :
    ∀ first : Nat, (ids.zipIdx first).lookup id = (ids.idxOf? id).map (· + first) := by
  induction ids with
  | nil => intro first; rfl
  | cons head rest ih =>
      intro first
      rw [List.zipIdx_cons, List.lookup_cons, List.idxOf?_cons]
      by_cases h : id = head
      · simp [h]
      · rw [beq_false_of_ne h, beq_false_of_ne (Ne.symm h), ih (first + 1)]
        simp [Function.comp_def, Nat.add_comm, Nat.add_left_comm]

theorem Seen.Numbered.lookup_eq {seen : Seen} (h : seen.Numbered) (id : ExceptionId) :
    seen.lookup id = (seen.ids.idxOf? id).map (· + 1) := by
  conv => lhs; rw [h]
  exact lookup_zipIdx id seen.ids 1

theorem Seen.ids_enter (seen : Seen) (id : ExceptionId) (ordinal : Nat) :
    Seen.ids (seen ++ [(id, ordinal)]) = seen.ids ++ [id] := by
  simp [Seen.ids]

theorem Seen.length_ids (seen : Seen) : seen.ids.length = seen.length := List.length_map ..

theorem Seen.Numbered.enter {seen : Seen} (h : seen.Numbered) (id : ExceptionId) :
    Seen.Numbered (seen ++ [(id, seen.length + 1)]) := by
  rw [Seen.Numbered, Seen.ids_enter, List.zipIdx_append, ← h, Seen.length_ids]
  simp [Nat.add_comm]

/-! ## The stack and the recursion -/

/-- What the walk makes of the first items of its stack is what the traversal makes of them, and
the walk then goes on with what the traversal has seen. -/
def Simulated (g : ExceptionGraph) (limit : Nat) (seen : Seen) (items : List Walk.Pending)
    (trail : Trail seen) : Prop :=
  seen.Numbered → trail.after.Numbered ∧ ∀ rest : List Walk.Pending,
    Walk.events g limit (items ++ rest) seen.ids =
      trail.events ++ Walk.events g limit rest trail.after.ids

theorem Simulated.append {g : ExceptionGraph} {limit : Nat} {seen : Seen}
    {items others : List Walk.Pending} {first : Trail seen} {second : Trail first.after}
    (hfirst : Simulated g limit seen items first)
    (hsecond : Simulated g limit first.after others second) :
    Simulated g limit seen (items ++ others)
      ⟨first.events ++ second.events, second.after, first.grows.trans second.grows⟩ := by
  intro hseen
  obtain ⟨hbetween, hfirst⟩ := hfirst hseen
  obtain ⟨hafter, hsecond⟩ := hsecond hbetween
  refine ⟨hafter, fun rest => ?_⟩
  rw [List.append_assoc, hfirst, hsecond, List.append_assoc]

theorem Simulated.enter {g : ExceptionGraph} {limit : Nat} {seen : Seen} {id : ExceptionId}
    {depth : Nat} {record : ExceptionRecord} (hnew : seen.lookup id = none)
    (hshallow : depth < limit) (hfound : g.get? id = some record)
    (hinside : Simulated g limit (seen ++ [(id, seen.length + 1)])
      (record.nested.map (.visit · (depth + 1)))
      (visitAll g limit (seen ++ [(id, seen.length + 1)]) record.nested (depth + 1))) :
    Simulated g limit seen [.visit id depth] (visit g limit seen id depth) := by
  intro hseen
  obtain ⟨hafter, hevents⟩ := hinside (hseen.enter id)
  rw [visit_enter hnew hshallow hfound]
  refine ⟨hafter, fun rest => ?_⟩
  rw [Seen.ids_enter] at hevents
  rw [List.singleton_append, Walk.events_enter (not_mem_ids hnew) hshallow hfound, Walk.below,
    List.append_assoc, hevents, Seen.length_ids]
  by_cases hroot : depth = 0
  · simp [hroot]
  · simp [hroot]

theorem simulated (g : ExceptionGraph) (limit : Nat) :
    (∀ (seen : Seen) (id : ExceptionId) (depth : Nat),
      Simulated g limit seen [.visit id depth] (visit g limit seen id depth)) ∧
    (∀ (seen : Seen) (ids : List ExceptionId) (depth : Nat),
      Simulated g limit seen (ids.map (.visit · depth)) (visitAll g limit seen ids depth)) := by
  apply visit.mutual_induct
  case case1 =>
    intro seen id depth ordinal hlookup hseen
    have hindex := hseen.lookup_eq id
    rw [hlookup] at hindex
    obtain ⟨index, hat, rfl⟩ := Option.map_eq_some_iff.1 hindex.symm
    rw [visit_duplicate hlookup]
    exact ⟨hseen, fun rest => Walk.events_duplicate hat⟩
  case case2 =>
    intro seen id depth hnew hdeep hseen
    rw [visit_truncated hnew hdeep]
    exact ⟨hseen, fun rest => Walk.events_truncated (not_mem_ids hnew) hdeep⟩
  case case3 =>
    intro seen id depth hnew hshallow hmissing hseen
    rw [visit_missing hnew (Nat.not_le.1 hshallow) hmissing]
    exact ⟨hseen, fun rest =>
      Walk.events_missing (not_mem_ids hnew) (Nat.not_le.1 hshallow) hmissing⟩
  case case4 =>
    intro seen id depth hnew hshallow record hfound _ hinside _
    exact Simulated.enter hnew (Nat.not_le.1 hshallow) hfound hinside
  case case5 =>
    intro seen depth hseen
    rw [visitAll_nil]
    exact ⟨hseen, fun rest => rfl⟩
  case case6 =>
    intro seen depth id rest events between grows hvisit hfirst hothers
    have hrest : Simulated g limit (visit g limit seen id depth).after
        (rest.map (.visit · depth))
        (visitAll g limit (visit g limit seen id depth).after rest depth) := by
      rw [hvisit]
      exact hothers
    rw [visitAll_cons]
    exact hfirst.append hrest

/-- The events of the walk are those of the traversal, whatever the graph looks like. -/
theorem walk_eq_traverse (g : ExceptionGraph) (root : ExceptionId) (maxDepth : Nat) :
    g.walk root maxDepth = traverse g root maxDepth := by
  obtain ⟨-, hevents⟩ := (simulated g (max maxDepth 1)).1 [] root 0 rfl
  have hwhole := hevents []
  rw [Walk.events_nil, List.append_nil, List.append_nil] at hwhole
  exact hwhole

end Unmangle.Traversal
