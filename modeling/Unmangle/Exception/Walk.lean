import Unmangle.Exception.Graph

/-!
# Walking a graph of exceptions

The walk goes depth first from a root along the links and enters each exception once. An exception
met again is only referred to, one at the depth limit is not looked at, and a link out of the
graph is reported. The walk keeps what is still to be done on a stack of its own, so its depth is
not bounded by that of any call stack.

It ends because an exception that is entered leaves the set of those not yet seen, and everything
else takes one item off the stack and puts none on.
-/

namespace Unmangle

inductive WalkEvent where
  /-- The first visit; `ordinal` counts the exceptions entered, from one. -/
  | enter (id : ExceptionId) (depth ordinal : Nat)
  /-- The exception entered as number `ordinal` was met again. -/
  | duplicate (ordinal depth : Nat)
  /-- The depth limit is reached. -/
  | truncated (depth : Nat)
  /-- A link leads out of the graph. -/
  | missing (id : ExceptionId) (depth : Nat)
  /-- Everything below an exception other than the root has been walked. -/
  | leave (depth : Nat)
deriving DecidableEq, Repr

namespace Walk

/-- What is still to be done. -/
inductive Pending where
  | visit (id : ExceptionId) (depth : Nat)
  | leave (depth : Nat)
deriving DecidableEq, Repr

/-- How many exceptions of the graph are not among `seen`. -/
def unseen (g : ExceptionGraph) (seen : List ExceptionId) : Nat :=
  ((List.range g.size).filter (· ∉ seen)).length

/-- What entering an exception puts on the stack: its links and, below the root, its end. -/
def below (record : ExceptionRecord) (depth : Nat) : List Pending :=
  record.nested.map (.visit · (depth + 1)) ++ if depth = 0 then [] else [.leave depth]

theorem unseen_concat_lt {g : ExceptionGraph} {seen : List ExceptionId} {id : ExceptionId}
    (hnew : id ∉ seen) (hid : id < g.size) : unseen g (seen ++ [id]) < unseen g seen := by
  have hfilter : (List.range g.size).filter (· ∉ seen ++ [id]) =
      ((List.range g.size).filter (· ∉ seen)).filter (· ≠ id) := by
    rw [List.filter_filter]
    congr 1
    funext k
    simp [Bool.and_comm]
  rw [unseen, hfilter]
  refine List.length_filter_lt_length_iff_exists.2 ⟨id, ?_, by simp⟩
  simp [hnew, hid]

theorem lt_size_of_get? {g : ExceptionGraph} {id : ExceptionId} {record : ExceptionRecord}
    (h : g.get? id = some record) : id < g.size :=
  (Array.getElem?_eq_some_iff.1 h).1

/-- The events of what is on the stack, where `seen` holds the exceptions entered, oldest first. -/
def events (g : ExceptionGraph) (limit : Nat) (stack : List Pending) (seen : List ExceptionId) :
    List WalkEvent :=
  match stack with
  | [] => []
  | .leave depth :: rest => .leave depth :: events g limit rest seen
  | .visit id depth :: rest =>
    match _seenAt : seen.idxOf? id with
    | some index => .duplicate (index + 1) depth :: events g limit rest seen
    | none =>
      if depth ≥ limit then .truncated depth :: events g limit rest seen
      else
        match _found : g.get? id with
        | none => .missing id depth :: events g limit rest seen
        | some record =>
          .enter id depth (seen.length + 1) ::
            events g limit (below record depth ++ rest) (seen ++ [id])
termination_by (unseen g seen, stack.length)
decreasing_by
  · exact .right _ (by simp)
  · exact .right _ (by simp)
  · exact .right _ (by simp)
  · exact .right _ (by simp)
  · exact .left _ _ (unseen_concat_lt (List.idxOf?_eq_none_iff.1 _seenAt) (lt_size_of_get? _found))

variable {g : ExceptionGraph} {limit depth : Nat} {id : ExceptionId} {rest : List Pending}
  {seen : List ExceptionId}

@[simp]
theorem events_nil : events g limit [] seen = [] := by rw [events]

@[simp]
theorem events_leave :
    events g limit (.leave depth :: rest) seen = .leave depth :: events g limit rest seen := by
  rw [events]

theorem events_duplicate {index : Nat} (h : seen.idxOf? id = some index) :
    events g limit (.visit id depth :: rest) seen =
      .duplicate (index + 1) depth :: events g limit rest seen := by
  rw [events]
  split
  · next found hfound => rw [Option.some.inj (hfound.symm.trans h)]
  · next hnew => rw [h] at hnew; cases hnew

theorem events_truncated (hnew : id ∉ seen) (hdeep : limit ≤ depth) :
    events g limit (.visit id depth :: rest) seen =
      .truncated depth :: events g limit rest seen := by
  rw [events]
  split
  · next found hfound => rw [List.idxOf?_eq_none_iff.2 hnew] at hfound; cases hfound
  · rw [if_pos hdeep]

theorem events_missing (hnew : id ∉ seen) (hshallow : depth < limit) (h : g.get? id = none) :
    events g limit (.visit id depth :: rest) seen =
      .missing id depth :: events g limit rest seen := by
  rw [events]
  split
  · next found hfound => rw [List.idxOf?_eq_none_iff.2 hnew] at hfound; cases hfound
  · rw [if_neg (Nat.not_le.2 hshallow)]
    split
    · rfl
    · next record hrecord => rw [h] at hrecord; cases hrecord

theorem events_enter {record : ExceptionRecord} (hnew : id ∉ seen) (hshallow : depth < limit)
    (h : g.get? id = some record) :
    events g limit (.visit id depth :: rest) seen =
      .enter id depth (seen.length + 1) ::
        events g limit (below record depth ++ rest) (seen ++ [id]) := by
  rw [events]
  split
  · next found hfound => rw [List.idxOf?_eq_none_iff.2 hnew] at hfound; cases hfound
  · rw [if_neg (Nat.not_le.2 hshallow)]
    split
    · next hmissing => rw [h] at hmissing; cases hmissing
    · next found hfound => rw [Option.some.inj (hfound.symm.trans h)]

end Walk

/-- Walks the graph from `root`. Exceptions at depth `maxDepth` and below are cut off, but the
root itself never is. -/
def ExceptionGraph.walk (g : ExceptionGraph) (root : ExceptionId) (maxDepth : Nat) :
    List WalkEvent :=
  Walk.events g (max maxDepth 1) [.visit root 0] []

end Unmangle
