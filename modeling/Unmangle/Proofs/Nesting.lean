import Unmangle.Proofs.Reach
import Mathlib

/-!
# Walks are well nested

Whoever renders a walk reads its events from the first to the last and knows no more than the
events before: an ordinal that is referred to has to have been given out by then, a depth has to
be the number of exceptions that are open, and the end of an exception has to be the end of the
one opened last. The indentation of that line is one level less than the depth, so the root, which
has none, must not end in a line of its own.

What is read so far, what is pending on the stack and what has been seen belong together:
`InStep` says how. It holds at the start, each of the two things that the walk does with the top of
its stack keeps it, and hence it holds at every place where a walk can be split in two
(`inStep_of_split`). The rest is read off there: at a split in front of an event, the top of the
stack is what gave this event, and at the split behind the last one the stack is empty.
-/

namespace Unmangle

/-- The ordinals that events give out, in their order. -/
def ordinals (events : List WalkEvent) : List Nat :=
  events.filterMap fun event =>
    match event with
    | .enter _ _ ordinal => some ordinal
    | _ => none

/-- An exception that has been entered and not left, with its depth. -/
abbrev OpenException := ExceptionId × Nat

namespace WalkEvent

/-- The exceptions open after an event, the innermost first. -/
def apply (opened : List OpenException) : WalkEvent → List OpenException
  | .enter id depth _ => (id, depth) :: opened
  | .leave _ => opened.tail
  | .duplicate _ _ | .truncated _ | .missing _ _ => opened

/-- The depth of a visit is the number of exceptions that are open, and what is left is the
innermost of them, by its own depth, and not the root. -/
def InPlace (opened : List OpenException) : WalkEvent → Prop
  | .enter _ depth _ | .duplicate _ depth | .truncated depth | .missing _ depth =>
    depth = opened.length
  | .leave depth => 1 ≤ depth ∧ ∃ id rest, opened = (id, depth) :: rest

end WalkEvent

/-- The exceptions that are open after events. -/
def opened (events : List WalkEvent) : List OpenException := events.foldl WalkEvent.apply []

/-- How many links an exception of the graph has. -/
def ExceptionGraph.linkCount (g : ExceptionGraph) (id : ExceptionId) : Nat :=
  ((g.get? id).map (·.nested.length)).getD 0

@[simp]
theorem entered_append (before after : List WalkEvent) :
    entered (before ++ after) = entered before ++ entered after := List.filterMap_append

@[simp]
theorem ordinals_append (before after : List WalkEvent) :
    ordinals (before ++ after) = ordinals before ++ ordinals after := List.filterMap_append

@[simp]
theorem opened_concat (before : List WalkEvent) (event : WalkEvent) :
    opened (before ++ [event]) = event.apply (opened before) := by
  simp [opened]

namespace Walk

/-! ## What is pending under open exceptions -/

/-- The exceptions that are open and what is pending for them: visits one level below the
innermost, and then its end, unless it is the root. Before the root has been visited nothing is
open, and nothing ever will be if there is no root. -/
inductive Fits (root : ExceptionId) : List OpenException → List Pending → Prop
  | start : Fits root [] [.visit root 0]
  | rootless : Fits root [] []
  | done : Fits root [(root, 0)] []
  | visit {opened : List OpenException} {rest : List Pending} (id : ExceptionId) :
      opened ≠ [] → Fits root opened rest → Fits root opened (.visit id opened.length :: rest)
  | leave {opened : List OpenException} {rest : List Pending} (id : ExceptionId) :
      opened ≠ [] → Fits root opened rest →
      Fits root ((id, opened.length) :: opened) (.leave opened.length :: rest)

namespace Fits

variable {root : ExceptionId} {opened : List OpenException} {rest : List Pending}

theorem visits (hopen : opened ≠ []) (h : Fits root opened rest) (ids : List ExceptionId) :
    Fits root opened (ids.map (.visit · opened.length) ++ rest) := by
  induction ids with
  | nil => exact h
  | cons id ids ih => exact .visit id hopen ih

/-- What entering an exception opens fits what it puts on the stack. -/
theorem enter {id : ExceptionId} {depth : Nat} (h : Fits root opened (.visit id depth :: rest))
    (record : ExceptionRecord) :
    Fits root ((id, depth) :: opened) (Walk.below record depth ++ rest) := by
  rw [Walk.below, List.append_assoc]
  cases h with
  | start => exact visits (List.cons_ne_nil _ _) .done record.nested
  | visit _ hopen hrest =>
      rw [if_neg (Nat.ne_of_gt (List.length_pos_iff.2 hopen))]
      exact visits (List.cons_ne_nil _ _) (.leave id hopen hrest) record.nested

theorem depth_eq {id : ExceptionId} {depth : Nat}
    (h : Fits root opened (.visit id depth :: rest)) : depth = opened.length := by
  cases h <;> rfl

/-- When nothing is pending any more, nothing but the root is open. -/
theorem eq_of_nil (h : Fits root opened []) : opened = [] ∨ opened = [(root, 0)] := by
  cases h with
  | rootless => exact .inl rfl
  | done => exact .inr rfl

end Fits

/-! ## One step -/

variable {g : ExceptionGraph} {limit : Nat}

/-- What gives an event, and what is then pending and seen. -/
inductive Step (g : ExceptionGraph) (limit : Nat) :
    List Pending → List ExceptionId → WalkEvent → List Pending → List ExceptionId → Prop
  | pass {item : Pending} {rest : List Pending} {seen : List ExceptionId} {event : WalkEvent} :
      Passes g limit seen item event → Step g limit (item :: rest) seen event rest seen
  | enter {id : ExceptionId} {depth : Nat} {rest : List Pending} {seen : List ExceptionId}
      {record : ExceptionRecord} :
      id ∉ seen → g.get? id = some record →
      Step g limit (.visit id depth :: rest) seen (.enter id depth (seen.length + 1))
        (below record depth ++ rest) (seen ++ [id])

theorem step_of_events_eq {stack : List Pending} {seen : List ExceptionId} {event : WalkEvent}
    {after : List WalkEvent} (h : events g limit stack seen = event :: after) :
    ∃ stack' seen', Step g limit stack seen event stack' seen' ∧
      events g limit stack' seen' = after := by
  revert h
  refine events_induction (motive := fun stack seen events => events = event :: after →
    ∃ stack' seen', Step g limit stack seen event stack' seen' ∧
      Walk.events g limit stack' seen' = after) ?nil ?pass ?enter stack seen
  case nil =>
    intro seen h
    cases h
  case pass =>
    rintro item rest seen event hpasses _ ⟨⟩
    exact ⟨rest, seen, .pass hpasses, rfl⟩
  case enter =>
    rintro id depth rest seen record hnew _ hfound _ ⟨⟩
    exact ⟨_, _, .enter hnew hfound, rfl⟩

theorem events_eq_nil {stack : List Pending} {seen : List ExceptionId}
    (h : events g limit stack seen = []) : stack = [] := by
  revert h
  refine events_induction (motive := fun stack _ events => events = [] → stack = [])
    ?nil ?pass ?enter stack seen
  case nil => exact fun _ _ => rfl
  case pass =>
    intro _ _ _ _ _ _ h
    cases h
  case enter =>
    intro _ _ _ _ _ _ _ _ _ h
    cases h

/-- What belongs together in the middle of a walk: the events so far, what is pending, and the
exceptions seen. The last field counts: each event took an item off the stack, and each exception
that was entered put on its links and, below the root, its end. -/
structure InStep (g : ExceptionGraph) (root : ExceptionId) (before : List WalkEvent)
    (stack : List Pending) (seen : List ExceptionId) : Prop where
  entered_eq : entered before = seen
  nodup : seen.Nodup
  within : ∀ id ∈ seen, id < g.size
  ordinals_eq : ordinals before = List.range' 1 seen.length
  fits : Fits root (opened before) stack
  opened_eq_nil : opened before = [] ↔ seen = []
  count : before.length + stack.length =
    seen.length + (seen.map g.linkCount).sum + if seen = [] then 1 else 0

namespace InStep

variable {root : ExceptionId} {before : List WalkEvent} {rest : List Pending}
  {seen : List ExceptionId}

theorem start : InStep g root [] [.visit root 0] [] where
  entered_eq := rfl
  nodup := .nil
  within := by simp
  ordinals_eq := rfl
  fits := .start
  opened_eq_nil := by simp [opened]
  count := rfl

/-- An item that is passed over leaves the exceptions seen as they are. It changes what is open
only if it is the end of the innermost. -/
theorem pass {item : Pending} {event : WalkEvent} (h : InStep g root before (item :: rest) seen)
    (hpasses : Passes g limit seen item event) : InStep g root (before ++ [event]) rest seen := by
  have hopened : Fits root (event.apply (opened before)) rest ∧
      (event.apply (opened before) = [] ↔ opened before = []) := by
    have hfits := h.fits
    generalize opened before = openNow at hfits
    cases hpasses with
    | leave =>
        cases hfits with
        | leave _ hopen hrest => exact ⟨hrest, by simpa [WalkEvent.apply] using hopen⟩
    | duplicate | truncated | missing =>
        cases hfits with
        | start => exact ⟨.rootless, Iff.rfl⟩
        | visit _ _ hrest => exact ⟨hrest, Iff.rfl⟩
  have hordinals : ordinals [event] = [] := by cases hpasses <;> rfl
  exact
    { entered_eq := by
        rw [entered_append, hpasses.entered_cons, h.entered_eq]
        exact List.append_nil seen
      nodup := h.nodup
      within := h.within
      ordinals_eq := by rw [ordinals_append, hordinals, List.append_nil, h.ordinals_eq]
      fits := by rw [opened_concat]; exact hopened.1
      opened_eq_nil := by rw [opened_concat, hopened.2, h.opened_eq_nil]
      count := by
        have := h.count
        simp only [List.length_cons, List.length_append, List.length_nil] at this ⊢
        omega }

theorem enter {id : ExceptionId} {depth : Nat} {record : ExceptionRecord}
    (h : InStep g root before (.visit id depth :: rest) seen) (hnew : id ∉ seen)
    (hfound : g.get? id = some record) :
    InStep g root (before ++ [.enter id depth (seen.length + 1)])
      (below record depth ++ rest) (seen ++ [id]) where
  entered_eq := by rw [entered_append, h.entered_eq]; rfl
  nodup := by
    refine List.nodup_append.2 ⟨h.nodup, List.pairwise_singleton _ id, ?_⟩
    rintro other hother _ hid rfl
    exact hnew (List.mem_singleton.1 hid ▸ hother)
  within := by
    intro other hother
    rcases List.mem_append.1 hother with hseen | hid
    · exact h.within other hseen
    · exact List.mem_singleton.1 hid ▸ lt_size_of_get? hfound
  ordinals_eq := by
    rw [ordinals_append, h.ordinals_eq, List.length_append, List.length_singleton,
      ← List.range'_append_1, Nat.add_comm 1]
    rfl
  fits := by rw [opened_concat]; exact h.fits.enter record
  opened_eq_nil := by simp [WalkEvent.apply]
  count := by
    have hcount := h.count
    have hroot : depth = 0 ↔ seen = [] := by
      rw [h.fits.depth_eq, List.length_eq_zero_iff, h.opened_eq_nil]
    have hlinks : g.linkCount id = record.nested.length := by
      rw [ExceptionGraph.linkCount, hfound, Option.map_some, Option.getD_some]
    have hbelow : (below record depth).length =
        record.nested.length + if seen = [] then 0 else 1 := by
      by_cases hseen : seen = []
      · simp [below, hroot.2 hseen, hseen]
      · simp [below, mt hroot.1 hseen, hseen]
    simp only [List.length_append, List.length_cons, List.length_nil, List.map_append,
      List.sum_append, List.map_cons, List.map_nil, List.sum_cons, List.sum_nil, hlinks,
      hbelow] at hcount ⊢
    rw [if_neg (List.append_ne_nil_of_right_ne_nil seen (List.cons_ne_nil id []))]
    by_cases hseen : seen = []
    · simp only [if_pos hseen] at hcount ⊢
      omega
    · simp only [if_neg hseen] at hcount ⊢
      omega

theorem step {stack stack' : List Pending} {seen' : List ExceptionId} {event : WalkEvent}
    (h : InStep g root before stack seen) (hstep : Step g limit stack seen event stack' seen') :
    InStep g root (before ++ [event]) stack' seen' := by
  cases hstep with
  | pass hpasses => exact h.pass hpasses
  | enter hnew hfound => exact h.enter hnew hfound

/-- What is open when an event comes is what this event is in place with. -/
theorem inPlace {stack stack' : List Pending} {seen' : List ExceptionId} {event : WalkEvent}
    (h : InStep g root before stack seen) (hstep : Step g limit stack seen event stack' seen') :
    event.InPlace (opened before) := by
  have hfits := h.fits
  cases hstep with
  | enter _ _ => exact hfits.depth_eq
  | pass hpasses =>
      cases hpasses with
      | duplicate | truncated | missing => exact hfits.depth_eq
      | leave depth =>
          generalize opened before = openNow at hfits ⊢
          cases hfits with
          | leave id hopen _ => exact ⟨List.length_pos_iff.2 hopen, id, _, rfl⟩

/-- An exception that is met again has its place among those seen, and that is its ordinal. -/
theorem ordinal_mem {stack stack' : List Pending} {seen' : List ExceptionId} {ordinal depth : Nat}
    (h : InStep g root before stack seen)
    (hstep : Step g limit stack seen (.duplicate ordinal depth) stack' seen') :
    ordinal ∈ ordinals before := by
  cases hstep with
  | pass hpasses =>
      cases hpasses with
      | duplicate _ hindex =>
          obtain ⟨hlt, -⟩ := List.idxOf?_eq_some_iff.1 hindex
          rw [h.ordinals_eq, List.mem_range'_1]
          omega

end InStep

/-! ## The whole run -/

theorem inStep_of_events_eq {root : ExceptionId} (more : List WalkEvent) :
    ∀ {before : List WalkEvent} {stack : List Pending} {seen : List ExceptionId}
      {after : List WalkEvent}, InStep g root before stack seen →
      events g limit stack seen = more ++ after →
      ∃ stack' seen', InStep g root (before ++ more) stack' seen' ∧
        events g limit stack' seen' = after := by
  induction more with
  | nil =>
      intro before stack seen after h hevents
      rw [List.append_nil]
      exact ⟨stack, seen, h, hevents⟩
  | cons event more ih =>
      intro before stack seen after h hevents
      rw [List.append_cons]
      obtain ⟨stack', seen', hstep, hrest⟩ := step_of_events_eq hevents
      exact ih (h.step hstep) hrest

end Walk

namespace ExceptionGraph

variable {g : ExceptionGraph} {root : ExceptionId} {maxDepth : Nat}

/-- Wherever a walk is split, its two parts meet in step. -/
theorem inStep_of_split {before after : List WalkEvent}
    (h : g.walk root maxDepth = before ++ after) :
    ∃ stack seen, Walk.InStep g root before stack seen ∧
      Walk.events g (max maxDepth 1) stack seen = after :=
  Walk.inStep_of_events_eq before .start h

/-- At the end nothing is pending. -/
theorem inStep_walk :
    Walk.InStep g root (g.walk root maxDepth) [] (entered (g.walk root maxDepth)) := by
  obtain ⟨stack, seen, h, hdone⟩ := inStep_of_split (List.append_nil (g.walk root maxDepth)).symm
  cases Walk.events_eq_nil hdone
  rw [h.entered_eq]
  exact h

theorem inPlace_of_split {before after : List WalkEvent} {event : WalkEvent}
    (h : g.walk root maxDepth = before ++ event :: after) : event.InPlace (opened before) := by
  obtain ⟨stack, seen, hstep, hnext⟩ := inStep_of_split h
  obtain ⟨_, _, hevent, -⟩ := Walk.step_of_events_eq hnext
  exact hstep.inPlace hevent

/-- A reference is to an ordinal that has been given out before. -/
theorem ordinal_mem_of_duplicate {before after : List WalkEvent} {ordinal depth : Nat}
    (h : g.walk root maxDepth = before ++ .duplicate ordinal depth :: after) :
    ordinal ∈ ordinals before := by
  obtain ⟨stack, seen, hstep, hnext⟩ := inStep_of_split h
  obtain ⟨_, _, hevent, -⟩ := Walk.step_of_events_eq hnext
  exact hstep.ordinal_mem hevent

/-- Only exceptions of the graph are entered. -/
theorem contains_of_mem_entered {id : ExceptionId} (h : id ∈ entered (g.walk root maxDepth)) :
    g.contains id = true :=
  decide_eq_true (inStep_walk.within id h)

theorem entered_eq_nil_iff : entered (g.walk root maxDepth) = [] ↔ g.contains root = false := by
  constructor
  · intro h
    refine Bool.eq_false_iff.2 fun hroot => ?_
    exact List.ne_nil_of_mem (root_mem_entered hroot) h
  · intro hroot
    have hmissing : g.get? root = none :=
      Array.getElem?_eq_none (Nat.not_lt.1 (of_decide_eq_false hroot))
    rw [walk, Walk.events_missing List.not_mem_nil (by omega) hmissing, Walk.events_nil]
    rfl

/-- In the end nothing but the root is open, and that only if there is a root. -/
theorem opened_walk :
    opened (g.walk root maxDepth) = if g.contains root then [(root, 0)] else [] := by
  have hend : Walk.InStep g root (g.walk root maxDepth) [] _ := inStep_walk
  cases hroot : g.contains root with
  | false =>
      exact hend.opened_eq_nil.2 (entered_eq_nil_iff.2 hroot)
  | true =>
      rcases hend.fits.eq_of_nil with hnone | hopen
      · have := entered_eq_nil_iff.1 (hend.opened_eq_nil.1 hnone)
        rw [hroot] at this
        cases this
      · exact hopen

theorem length_walk (hroot : g.contains root = true) :
    (g.walk root maxDepth).length =
      (entered (g.walk root maxDepth)).length +
        ((entered (g.walk root maxDepth)).map g.linkCount).sum := by
  have hne : entered (g.walk root maxDepth) ≠ [] :=
    List.ne_nil_of_mem (root_mem_entered hroot)
  have hend : Walk.InStep g root (g.walk root maxDepth) [] _ := inStep_walk
  rw [← Nat.add_zero (List.length _), ← List.length_nil, hend.count, if_neg hne]
  rfl

/-- What a graph has to offer to a walk: each exception once, each of its links once, and the
visit to the root. -/
def walkBound (g : ExceptionGraph) : Nat :=
  g.size + ((List.range g.size).map g.linkCount).sum + 1

theorem length_walk_le : (g.walk root maxDepth).length ≤ g.walkBound := by
  have hend : Walk.InStep g root (g.walk root maxDepth) [] _ := inStep_walk
  have hsub : (entered (g.walk root maxDepth)).Subperm (List.range g.size) :=
    hend.nodup.subperm fun id hid => List.mem_range.2 (hend.within id hid)
  have hlength := hsub.length_le
  rw [List.length_range] at hlength
  obtain ⟨ids, hperm, hids⟩ := hsub
  have hlinks := (hids.map g.linkCount).sum_le_sum fun _ _ => Nat.zero_le _
  rw [(hperm.map g.linkCount).sum_eq] at hlinks
  have hcount := hend.count
  have hvisit : (if entered (g.walk root maxDepth) = [] then 1 else 0) ≤ 1 := by
    split
    · exact Nat.le_refl 1
    · exact Nat.zero_le 1
  rw [List.length_nil] at hcount
  rw [walkBound]
  omega

/-- What holds of the events of every walk: it ends, after a number of events that the graph
bounds; each exception is entered once, under the next ordinal; references go back to ordinals
given out before; events are in place between those that open and those that close; and what is
entered counts the events and, where nothing is cut off, is all that can be reached. -/
theorem walk_wellNested (g : ExceptionGraph) (root : ExceptionId) (maxDepth : Nat) :
    (g.walk root maxDepth).length ≤ g.walkBound ∧
    (entered (g.walk root maxDepth)).Nodup ∧
    ordinals (g.walk root maxDepth) =
      List.range' 1 (entered (g.walk root maxDepth)).length ∧
    (∀ before ordinal depth after,
      g.walk root maxDepth = before ++ .duplicate ordinal depth :: after →
      ordinal ∈ ordinals before) ∧
    (∀ before event after, g.walk root maxDepth = before ++ event :: after →
      event.InPlace (opened before)) ∧
    opened (g.walk root maxDepth) = (if g.contains root then [(root, 0)] else []) ∧
    (g.contains root = true →
      (g.walk root maxDepth).length =
        (entered (g.walk root maxDepth)).length +
          ((entered (g.walk root maxDepth)).map g.linkCount).sum) ∧
    ((∀ depth, .truncated depth ∉ g.walk root maxDepth) →
      ∀ id, id ∈ entered (g.walk root maxDepth) ↔
        g.contains id = true ∧ ∃ length, g.Path root length id) := by
  refine ⟨length_walk_le, inStep_walk.nodup, inStep_walk.ordinals_eq, ?_, ?_, opened_walk,
    length_walk, ?_⟩
  · exact fun before ordinal depth after => ordinal_mem_of_duplicate
  · exact fun before event after => inPlace_of_split
  · intro hfull id
    constructor
    · intro hid
      obtain ⟨depth, ordinal, henter⟩ := mem_entered.1 hid
      exact ⟨contains_of_mem_entered hid, depth, (path_of_enter henter).1⟩
    · rintro ⟨hin, length, hpath⟩
      exact mem_entered_of_path hfull hpath hin

end ExceptionGraph

end Unmangle
