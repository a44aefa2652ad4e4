import Unmangle.Exception.Walk

/-!
# What a walk enters

A walk follows links, so it enters an exception only along a path from the root, and it enters
everything that is linked to an exception it has entered above the last level. Both are read off
the stack: every visit that is pending stands at the end of a path as long as its depth, and
every visit that is pending below the limit is made sooner or later, unless another one made it
unnecessary in the meantime.
-/

namespace Unmangle

/-- The exception that an event enters. -/
def WalkEvent.entered? : WalkEvent → Option ExceptionId
  | .enter id _ _ => some id
  | _ => none

/-- The exceptions entered by a walk, in their order. -/
def entered (events : List WalkEvent) : List ExceptionId :=
  events.filterMap (·.entered?)

theorem mem_entered {events : List WalkEvent} {id : ExceptionId} :
    id ∈ entered events ↔ ∃ depth ordinal, .enter id depth ordinal ∈ events := by
  simp only [entered, List.mem_filterMap]
  constructor
  · rintro ⟨event, hevent, hid⟩
    cases event with
    | enter found depth ordinal =>
        cases hid
        exact ⟨depth, ordinal, hevent⟩
    | duplicate | truncated | missing | leave => cases hid
  · rintro ⟨depth, ordinal, hevent⟩
    exact ⟨_, hevent, rfl⟩

@[simp]
theorem entered_enter (id : ExceptionId) (depth ordinal : Nat) (events : List WalkEvent) :
    entered (.enter id depth ordinal :: events) = id :: entered events := rfl

/-! ## Paths of links -/

namespace ExceptionGraph

/-- The second exception is nested in the first. -/
def Links (g : ExceptionGraph) (id link : ExceptionId) : Prop :=
  ∃ record, g.get? id = some record ∧ link ∈ record.nested

/-- No link leads out of the graph. -/
def Closed (g : ExceptionGraph) : Prop :=
  ∀ id link, g.Links id link → g.contains link = true

theorem links_iff {g : ExceptionGraph} {id link : ExceptionId} :
    g.Links id link ↔ (g.get? id).any (link ∈ ·.nested) = true := by
  rw [Links]
  cases g.get? id <;> simp

instance (g : ExceptionGraph) (id link : ExceptionId) : Decidable (g.Links id link) :=
  decidable_of_iff _ links_iff.symm

theorem closed_iff {g : ExceptionGraph} :
    g.Closed ↔ ∀ id < g.size, ∀ record ∈ g.get? id, ∀ link ∈ record.nested,
      g.contains link = true := by
  constructor
  · intro hclosed id _ record hfound link hlink
    exact hclosed id link ⟨record, hfound, hlink⟩
  · rintro hall id link ⟨record, hfound, hlink⟩
    exact hall id (Walk.lt_size_of_get? hfound) record hfound link hlink

theorem closed_iff_children {g : ExceptionGraph} :
    g.Closed ↔ ∀ id record, g.get? id = some record →
      (∀ child ∈ record.children, child < g.size) ∧ ∀ inner ∈ record.inner, inner < g.size := by
  constructor
  · intro hclosed id record hfound
    have hlinks : ∀ link ∈ record.nested, link < g.size := fun link hlink =>
      of_decide_eq_true (hclosed id link ⟨record, hfound, hlink⟩)
    exact ⟨fun child hchild => hlinks child (ExceptionRecord.mem_nested.2 (.inl hchild)),
      fun inner hinner => hlinks inner (ExceptionRecord.mem_nested.2 (.inr hinner))⟩
  · rintro hall id link ⟨record, hfound, hlink⟩
    obtain ⟨hchildren, hinner⟩ := hall id record hfound
    rcases ExceptionRecord.mem_nested.1 hlink with hchild | hcause
    · exact decide_eq_true (hchildren link hchild)
    · exact decide_eq_true (hinner link hcause)

instance (g : ExceptionGraph) : Decidable g.Closed :=
  decidable_of_iff _ closed_iff.symm

/-- So many links lead from the first exception to the second. -/
inductive Path (g : ExceptionGraph) (start : ExceptionId) : Nat → ExceptionId → Prop
  | here : Path g start 0 start
  | step {length : Nat} {id link : ExceptionId} :
      Path g start length id → g.Links id link → Path g start (length + 1) link

/-- The length of the shortest path. -/
def IsDistance (g : ExceptionGraph) (start id : ExceptionId) (distance : Nat) : Prop :=
  g.Path start distance id ∧ ∀ length, g.Path start length id → distance ≤ length

variable {g : ExceptionGraph}

theorem exists_get?_of_contains {id : ExceptionId} (h : g.contains id = true) :
    ∃ record, g.get? id = some record :=
  ⟨_, Array.getElem?_eq_getElem (of_decide_eq_true h)⟩

theorem exists_isDistance {start id : ExceptionId} : ∀ {length : Nat},
    g.Path start length id → ∃ distance ≤ length, g.IsDistance start id distance
  | length, hpath => by
    by_cases hshorter : ∃ shorter < length, g.Path start shorter id
    · obtain ⟨shorter, hlt, hpath⟩ := hshorter
      obtain ⟨distance, hle, hdistance⟩ := exists_isDistance hpath
      exact ⟨distance, by omega, hdistance⟩
    · refine ⟨length, Nat.le_refl _, hpath, fun other hother => ?_⟩
      exact Nat.not_lt.1 fun hlt => hshorter ⟨other, hlt, hother⟩

theorem Path.two_le {start id : ExceptionId} {length : Nat} (h : g.Path start length id)
    (hne : id ≠ start) (hlink : ¬ g.Links start id) : 2 ≤ length := by
  cases h with
  | here => exact absurd rfl hne
  | step hpath hlast =>
      cases hpath with
      | here => exact absurd hlast hlink
      | step _ _ => omega

end ExceptionGraph

/-! ## One step of the walk -/

namespace Walk

/-- The events that take an item off the stack and put none on. -/
inductive Passes (g : ExceptionGraph) (limit : Nat) (seen : List ExceptionId) :
    Pending → WalkEvent → Prop
  | leave (depth : Nat) : Passes g limit seen (.leave depth) (.leave depth)
  | duplicate {id : ExceptionId} (depth : Nat) {index : Nat} :
      seen.idxOf? id = some index →
      Passes g limit seen (.visit id depth) (.duplicate (index + 1) depth)
  | truncated {id : ExceptionId} {depth : Nat} :
      id ∉ seen → limit ≤ depth → Passes g limit seen (.visit id depth) (.truncated depth)
  | missing {id : ExceptionId} {depth : Nat} :
      id ∉ seen → depth < limit → g.get? id = none →
      Passes g limit seen (.visit id depth) (.missing id depth)

variable {g : ExceptionGraph} {limit : Nat}

theorem Passes.mem_of_enter {seen : List ExceptionId} {item : Pending} {event : WalkEvent}
    (h : Passes g limit seen item event) {id : ExceptionId} {depth ordinal : Nat}
    {events : List WalkEvent} (henter : .enter id depth ordinal ∈ event :: events) :
    .enter id depth ordinal ∈ events := by
  rcases List.mem_cons.1 henter with rfl | hmem
  · cases h
  · exact hmem

theorem Passes.entered_cons {seen : List ExceptionId} {item : Pending} {event : WalkEvent}
    (h : Passes g limit seen item event) (events : List WalkEvent) :
    entered (event :: events) = entered events := by
  cases h <;> rfl

/-- A visit to an exception of the graph is passed over only because it has been made or because
it is at the limit. -/
theorem Passes.mem_seen_or_truncated {seen : List ExceptionId} {id : ExceptionId} {depth : Nat}
    {event : WalkEvent} (h : Passes g limit seen (.visit id depth) event)
    (hid : g.contains id = true) : id ∈ seen ∨ (limit ≤ depth ∧ event = .truncated depth) := by
  cases h with
  | duplicate _ hindex =>
      refine .inl (Classical.byContradiction fun hnew => ?_)
      rw [List.idxOf?_eq_none_iff.2 hnew] at hindex
      cases hindex
  | truncated _ hdeep => exact .inr ⟨hdeep, rfl⟩
  | missing _ _ hmissing =>
      obtain ⟨record, hfound⟩ := ExceptionGraph.exists_get?_of_contains hid
      rw [hmissing] at hfound
      cases hfound

/-- The walk does one of two things with the top of its stack: it passes over it, or it enters an
exception and puts the links of this one in its place. -/
theorem events_induction {motive : List Pending → List ExceptionId → List WalkEvent → Prop}
    (nil : ∀ seen, motive [] seen [])
    (pass : ∀ item rest seen event, Passes g limit seen item event →
      motive rest seen (events g limit rest seen) →
      motive (item :: rest) seen (event :: events g limit rest seen))
    (enter : ∀ id depth rest seen record, id ∉ seen → depth < limit → g.get? id = some record →
      motive (below record depth ++ rest) (seen ++ [id])
        (events g limit (below record depth ++ rest) (seen ++ [id])) →
      motive (.visit id depth :: rest) seen
        (.enter id depth (seen.length + 1) ::
          events g limit (below record depth ++ rest) (seen ++ [id])))
    (stack : List Pending) (seen : List ExceptionId) :
    motive stack seen (events g limit stack seen) := by
  fun_induction events g limit stack seen with
  | case1 seen => exact nil seen
  | case2 seen depth rest ih => exact pass _ _ _ _ (.leave depth) ih
  | case3 seen id depth rest index hindex ih => exact pass _ _ _ _ (.duplicate depth hindex) ih
  | case4 seen id depth rest hnew hdeep ih =>
      exact pass _ _ _ _ (.truncated (List.idxOf?_eq_none_iff.1 hnew) hdeep) ih
  | case5 seen id depth rest hnew hshallow hmissing ih =>
      exact pass _ _ _ _
        (.missing (List.idxOf?_eq_none_iff.1 hnew) (Nat.not_le.1 hshallow) hmissing) ih
  | case6 seen id depth rest hnew hshallow record hfound ih =>
      exact enter _ _ _ _ _ (List.idxOf?_eq_none_iff.1 hnew) (Nat.not_le.1 hshallow) hfound ih

theorem visit_mem_below {record : ExceptionRecord} {depth deeper : Nat} {link : ExceptionId} :
    .visit link deeper ∈ below record depth ↔ link ∈ record.nested ∧ deeper = depth + 1 := by
  rw [below, List.mem_append, List.mem_map]
  constructor
  · rintro (⟨_, hlink, heq⟩ | hleave)
    · cases heq
      exact ⟨hlink, rfl⟩
    · split at hleave
      · cases hleave
      · cases List.mem_singleton.1 hleave
  · rintro ⟨hlink, rfl⟩
    exact .inl ⟨link, hlink, rfl⟩

/-! ## What a whole run enters -/

/-- What holds of every visit that is pending, and is handed on along links by every exception
that is entered, holds of every exception that is entered. -/
theorem enter_invariant (holds : ExceptionId → Nat → Prop) (stack : List Pending)
    (seen : List ExceptionId) :
    (∀ id depth, .visit id depth ∈ stack → holds id depth) →
      (∀ id depth ordinal link, .enter id depth ordinal ∈ events g limit stack seen →
        holds id depth → g.Links id link → holds link (depth + 1)) →
      ∀ id depth ordinal, .enter id depth ordinal ∈ events g limit stack seen →
        holds id depth ∧ depth < limit := by
  refine events_induction (motive := fun stack _ events =>
    (∀ id depth, .visit id depth ∈ stack → holds id depth) →
      (∀ id depth ordinal link, .enter id depth ordinal ∈ events →
        holds id depth → g.Links id link → holds link (depth + 1)) →
      ∀ id depth ordinal, .enter id depth ordinal ∈ events →
        holds id depth ∧ depth < limit) ?nil ?pass ?enter stack seen
  case nil =>
    intro seen _ _ id depth ordinal h
    cases h
  case pass =>
    intro item rest seen event hpasses ih hstack hlinks id depth ordinal h
    refine ih (fun id depth hmem => hstack id depth (List.mem_cons_of_mem _ hmem)) ?_
      id depth ordinal (hpasses.mem_of_enter h)
    exact fun id depth ordinal link hmem =>
      hlinks id depth ordinal link (List.mem_cons_of_mem _ hmem)
  case enter =>
    intro top level rest seen record _ hshallow hfound ih hstack hlinks id depth ordinal h
    have htop : holds top level := hstack top level List.mem_cons_self
    rcases List.mem_cons.1 h with heq | hmem
    · cases heq
      exact ⟨htop, hshallow⟩
    · refine ih (fun link deeper hlink => ?_) (fun id depth ordinal link hmem =>
        hlinks id depth ordinal link (List.mem_cons_of_mem _ hmem)) id depth ordinal hmem
      rcases List.mem_append.1 hlink with hbelow | hrest
      · obtain ⟨hnested, rfl⟩ := visit_mem_below.1 hbelow
        exact hlinks top level _ link List.mem_cons_self htop ⟨record, hfound, hnested⟩
      · exact hstack link deeper (List.mem_cons_of_mem _ hrest)

/-- A visit that is pending comes to nothing only at the limit, and there an event says so. -/
theorem mem_or_truncated_of_pending (stack : List Pending) (seen : List ExceptionId) :
    ∀ id depth, .visit id depth ∈ stack → g.contains id = true →
      id ∈ seen ++ entered (events g limit stack seen) ∨
        (limit ≤ depth ∧ .truncated depth ∈ events g limit stack seen) := by
  refine events_induction (motive := fun stack seen events =>
    ∀ id depth, .visit id depth ∈ stack → g.contains id = true →
      id ∈ seen ++ entered events ∨ (limit ≤ depth ∧ .truncated depth ∈ events))
    ?nil ?pass ?enter stack seen
  case nil =>
    intro seen id depth h
    cases h
  case pass =>
    intro item rest seen event hpasses ih id depth hmem hid
    rw [hpasses.entered_cons]
    rcases List.mem_cons.1 hmem with rfl | hrest
    · rcases hpasses.mem_seen_or_truncated hid with hseen | ⟨hdeep, rfl⟩
      · exact .inl (List.mem_append_left _ hseen)
      · exact .inr ⟨hdeep, List.mem_cons_self⟩
    · exact (ih id depth hrest hid).imp_right (And.imp_right (List.mem_cons_of_mem _))
  case enter =>
    intro top level rest seen record _ _ _ ih id depth hmem hid
    rw [entered_enter, List.append_cons]
    rcases List.mem_cons.1 hmem with heq | hrest
    · cases heq
      exact .inl (List.mem_append_left _ (List.mem_append_right _ (List.mem_singleton.2 rfl)))
    · exact (ih id depth (List.mem_append_right _ hrest) hid).imp_right
        (And.imp_right (List.mem_cons_of_mem _))

/-- What is linked to an exception that is entered is entered too, unless it is cut off. -/
theorem mem_or_truncated_of_link (stack : List Pending) (seen : List ExceptionId) :
    ∀ id depth ordinal, .enter id depth ordinal ∈ events g limit stack seen →
      ∀ link, g.Links id link → g.contains link = true →
        link ∈ seen ++ entered (events g limit stack seen) ∨
          (limit ≤ depth + 1 ∧ .truncated (depth + 1) ∈ events g limit stack seen) := by
  refine events_induction (motive := fun stack seen events =>
    ∀ id depth ordinal, .enter id depth ordinal ∈ events →
      ∀ link, g.Links id link → g.contains link = true →
        link ∈ seen ++ entered events ∨
          (limit ≤ depth + 1 ∧ .truncated (depth + 1) ∈ events)) ?nil ?pass ?enter stack seen
  case nil =>
    intro seen id depth ordinal h
    cases h
  case pass =>
    intro item rest seen event hpasses ih id depth ordinal h link hlink hin
    rw [hpasses.entered_cons]
    exact (ih id depth ordinal (hpasses.mem_of_enter h) link hlink hin).imp_right
      (And.imp_right (List.mem_cons_of_mem _))
  case enter =>
    intro top level rest seen record _ _ hfound ih id depth ordinal h link hlink hin
    rw [entered_enter, List.append_cons]
    rcases List.mem_cons.1 h with heq | hmem
    · cases heq
      obtain ⟨found, hrecord, hnested⟩ := hlink
      cases hrecord.symm.trans hfound
      exact (mem_or_truncated_of_pending _ _ link (level + 1)
        (List.mem_append_left _ (visit_mem_below.2 ⟨hnested, rfl⟩)) hin).imp_right
        (And.imp_right (List.mem_cons_of_mem _))
    · exact (ih id depth ordinal hmem link hlink hin).imp_right
        (And.imp_right (List.mem_cons_of_mem _))

/-- What is reported as missing is not in the graph, and either its visit was pending or a link
leads to it. -/
theorem visit_mem_or_links_of_missing (stack : List Pending) (seen : List ExceptionId) :
    ∀ id depth, .missing id depth ∈ events g limit stack seen →
      g.get? id = none ∧ (.visit id depth ∈ stack ∨ ∃ owner, g.Links owner id) := by
  refine events_induction (motive := fun stack _ events => ∀ id depth, .missing id depth ∈ events →
    g.get? id = none ∧ (.visit id depth ∈ stack ∨ ∃ owner, g.Links owner id))
    ?nil ?pass ?enter stack seen
  case nil =>
    intro seen id depth h
    cases h
  case pass =>
    intro item rest seen event hpasses ih id depth h
    rcases List.mem_cons.1 h with rfl | hmem
    · cases hpasses with
      | missing _ _ hmissing => exact ⟨hmissing, .inl List.mem_cons_self⟩
    · exact (ih id depth hmem).imp_right (Or.imp_left (List.mem_cons_of_mem _))
  case enter =>
    intro top level rest seen record _ _ hfound ih id depth h
    rcases List.mem_cons.1 h with heq | hmem
    · cases heq
    · obtain ⟨hmissing, hvisit | hlinked⟩ := ih id depth hmem
      · refine ⟨hmissing, ?_⟩
        rcases List.mem_append.1 hvisit with hbelow | hrest
        · exact .inr ⟨top, record, hfound, (visit_mem_below.1 hbelow).1⟩
        · exact .inl (List.mem_cons_of_mem _ hrest)
      · exact ⟨hmissing, .inr hlinked⟩

end Walk

namespace ExceptionGraph

variable {g : ExceptionGraph} {root id : ExceptionId} {maxDepth depth ordinal : Nat}

/-- What holds of the root, and is handed on along links, holds of all that is entered. -/
theorem walk_invariant (holds : ExceptionId → Nat → Prop) (hroot : holds root 0)
    (hlinks : ∀ id depth ordinal link, .enter id depth ordinal ∈ g.walk root maxDepth →
      holds id depth → g.Links id link → holds link (depth + 1))
    (h : .enter id depth ordinal ∈ g.walk root maxDepth) :
    holds id depth ∧ depth < max maxDepth 1 := by
  refine Walk.enter_invariant holds [.visit root 0] [] (fun id depth hmem => ?_) hlinks
    id depth ordinal h
  cases List.mem_singleton.1 hmem
  exact hroot

/-- Every exception is entered along a path as long as its depth. -/
theorem path_of_enter (h : .enter id depth ordinal ∈ g.walk root maxDepth) :
    g.Path root depth id ∧ depth < max maxDepth 1 :=
  walk_invariant (fun id depth => g.Path root depth id) .here
    (fun _ _ _ _ _ hpath hlink => hpath.step hlink) h

theorem root_mem_entered (hroot : g.contains root = true) :
    root ∈ entered (g.walk root maxDepth) := by
  rcases Walk.mem_or_truncated_of_pending _ [] root 0 List.mem_cons_self hroot with hmem | ⟨h, -⟩
  · exact hmem
  · omega

/-- A link out of an exception that is entered leads to one that is entered, unless the walk says
at this place that it has been cut off. -/
theorem link_mem_entered_or_truncated {link : ExceptionId}
    (h : .enter id depth ordinal ∈ g.walk root maxDepth) (hlink : g.Links id link)
    (hin : g.contains link = true) :
    link ∈ entered (g.walk root maxDepth) ∨
      (max maxDepth 1 ≤ depth + 1 ∧ .truncated (depth + 1) ∈ g.walk root maxDepth) :=
  Walk.mem_or_truncated_of_link _ [] id depth ordinal h link hlink hin

theorem link_mem_entered {link : ExceptionId}
    (h : .enter id depth ordinal ∈ g.walk root maxDepth) (hshallow : depth + 1 < max maxDepth 1)
    (hlink : g.Links id link) (hin : g.contains link = true) :
    link ∈ entered (g.walk root maxDepth) := by
  rcases link_mem_entered_or_truncated h hlink hin with hmem | ⟨hdeep, -⟩
  · exact hmem
  · omega

/-- A walk that cuts nothing off enters all that paths lead to. -/
theorem mem_entered_of_path (hfull : ∀ depth, .truncated depth ∉ g.walk root maxDepth)
    {length : Nat} (hpath : g.Path root length id) (hid : g.contains id = true) :
    id ∈ entered (g.walk root maxDepth) := by
  induction hpath with
  | here => exact root_mem_entered hid
  | step _ hlink ih =>
      obtain ⟨record, hfound, hnested⟩ := hlink
      obtain ⟨depth, ordinal, henter⟩ :=
        mem_entered.1 (ih (decide_eq_true (Walk.lt_size_of_get? hfound)))
      have hlink := link_mem_entered_or_truncated henter ⟨record, hfound, hnested⟩ hid
      rcases hlink with hmem | ⟨-, hcut⟩
      · exact hmem
      · exact absurd hcut (hfull _)

/-- A walk of a graph that no link leads out of misses nothing. -/
theorem missing_not_mem_walk (hclosed : g.Closed) (hroot : g.contains root = true) :
    .missing id depth ∉ g.walk root maxDepth := by
  intro h
  obtain ⟨hmissing, horigin⟩ := Walk.visit_mem_or_links_of_missing _ [] id depth h
  have hin : g.contains id = true := by
    rcases horigin with hvisit | ⟨owner, hlink⟩
    · cases List.mem_singleton.1 hvisit
      exact hroot
    · exact hclosed owner id hlink
  obtain ⟨record, hfound⟩ := exists_get?_of_contains hin
  rw [hmissing] at hfound
  cases hfound

end ExceptionGraph

end Unmangle
