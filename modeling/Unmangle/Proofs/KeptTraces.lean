import Unmangle.Proofs.MarkupText
import Unmangle.Proofs.Nesting

/-!
# What keeping traces changes

A rendering may leave the text of each trace with its exception. The texts are made while the tree
is rendered and written to the graph behind it, one after the other, so what has to be seen is that
the writing is no more than it should be: it changes the texts of the exceptions that the walk
enters and that have a trace to show, and nothing else in the graph.

Nothing that is rendered depends on those texts (`tree_congr`), so a second rendering of the graph
gives what the first gave, and leaves the graph as it is.
-/

namespace Unmangle

/-! ## Outputs that are complete -/

namespace Output

@[simp]
theorem aborted_whole (rendering : Rendering) : (whole rendering).aborted = false := rfl

@[simp]
theorem aborted_append (first second : Output) :
    (first ++ second).aborted = (first.aborted || second.aborted) := by
  show (append first second).aborted = _
  rw [append]
  cases h : first.aborted with
  | true => rw [if_pos rfl, h, Bool.true_or]
  | false => rw [if_neg Bool.false_ne_true, Bool.false_or]

theorem aborted_concat (parts : List Output) :
    (concat parts).aborted = parts.any (·.aborted) := by
  rw [concat]
  induction parts with
  | nil => rfl
  | cons part rest ih => rw [List.foldr_cons, List.any_cons, ← ih]; exact aborted_append _ _

theorem aborted_concat_eq_false {parts : List Output} (h : ∀ part ∈ parts, part.aborted = false) :
    (concat parts).aborted = false := by
  rw [aborted_concat, List.any_eq_false]
  exact fun part hpart => by simp [h part hpart]

end Output

namespace Renderer

variable {r : Renderer}

/-! Without faults nothing breaks a rendering off. -/

theorem resolve?_of_faultless (hsound : r.faults = {}) (frame : Frame) :
    r.resolve? frame = some (frame.resolve r.metadata) := by
  rw [resolve?, hsound, Faults.strike_none, if_neg Bool.false_ne_true]

theorem mapM_resolve?_of_faultless (hsound : r.faults = {}) (frames : List Frame) :
    frames.mapM r.resolve? = some (frames.map (·.resolve r.metadata)) := by
  rw [funext (resolve?_of_faultless hsound)]
  exact List.mapM_pure

theorem aborted_frameLine (hsound : r.faults = {}) (frame : Frame)
    (resolved : Except Error SourceCall) : (r.frameLine frame resolved).aborted = false := by
  cases resolved with
  | ok call => rfl
  | error error =>
      simp only [frameLine]
      rw [hsound, Faults.strike_none, if_neg Bool.false_ne_true]
      rfl

theorem aborted_frameLines (hsound : r.faults = {}) (indent : String) :
    ∀ lines : List (Frame × Except Error SourceCall),
      ∀ part ∈ r.frameLines indent lines, part.aborted = false
  | [], part, h => by cases h
  | (frame, resolved) :: rest, part, h => by
    have ih := aborted_frameLines hsound indent rest
    rw [frameLines] at h
    rcases List.mem_cons.1 h with rfl | h
    · rw [Output.aborted_append, Output.aborted_whole, aborted_frameLine hsound, Bool.false_or]
    · split at h
      · rcases List.mem_cons.1 h with rfl | h
        · rfl
        · exact ih part h
      · exact ih part h

theorem aborted_trace (hsound : r.faults = {}) (indent : String) (trace : StackTrace) :
    (r.trace indent trace).aborted = false := by
  rw [Renderer.trace, mapM_resolve?_of_faultless hsound]
  simp [Output.aborted_concat_eq_false (aborted_frameLines hsound indent _)]

theorem aborted_eventLines (hsound : r.faults = {}) (g : ExceptionGraph) (event : WalkEvent) :
    (r.eventLines g event).aborted = false := by
  cases event with
  | enter id depth ordinal =>
      simp only [eventLines]
      split
      · simp [aborted_trace hsound]
      · rfl
  | missing id depth =>
      simp only [eventLines]
      split <;> rfl
  | leave | duplicate | truncated => rfl

theorem aborted_tree (hsound : r.faults = {}) (g : ExceptionGraph) (root : ExceptionId) :
    (r.tree g root).aborted = false := by
  refine Output.aborted_concat_eq_false fun part hpart => ?_
  obtain ⟨event, -, rfl⟩ := List.mem_map.1 hpart
  exact aborted_eventLines hsound g event

end Renderer

/-! ## Graphs that differ in the texts of traces -/

/-- The record without the text of its trace. -/
def ExceptionRecord.bare (record : ExceptionRecord) : ExceptionRecord :=
  { record with renderedTrace := none }

/-- The record with a text for its trace. -/
def ExceptionRecord.withText (record : ExceptionRecord) (text : String) : ExceptionRecord :=
  { record with renderedTrace := some text }

theorem ExceptionGraph.ext_get? {g h : ExceptionGraph} (heq : ∀ id, g.get? id = h.get? id) :
    g = h := by
  cases g
  cases h
  exact congrArg _ (Array.ext_getElem? heq)

/-- The graphs hold the same exceptions with the same links, the texts of their traces aside. -/
def ExceptionGraph.SameButTexts (g h : ExceptionGraph) : Prop :=
  ∀ id, (g.get? id).map (·.bare) = (h.get? id).map (·.bare)

namespace ExceptionGraph.SameButTexts

variable {g h : ExceptionGraph}

theorem get?_eq_none (hsame : g.SameButTexts h) {id : ExceptionId} (hnone : g.get? id = none) :
    h.get? id = none := by
  have := hsame id
  rw [hnone] at this
  exact Option.map_eq_none_iff.1 this.symm

theorem get?_eq_some (hsame : g.SameButTexts h) {id : ExceptionId} {record : ExceptionRecord}
    (hsome : g.get? id = some record) :
    ∃ other, h.get? id = some other ∧ other.bare = record.bare := by
  have := hsame id
  rw [hsome] at this
  exact Option.map_eq_some_iff.1 this.symm

theorem size_le (hsame : g.SameButTexts h) : g.size ≤ h.size := by
  refine Nat.not_lt.1 fun hlt => ?_
  obtain ⟨record, hfound⟩ := exists_get?_of_contains (g := g) (decide_eq_true hlt)
  obtain ⟨other, hother, -⟩ := hsame.get?_eq_some hfound
  exact Nat.lt_irrefl _ (Walk.lt_size_of_get? hother)

theorem size_eq (hsame : g.SameButTexts h) : g.size = h.size :=
  Nat.le_antisymm hsame.size_le (size_le fun id => (hsame id).symm)

end ExceptionGraph.SameButTexts

theorem ExceptionRecord.nested_eq_of_bare {record other : ExceptionRecord}
    (h : other.bare = record.bare) : other.nested = record.nested := by
  show other.bare.nested = record.bare.nested
  rw [h]

theorem Walk.events_congr {g h : ExceptionGraph} (hsame : g.SameButTexts h) (limit : Nat)
    (stack : List Pending) (seen : List ExceptionId) :
    events g limit stack seen = events h limit stack seen := by
  refine events_induction (motive := fun stack seen trail => trail = events h limit stack seen)
    ?nil ?pass ?enter stack seen
  case nil => exact fun seen => events_nil.symm
  case pass =>
    intro item rest seen event hpasses ih
    rw [ih]
    cases hpasses with
    | leave => exact events_leave.symm
    | duplicate _ hindex => exact (events_duplicate hindex).symm
    | truncated hnew hdeep => exact (events_truncated hnew hdeep).symm
    | missing hnew hshallow hnone =>
        exact (events_missing hnew hshallow (hsame.get?_eq_none hnone)).symm
  case enter =>
    intro id depth rest seen record hnew hshallow hfound ih
    obtain ⟨other, hother, hbare⟩ := hsame.get?_eq_some hfound
    rw [events_enter hnew hshallow hother, ih, below, below,
      ExceptionRecord.nested_eq_of_bare hbare]

namespace Renderer

variable (r : Renderer) {g h : ExceptionGraph}

theorem walk_congr (hsame : g.SameButTexts h) (root : ExceptionId) :
    r.walk g root = r.walk h root :=
  Walk.events_congr hsame _ _ _

theorem eventLines_congr (hsame : g.SameButTexts h) (event : WalkEvent) :
    r.eventLines g event = r.eventLines h event := by
  cases event with
  | enter id depth ordinal =>
      simp only [eventLines]
      cases hfound : g.get? id with
      | none => rw [hsame.get?_eq_none hfound]
      | some record =>
          obtain ⟨other, hother, hbare⟩ := hsame.get?_eq_some hfound
          rw [hother]
          show .whole (_ ++ record.bare.header) ++ r.trace _ record.bare.trace = _
          rw [← hbare]
          rfl
  | leave | duplicate | truncated | missing => rfl

/-- A rendering does not look at the texts of traces. -/
theorem tree_congr (hsame : g.SameButTexts h) (root : ExceptionId) :
    r.tree g root = r.tree h root := by
  rw [tree, tree, walk_congr r hsame, funext (eventLines_congr r hsame)]

end Renderer

/-! ## Writing the texts back -/

theorem get?_keepTrace (g : ExceptionGraph) (entry : ExceptionId × String) (id : ExceptionId) :
    (Renderer.keepTrace g entry).get? id =
      if entry.1 = id then (g.get? id).map (·.withText entry.2) else g.get? id := by
  rw [Renderer.keepTrace, ExceptionGraph.setRenderedTrace, ExceptionGraph.modify]
  cases hin : g.contains entry.1 with
  | true =>
      rw [if_pos rfl]
      exact Array.getElem?_modify
  | false =>
      rw [if_neg Bool.false_ne_true]
      by_cases hid : entry.1 = id
      · have hnone : g.get? id = none :=
          Array.getElem?_eq_none (Nat.not_lt.1 (of_decide_eq_false (hid ▸ hin)))
        simp [hnone]
      · rw [if_neg hid]

/-- Where each exception has one text at most, it does not matter in which order texts are kept. -/
theorem get?_foldl_keepTrace (text : ExceptionId → String) (id : ExceptionId) :
    ∀ (entries : List (ExceptionId × String)) (g : ExceptionGraph),
      (∀ entry ∈ entries, entry.2 = text entry.1) →
      (entries.foldl Renderer.keepTrace g).get? id =
        if id ∈ entries.map (·.1) then (g.get? id).map (·.withText (text id)) else g.get? id
  | [], g, _ => rfl
  | entry :: rest, g, htexts => by
    have ih := get?_foldl_keepTrace text id rest (Renderer.keepTrace g entry)
      fun other hother => htexts other (List.mem_cons_of_mem _ hother)
    rw [List.foldl_cons, ih, get?_keepTrace, htexts entry List.mem_cons_self]
    by_cases hentry : entry.1 = id
    · subst hentry
      rw [if_pos rfl, if_pos (List.mem_map_of_mem List.mem_cons_self), Option.map_map]
      split <;> rfl
    · have hmem : id ∈ (entry :: rest).map (·.1) ↔ id ∈ rest.map (·.1) := by
        simp [Ne.symm hentry]
      rw [if_neg hentry]
      simp only [hmem]

namespace Renderer

variable {r : Renderer} {write : Rendering → String} {g : ExceptionGraph} {root : ExceptionId}

/-- What becomes of an exception when the traces of a tree are kept: one that the walk enters and
that has a trace to show is given the text of its frames alone. -/
def keptRecord (r : Renderer) (write : Rendering → String) (g : ExceptionGraph)
    (root id : ExceptionId) (record : ExceptionRecord) : ExceptionRecord :=
  if id ∈ entered (r.walk g root) ∧ record.trace.isEmpty = false then
    record.withText (write (r.trace "" record.trace).rendering)
  else record

theorem mem_traceTexts {id : ExceptionId} {text : String} :
    (id, text) ∈ r.traceTexts write g root ↔
      id ∈ entered (r.walk g root) ∧ ∃ record, g.get? id = some record ∧
        record.trace.isEmpty = false ∧ text = write (r.trace "" record.trace).rendering := by
  rw [traceTexts, List.mem_filterMap, mem_entered]
  constructor
  · rintro ⟨event, hevent, htext⟩
    cases event with
    | enter found depth ordinal =>
        obtain ⟨record, hfound, hsome⟩ := Option.bind_eq_some_iff.1 htext
        cases hempty : record.trace.isEmpty with
        | true => simp [hempty] at hsome
        | false =>
            simp only [hempty, Bool.false_eq_true, if_false, Option.some.injEq] at hsome
            cases hsome
            exact ⟨⟨depth, ordinal, hevent⟩, record, hfound, hempty, rfl⟩
    | leave | duplicate | truncated | missing => cases htext
  · rintro ⟨⟨depth, ordinal, hevent⟩, record, hfound, hempty, rfl⟩
    refine ⟨_, hevent, ?_⟩
    simp [hfound, hempty]

theorem renderKeeping_of_aborted (h : (r.tree g root).aborted = true) :
    (r.renderKeeping write g root).2 = g := if_pos h

theorem mem_map_traceTexts {id : ExceptionId} {record : ExceptionRecord}
    (hfound : g.get? id = some record) :
    id ∈ (r.traceTexts write g root).map (·.1) ↔
      id ∈ entered (r.walk g root) ∧ record.trace.isEmpty = false := by
  rw [List.mem_map]
  constructor
  · rintro ⟨⟨_, text⟩, hentry, rfl⟩
    obtain ⟨hentered, other, hother, hempty, -⟩ := mem_traceTexts.1 hentry
    cases hfound.symm.trans hother
    exact ⟨hentered, hempty⟩
  · rintro ⟨hentered, hempty⟩
    exact ⟨_, mem_traceTexts.2 ⟨hentered, record, hfound, hempty, rfl⟩, rfl⟩

/-- What keeping changes in a graph, exception by exception. -/
theorem get?_renderKeeping (h : (r.tree g root).aborted = false) (id : ExceptionId) :
    (r.renderKeeping write g root).2.get? id =
      (g.get? id).map (r.keptRecord write g root id) := by
  have hwritten : (r.renderKeeping write g root).2 =
      (r.traceTexts write g root).foldl keepTrace g := by
    rw [renderKeeping, h]
    rfl
  rw [hwritten, get?_foldl_keepTrace
    (fun id => write (r.trace "" (((g.get? id).map (·.trace)).getD {})).rendering)]
  · cases hfound : g.get? id with
    | none => simp
    | some record =>
        simp only [mem_map_traceTexts hfound, Option.map_some, Option.getD_some, keptRecord]
        split <;> rfl
  · rintro ⟨id, text⟩ hentry
    obtain ⟨-, record, hfound, -, rfl⟩ := mem_traceTexts.1 hentry
    simp [hfound]

theorem sameButTexts_renderKeeping : g.SameButTexts (r.renderKeeping write g root).2 := by
  intro id
  cases h : (r.tree g root).aborted with
  | true => rw [renderKeeping_of_aborted h]
  | false =>
      rw [get?_renderKeeping h, Option.map_map]
      congr 1
      funext record
      simp only [Function.comp_apply, keptRecord]
      split <;> rfl

theorem keptRecord_congr {h : ExceptionGraph} (hsame : g.SameButTexts h) :
    r.keptRecord write g root = r.keptRecord write h root := by
  funext id record
  rw [keptRecord, keptRecord, walk_congr r hsame]

theorem keptRecord_idem (id : ExceptionId) (record : ExceptionRecord) :
    r.keptRecord write g root id (r.keptRecord write g root id record) =
      r.keptRecord write g root id record := by
  by_cases h : id ∈ entered (r.walk g root) ∧ record.trace.isEmpty = false
  · have hkept : r.keptRecord write g root id record =
        record.withText (write (r.trace "" record.trace).rendering) := if_pos h
    rw [hkept]
    exact if_pos h
  · have hkept : r.keptRecord write g root id record = record := if_neg h
    rw [hkept, hkept]

/-- Rendering once more gives the same text and changes nothing, even where a fault breaks the
rendering off. -/
theorem renderKeeping_idem :
    r.renderKeeping write (r.renderKeeping write g root).2 root = r.renderKeeping write g root := by
  have hsame : g.SameButTexts (r.renderKeeping write g root).2 := sameButTexts_renderKeeping
  have htree := tree_congr r hsame root
  refine Prod.ext ?text ?graph
  case text => exact congrArg (fun output => write output.rendering) htree.symm
  case graph =>
    cases h : (r.tree g root).aborted with
    | true => exact renderKeeping_of_aborted (htree ▸ h)
    | false =>
        refine ExceptionGraph.ext_get? fun id => ?_
        show (r.renderKeeping write (r.renderKeeping write g root).2 root).2.get? id = _
        rw [get?_renderKeeping (htree ▸ h), get?_renderKeeping h, Option.map_map,
          ← keptRecord_congr hsame]
        congr 1
        exact funext (keptRecord_idem id)

theorem renderedTrace?_renderKeeping (h : (r.tree g root).aborted = false) {id : ExceptionId}
    {record : ExceptionRecord} (hentered : id ∈ entered (r.walk g root))
    (hfound : g.get? id = some record) (hshown : record.trace.isEmpty = false) :
    (r.renderKeeping write g root).2.renderedTrace? id =
      some (write (r.trace "" record.trace).rendering) := by
  rw [ExceptionGraph.renderedTrace?, get?_renderKeeping h, hfound, Option.map_some, keptRecord,
    if_pos ⟨hentered, hshown⟩]
  rfl

end Renderer

/-- Keeping traces changes nothing but the texts of those that show: what the walk enters within the
depth of the options, and has a trace that is not empty, is given the lines of its frames, with
nothing in front of them, and everything else stays. Nothing at all changes when it is done again.
The text returned is the one that leaves the graph alone. Plain and styled keeping agree on what
they keep. -/
theorem keeping_changes_shown_traces (md : Metadata) (options : RenderOptions) (g : ExceptionGraph)
    (root : ExceptionId) :
    let r : Renderer := { metadata := md, options := options }
    let shown := entered (g.walk root options.maxDepth.toNat)
    let plain := r.plainKeeping g root
    let styled := r.styledKeeping g root
    (plain.1 = r.plain g root ∧ plain.2.size = g.size ∧
      (∀ id, plain.2.get? id = (g.get? id).map fun record =>
        if id ∈ shown ∧ record.trace.isEmpty = false then
          record.withText (r.trace "" record.trace).rendering.plain
        else record) ∧
      r.plainKeeping plain.2 root = plain) ∧
    (styled.1 = r.styled g root ∧ styled.2.size = g.size ∧
      (∀ id, styled.2.get? id = (g.get? id).map fun record =>
        if id ∈ shown ∧ record.trace.isEmpty = false then
          record.withText ((r.trace "" record.trace).rendering.styled options.colorEnabled)
        else record) ∧
      r.styledKeeping styled.2 root = styled) ∧
    ∀ id ∈ shown, ∀ record, g.get? id = some record → record.trace.isEmpty = false →
      (styled.2.renderedTrace? id).map (Markup.read options.colorEnabled) =
        plain.2.renderedTrace? id := by
  intro r shown plain styled
  have hwhole : (r.tree g root).aborted = false := Renderer.aborted_tree rfl g root
  refine ⟨⟨rfl, ?_, ?_, Renderer.renderKeeping_idem⟩,
    ⟨rfl, ?_, ?_, Renderer.renderKeeping_idem⟩, ?_⟩
  · exact Renderer.sameButTexts_renderKeeping.size_eq.symm
  · exact Renderer.get?_renderKeeping hwhole
  · exact Renderer.sameButTexts_renderKeeping.size_eq.symm
  · exact Renderer.get?_renderKeeping hwhole
  · intro id hentered record hfound hshown
    have hplain : plain.2.renderedTrace? id = some (r.trace "" record.trace).rendering.plain :=
      Renderer.renderedTrace?_renderKeeping hwhole hentered hfound hshown
    have hstyled : styled.2.renderedTrace? id =
        some ((r.trace "" record.trace).rendering.styled options.colorEnabled) :=
      Renderer.renderedTrace?_renderKeeping hwhole hentered hfound hshown
    rw [hplain, hstyled, Option.map_some, Rendering.read_styled]

/-! Of four exceptions one is entered with a trace to show. The cause of it has no trace, the cause
of that lies too deep, and the last is linked to none of them. -/

namespace OneShown

def table : Metadata :=
  { types := .ofList [(1, .named { name := "Program", space := some "App" })]
    methods := .ofList [(5, { name := "Save", declaringType := ⟨1⟩ })] }

def options : RenderOptions := { maxDepth := 2 }

def trace : StackTrace :=
  { frames := [{ declaringType := ⟨1⟩, method := ⟨5⟩ }], omittedFrames := 2 }

/-- The exceptions with `text` kept for the first. -/
def graph (text : Option String) : ExceptionGraph :=
  ⟨#[{ typeName := "Outer", trace, inner := some 1, renderedTrace := text },
     { typeName := "Bare", inner := some 2, renderedTrace := some "old" },
     { typeName := "Deep", trace, renderedTrace := some "deep" },
     { typeName := "Lost", trace, renderedTrace := some "lost" }]⟩

def plainTrace : String := "   at Program.Save()\n   ... 2 frames omitted"

def styledTrace : String :=
  "   [bold]at[/] [blue]Program[/][grey].[/][yellow]Save[/][grey]([/][grey])[/]\n" ++
    "   [dim]... 2 frames omitted[/]"

end OneShown

theorem keeping_oneShown :
    let r : Renderer := { metadata := OneShown.table, options := OneShown.options }
    let g := OneShown.graph none
    r.plainKeeping g 0 =
        ("Outer\n" ++ OneShown.plainTrace ++ "\n ---> Bare\n" ++
          "   ---> (exception chain truncated at depth 2)\n" ++
          "   --- End of inner exception stack trace ---",
        OneShown.graph (some OneShown.plainTrace)) ∧
      r.styledKeeping g 0 =
        ("[red bold]Outer[/]\n" ++ OneShown.styledTrace ++ "\n[dim] ---> [/][red bold]Bare[/]\n" ++
          "  [dim] ---> [/][dim](exception chain truncated at depth 2)[/]\n" ++
          "   [dim]--- End of inner exception stack trace ---[/]",
        OneShown.graph (some OneShown.styledTrace)) := by
  intro r g
  obtain ⟨⟨hplainText, -, hplain, -⟩, ⟨hstyledText, -, hstyled, -⟩, -⟩ :=
    keeping_changes_shown_traces OneShown.table OneShown.options g 0
  have hwalk : r.walk g 0 =
      [.enter 0 0 1, .enter 1 1 2, .truncated 2, .leave 1] := by cbv
  have hshown : entered (g.walk 0 OneShown.options.maxDepth.toNat) = [0, 1] :=
    congrArg entered hwalk
  rw [hshown] at hplain hstyled
  rw [Renderer.plain, Renderer.tree, hwalk] at hplainText
  rw [Renderer.styled, Renderer.tree, hwalk] at hstyledText
  constructor
  · refine Prod.ext (hplainText.trans ?_)
      (ExceptionGraph.ext_get? fun id => (hplain id).trans ?_)
    · decide +kernel
    · rcases id with - | - | - | - | id
      · decide +kernel
      all_goals rfl
  · refine Prod.ext (hstyledText.trans ?_)
      (ExceptionGraph.ext_get? fun id => (hstyled id).trans ?_)
    · decide +kernel
    · rcases id with - | - | - | - | id
      · decide +kernel
      all_goals rfl

end Unmangle
