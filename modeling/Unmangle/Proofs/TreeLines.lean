import Unmangle.Proofs.FrameLine
import Unmangle.Proofs.KeptTraces

/-!
# The lines of a tree

A tree is written in one go: a line break goes in front of every line but the first, whatever
event the line belongs to, and the lines of a trace are indented as they are written. The text that
is kept for a trace is written apart from the tree, without indentation and with a first line of
its own. That the two agree is seen on lines: `HasLines` says which lines a rendering has, so that
what is written in one go falls apart into events, and what is kept falls apart at its line breaks,
as long as no line has a break inside (`FrameLine.lean`).
-/

namespace Unmangle

open Rendering

/-! ## Renderings as lines -/

namespace Rendering

/-- The rendering consists of whole lines, and these are their texts. -/
inductive HasLines : Rendering → List String → Prop where
  | nil : HasLines [] []
  | line {line rest texts} (hline : .lineStart ∉ line) (hrest : HasLines rest texts) :
      HasLines (.lineStart :: (line ++ rest)) (plain line :: texts)

theorem HasLines.append {first second : Rendering} {texts more : List String}
    (hfirst : HasLines first texts) (hsecond : HasLines second more) :
    HasLines (first ++ second) (texts ++ more) := by
  induction hfirst with
  | nil => exact hsecond
  | line hline hrest ih =>
      rw [List.cons_append, List.append_assoc, List.cons_append]
      exact .line hline ih

theorem HasLines.flatMap {α : Type} {l : List α} {write : α → Rendering} {texts : α → List String}
    (h : ∀ a ∈ l, HasLines (write a) (texts a)) : HasLines (l.flatMap write) (l.flatMap texts) := by
  induction l with
  | nil => exact .nil
  | cons a rest ih =>
      obtain ⟨ha, hrest⟩ := List.forall_mem_cons.1 h
      exact ha.append (ih hrest)

theorem HasLines.eq_nil {rendering : Rendering} (h : HasLines rendering []) : rendering = [] := by
  cases h
  rfl

/-- Each line has its start. -/
theorem HasLines.count_lineStart {rendering : Rendering} {texts : List String}
    (h : HasLines rendering texts) : rendering.count .lineStart = texts.length := by
  induction h with
  | nil => rfl
  | line hline hrest ih =>
      rw [List.count_cons_self, List.count_append, List.count_eq_zero_of_not_mem hline, ih,
        List.length_cons, Nat.zero_add]

/-- One line. -/
theorem HasLines.single {line : Rendering} (hline : .lineStart ∉ line) :
    HasLines (.lineStart :: line) [plain line] := by
  simpa using HasLines.line hline .nil

theorem breakLines_append {line : Rendering} (hline : .lineStart ∉ line) (started : Bool)
    (rest : Rendering) :
    breakLines started (line ++ rest) = line ++ breakLines started rest := by
  induction line with
  | nil => rfl
  | cons span line ih =>
      rw [List.mem_cons, not_or] at hline
      cases span with
      | lineStart => exact absurd rfl hline.1
      | text | styled => cases started <;> exact congrArg _ (ih hline.2)

theorem breakLines_eq_self {line : Rendering} (hline : .lineStart ∉ line) (started : Bool) :
    breakLines started line = line := by
  have h := breakLines_append hline started []
  cases started <;> simpa [breakLines] using h

theorem toList_plain {line : Rendering} (hline : .lineStart ∉ line) :
    (plain line).toList = line.flatMap (·.plainChars) := by
  rw [plain, String.toList_ofList, breakLines_eq_self hline]

theorem HasLines.chars_breakLines {rendering : Rendering} {texts : List String}
    (h : HasLines rendering texts) :
    (rendering.breakLines true).flatMap (·.plainChars) = texts.flatMap ('\n' :: ·.toList) := by
  induction h with
  | nil => rfl
  | line hline hrest ih =>
      -- A line has started before, so the start of this one is its break.
      rw [breakLines, breakLines_append hline, List.flatMap_cons, List.flatMap_append, ih,
        List.flatMap_cons, toList_plain hline]
      rfl

theorem intercalate_cons_eq_flatMap {α : Type} (separator : α) (first : List α)
    (rest : List (List α)) :
    List.intercalate [separator] (first :: rest) = first ++ rest.flatMap (separator :: ·) := by
  induction rest generalizing first with
  | nil => simp
  | cons next rest ih => simp [List.intercalate_cons_cons, ih]

/-- The lines are joined by line breaks. -/
theorem HasLines.plain_eq {rendering : Rendering} {texts : List String}
    (h : HasLines rendering texts) : rendering.plain = "\n".intercalate texts := by
  rw [← String.toList_inj, String.toList_intercalate, plain, String.toList_ofList]
  cases h with
  | nil => rfl
  | line hline hrest =>
      -- The first line has no break in front of it, and all others have.
      have hsep : "\n".toList = ['\n'] := rfl
      rw [breakLines, breakLines_append hline, List.flatMap_append, hrest.chars_breakLines,
        List.map_cons, hsep, intercalate_cons_eq_flatMap, toList_plain hline, List.flatMap_map]

/-! The first spans of a rendering are the first part of its text. -/

@[simp]
theorem plain_nil : plain [] = "" := rfl

@[simp]
theorem plain_text (text : String) (rest : Rendering) :
    plain (.text text :: rest) = text ++ plain rest := by
  rw [← String.toList_inj, String.toList_append]
  simp [plain, breakLines, Span.plainChars]

@[simp]
theorem plain_styled (text : String) (style : Style) (rest : Rendering) :
    plain (.styled text style :: rest) = text ++ plain rest := by
  rw [← String.toList_inj, String.toList_append]
  simp [plain, breakLines, Span.plainChars]

theorem StaysOnLine.lineStart_not_mem {rendering : Rendering} (h : StaysOnLine rendering) :
    .lineStart ∉ rendering := fun hmem => h _ hmem

theorem StaysOnLine.isLine_plain {rendering : Rendering} (h : StaysOnLine rendering) :
    IsLine (plain rendering) := by
  rw [IsLine, toList_plain h.lineStart_not_mem, List.mem_flatMap]
  rintro ⟨span, hspan, hmem⟩
  have hstays := h span hspan
  cases span with
  | text | styled => exact hstays hmem
  | lineStart => cases hmem

end Rendering

/-- The lines of a text. -/
def textLines (text : String) : List String := (text.toList.splitOn '\n').map .ofList

/-- Lines that are joined are found again, if there are any and none of them breaks. -/
theorem textLines_intercalate {lines : List String} (hne : lines ≠ [])
    (hlines : ∀ line ∈ lines, IsLine line) : textLines ("\n".intercalate lines) = lines := by
  have hsep : "\n".toList = ['\n'] := rfl
  have hsplit : (List.intercalate ['\n'] (lines.map String.toList)).splitOn '\n' =
      lines.map String.toList := by
    refine List.splitOn_intercalate '\n' ?_ (by simpa using hne)
    intro line hline
    obtain ⟨text, htext, rfl⟩ := List.mem_map.1 hline
    exact hlines text htext
  rw [textLines, String.toList_intercalate, hsep, hsplit, List.map_map]
  simp [Function.comp_def]

namespace Output

theorem rendering_append {first second : Output} (h : first.aborted = false) :
    (first ++ second).rendering = first.rendering ++ second.rendering := by
  show (append first second).rendering = _
  rw [append, h]
  rfl

theorem rendering_concat {parts : List Output} (h : ∀ part ∈ parts, part.aborted = false) :
    (concat parts).rendering = parts.flatMap (·.rendering) := by
  induction parts with
  | nil => rfl
  | cons part rest ih =>
      obtain ⟨hpart, hrest⟩ := List.forall_mem_cons.1 h
      rw [List.flatMap_cons, ← ih hrest]
      exact rendering_append hpart

end Output

/-! ## The lines of a trace -/

/-- The paths of the files that frames were in. -/
def StackTrace.paths (trace : StackTrace) : List String :=
  trace.frames.flatMap (·.file.toList)

def ExceptionGraph.paths (g : ExceptionGraph) : List String :=
  g.records.toList.flatMap (·.trace.paths)

theorem ExceptionGraph.paths_of_get? {g : ExceptionGraph} {id : ExceptionId}
    {record : ExceptionRecord} (h : g.get? id = some record) : record.trace.paths ⊆ g.paths := by
  intro path hpath
  exact List.mem_flatMap.2 ⟨record, Array.mem_toList_iff.2 (Array.mem_of_getElem? h), hpath⟩

namespace Renderer

/-- The lines of frames, without indentation. -/
def frameTexts (r : Renderer) : List Frame → List String
  | [] => []
  | frame :: rest =>
    ("   " ++ (r.frameLine frame (frame.resolve r.metadata)).rendering.plain) ::
      if frame.isLastInChain && !rest.isEmpty then
        "--- End of stack trace from previous location ---" :: r.frameTexts rest
      else r.frameTexts rest

def traceLines (r : Renderer) (trace : StackTrace) : List String :=
  r.frameTexts trace.frames ++
    if trace.omittedFrames = 0 then []
    else ["   " ++ s!"... {trace.omittedFrames} frames omitted"]

variable {r : Renderer}

theorem traceLines_ne_nil {trace : StackTrace} (h : trace.isEmpty = false) :
    r.traceLines trace ≠ [] := by
  rw [traceLines]
  cases hframes : trace.frames with
  | cons frame rest => simp [frameTexts]
  | nil =>
      have homitted : trace.omittedFrames ≠ 0 := by simpa [StackTrace.isEmpty, hframes] using h
      simp [homitted]

theorem traceLines_of_isEmpty {trace : StackTrace} (h : trace.isEmpty = true) :
    r.traceLines trace = [] := by
  rw [StackTrace.isEmpty, Bool.and_eq_true, List.isEmpty_iff, beq_iff_eq] at h
  rw [traceLines, h.1, h.2]
  rfl

theorem hasLines_omissionLine (indent : String) (trace : StackTrace) :
    HasLines (omissionLine indent trace) ((if trace.omittedFrames = 0 then []
      else ["   " ++ s!"... {trace.omittedFrames} frames omitted"]).map (indent ++ ·)) := by
  rw [omissionLine]
  split
  · exact .nil
  · have hline : Span.lineStart ∉ [Span.text indent, .text "   ",
        .styled s!"... {trace.omittedFrames} frames omitted" .marker] := by simp
    have h := HasLines.single hline
    simp only [plain_text, plain_styled, plain_nil, String.append_empty] at h
    exact h

theorem hasLines_frameLines (indent : String) (frames : List Frame) :
    HasLines ((r.frameLines indent
        (frames.map fun frame => (frame, frame.resolve r.metadata))).flatMap (·.rendering))
      ((r.frameTexts frames).map (indent ++ ·)) := by
  induction frames with
  | nil => exact .nil
  | cons frame rest ih =>
      have hframe : Span.lineStart ∉ Span.text indent :: .text "   " ::
          (r.frameLine frame (frame.resolve r.metadata)).rendering := by
        simp [(r.shows_frameLine frame).lineStart_not_mem]
      have hboundary : Span.lineStart ∉ [Span.text indent,
          .styled "--- End of stack trace from previous location ---" .marker] := by simp
      have hfirst := HasLines.single hframe
      have hsecond := HasLines.single hboundary
      simp only [plain_text, plain_styled, plain_nil, String.append_empty] at hfirst hsecond
      rw [List.map_cons, frameLines, frameTexts, List.isEmpty_map]
      split
      · exact hfirst.append (hsecond.append ih)
      · exact hfirst.append ih

/-- The lines of a trace are the same behind any indentation. -/
theorem hasLines_trace (hsound : r.faults = {}) (indent : String) (trace : StackTrace) :
    HasLines (r.trace indent trace).rendering ((r.traceLines trace).map (indent ++ ·)) := by
  have hwhole := aborted_frameLines hsound indent
    (trace.frames.map fun frame => (frame, frame.resolve r.metadata))
  rw [Renderer.trace, mapM_resolve?_of_faultless hsound, traceLines, List.map_append]
  dsimp only
  rw [← List.map_prod_left_eq_zip,
    Output.rendering_append (Output.aborted_concat_eq_false hwhole),
    Output.rendering_concat hwhole]
  exact (hasLines_frameLines indent trace.frames).append (hasLines_omissionLine indent trace)

section

variable (hmd : AreLines r.metadata.names)
include hmd

theorem areLines_frameTexts {frames : List Frame}
    (hfiles : ∀ frame ∈ frames, AreLines frame.file.toList) : AreLines (r.frameTexts frames) := by
  induction frames with
  | nil => exact areLines_nil
  | cons frame rest ih =>
      obtain ⟨hfile, hrest⟩ := List.forall_mem_cons.1 hfiles
      have hframe := (staysOnLine_frameLine hmd hfile).isLine_plain
      rw [frameTexts, areLines_cons]
      refine ⟨isLine_append.2 ⟨by decide, hframe⟩, ?_⟩
      split
      · exact areLines_cons.2 ⟨by decide, ih hrest⟩
      · exact ih hrest

theorem areLines_traceLines {trace : StackTrace} (hpaths : AreLines trace.paths) :
    AreLines (r.traceLines trace) := by
  rw [StackTrace.paths, areLines_flatMap] at hpaths
  rw [traceLines, areLines_append]
  refine ⟨areLines_frameTexts hmd hpaths, ?_⟩
  split
  · exact areLines_nil
  · have hnumber : IsLine (toString trace.omittedFrames) :=
      isLine_toString trace.omittedFrames.toNat
    simp +decide [isLine_append, hnumber]

/-- The text of a trace falls apart into its lines. -/
theorem textLines_trace (hsound : r.faults = {}) {indent : String} (hindent : IsLine indent)
    {trace : StackTrace} (hpaths : AreLines trace.paths) (hshown : trace.isEmpty = false) :
    textLines (r.trace indent trace).rendering.plain =
      (r.traceLines trace).map (indent ++ ·) := by
  rw [(hasLines_trace hsound indent trace).plain_eq]
  refine textLines_intercalate ?shown ?lines
  case shown => simpa using traceLines_ne_nil hshown
  case lines =>
    intro line hline
    obtain ⟨text, htext, rfl⟩ := List.mem_map.1 hline
    exact isLine_append.2 ⟨hindent, areLines_traceLines hmd hpaths text htext⟩

end

end Renderer

/-! ## The lines of a tree -/

def ExceptionRecord.headerText (record : ExceptionRecord) : String :=
  if record.message.isEmpty then record.typeName else record.typeName ++ ": " ++ record.message

/-- What stands in front of a line about an exception below the root. -/
def arrowText (depth : Nat) : String := indentation (depth - 1) ++ " ---> "

/-- The lines of the text that is kept for the trace of an exception, indented by its depth. -/
def ExceptionGraph.keptLines (kept : ExceptionGraph) (id : ExceptionId) (depth : Nat) :
    List String :=
  (kept.renderedTrace? id).toList.flatMap fun text =>
    (textLines text).map (indentation depth ++ ·)

/-- The lines that an event shows, where `kept` holds the texts of the traces. -/
def WalkEvent.shownLines (g kept : ExceptionGraph) : WalkEvent → List String
  | .enter id depth _ =>
    match g.get? id with
    | some record =>
      ((if depth = 0 then "" else arrowText depth) ++ record.headerText) ::
        if record.trace.isEmpty then [] else kept.keptLines id depth
    | none => []
  | .leave depth => [indentation (depth - 1) ++ "   --- End of inner exception stack trace ---"]
  | .duplicate ordinal depth =>
    [arrowText depth ++ s!"(duplicate of exception #{ordinal}, see above)"]
  | .truncated depth => [arrowText depth ++ s!"(exception chain truncated at depth {depth})"]
  | .missing id depth =>
    if depth = 0 then [] else [arrowText depth ++ s!"(missing exception #{id})"]

namespace Renderer

theorem hasLines_remark (depth : Nat) (text : String) :
    HasLines (remark depth text).rendering [arrowText depth ++ text] := by
  have hline : Span.lineStart ∉ arrow depth ++ [.styled text .marker] := by simp [arrow]
  have h := HasLines.single hline
  simpa [remark, Output.whole, arrow, arrowText, String.append_assoc] using h

theorem hasLines_header (depth : Nat) (record : ExceptionRecord) :
    HasLines (.lineStart :: (if depth = 0 then [] else arrow depth) ++ record.header)
      [(if depth = 0 then "" else arrowText depth) ++ record.headerText] := by
  have hline : Span.lineStart ∉ (if depth = 0 then [] else arrow depth) ++ record.header := by
    rw [List.mem_append, not_or]
    constructor
    · split <;> simp [arrow]
    · rw [ExceptionRecord.header]
      split <;> simp
  have htext : Rendering.plain ((if depth = 0 then [] else arrow depth) ++ record.header) =
      (if depth = 0 then "" else arrowText depth) ++ record.headerText := by
    rw [ExceptionRecord.header, ExceptionRecord.headerText]
    split <;> split <;> simp [arrow, arrowText, String.append_assoc]
  rw [← htext]
  exact HasLines.single hline

variable {r : Renderer} {g : ExceptionGraph} {root : ExceptionId}

/-- An event of the walk shows the lines that the kept traces say. -/
theorem hasLines_eventLines (hsound : r.faults = {}) (hmd : AreLines r.metadata.names)
    (hpaths : AreLines g.paths) {event : WalkEvent} (hevent : event ∈ r.walk g root) :
    HasLines (r.eventLines g event).rendering
      (event.shownLines g (r.plainKeeping g root).2) := by
  cases event with
  | enter id depth ordinal =>
      rw [eventLines, WalkEvent.shownLines]
      cases hfound : g.get? id with
      | none => exact .nil
      | some record =>
          have hfiles := hpaths.of_subset (ExceptionGraph.paths_of_get? hfound)
          have htrace := hasLines_trace hsound (indentation depth) record.trace
          have hshown : HasLines (r.trace (indentation depth) record.trace).rendering
              (if record.trace.isEmpty then []
                else (r.plainKeeping g root).2.keptLines id depth) := by
            cases hempty : record.trace.isEmpty with
            | true =>
                rw [traceLines_of_isEmpty hempty] at htrace
                exact htrace
            | false =>
                have hkept : (r.plainKeeping g root).2.renderedTrace? id =
                    some (r.trace "" record.trace).rendering.plain :=
                  renderedTrace?_renderKeeping (aborted_tree hsound g root)
                    (mem_entered.2 ⟨depth, ordinal, hevent⟩) hfound hempty
                have hlines := textLines_trace hmd hsound (by decide : IsLine "") hfiles hempty
                simp only [String.empty_append, List.map_id'] at hlines
                rw [if_neg Bool.false_ne_true, ExceptionGraph.keptLines, hkept]
                simpa [hlines] using htrace
          dsimp only
          rw [Output.rendering_append rfl]
          exact (hasLines_header depth record).append hshown
  | leave depth =>
      have hline : Span.lineStart ∉ [Span.text (indentation (depth - 1)), .text "   ",
          .styled "--- End of inner exception stack trace ---" .marker] := by simp
      simpa [eventLines, Output.whole, WalkEvent.shownLines] using HasLines.single hline
  | duplicate ordinal depth => exact hasLines_remark depth _
  | truncated depth => exact hasLines_remark depth _
  | missing id depth =>
      rw [eventLines, WalkEvent.shownLines]
      split
      · exact .nil
      · exact hasLines_remark depth _

end Renderer

/-- Where no name and no path breaks a line, the text of a tree is the join of the lines that the
events of the walk show, and those of a trace are the lines of the text that is kept for it. -/
theorem plain_joins_kept_lines {md : Metadata} (options : RenderOptions) {g : ExceptionGraph}
    (hnames : AreLines md.names) (hpaths : AreLines g.paths) (root : ExceptionId) :
    let r : Renderer := { metadata := md, options := options }
    r.plain g root =
      "\n".intercalate ((r.walk g root).flatMap (·.shownLines g (r.plainKeeping g root).2)) := by
  intro r
  have hlines : HasLines (r.tree g root).rendering
      ((r.walk g root).flatMap (·.shownLines g (r.plainKeeping g root).2)) := by
    rw [Renderer.tree, Output.rendering_concat, List.flatMap_map]
    · exact .flatMap fun event => Renderer.hasLines_eventLines rfl hnames hpaths
    · intro part hpart
      obtain ⟨event, -, rfl⟩ := List.mem_map.1 hpart
      exact Renderer.aborted_eventLines rfl g event
  exact hlines.plain_eq

/-! An exception and its cause, which refers back to it. The method of their frames is unknown. -/

namespace LinkedBack

def table : Metadata :=
  { types := .ofList [(1, .named { name := "Program", space := some "App" })] }

def frame : Frame :=
  { declaringType := ⟨1⟩, method := ⟨7⟩, file := some "Program.cs", line := some 3 }

def graph : ExceptionGraph :=
  ⟨#[{ typeName := "Outer", message := "failed", inner := some 1
       trace := { frames := [{ frame with isLastInChain := true }, frame] } },
     { typeName := "Inner", inner := some 0
       trace := { frames := [frame], omittedFrames := 2 } }]⟩

end LinkedBack

theorem plain_linkedBack :
    ({ metadata := LinkedBack.table } : Renderer).plain LinkedBack.graph 0 =
      "\n".intercalate
        ["Outer: failed",
         "   at Program.?(?) in Program.cs:line 3",
         "--- End of stack trace from previous location ---",
         "   at Program.?(?) in Program.cs:line 3",
         " ---> Inner",
         "     at Program.?(?) in Program.cs:line 3",
         "     ... 2 frames omitted",
         "   ---> (duplicate of exception #1, see above)",
         "   --- End of inner exception stack trace ---"] := by
  have hnames : AreLines LinkedBack.table.names := by decide
  have hpaths : AreLines LinkedBack.graph.paths := by decide
  refine (plain_joins_kept_lines {} hnames hpaths 0).trans (congrArg _ ?_)
  cbv

end Unmangle
