import Unmangle.Proofs.TreeLines

/-!
# One line for each frame

A trace is rendered in two passes: all frames are resolved first, and then each is written together
with its result, so that the line of a frame is only as good as the pairing of the two lists. Also
written are lines that belong to no frame, between frames and below them. Here the lines are those
that the frames give one by one, each resolved and rendered on its own, and they are told by the
place of the frame in the trace.
-/

namespace Unmangle

open Rendering

namespace Renderer

variable {r : Renderer}

theorem frame_eq_frameLine (hsound : r.faults = {}) (frame : Frame) :
    r.frame frame = r.frameLine frame (frame.resolve r.metadata) := by
  rw [Renderer.frame, resolve?_of_faultless hsound]

/-- The lines that the `i`th of `count` frames adds to a trace. -/
def linesOfFrame (r : Renderer) (indent : String) (count : Nat) : Frame × Nat → List String
  | (frame, i) =>
    (indent ++ "   " ++ r.framePlain frame) ::
      if frame.isLastInChain ∧ i + 1 < count then
        [indent ++ "--- End of stack trace from previous location ---"]
      else []

/-- The lines of frames, of which the first is the `i`th. -/
theorem map_frameTexts (hsound : r.faults = {}) (indent : String) (frames : List Frame) (i : Nat) :
    (r.frameTexts frames).map (indent ++ ·) =
      (frames.zipIdx i).flatMap (r.linesOfFrame indent (i + frames.length)) := by
  induction frames generalizing i with
  | nil => rfl
  | cons frame rest ih =>
      have hrest := ih (i + 1)
      have hcount : i + (frame :: rest).length = i + 1 + rest.length := by
        rw [List.length_cons]
        omega
      -- The next place is below the number of frames if there is a next frame.
      have hplace : i + 1 < i + 1 + rest.length ↔ rest ≠ [] := by
        rw [← List.length_pos_iff]
        omega
      have hline : indent ++ ("   " ++
          (r.frameLine frame (frame.resolve r.metadata)).rendering.plain) =
            indent ++ "   " ++ r.framePlain frame := by
        rw [framePlain, frame_eq_frameLine hsound, String.append_assoc]
      rw [List.zipIdx_cons, List.flatMap_cons, hcount, ← hrest, frameTexts, linesOfFrame,
        List.map_cons, hline]
      simp only [hplace]
      cases frame.isLastInChain <;> cases rest <;> simp

theorem length_frameTexts (frames : List Frame) :
    (r.frameTexts frames).length =
      frames.length + frames.dropLast.countP (·.isLastInChain) := by
  induction frames with
  | nil => rfl
  | cons frame rest ih =>
      cases rest with
      | nil => simp [frameTexts]
      | cons next rest =>
          rw [frameTexts, List.dropLast_cons_cons, List.countP_cons, List.length_cons,
            List.length_cons]
          cases frame.isLastInChain <;> simp [ih] <;> omega

/-- The number of lines of a trace. -/
theorem length_traceLines (trace : StackTrace) :
    (r.traceLines trace).length =
      trace.frames.length + trace.frames.dropLast.countP (·.isLastInChain) +
        if trace.omittedFrames = 0 then 0 else 1 := by
  rw [traceLines, List.length_append, length_frameTexts]
  split <;> rfl

end Renderer

/-- A trace is rendered as one line for each frame, which is its text alone behind the indentation,
with a line below it where a chain ends and another begins, and as one line on the omitted frames if
there are any. The text of a trace that is not empty falls apart into these lines, unless a name, a
path or the indentation has a line break inside. -/
theorem trace_has_line_per_frame (md : Metadata) (options : RenderOptions) (indent : String)
    (trace : StackTrace) :
    let r : Renderer := { metadata := md, options := options }
    let rendering := (r.trace indent trace).rendering
    let lines := trace.frames.zipIdx.flatMap (r.linesOfFrame indent trace.frames.length) ++
      if trace.omittedFrames = 0 then []
      else [indent ++ "   " ++ s!"... {trace.omittedFrames} frames omitted"]
    let count := trace.frames.length + trace.frames.dropLast.countP (·.isLastInChain) +
      if trace.omittedFrames = 0 then 0 else 1
    rendering.HasLines lines ∧
      rendering.count .lineStart = count ∧
      (trace.isEmpty = true → rendering = []) ∧
      (trace.isEmpty = false → AreLines md.names → AreLines trace.paths → IsLine indent →
        textLines rendering.plain = lines ∧ (textLines rendering.plain).length = count) := by
  intro r rendering lines count
  have hlines : (r.traceLines trace).map (indent ++ ·) = lines := by
    rw [Renderer.traceLines, List.map_append, Renderer.map_frameTexts rfl indent trace.frames 0,
      Nat.zero_add, apply_ite (List.map (indent ++ ·)), List.map_singleton, ← String.append_assoc]
    rfl
  have htrace : rendering.HasLines lines := hlines ▸ Renderer.hasLines_trace rfl indent trace
  have hcount : lines.length = count := by
    rw [← hlines, List.length_map]
    exact Renderer.length_traceLines trace
  refine ⟨htrace, htrace.count_lineStart.trans hcount, fun hempty => ?_, ?_⟩
  · rw [← hlines, Renderer.traceLines_of_isEmpty hempty] at htrace
    exact htrace.eq_nil
  · intro hshown hnames hpaths hindent
    have htext : textLines rendering.plain = lines :=
      (Renderer.textLines_trace hnames rfl hindent hpaths hshown).trans hlines
    exact ⟨htext, by rw [htext, hcount]⟩

/-! Two chains of frames. Each ends in a frame that is marked, and the method of the last is
unknown. -/

namespace TwoChains

def table : Metadata :=
  { types := .ofList [(1, .named { name := "Program", space := some "App" })]
    methods := .ofList [(5, { name := "Save", declaringType := ⟨1⟩ })] }

def awaited : Frame := { declaringType := ⟨1⟩, method := ⟨5⟩, isLastInChain := true }

def unknown : Frame :=
  { declaringType := ⟨1⟩, method := ⟨7⟩, file := some "Program.cs", line := some 3
    isLastInChain := true }

def trace : StackTrace := { frames := [awaited, unknown], omittedFrames := 2 }

end TwoChains

theorem textLines_twoChains :
    let r : Renderer := { metadata := TwoChains.table }
    textLines (r.trace "  " TwoChains.trace).rendering.plain =
        ["     at Program.Save()",
         "  --- End of stack trace from previous location ---",
         "     at Program.?(?) in Program.cs:line 3",
         "     ... 2 frames omitted"] ∧
      (r.trace "  " TwoChains.trace).rendering.count .lineStart = 4 ∧
      (r.trace "  " {}).rendering = [] := by
  have hnames : AreLines TwoChains.table.names := by decide
  have hpaths : AreLines TwoChains.trace.paths := by decide
  obtain ⟨-, hcount, -, htext⟩ :=
    trace_has_line_per_frame TwoChains.table {} "  " TwoChains.trace
  have hlines := (htext rfl hnames hpaths (by decide)).1
  refine ⟨hlines.trans ?_, hcount, ?_⟩
  · decide +kernel
  · exact (trace_has_line_per_frame TwoChains.table {} "  " {}).2.2.1 rfl

end Unmangle
