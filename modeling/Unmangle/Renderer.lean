import Unmangle.Exception.Walk
import Unmangle.Fault
import Unmangle.Options
import Unmangle.Rendering.Method
import Unmangle.Rendering.Output

/-!
# Rendering traces

A frame shows as one line, `at Type.Method(...) in file:line n`, even if its method is unknown. An
exception shows as a header line with its frames below it, and the exceptions linked to it follow,
each introduced by an arrow, indented by its depth and closed by a line of its own:

```text
System.Exception: outer
   at Program.Run()
 ---> System.IO.IOException: inner
     at Program.Read()
   --- End of inner exception stack trace ---
```

All frames of an exception are resolved before the first of them is written. A fault ends the
rendering there, and what has been written is the result.
-/

namespace Unmangle

/-- Where a frame was in the source: ` in file` and, if the number is above zero, `:line n`. -/
def Frame.location (frame : Frame) : Rendering :=
  match frame.file with
  | some file =>
    if file.isEmpty then []
    else
      [.text " ", .styled "in" .keyword, .text " ", .styled file .path] ++
        match frame.line with
        | some line =>
          if line = 0 then []
          else [.text ":", .styled "line" .keyword, .text " ", .styled (toString line) .lineNumber]
        | none => []
  | none => []

/-- A call of a method that is not known, on its type. -/
def SourceType.renderUnknownCall (options : FormatOptions) (type : SourceType) : Rendering :=
  type.render options ++
    [punctuation ".", .styled "?" .marker, punctuation "(", .styled "?" .marker, punctuation ")"]

/-- The type of an exception and its message, if it has one. -/
def ExceptionRecord.header (record : ExceptionRecord) : Rendering :=
  .styled record.typeName .exceptionType ::
    if record.message.isEmpty then [] else [.text ": ", .text record.message]

/-- Two spaces for each level. -/
def indentation (depth : Nat) : String := .ofList (List.replicate (2 * depth) ' ')

/-- The start of a line about an exception below the root. -/
def arrow (depth : Nat) : Rendering :=
  [.text (indentation (depth - 1)), .styled " ---> " .marker]

/-- What renders traces: the metadata, the options, and the faults to live with. -/
structure Renderer where
  metadata : Metadata
  options : RenderOptions := {}
  faults : Faults := {}
deriving Inhabited

namespace Renderer

def format (r : Renderer) : FormatOptions := r.options.format

/-- What a frame was running, or nothing if a fault strikes. -/
def resolve? (r : Renderer) (frame : Frame) : Option (Except Error SourceCall) :=
  if r.faults.strike fun _ => frame.questions r.metadata then none
  else some (frame.resolve r.metadata)

/-- What a frame was running. A fault is an error of its own. -/
def resolve (r : Renderer) (frame : Frame) : Except Error SourceCall :=
  (r.resolve? frame).getD (.error (.internal "resolution aborted"))

/-- A frame with the result of its resolution. Where that failed, its type is all there is to
show, and it is resolved only now. -/
def frameLine (r : Renderer) (frame : Frame) (resolved : Except Error SourceCall) : Output :=
  let start : Rendering := [.styled "at" .keyword, .text " "]
  match resolved with
  | .ok call => .whole (start ++ call.render r.format ++ frame.location)
  | .error _ =>
    let token := frame.declaringType
    if r.faults.strike fun _ => r.metadata.questions {} token then .broken start
    else
      let type := r.metadata.resolveType {} token
      .whole (start ++ type.renderUnknownCall r.format ++ frame.location)

/-- The text of one frame. -/
def frame (r : Renderer) (frame : Frame) : Output :=
  match r.resolve? frame with
  | some resolved => r.frameLine frame resolved
  | none => .broken []

/-- The line between a frame and the frames of the task that waited for it. -/
def boundaryLine (indent : String) : Rendering :=
  [.lineStart, .text indent,
   .styled "--- End of stack trace from previous location ---" .marker]

/-- Frames with the results of their resolution, one line each. -/
def frameLines (r : Renderer) (indent : String) :
    List (Frame × Except Error SourceCall) → List Output
  | [] => []
  | (frame, resolved) :: rest =>
    (.whole [.lineStart, .text indent, .text "   "] ++ r.frameLine frame resolved) ::
      if frame.isLastInChain && !rest.isEmpty then
        .whole (boundaryLine indent) :: r.frameLines indent rest
      else r.frameLines indent rest

/-- The line on frames that were not captured. -/
def omissionLine (indent : String) (trace : StackTrace) : Rendering :=
  if trace.omittedFrames = 0 then []
  else
    [.lineStart, .text indent, .text "   ",
     .styled s!"... {trace.omittedFrames} frames omitted" .marker]

/-- The lines of a trace, each behind `indent`. -/
def trace (r : Renderer) (indent : String) (trace : StackTrace) : Output :=
  match trace.frames.mapM r.resolve? with
  | some resolved =>
    .concat (r.frameLines indent (trace.frames.zip resolved)) ++
      .whole (omissionLine indent trace)
  | none => .broken []

/-- The line of an event that shows no exception of its own. -/
def remark (depth : Nat) (text : String) : Output :=
  .whole (.lineStart :: arrow depth ++ [.styled text .marker])

/-- The lines of one event of a walk. -/
def eventLines (r : Renderer) (g : ExceptionGraph) : WalkEvent → Output
  | .enter id depth _ =>
    match g.get? id with
    | some record =>
      .whole (.lineStart :: (if depth = 0 then [] else arrow depth) ++ record.header) ++
        r.trace (indentation depth) record.trace
    | none => .whole []
  | .leave depth =>
    .whole
      [.lineStart, .text (indentation (depth - 1)), .text "   ",
       .styled "--- End of inner exception stack trace ---" .marker]
  | .duplicate ordinal depth =>
    remark depth s!"(duplicate of exception #{ordinal}, see above)"
  | .truncated depth => remark depth s!"(exception chain truncated at depth {depth})"
  | .missing id depth =>
    if depth = 0 then .whole [] else remark depth s!"(missing exception #{id})"

/-- The walk that a rendering follows. -/
def walk (r : Renderer) (g : ExceptionGraph) (root : ExceptionId) : List WalkEvent :=
  g.walk root r.options.maxDepth.toNat

/-- The exception at `root` with all that are linked to it. -/
def tree (r : Renderer) (g : ExceptionGraph) (root : ExceptionId) : Output :=
  .concat ((r.walk g root).map (r.eventLines g))

def plain (r : Renderer) (g : ExceptionGraph) (root : ExceptionId) : String :=
  (r.tree g root).rendering.plain

def styled (r : Renderer) (g : ExceptionGraph) (root : ExceptionId) : String :=
  (r.tree g root).rendering.styled r.options.colorEnabled

/-- The rendering for a terminal, with escape sequences if color is on, and a line end. -/
def terminal (r : Renderer) (g : ExceptionGraph) (root : ExceptionId) : String :=
  (if r.options.colorEnabled then Markup.toAnsi (r.styled g root) else r.plain g root) ++ "\n"

/-- The frames of each exception that is entered and has any, written by `write`. -/
def traceTexts (r : Renderer) (write : Rendering → String) (g : ExceptionGraph)
    (root : ExceptionId) : List (ExceptionId × String) :=
  (r.walk g root).filterMap fun event =>
    match event with
    | .enter id _ _ =>
      (g.get? id).bind fun record =>
        if record.trace.isEmpty then none
        else some (id, write (r.trace "" record.trace).rendering)
    | _ => none

/-- Keeps the text of a trace with its exception. -/
def keepTrace (g : ExceptionGraph) (entry : ExceptionId × String) : ExceptionGraph :=
  match g.setRenderedTrace entry.1 entry.2 with
  | .ok changed => changed
  | .error _ => g

/-- Renders a tree and keeps the text of each trace in it, unless the rendering broke off. -/
def renderKeeping (r : Renderer) (write : Rendering → String) (g : ExceptionGraph)
    (root : ExceptionId) : String × ExceptionGraph :=
  let output := r.tree g root
  (write output.rendering,
    if output.aborted then g else (r.traceTexts write g root).foldl keepTrace g)

def plainKeeping (r : Renderer) (g : ExceptionGraph) (root : ExceptionId) :
    String × ExceptionGraph :=
  r.renderKeeping (·.plain) g root

def styledKeeping (r : Renderer) (g : ExceptionGraph) (root : ExceptionId) :
    String × ExceptionGraph :=
  r.renderKeeping (·.styled r.options.colorEnabled) g root

def framePlain (r : Renderer) (frame : Frame) : String := (r.frame frame).rendering.plain

def frameStyled (r : Renderer) (frame : Frame) : String :=
  (r.frame frame).rendering.styled r.options.colorEnabled

end Renderer

end Unmangle
