import Unmangle.CommandLine.Arguments
import Unmangle.Document.Reader
import Unmangle.Json.Printer
import Unmangle.Renderer

/-!
# Running a command

A command reads a file of options, if one is named, and then a document. It prints a text, or a
JSON value that tells the result or the error. The exit code of a failure is the number of its
error. Files are handed in as far as they could be read, so that running a command is a function.
-/

namespace Unmangle.CommandLine

/-- Where a text comes from. -/
inductive Source where
  | file (path : String)
  | standardInput
deriving DecidableEq, Repr

/-- What reading gave: bytes, or the words of the system for what went wrong. -/
abbrev Reading := Source → Except String ByteArray

/-- What a command leaves behind. -/
structure Outcome where
  exitCode : Nat := 0
  output : String := ""
  error : Option Error := none

def versionText : String := "demystify 0.1.0\n"

/-- The version of the form of JSON output. -/
def schemaVersion : String := "1"

/-- The text that a source holds. -/
def Source.text (source : Source) (read : Reading) : Except Error String :=
  match read source with
  | .error reason => .error (.io reason)
  | .ok bytes =>
    match String.fromUTF8? bytes with
    | some text => .ok text
    | none => .error (.io "stream did not contain valid UTF-8")

/-- The source that an input names: a dash is standard input. -/
def Source.ofInput (input : String) : Source :=
  if input = "-" then .standardInput else .file input

def Command.input : Command → String
  | render input | frame input _ => input

namespace Invocation

/-- The built-in options, then those of the file, then those of the command line. -/
def options (inv : Invocation) (read : Reading) : Except Error RenderOptions := do
  let fromFile : RenderOptions ←
    match inv.config with
    | some path => (Source.file path).text read >>= RenderOptions.ofJson
    | none => pure {}
  let options : RenderOptions :=
    { fromFile with
      colorEnabled := fromFile.colorEnabled && !inv.noColor
      namespaceQualified := fromFile.namespaceQualified || inv.fullNames
      includeGenericParamNames := fromFile.includeGenericParamNames && !inv.noGenericNames }
  match inv.maxDepth with
  | some 0 => .error (.invalidArguments "--max-depth must be at least 1")
  | some maxDepth => pure { options with maxDepth := .ofNat maxDepth }
  | none => pure options

def document (inv : Invocation) (read : Reading) : Except Error Document :=
  (Source.ofInput inv.command.input).text read >>= Document.ofJson

/-- The start of every JSON answer. -/
def answer (status : String) (fields : List (String × Option Json)) : String :=
  (Json.ofFields
    (("status", some (.ofString status)) :: ("schema_version", some (.ofString schemaVersion)) ::
      fields)).pretty ++ "\n"

/-- The texts of traces that are kept with the exceptions of a graph. -/
def keptTraces (g : ExceptionGraph) : List Json :=
  (List.range g.size).filterMap fun id =>
    (g.renderedTrace? id).map fun trace =>
      .ofFields [("id", some (.ofNat id)), ("trace", some (.ofString trace))]

/-- The output of rendering a document. As JSON it tells both looks of the text and the texts of
all traces, which rendering has brought up to date. -/
def renderOutput (inv : Invocation) (r : Renderer) (d : Document) : String :=
  match inv.format with
  | .json =>
    let (plain, kept) := r.plainKeeping d.exceptions d.root
    let traces := keptTraces kept
    answer "ok"
      [("root", some (.ofNat d.root)),
       ("plain", some (.ofString plain)),
       ("styled", some (.ofString (r.styled kept d.root))),
       ("traces", if traces.isEmpty then none else some (.array traces))]
  | .text =>
    match inv.style with
    | .plain => r.plain d.exceptions d.root ++ "\n"
    | .styled => r.styled d.exceptions d.root ++ "\n"
    | .ansi => r.terminal d.exceptions d.root

/-- The frame of some number of the exception at the root. -/
def findFrame (d : Document) (index : Nat) : Except Error Frame :=
  match d.exceptions.get? d.root with
  | none => .error (.unknownException d.root)
  | some record =>
    match record.trace.frames[index]? with
    | some frame => .ok frame
    | none =>
      .error <| .invalidArguments
        s!"frame index {index} out of range ({record.trace.frames.length} frames)"

/-- The output of rendering one frame. -/
def frameOutput (inv : Invocation) (r : Renderer) (index : Nat) (frame : Frame) : String :=
  match inv.format with
  | .json =>
    answer "ok"
      [("index", some (.ofNat index)),
       ("plain", some (.ofString (r.framePlain frame))),
       ("styled", some (.ofString (r.frameStyled frame)))]
  | .text =>
    let line :=
      match inv.style with
      | .plain => r.framePlain frame
      | .styled => r.frameStyled frame
      | .ansi =>
        if r.options.colorEnabled then Markup.toAnsi (r.frameStyled frame) else r.framePlain frame
    line ++ "\n"

/-- The output of a command. Options are looked at first, then the document. -/
def output (inv : Invocation) (read : Reading) : Except Error String := do
  let options ← inv.options read
  let d ← inv.document read
  let r : Renderer := { metadata := d.metadata, options }
  match inv.command with
  | .render _ => pure (inv.renderOutput r d)
  | .frame _ index => (findFrame d index).map (inv.frameOutput r index)

/-- Runs a command. An error is told on standard output only as JSON. -/
def run (inv : Invocation) (read : Reading) : Outcome :=
  match inv.output read with
  | .ok output => { output }
  | .error error =>
    match inv.format with
    | .text => { exitCode := error.code, error := some error }
    | .json =>
      let details : Json :=
        .ofFields [("code", some (.ofNat error.code)), ("message", some (.ofString error.message))]
      { exitCode := error.code, output := answer "error" [("error", some details)] }

/-- What a command may read. -/
def sources (inv : Invocation) : List Source :=
  (inv.config.map .file).toList ++ [.ofInput inv.command.input]

end Invocation

end Unmangle.CommandLine
