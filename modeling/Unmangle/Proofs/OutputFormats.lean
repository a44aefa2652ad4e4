import Unmangle.CommandLine.Run
import Unmangle.Proofs.DocumentRoundTrip
import Unmangle.Proofs.KeptTraces

/-!
# The formats of a rendering tell the same

Rendering to JSON does more than rendering to text: it keeps the texts of traces in the graph, and
then renders that graph once more, with styles this time. None of this shows in the two texts,
since a rendering does not look at the texts that are kept. What does show is the list of traces,
and that is read off the graph behind the rendering, number by number: an exception that the walk
entered has the text of its frames alone, any other the text that it came with.

The answer is a JSON text. Whoever reads it gets back what is said of it here, because every string
in it was escaped (`RenderReport.roundTrips`).
-/

namespace Unmangle

/-- The texts that are kept with the exceptions of a graph, by number. -/
def ExceptionGraph.keptTexts (g : ExceptionGraph) : List (ExceptionId × String) :=
  (List.range g.size).filterMap fun id => (g.renderedTrace? id).map (id, ·)

namespace ExceptionGraph

variable {g : ExceptionGraph} {id : ExceptionId} {text : String}

theorem mem_keptTexts : (id, text) ∈ g.keptTexts ↔ g.renderedTrace? id = some text := by
  rw [keptTexts, List.mem_filterMap]
  constructor
  · rintro ⟨other, -, hother⟩
    obtain ⟨found, hfound, heq⟩ := Option.map_eq_some_iff.1 hother
    cases heq
    exact hfound
  · intro hkept
    obtain ⟨record, hfound, -⟩ := Option.bind_eq_some_iff.1 hkept
    refine ⟨id, List.mem_range.2 (Walk.lt_size_of_get? hfound), ?_⟩
    rw [hkept, Option.map_some]

theorem pairwise_keptTexts : g.keptTexts.Pairwise fun a b => a.1 < b.1 := by
  refine List.Pairwise.filterMap _ (fun id other hlt => ?_) List.pairwise_lt_range
  rintro _ hfirst _ hsecond
  obtain ⟨_, -, rfl⟩ := Option.map_eq_some_iff.1 hfirst
  obtain ⟨_, -, rfl⟩ := Option.map_eq_some_iff.1 hsecond
  exact hlt

end ExceptionGraph

namespace Renderer

variable (r : Renderer) {g h : ExceptionGraph}

/-! No look of a rendering depends on the texts that are kept. -/

theorem plain_congr (hsame : g.SameButTexts h) (root : ExceptionId) :
    r.plain g root = r.plain h root := by
  rw [plain, plain, tree_congr r hsame]

theorem styled_congr (hsame : g.SameButTexts h) (root : ExceptionId) :
    r.styled g root = r.styled h root := by
  rw [styled, styled, tree_congr r hsame]

theorem terminal_congr (hsame : g.SameButTexts h) (root : ExceptionId) :
    r.terminal g root = r.terminal h root := by
  rw [terminal, terminal, plain_congr r hsame, styled_congr r hsame]

end Renderer

/-! ## Reports -/

/-- What rendering to JSON reports. -/
structure RenderReport where
  status : String := "ok"
  schemaVersion : String := CommandLine.schemaVersion
  root : ExceptionId
  plain : String
  styled : String
  traces : List (ExceptionId × String)

namespace RenderReport

def traceJson (entry : ExceptionId × String) : Json :=
  .ofFields [("id", some (.ofNat entry.1)), ("trace", some (DocumentWriter.text entry.2))]

def readTrace (json : Json) : Option (ExceptionId × String) := do
  let [id, trace] ← json.fields? ["id", "trace"] | none
  some (← Json.required DocumentReader.exceptionId id, ← Json.required Json.text? trace)

/-- The report as it is written. -/
def toJson (report : RenderReport) : Json :=
  .ofFields
    [("status", some (DocumentWriter.text report.status)),
     ("schema_version", some (DocumentWriter.text report.schemaVersion)),
     ("root", some (.ofNat report.root)),
     ("plain", some (DocumentWriter.text report.plain)),
     ("styled", some (DocumentWriter.text report.styled)),
     ("traces", DocumentWriter.listIfAny traceJson report.traces)]

/-- The report that a JSON value holds. -/
def ofJson? (json : Json) : Option RenderReport := do
  let [status, schemaVersion, root, plain, styled, traces] ←
    json.fields? ["status", "schema_version", "root", "plain", "styled", "traces"] | none
  some
    { status := ← Json.required Json.text? status
      schemaVersion := ← Json.required Json.text? schemaVersion
      root := ← Json.required DocumentReader.exceptionId root
      plain := ← Json.required Json.text? plain
      styled := ← Json.required Json.text? styled
      traces := ← Json.orDefault [] (Json.list? readTrace) traces }

theorem roundTrips_trace (room : Nat) {entry : ExceptionId × String}
    (hid : entry.1 < UInt64.size) : RoundTrips (room + 1) traceJson readTrace entry := by
  have hid := (roundTrips_exceptionId room hid).required
  have htrace := (roundTrips_text room entry.2).required
  refine .ofFields rfl (fun _ => rfl) rfl (by simp) ?_ ?_
  · simp only [List.forall_mem_cons]
    exact ⟨hid.written, htrace.written, List.forall_mem_nil _⟩
  · simp only [List.map_cons, List.map_nil, Option.bind_eq_bind, Option.bind_some, hid.reads,
      htrace.reads]

theorem roundTrips (room : Nat) {report : RenderReport} (hroot : report.root < UInt64.size)
    (htraces : ∀ entry ∈ report.traces, entry.1 < UInt64.size) :
    RoundTrips (room + 3) toJson ofJson? report := by
  have hstatus := (roundTrips_text (room + 2) report.status).required
  have hversion := (roundTrips_text (room + 2) report.schemaVersion).required
  have hroot := (roundTrips_exceptionId (room + 2) hroot).required
  have hplain := (roundTrips_text (room + 2) report.plain).required
  have hstyled := (roundTrips_text (room + 2) report.styled).required
  have htraces := RoundTrips.listIfAny report.traces fun entry hentry =>
    roundTrips_trace room (htraces entry hentry)
  refine .ofFields rfl (fun _ => rfl) rfl (by simp) ?_ ?_
  · simp only [List.forall_mem_cons]
    exact ⟨hstatus.written, hversion.written, hroot.written, hplain.written, hstyled.written,
      htraces.written, List.forall_mem_nil _⟩
  · simp only [List.map_cons, List.map_nil, Option.bind_eq_bind, Option.bind_some, hstatus.reads,
      hversion.reads, hroot.reads, hplain.reads, hstyled.reads, htraces.reads]

end RenderReport

namespace CommandLine

variable {r : Renderer} {d : Document} {inv : Invocation} {read : Reading}

/-- What is to be reported of a document. -/
def renderReport (r : Renderer) (d : Document) : RenderReport where
  root := d.root
  plain := r.plain d.exceptions d.root
  styled := r.styled d.exceptions d.root
  traces := (r.plainKeeping d.exceptions d.root).2.keptTexts

theorem keptTraces_eq (g : ExceptionGraph) :
    Invocation.keptTraces g = g.keptTexts.map RenderReport.traceJson := by
  rw [Invocation.keptTraces, ExceptionGraph.keptTexts, List.map_filterMap]
  congr 1
  funext id
  rw [Option.map_map]
  rfl

/-- Keeping texts in between does not change what is rendered. -/
theorem renderOutput_json (h : inv.format = .json) :
    inv.renderOutput r d = (renderReport r d).toJson.pretty ++ "\n" := by
  have hstyled : r.styled (r.plainKeeping d.exceptions d.root).2 d.root =
      r.styled d.exceptions d.root :=
    (r.styled_congr Renderer.sameButTexts_renderKeeping d.root).symm
  rw [Invocation.renderOutput, h]
  dsimp only
  rw [hstyled, keptTraces_eq, List.isEmpty_map]
  rfl

/-- The reported traces: the new text of each exception that was entered and has a trace to show,
the old text of every other one that had any. -/
theorem mem_traces_renderReport (hsound : r.faults = {}) {id : ExceptionId} {text : String} :
    (id, text) ∈ (renderReport r d).traces ↔
      ∃ record, d.exceptions.get? id = some record ∧
        if id ∈ entered (r.walk d.exceptions d.root) ∧ record.trace.isEmpty = false then
          text = (r.trace "" record.trace).rendering.plain
        else record.renderedTrace = some text := by
  have hwhole := Renderer.aborted_tree hsound d.exceptions d.root
  rw [renderReport, ExceptionGraph.mem_keptTexts, ExceptionGraph.renderedTrace?,
    Renderer.plainKeeping, Renderer.get?_renderKeeping hwhole]
  cases hfound : d.exceptions.get? id with
  | none => simp
  | some record =>
      simp only [Option.map_some, Option.bind_some, Option.some.injEq, exists_eq_left',
        Renderer.keptRecord]
      split
      · exact Option.some_inj.trans eq_comm
      · rfl

/-- A run that can read its options and its document prints the rendering. -/
theorem run_render {input : String} {options : RenderOptions}
    (hrender : inv.command = .render input) (hoptions : inv.options read = .ok options)
    (hdocument : inv.document read = .ok d) :
    inv.run read = { output := inv.renderOutput { metadata := d.metadata, options } d } := by
  have houtput : inv.output read =
      .ok (inv.renderOutput { metadata := d.metadata, options } d) := by
    rw [Invocation.output, hoptions, hdocument, hrender]
    rfl
  rw [Invocation.run, houtput]

/-- A source that gives the bytes of a text is read as that text. -/
theorem text_of_utf8 {source : Source} {text : String} (h : read source = .ok text.toUTF8) :
    source.text read = .ok text := by
  have hutf8 : String.fromUTF8? text.toUTF8 = some text := dif_pos text.isValidUTF8
  rw [Source.text, h]
  dsimp only
  rw [hutf8]

theorem validate_of_document (hdocument : inv.document read = .ok d) : d.validate = .ok () := by
  rw [Invocation.document] at hdocument
  cases htext : (Source.ofInput inv.command.input).text read with
  | error error => rw [htext] at hdocument; cases hdocument
  | ok text => rw [htext] at hdocument; exact Document.validate_of_ofJson hdocument

/-- Who reads the answer gets the report back, if ids fit the words that they are written in. -/
theorem read_renderReport (hvalid : d.validate = .ok ())
    (hsize : d.exceptions.size ≤ UInt64.size) :
    (Json.parse? ((renderReport r d).toJson.pretty ++ "\n")).bind RenderReport.ofJson? =
      some (renderReport r d) := by
  have hroot : d.root < UInt64.size :=
    Nat.lt_of_lt_of_le (of_decide_eq_true (Document.validate_eq_ok_iff.1 hvalid).1) hsize
  have htraces : ∀ entry ∈ (renderReport r d).traces, entry.1 < UInt64.size := by
    rintro ⟨id, text⟩ hentry
    obtain ⟨record, hfound, -⟩ := Option.bind_eq_some_iff.1 (ExceptionGraph.mem_keptTexts.1 hentry)
    have hkept : (r.plainKeeping d.exceptions d.root).2.size = d.exceptions.size :=
      Renderer.sameButTexts_renderKeeping.size_eq.symm
    exact Nat.lt_of_lt_of_le (Walk.lt_size_of_get? hfound) (hkept ▸ hsize)
  have hreport := RenderReport.roundTrips 0 hroot htraces
  have htext : (renderReport r d).toJson.pretty ++ "\n" =
      .ofList ((renderReport r d).toJson.chars 0 ++ ['\n']) := by
    rw [Json.pretty, String.ofList_append]
  have hblank : ∀ c ∈ ['\n'], JsonToken.isSpace c := List.forall_mem_singleton.2 rfl
  rw [htext, Json.parse?_chars_append hreport.written hblank, Option.bind_some, hreport.reads]

/-- No look of a rendering depends on texts kept before. Hence the two formats of the command line
agree: rendering to JSON, which keeps texts and then renders again, reports the texts that are
printed as text, and as traces, by number and each once, the new text of every exception that was
entered and has a trace to show, the old one of every other exception that had one, and no more. -/
theorem formats_agree :
    (∀ (r : Renderer) (g h : ExceptionGraph), g.SameButTexts h → ∀ root,
      r.plain g root = r.plain h root ∧ r.styled g root = r.styled h root ∧
        r.terminal g root = r.terminal h root) ∧
    ∀ (inv : Invocation) (read : Reading) (input : String) (options : RenderOptions)
      (d : Document), inv.command = .render input → inv.options read = .ok options →
      inv.document read = .ok d →
      let r : Renderer := { metadata := d.metadata, options }
      let asJson := { inv with format := .json }
      let asText := fun style : TextStyle => { inv with format := .text, style }
      ∃ report : RenderReport,
        asJson.run read = { output := report.toJson.pretty ++ "\n" } ∧
        (d.exceptions.size ≤ UInt64.size →
          (Json.parse? (asJson.run read).output).bind RenderReport.ofJson? = some report) ∧
        report.root = d.root ∧
        (asText .plain).run read = { output := report.plain ++ "\n" } ∧
        (asText .styled).run read = { output := report.styled ++ "\n" } ∧
        report.traces.Pairwise (fun a b => a.1 < b.1) ∧
        ∀ id text, (id, text) ∈ report.traces ↔
          ∃ record, d.exceptions.get? id = some record ∧
            if id ∈ entered (r.walk d.exceptions d.root) ∧ record.trace.isEmpty = false then
              text = (r.trace "" record.trace).rendering.plain
            else record.renderedTrace = some text := by
  constructor
  · intro r g h hsame root
    exact ⟨r.plain_congr hsame root, r.styled_congr hsame root, r.terminal_congr hsame root⟩
  · intro inv read input options d hrender hoptions hdocument r asJson asText
    have hjson : asJson.run read = { output := (renderReport r d).toJson.pretty ++ "\n" } :=
      calc asJson.run read
        _ = { output := asJson.renderOutput r d } := run_render hrender hoptions hdocument
        _ = _ := by rw [renderOutput_json rfl]
    refine ⟨renderReport r d, hjson, fun hsize => ?_, rfl, ?_, ?_,
      ExceptionGraph.pairwise_keptTexts, fun id text => mem_traces_renderReport rfl⟩
    · rw [hjson]
      exact read_renderReport (validate_of_document hdocument) hsize
    · exact run_render hrender hoptions hdocument
    · exact run_render hrender hoptions hdocument

/-- An exception with a text that is out of date, and one with a text that no walk comes to. -/
def keptText : String :=
  "[[], [[\"Outer\", \"\", [[], 3], 0, [], \"old\"], [\"Lost\", \"\", [], null, [], \"kept\"]]]"

def kept : Document where
  exceptions :=
    ⟨#[{ typeName := "Outer", trace := { omittedFrames := 3 }, inner := some 0,
         renderedTrace := some "old" },
       { typeName := "Lost", renderedTrace := some "kept" }]⟩

theorem walk_kept : kept.exceptions.walk 0 64 = [.enter 0 0 1, .duplicate 1 1] := by
  cbv

theorem formats_agree_kept :
    let inv : Invocation := { command := .render "-" }
    let read : Reading := fun _ => .ok keptText.toUTF8
    inv.options read = .ok {} ∧ inv.document read = .ok kept ∧
      ∃ report : RenderReport,
        (Json.parse? ({ inv with format := .json }.run read).output).bind RenderReport.ofJson? =
          some report ∧
        (inv.run read).output = report.plain ++ "\n" ∧
        (0, "   ... 3 frames omitted") ∈ report.traces ∧ (1, "kept") ∈ report.traces := by
  intro inv read
  have hoptions : inv.options read = .ok {} := rfl
  have hdocument : inv.document read = .ok kept := by
    rw [Invocation.document, text_of_utf8 rfl]
    with_unfolding_all rfl
  obtain ⟨report, hjson, hread, -, hplain, -, -, htraces⟩ :=
    formats_agree.2 inv read "-" {} kept rfl hoptions hdocument
  refine ⟨hoptions, hdocument, report, hread (by decide), congrArg (·.output) hplain, ?_, ?_⟩
  · rw [htraces]
    refine ⟨_, rfl, ?_⟩
    rw [if_pos ⟨ExceptionGraph.root_mem_entered rfl, rfl⟩]
    with_unfolding_all rfl
  · rw [htraces]
    refine ⟨_, rfl, ?_⟩
    have hlost : 1 ∉ entered (kept.exceptions.walk 0 64) := by
      rw [walk_kept]
      decide
    rw [if_neg fun h => hlost h.1]
    rfl

end CommandLine

end Unmangle
