import Unmangle.Proofs.CallNames

/-!
# From names to the line of a frame

Rendering puts spans with words of its own between the names of a call. None of them starts a line
or breaks one, so the text of a frame starts no line in any case, and it stays on the line on which
it starts if the names do. Both are read off what a rendering shows: names of the call, each as a
styled text of its own, and words of the renderer.
-/

namespace Unmangle

/-- The span starts no line and breaks none. -/
def Span.StaysOnLine : Span → Prop
  | .text chars | .styled chars _ => IsLine chars
  | .lineStart => False

def Rendering.StaysOnLine (rendering : Rendering) : Prop := ∀ span ∈ rendering, span.StaysOnLine

/-- The span shows one of the names, or words that break no line. -/
def Span.Shows (names : List String) : Span → Prop
  | .text chars => IsLine chars
  | .styled chars _ => IsLine chars ∨ chars ∈ names
  | .lineStart => False

def Rendering.Shows (names : List String) (rendering : Rendering) : Prop :=
  ∀ span ∈ rendering, span.Shows names

theorem flatMap_subset_iff {α : Type} {l : List α} {part : α → List String} {names : List String} :
    l.flatMap part ⊆ names ↔ ∀ a ∈ l, part a ⊆ names :=
  List.forall_mem_flatMap

namespace Rendering

variable {names : List String}

@[simp]
theorem shows_nil : Shows names [] := fun _ h => nomatch h

@[simp]
theorem shows_text {text : String} {rest : Rendering} :
    Shows names (.text text :: rest) ↔ IsLine text ∧ Shows names rest := List.forall_mem_cons

@[simp]
theorem shows_styled {text : String} {style : Style} {rest : Rendering} :
    Shows names (.styled text style :: rest) ↔
      (IsLine text ∨ text ∈ names) ∧ Shows names rest :=
  List.forall_mem_cons

@[simp]
theorem shows_punctuation {text : String} {rest : Rendering} :
    Shows names (punctuation text :: rest) ↔ (IsLine text ∨ text ∈ names) ∧ Shows names rest :=
  List.forall_mem_cons

@[simp]
theorem shows_append {first second : Rendering} :
    Shows names (first ++ second) ↔ Shows names first ∧ Shows names second :=
  List.forall_mem_append

theorem shows_separated {separator : String} (hseparator : IsLine separator)
    {parts : List Rendering} (hparts : ∀ part ∈ parts, Shows names part) :
    Shows names (separated separator parts) := by
  rw [separated]
  induction parts with
  | nil => simp
  | cons part rest ih =>
      obtain ⟨hpart, hrest⟩ := List.forall_mem_cons.1 hparts
      cases rest with
      | nil => simpa using hpart
      | cons next rest =>
          rw [List.intercalate_cons_cons, shows_append, shows_append]
          exact ⟨⟨hpart, by simp [hseparator]⟩, ih hrest⟩

variable {rendering : Rendering}

theorem Shows.lineStart_not_mem (h : Shows names rendering) : .lineStart ∉ rendering :=
  fun hmem => h _ hmem

/-- What shows no names but such as break no line stays on its line. -/
theorem Shows.staysOnLine (h : Shows names rendering) (hnames : AreLines names) :
    StaysOnLine rendering := by
  intro span hspan
  have hshows := h span hspan
  cases span with
  | text chars => exact hshows
  | styled chars style => exact hshows.elim id (hnames chars)
  | lineStart => exact hshows

end Rendering

/-! ## Types -/

open Rendering

theorem isLine_rankBrackets (rank : Nat) : IsLine (rankBrackets rank) := by
  rw [rankBrackets, isLine_ofList]
  simp

variable {names : List String} (options : FormatOptions)

theorem shows_joinArguments (args : List SourceType) {parts : List Rendering}
    (hparts : ∀ part ∈ parts, Shows names part) :
    Shows names (joinArguments options args parts) := by
  have hshown : ∀ hide : Bool, ∀ part ∈ (args.zip parts).map (fun shown =>
      if hide && shown.1.isGenericParam then [] else shown.2), Shows names part := by
    intro hide part hpart
    obtain ⟨⟨arg, shown⟩, hmem, rfl⟩ := List.mem_map.1 hpart
    dsimp only
    split
    · exact shows_nil
    · exact hparts shown (List.of_mem_zip hmem).2
  rw [joinArguments]
  split
  · exact shows_nil
  · rw [shows_append, shows_punctuation]
    refine ⟨⟨by simp +decide, shows_separated ?_ (hshown _)⟩, by simp +decide⟩
    split <;> decide

theorem shows_renderSpace {space : Option String} (h : space.toList ⊆ names) :
    Shows names (renderSpace options space) := by
  cases space with
  | none => exact shows_nil
  | some name =>
      rw [renderSpace]
      split
      · simp +decide [h List.mem_cons_self]
      · exact shows_nil

mutual

theorem SourceType.shows_render :
    ∀ type : SourceType, type.names ⊆ names → Shows names (type.render options)
  | .named space segments, h => by
    rw [SourceType.names_named, List.append_subset, List.append_subset] at h
    obtain ⟨⟨hspace, hsegments⟩, hargs⟩ := h
    rw [flatMap_subset_iff] at hargs
    rw [SourceType.render, shows_append]
    refine ⟨shows_renderSpace options hspace, shows_separated (by decide) ?_⟩
    refine shows_renderSegments segments fun segment hsegment => ⟨?_, fun arg harg => ?_⟩
    · exact hsegments (List.mem_map_of_mem hsegment)
    · exact hargs arg (List.mem_flatMap.2 ⟨segment, hsegment, harg⟩)
  | .primitive keyword fullName, h => by
    rw [SourceType.render]
    split
    · simp [h (show fullName ∈ _ by simp)]
    · simp [h (show keyword ∈ _ by simp)]
  | .genericParam name, h => by
    simp [SourceType.render, h (show name ∈ _ by simp)]
  | .array element rank, h => by
    simpa [SourceType.render, isLine_rankBrackets] using element.shows_render h
  | .pointer element, h => by
    simpa +decide [SourceType.render] using element.shows_render h
  | .byRef element, h => by
    simpa +decide [SourceType.render] using element.shows_render h
  | .nullable element, h => by
    simpa +decide [SourceType.render] using element.shows_render h
  | .tuple elements, h => by
    rw [SourceType.names_tuple, flatMap_subset_iff] at h
    have hparts := shows_renderTypes elements h
    rw [SourceType.render, shows_append, shows_punctuation]
    exact ⟨⟨by simp +decide, shows_separated (by decide) hparts⟩, by simp +decide⟩
  | .dynamic, _ => by simp +decide [SourceType.render]
  | .foreignUnit, _ => by simp +decide [SourceType.render]
  | .unresolved, _ => by simp +decide [SourceType.render]
  | .truncated, _ => by simp +decide [SourceType.render]

theorem shows_renderTypes :
    ∀ types : List SourceType, (∀ type ∈ types, type.names ⊆ names) →
      ∀ part ∈ renderTypes options types, Shows names part
  | [], _, _, hpart => nomatch hpart
  | type :: rest, h, part, hpart => by
    obtain ⟨htype, hrest⟩ := List.forall_mem_cons.1 h
    rw [renderTypes] at hpart
    rcases List.mem_cons.1 hpart with rfl | hpart
    · exact type.shows_render htype
    · exact shows_renderTypes rest hrest part hpart

theorem TypeSegment.shows_render :
    ∀ segment : TypeSegment, segment.name ∈ names → (∀ arg ∈ segment.args, arg.names ⊆ names) →
      Shows names (segment.render options)
  | .mk name args, hname, hargs => by
    rw [TypeSegment.render, shows_styled]
    exact ⟨.inr hname, shows_joinArguments options args (shows_renderTypes args hargs)⟩

theorem shows_renderSegments :
    ∀ segments : List TypeSegment,
      (∀ segment ∈ segments, segment.name ∈ names ∧ ∀ arg ∈ segment.args, arg.names ⊆ names) →
      ∀ part ∈ renderSegments options segments, Shows names part
  | [], _, _, hpart => nomatch hpart
  | segment :: rest, h, part, hpart => by
    obtain ⟨hsegment, hrest⟩ := List.forall_mem_cons.1 h
    rw [renderSegments] at hpart
    rcases List.mem_cons.1 hpart with rfl | hpart
    · exact segment.shows_render hsegment.1 hsegment.2
    · exact shows_renderSegments rest hrest part hpart

end

/-! ## Methods and frames -/

theorem SourceParameter.shows_render {parameter : SourceParameter} (h : parameter.names ⊆ names) :
    Shows names (parameter.render options) := by
  rw [SourceParameter.names, List.append_subset] at h
  rw [render]
  split
  · exact shows_nil
  · simp only [shows_append]
    refine ⟨⟨?passing, ?type⟩, ?name⟩
    case passing =>
      cases parameter.modifier with
      | none => exact shows_nil
      | some modifier => cases modifier <;> simp +decide [ParamModifier.keyword]
    case type =>
      split
      · simp +decide
      · exact parameter.type.shows_render options h.2
    case name =>
      cases hname : parameter.name with
      | none => exact shows_nil
      | some name =>
          have hmem : name ∈ names := h.1 (by rw [hname]; exact List.mem_cons_self)
          dsimp only
          split
          · exact shows_nil
          · simp +decide [hmem]

theorem shows_renderParameters (known : Bool) {parameters : List SourceParameter}
    (h : ∀ parameter ∈ parameters, parameter.names ⊆ names) :
    Shows names (renderParameters options known parameters) := by
  rw [renderParameters, shows_append, shows_punctuation]
  refine ⟨⟨by simp +decide, ?_⟩, by simp +decide⟩
  cases known with
  | false => simp +decide
  | true =>
      refine shows_separated (by decide) fun part hpart => ?_
      obtain ⟨parameter, hmem, rfl⟩ := List.mem_map.1 hpart
      exact parameter.shows_render options (h parameter (List.mem_filter.1 hmem).1)

namespace SourceMethod

theorem names_subset_iff {method : SourceMethod} :
    method.names ⊆ names ↔ method.name ∈ names ∧
      (∀ type ∈ method.declaringType, type.names ⊆ names) ∧
      (∀ arg ∈ method.genericArguments, arg.names ⊆ names) ∧
      ∀ parameter ∈ method.parameters, parameter.names ⊆ names := by
  simp only [SourceMethod.names, List.append_subset, List.cons_subset, flatMap_subset_iff,
    Option.mem_toList, Option.mem_def, and_assoc, List.cons_append]

variable {method : SourceMethod} (h : method.names ⊆ names)
include h

theorem shows_renderSignature : Shows names (method.renderSignature options) := by
  obtain ⟨-, -, harguments, hparameters⟩ := names_subset_iff.1 h
  rw [renderSignature, shows_append]
  refine ⟨?_, shows_renderParameters options _ hparameters⟩
  exact shows_joinArguments options _ (shows_renderTypes options _ harguments)

theorem shows_renderName (hasBodies : Bool) :
    Shows names (method.renderName options hasBodies) := by
  obtain ⟨hname, hdeclared, -, -⟩ := names_subset_iff.1 h
  rw [renderName]
  split
  · simp [hname]
  · next type htype =>
      have hshown : Shows names (type.render options) :=
        type.shows_render options (hdeclared type htype)
      split
      · split <;> simp +decide [hshown]
      · simp +decide [hshown]
      · simp +decide [hshown, hname]

theorem shows_renderBody : Shows names (method.renderBody options) := by
  obtain ⟨hname, -, -, hparameters⟩ := names_subset_iff.1 h
  rw [renderBody, shows_punctuation]
  refine ⟨.inl (by decide), ?_⟩
  split
  · simp +decide [shows_renderParameters options _ hparameters]
  · simpa [hname] using shows_renderSignature options h

end SourceMethod

theorem SourceCall.shows_render {call : SourceCall} (h : call.names ⊆ names) :
    Shows names (call.render options) := by
  rw [SourceCall.names, List.append_subset, flatMap_subset_iff] at h
  rw [render]
  simp only [shows_append]
  refine ⟨⟨⟨?async, ?name⟩, ?signature⟩, ?bodies⟩
  case async => split <;> simp +decide
  case name => exact SourceMethod.shows_renderName options h.1 _
  case signature => exact SourceMethod.shows_renderSignature options h.1
  case bodies =>
    intro span hspan
    obtain ⟨body, hbody, hspan⟩ := List.mem_flatMap.1 hspan
    exact SourceMethod.shows_renderBody options (h.2 body hbody) span hspan

theorem Frame.shows_location {frame : Frame} (h : frame.file.toList ⊆ names) :
    Shows names frame.location := by
  rw [location]
  cases hfile : frame.file with
  | none => exact shows_nil
  | some file =>
      have hmem : file ∈ names := h (by simp [hfile])
      dsimp only
      split
      · exact shows_nil
      · rw [shows_append]
        refine ⟨by simp +decide [hmem], ?_⟩
        cases frame.line with
        | none => exact shows_nil
        | some line =>
            dsimp only
            split
            · exact shows_nil
            · have hnumber : IsLine (toString line) := isLine_toString line.toNat
              simp +decide [hnumber]

/-- The names that show in the line of a frame: those of what it was running or, where that is not
known, of its type, and the path of its file. -/
def Frame.shownNames (md : Metadata) (frame : Frame) : List String :=
  match frame.resolve md with
  | .ok call => call.names ++ frame.file.toList
  | .error _ => (md.resolveType {} frame.declaringType).names ++ frame.file.toList

theorem Frame.areLines_shownNames {md : Metadata} (hmd : AreLines md.names) {frame : Frame}
    (hfile : AreLines frame.file.toList) : AreLines (frame.shownNames md) := by
  rw [shownNames]
  cases hcall : frame.resolve md with
  | ok call => exact areLines_append.2 ⟨Frame.areLines_resolve hmd hcall, hfile⟩
  | error error => exact areLines_append.2 ⟨Metadata.areLines_resolveType hmd _ _, hfile⟩

namespace Renderer

theorem shows_frameLine (r : Renderer) (frame : Frame) :
    Shows (frame.shownNames r.metadata)
      (r.frameLine frame (frame.resolve r.metadata)).rendering := by
  rw [Frame.shownNames]
  cases frame.resolve r.metadata with
  | ok call =>
      have hshown := call.shows_render r.format (List.subset_append_left _ frame.file.toList)
      have hlocation := Frame.shows_location (List.subset_append_right call.names frame.file.toList)
      rw [frameLine]
      simpa +decide [Output.whole] using ⟨hshown, hlocation⟩
  | error error =>
      have hshown := (r.metadata.resolveType {} frame.declaringType).shows_render r.format
        (List.subset_append_left _ frame.file.toList)
      have hlocation := Frame.shows_location (List.subset_append_right
        (r.metadata.resolveType {} frame.declaringType).names frame.file.toList)
      simp only [frameLine]
      split
      · simp +decide [Output.broken]
      · simpa +decide [Output.whole, SourceType.renderUnknownCall] using ⟨hshown, hlocation⟩

/-- If no name of the table and no path breaks a line, the text of a frame stays on its line. -/
theorem staysOnLine_frameLine {r : Renderer} (hmd : AreLines r.metadata.names) {frame : Frame}
    (hfile : AreLines frame.file.toList) :
    StaysOnLine (r.frameLine frame (frame.resolve r.metadata)).rendering :=
  (r.shows_frameLine frame).staysOnLine (Frame.areLines_shownNames hmd hfile)

end Renderer

end Unmangle
