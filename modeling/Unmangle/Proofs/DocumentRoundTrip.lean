import Unmangle.Proofs.JsonFields
import Unmangle.Proofs.Validity

/-!
# Documents survive being written

The writer and the reader are two lists of fields for every record, made by hand. This file goes
through them record by record: the names agree, a field that is left out when it is empty is one
that the reader fills in with nothing, and a field that is always written is read as it is.

Two records need more than that. A type definition is read in full before it is understood, so
nothing in it may be unreadable, however little it matters; and the maps of the metadata are made
anew from their entries, where only the ascending order of the entries makes the new map the old
one. Links are the only numbers without a width of their own. That they fit 64 bits comes from the
document being a valid one.
-/

namespace Unmangle

/-! ## Plain values -/

theorem roundTrips_text (room : Nat) (value : String) :
    RoundTrips room DocumentWriter.text Json.text? value where
  written := .string value.toList
  reads := by
    rw [DocumentWriter.text, Json.ofString, Json.text?, JsonLiteral.unescape?_escape,
      Option.map_some, String.ofList_toList]

theorem roundTrips_flag (room : Nat) (value : Bool) :
    RoundTrips room DocumentWriter.flag Json.bool? value where
  written := .bool value
  reads := rfl

theorem roundTrips_word32 (room : Nat) (value : UInt32) :
    RoundTrips room DocumentWriter.word32 Json.word32? value where
  written := .number (Nat.lt_trans value.toNat_lt (by decide))
  reads := Text.word32?_toDigits value

theorem roundTrips_word64 (room : Nat) (value : UInt64) :
    RoundTrips room DocumentWriter.word64 Json.word64? value where
  written := .number value.toNat_lt
  reads := Text.word64?_toDigits value

theorem roundTrips_typeToken (room : Nat) (token : TypeToken) :
    RoundTrips room DocumentWriter.typeToken DocumentReader.typeToken token where
  written := (roundTrips_word32 room token.val).written
  reads := by
    rw [DocumentWriter.typeToken, DocumentReader.typeToken, (roundTrips_word32 0 token.val).reads]
    rfl

theorem roundTrips_methodToken (room : Nat) (token : MethodToken) :
    RoundTrips room (fun token : MethodToken => DocumentWriter.word32 token.val)
      DocumentReader.methodToken token where
  written := (roundTrips_word32 room token.val).written
  reads := by
    rw [DocumentReader.methodToken, (roundTrips_word32 0 token.val).reads]
    rfl

theorem roundTrips_exceptionId (room : Nat) {id : ExceptionId} (h : id < UInt64.size) :
    RoundTrips room Json.ofNat DocumentReader.exceptionId id where
  written := .number h
  reads := by
    have hword := (roundTrips_word64 0 (UInt64.ofNat id)).reads
    rw [DocumentWriter.word64, UInt64.toNat_ofNat_of_lt' h] at hword
    rw [DocumentReader.exceptionId, hword, Option.map_some, UInt64.toNat_ofNat_of_lt' h]

theorem word?_text {α : Type} (words : List (String × α)) (holdsNothing : Json → Bool)
    (word : String) :
    Json.word? words holdsNothing (DocumentWriter.text word) = words.lookup word := by
  rw [Json.word?, (roundTrips_text 0 word).reads, Option.bind_some]
  intro key value heq
  cases heq

theorem roundTrips_genericOwner (room : Nat) (owner : GenericOwner) :
    RoundTrips room DocumentWriter.genericOwner DocumentReader.genericOwner owner := by
  cases owner <;> exact ⟨(roundTrips_text room _).written, word?_text _ _ _⟩

theorem roundTrips_paramModifier (room : Nat) (modifier : ParamModifier) :
    RoundTrips room DocumentWriter.paramModifier DocumentReader.paramModifier modifier := by
  cases modifier <;> exact ⟨(roundTrips_text room _).written, word?_text _ _ _⟩

theorem roundTrips_stateMachineKind (room : Nat) (kind : StateMachineKind) :
    RoundTrips room DocumentWriter.stateMachineKind DocumentReader.stateMachineKind kind := by
  cases kind <;> exact ⟨(roundTrips_text room _).written, word?_text _ _ _⟩

/-! ## Types and methods -/

theorem roundTrips_namedType (room : Nat) (type : NamedType) :
    RoundTrips (room + 2) DocumentWriter.namedType DocumentReader.namedType type := by
  have hname := (roundTrips_text (room + 1) type.name).required
  have hspace := RoundTrips.optional type.space fun space _ => roundTrips_text (room + 1) space
  have hdeclaring := RoundTrips.optional type.declaringType fun token _ =>
    roundTrips_typeToken (room + 1) token
  have hparams := RoundTrips.listIfAny type.genericParams fun param _ => roundTrips_text room param
  have hmodule := RoundTrips.optional type.module fun module _ => roundTrips_text (room + 1) module
  have hinterfaces := RoundTrips.listIfAny type.interfaces fun interface _ =>
    roundTrips_text room interface
  have hgenerated := (roundTrips_flag (room + 1) type.compilerGenerated).orDefault false
  refine .ofFields rfl (fun _ => rfl) rfl (by simp) ?_ ?_
  · simp only [DocumentWriter.namedFields, List.forall_mem_cons]
    exact ⟨hname.written, hspace.written, hdeclaring.written, hparams.written, hmodule.written,
      hinterfaces.written, hgenerated.written, List.forall_mem_nil _⟩
  · simp only [DocumentWriter.namedFields, List.map_cons, List.map_nil, Option.bind_eq_bind,
      Option.bind_some, DocumentReader.texts, hname.reads, hspace.reads, hdeclaring.reads,
      hparams.reads, hmodule.reads, hinterfaces.reads, hgenerated.reads]

/-- A definition comes back if its shape does, because nothing in it is unreadable. -/
theorem roundTrips_tagged {definition : TypeDef} {kind : String}
    {fields : List (String × Option Json)} {decode : String × Json → Option TypeDef}
    (hwrite : DocumentWriter.typeDef definition =
      .ofFields (("kind", some (DocumentWriter.text kind)) :: fields))
    (hread : ∀ json : Json, DocumentReader.typeDef json =
      Option.bind (guard (json.isReadable maxDefinitionNesting)) fun _ =>
        (json.tagged? "kind").bind decode)
    (htag : "kind" ∉ fields.map (·.1))
    (hwritten : ∀ field ∈ fields, ∀ json ∈ field.2, json.IsWritten 1)
    (hreads : decode (kind, .ofFields fields) = some definition) :
    RoundTrips 2 DocumentWriter.typeDef DocumentReader.typeDef definition := by
  have hfull : (DocumentWriter.typeDef definition).IsWritten 2 := by
    rw [hwrite]
    exact .ofFields (List.forall_mem_cons.2
      ⟨(roundTrips_text 1 kind).required.written, hwritten⟩)
  have hreadable : (DocumentWriter.typeDef definition).isReadable maxDefinitionNesting :=
    (hfull.mono (by decide)).isReadable
  refine ⟨hfull, ?_⟩
  rw [hread, hreadable, hwrite, DocumentWriter.text, Json.tagged?_ofFields htag]
  exact hreads

/-- Shapes that have nothing but an element differ in their tags only. -/
theorem reads_element (element : TypeToken) :
    DocumentReader.element (.ofFields [("element", some (DocumentWriter.typeToken element))]) =
      some element :=
  reads_ofFields (fun _ => rfl) rfl (by simp) (roundTrips_typeToken 0 element).required.reads

theorem roundTrips_typeDef (room : Nat) (definition : TypeDef) :
    RoundTrips (room + 2) DocumentWriter.typeDef DocumentReader.typeDef definition := by
  suffices h : RoundTrips 2 DocumentWriter.typeDef DocumentReader.typeDef definition from
    ⟨h.written.mono (by omega), h.reads⟩
  cases definition with
  | named type =>
    have hbody := roundTrips_namedType 0 type
    refine roundTrips_tagged rfl (fun _ => rfl) ?_ hbody.written.of_ofFields ?_
    · simp [DocumentWriter.namedFields]
    · show (DocumentReader.namedType (DocumentWriter.namedType type)).map TypeDef.named = _
      rw [hbody.reads, Option.map_some]
  | genericInstance definition args =>
    have hdefinition := (roundTrips_typeToken 1 definition).required
    have hargs := (RoundTrips.list args fun token _ => roundTrips_typeToken 0 token).required
    refine roundTrips_tagged rfl (fun _ => rfl) (by simp) ?_ ?_
    · simp only [List.forall_mem_cons]
      exact ⟨hdefinition.written, hargs.written, List.forall_mem_nil _⟩
    · show DocumentReader.genericInstance _ = _
      refine reads_ofFields (fun _ => rfl) rfl (by simp) ?_
      simp only [List.map_cons, List.map_nil, Option.bind_eq_bind, Option.bind_some,
        DocumentReader.typeTokens, hdefinition.reads, hargs.reads]
  | genericParam name owner position =>
    have hname := (roundTrips_text 1 name).required
    have howner := (roundTrips_genericOwner 1 owner).required
    have hposition := (roundTrips_word64 1 position).required
    refine roundTrips_tagged rfl (fun _ => rfl) (by simp) ?_ ?_
    · simp only [List.forall_mem_cons]
      exact ⟨hname.written, howner.written, hposition.written, List.forall_mem_nil _⟩
    · show DocumentReader.genericParam _ = _
      refine reads_ofFields (fun _ => rfl) rfl (by simp) ?_
      simp only [List.map_cons, List.map_nil, Option.bind_eq_bind, Option.bind_some, hname.reads,
        howner.reads, hposition.reads]
  | array element rank =>
    have helement := (roundTrips_typeToken 1 element).required
    have hrank := (roundTrips_word32 1 rank).orDefault 1
    refine roundTrips_tagged rfl (fun _ => rfl) (by simp) ?_ ?_
    · simp only [List.forall_mem_cons]
      exact ⟨helement.written, hrank.written, List.forall_mem_nil _⟩
    · show DocumentReader.array _ = _
      refine reads_ofFields (fun _ => rfl) rfl (by simp) ?_
      simp only [List.map_cons, List.map_nil, Option.bind_eq_bind, Option.bind_some,
        helement.reads, hrank.reads]
  | pointer element | byRef element =>
    have helement := (roundTrips_typeToken 1 element).required
    refine roundTrips_tagged rfl (fun _ => rfl) (by simp) ?_ ?_
    · simp only [List.forall_mem_cons]
      exact ⟨helement.written, List.forall_mem_nil _⟩
    · exact (congrArg (Option.map _) (reads_element element)).trans rfl

theorem roundTrips_paramDef (room : Nat) (param : ParamDef) :
    RoundTrips (room + 1) DocumentWriter.paramDef DocumentReader.paramDef param := by
  have hname := RoundTrips.optional param.name fun name _ => roundTrips_text room name
  have htype := (roundTrips_typeToken room param.type).required
  have hmodifier := RoundTrips.optional param.modifier fun modifier _ =>
    roundTrips_paramModifier room modifier
  have hdynamic := (roundTrips_flag room param.isDynamic).orDefault false
  refine .ofFields rfl (fun _ => rfl) rfl (by simp) ?_ ?_
  · simp only [List.forall_mem_cons]
    exact ⟨hname.written, htype.written, hmodifier.written, hdynamic.written,
      List.forall_mem_nil _⟩
  · simp only [List.map_cons, List.map_nil, Option.bind_eq_bind, Option.bind_some, hname.reads,
      htype.reads, hmodifier.reads, hdynamic.reads]

theorem roundTrips_stateMachineAttr (room : Nat) (attr : StateMachineAttr) :
    RoundTrips (room + 1) DocumentWriter.stateMachineAttr DocumentReader.stateMachineAttr attr := by
  have hkind := (roundTrips_stateMachineKind room attr.kind).required
  have hmachine := (roundTrips_typeToken room attr.machine).required
  refine .ofFields rfl (fun _ => rfl) rfl (by simp) ?_ ?_
  · simp only [List.forall_mem_cons]
    exact ⟨hkind.written, hmachine.written, List.forall_mem_nil _⟩
  · simp only [List.map_cons, List.map_nil, Option.bind_eq_bind, Option.bind_some, hkind.reads,
      hmachine.reads]

theorem roundTrips_methodDef (room : Nat) (method : MethodDef) :
    RoundTrips (room + 3) DocumentWriter.methodDef DocumentReader.methodDef method := by
  have hname := (roundTrips_text (room + 2) method.name).required
  have hdeclaring := (roundTrips_typeToken (room + 2) method.declaringType).required
  have hgeneric := RoundTrips.listIfAny method.genericParams fun param _ =>
    roundTrips_text (room + 1) param
  have hparameters := RoundTrips.listIfAny method.parameters fun param _ =>
    roundTrips_paramDef room param
  have hmachine := RoundTrips.optional method.stateMachine fun attr _ =>
    roundTrips_stateMachineAttr (room + 1) attr
  have hordinal := RoundTrips.optional method.ordinal fun ordinal _ =>
    roundTrips_word32 (room + 2) ordinal
  refine .ofFields rfl (fun _ => rfl) rfl (by simp) ?_ ?_
  · simp only [List.forall_mem_cons]
    exact ⟨hname.written, hdeclaring.written, hgeneric.written, hparameters.written,
      hmachine.written, hordinal.written, List.forall_mem_nil _⟩
  · simp only [List.map_cons, List.map_nil, Option.bind_eq_bind, Option.bind_some,
      DocumentReader.texts, hname.reads, hdeclaring.reads, hgeneric.reads, hparameters.reads,
      hmachine.reads, hordinal.reads]

/-! ## Maps -/

theorem roundTrips_tokenMap {α : Type} {room : Nat} {write : α → Json} {read : Json → Option α}
    (map : TokenMap α) (h : ∀ value, RoundTrips room write read value) :
    RoundTrips (room + 1) (DocumentWriter.tokenMap write) (DocumentReader.tokenMap read) map where
  written := by
    refine .object (fun entry hentry => ?_) fun entry hentry => ?_
    · obtain ⟨⟨token, value⟩, -, rfl⟩ := List.mem_map.1 hentry
      exact ⟨_, (JsonLiteral.escape_of_isDigit fun _ => Text.isDigit_of_mem_toDigits).symm⟩
    · obtain ⟨⟨token, value⟩, -, rfl⟩ := List.mem_map.1 hentry
      exact (h value).written
  reads := by
    rw [DocumentWriter.tokenMap, DocumentReader.tokenMap, mapM_map_of_forall (h := id), List.map_id]
    · exact congrArg some (TokenMap.ofList_entries map)
    · rintro ⟨token, value⟩ -
      simp only [Json.numericKey?_toDigits, (h value).reads, Option.bind_eq_bind,
        Option.bind_some, id_eq]

theorem roundTrips_metadata (room : Nat) (md : Metadata) :
    RoundTrips (room + 5) DocumentWriter.metadata DocumentReader.metadata md := by
  have htypes := (roundTrips_tokenMap md.types (roundTrips_typeDef (room + 1))).orDefault ∅
  have hmethods := (roundTrips_tokenMap md.methods (roundTrips_methodDef room)).orDefault ∅
  refine .ofFields rfl (fun _ => rfl) rfl (by simp) ?_ ?_
  · simp only [List.forall_mem_cons]
    exact ⟨htypes.written, hmethods.written, List.forall_mem_nil _⟩
  · simp only [List.map_cons, List.map_nil, Option.bind_eq_bind, Option.bind_some, htypes.reads,
      hmethods.reads]

/-! ## Exceptions -/

theorem roundTrips_frame (room : Nat) (frame : Frame) :
    RoundTrips (room + 2) DocumentWriter.frame DocumentReader.frame frame := by
  have htype := (roundTrips_typeToken (room + 1) frame.declaringType).required
  have hmethod := (roundTrips_methodToken (room + 1) frame.method).required
  have hparameters := RoundTrips.listIfAny frame.parameterTypes fun token _ =>
    roundTrips_typeToken room token
  have hargs := RoundTrips.listIfAny frame.methodGenericArgs fun token _ =>
    roundTrips_typeToken room token
  have hfile := RoundTrips.optional frame.file fun file _ => roundTrips_text (room + 1) file
  have hline := RoundTrips.optional frame.line fun line _ => roundTrips_word32 (room + 1) line
  have hcolumn := RoundTrips.optional frame.column fun column _ =>
    roundTrips_word32 (room + 1) column
  have hlast := (roundTrips_flag (room + 1) frame.isLastInChain).orDefault false
  refine .ofFields rfl (fun _ => rfl) rfl (by simp) ?_ ?_
  · simp only [List.forall_mem_cons]
    exact ⟨htype.written, hmethod.written, hparameters.written, hargs.written, hfile.written,
      hline.written, hcolumn.written, hlast.written, List.forall_mem_nil _⟩
  · simp only [List.map_cons, List.map_nil, Option.bind_eq_bind, Option.bind_some,
      DocumentReader.typeTokens, htype.reads, hmethod.reads, hparameters.reads, hargs.reads,
      hfile.reads, hline.reads, hcolumn.reads, hlast.reads]

theorem roundTrips_stackTrace (room : Nat) (trace : StackTrace) :
    RoundTrips (room + 4) DocumentWriter.stackTrace DocumentReader.stackTrace trace := by
  have hframes := (RoundTrips.list trace.frames fun frame _ =>
    roundTrips_frame room frame).orDefault []
  have homitted := (roundTrips_word64 (room + 3) trace.omittedFrames).orDefault 0
  refine .ofFields rfl (fun _ => rfl) rfl (by simp) ?_ ?_
  · simp only [List.forall_mem_cons]
    exact ⟨hframes.written, homitted.written, List.forall_mem_nil _⟩
  · simp only [List.map_cons, List.map_nil, Option.bind_eq_bind, Option.bind_some, hframes.reads,
      homitted.reads]

/-- An exception comes back if its links fit 64 bits. -/
theorem roundTrips_record (room : Nat) {record : ExceptionRecord}
    (h : ∀ link ∈ record.nested, link < UInt64.size) :
    RoundTrips (room + 5) DocumentWriter.record DocumentReader.record record := by
  have hname := (roundTrips_text (room + 4) record.typeName).required
  have hmessage := (roundTrips_text (room + 4) record.message).orDefault ""
  have htrace := (roundTrips_stackTrace room record.trace).orDefault {}
  have hinner := RoundTrips.optional record.inner fun inner hmem =>
    roundTrips_exceptionId (room + 4) (h inner (ExceptionRecord.mem_nested.2 (.inr hmem)))
  have hchildren := RoundTrips.listIfAny record.children fun child hmem =>
    roundTrips_exceptionId (room + 3) (h child (ExceptionRecord.mem_nested.2 (.inl hmem)))
  have hrendered := RoundTrips.optional record.renderedTrace fun text _ =>
    roundTrips_text (room + 4) text
  refine .ofFields rfl (fun _ => rfl) rfl (by simp) ?_ ?_
  · simp only [List.forall_mem_cons]
    exact ⟨hname.written, hmessage.written, htrace.written, hinner.written, hchildren.written,
      hrendered.written, List.forall_mem_nil _⟩
  · simp only [List.map_cons, List.map_nil, Option.bind_eq_bind, Option.bind_some, hname.reads,
      hmessage.reads, htrace.reads, hinner.reads, hchildren.reads, hrendered.reads]

/-! ## Documents -/

theorem roundTrips_graph (room : Nat) {g : ExceptionGraph} (hclosed : g.Closed)
    (hsize : g.size ≤ UInt64.size) :
    RoundTrips (room + 6) (fun g : ExceptionGraph => DocumentWriter.list DocumentWriter.record
      g.records.toList) DocumentReader.graph g := by
  have hrecords : RoundTrips (room + 6) (DocumentWriter.list DocumentWriter.record)
      (Json.list? DocumentReader.record) g.records.toList := by
    refine RoundTrips.list _ fun record hrecord => roundTrips_record room fun link hlink => ?_
    obtain ⟨id, hid⟩ := List.getElem?_of_mem hrecord
    rw [Array.getElem?_toList] at hid
    have hcontains := hclosed id link ⟨record, hid, hlink⟩
    exact Nat.lt_of_lt_of_le (of_decide_eq_true hcontains) hsize
  refine ⟨hrecords.written, ?_⟩
  rw [DocumentReader.graph, hrecords.reads, Option.map_some, Array.toArray_toList]

theorem roundTrips_document (room : Nat) {d : Document} (hvalid : d.validate = .ok ())
    (hsize : d.exceptions.size ≤ UInt64.size) :
    RoundTrips (room + 7) DocumentWriter.document DocumentReader.document d := by
  obtain ⟨hroot, hclosed⟩ := Document.validate_eq_ok_iff.1 hvalid
  have hlt : d.root < UInt64.size := Nat.lt_of_lt_of_le (of_decide_eq_true hroot) hsize
  have hmetadata := (roundTrips_metadata (room + 1) d.metadata).orDefault {}
  have hexceptions := (roundTrips_graph room hclosed hsize).required
  have hroot := (roundTrips_exceptionId (room + 6) hlt).orDefault 0
  refine .ofFields rfl (fun _ => rfl) rfl (by simp) ?_ ?_
  · simp only [List.forall_mem_cons]
    exact ⟨hmetadata.written, hexceptions.written, hroot.written, List.forall_mem_nil _⟩
  · simp only [List.map_cons, List.map_nil, Option.bind_eq_bind, Option.bind_some,
      hmetadata.reads, hexceptions.reads, hroot.reads]

/--
A valid document is what is read from the text that is written for it. Its exceptions are numbered
in words of 64 bits, so there are no more of them than such words.
-/
theorem Document.ofJson_toJson {d : Document} (hvalid : d.validate = .ok ())
    (hsize : d.exceptions.size ≤ UInt64.size) : Document.ofJson d.toJson = .ok d := by
  have hdocument := roundTrips_document 0 hvalid hsize
  have hparse : Json.parse? d.toJson = some (DocumentWriter.document d) :=
    Json.parse?_pretty hdocument.written
  rw [Document.ofJson, hparse]
  dsimp only
  rw [Document.ofValue, hdocument.reads]
  dsimp only
  rw [hvalid]
  rfl

/-- Every shape of type, the ends of all ranges, texts full of characters that need escapes, fields
that are there and fields that are not, and exceptions that lead back to themselves. -/
def Document.extreme : Document where
  metadata :=
    { types :=
        ⟨[(0, .named { name := "", space := some "", module := some "\x00\x01\x1f\x7f" }),
          (1, .named
            { name := "\"C\\:\n\"", declaringType := some ⟨4294967295⟩,
              genericParams := ["T", "\t"], interfaces := ["/"], compilerGenerated := true }),
          (9, .genericInstance ⟨1⟩ []),
          (10, .genericParam "\x08\x0c\r" .method 18446744073709551615),
          (11, .array ⟨10⟩ 0),
          (12, .pointer ⟨12⟩),
          (4294967295, .byRef ⟨0⟩)], by decide⟩
      methods :=
        ⟨[(4294967295,
            { name := "é😀", declaringType := ⟨1⟩, genericParams := [""],
              parameters :=
                [{ type := ⟨11⟩ },
                 { name := some "", type := ⟨9⟩, modifier := some .params, isDynamic := true }],
              stateMachine := some ⟨.asyncIterator, ⟨0⟩⟩, ordinal := some 0 })], by decide⟩ }
  exceptions :=
    ⟨#[{ typeName := "", inner := some 1, children := [1, 0, 1] },
       { typeName := "\u2028", message := "null", inner := some 1, renderedTrace := some "",
         trace :=
          { frames :=
              [{ declaringType := ⟨9⟩, method := ⟨4294967295⟩, parameterTypes := [⟨12⟩],
                 file := some "C:\\a.cs", line := some 4294967295, isLastInChain := true }],
            omittedFrames := 18446744073709551615 } }]⟩
  root := 1

theorem Document.ofJson_toJson_extreme :
    Document.ofJson Document.extreme.toJson = .ok Document.extreme :=
  ofJson_toJson (validate_eq_ok_iff.2 ⟨by decide, by decide⟩) (by decide)

end Unmangle
