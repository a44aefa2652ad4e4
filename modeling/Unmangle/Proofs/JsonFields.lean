import Unmangle.Document.Reader
import Unmangle.Document.Writer
import Unmangle.Proofs.JsonText

/-!
# Fields come back to where they belong

A record is written as an object of the fields that are there, and read by asking for each field by
its name. Since no two fields of a record share a name, each question finds the one field that was
written under it, or nothing if that field was left out.

What a writer and a reader are to each other is stated for one value at a time, because not every
reader gets every value back: a link has to fit 64 bits. `RoundTrips` is about a value, and
`RoundTrips.Field` about the place of a value in a record, which may be empty.
-/

namespace Unmangle

/-- What is written for a value nests less than `room` deep and is read as that value. -/
structure RoundTrips {α : Type} (room : Nat) (write : α → Json) (read : Json → Option α)
    (value : α) : Prop where
  written : (write value).IsWritten room
  reads : read (write value) = some value

/-- The same for what is written in a field, if anything is. -/
structure RoundTrips.Field {α : Type} (room : Nat) (field : Option Json)
    (read : Option Json → Option α) (value : α) : Prop where
  written : ∀ json ∈ field, json.IsWritten room
  reads : read field = some value

theorem mapM_map_of_forall {α β γ : Type} {f : β → Option γ} {g : α → β} {h : α → γ}
    {values : List α} (hvalues : ∀ value ∈ values, f (g value) = some (h value)) :
    (values.map g).mapM f = some (values.map h) := by
  induction values with
  | nil => rfl
  | cons value values ih =>
    obtain ⟨hvalue, hvalues⟩ := List.forall_mem_cons.1 hvalues
    rw [List.map_cons, List.mapM_cons, hvalue, ih hvalues]
    rfl

/-! ## Lists and fields -/

namespace RoundTrips

variable {α : Type} {room : Nat} {write : α → Json} {read : Json → Option α}

theorem list (values : List α) (h : ∀ value ∈ values, RoundTrips room write read value) :
    RoundTrips (room + 1) (DocumentWriter.list write) (Json.list? read) values where
  written := by
    refine .array fun item hitem => ?_
    obtain ⟨value, hvalue, rfl⟩ := List.mem_map.1 hitem
    exact (h value hvalue).written
  reads := by
    have hvalues := mapM_map_of_forall (h := id) fun value hvalue => (h value hvalue).reads
    rwa [List.map_id] at hvalues

theorem required {value : α} (h : RoundTrips room write read value) :
    Field room (some (write value)) (Json.required read) value where
  written := by rintro _ ⟨⟩; exact h.written
  reads := h.reads

theorem orDefault {value : α} (h : RoundTrips room write read value) (default : α) :
    Field room (some (write value)) (Json.orDefault default read) value where
  written := by rintro _ ⟨⟩; exact h.written
  reads := h.reads

/-- No value that is there is written as null, so null stays free for those that are not. -/
theorem optional (value? : Option α) (h : ∀ value ∈ value?, RoundTrips room write read value) :
    Field room (value?.map write) (Json.optional read) value? := by
  cases value? with
  | none => exact ⟨by rintro _ ⟨⟩, rfl⟩
  | some value =>
    have hvalue := h value rfl
    refine ⟨by rintro _ ⟨⟩; exact hvalue.written, ?_⟩
    rw [Option.map_some, Json.optional, hvalue.written.isNull, hvalue.reads]
    rfl

theorem listIfAny (values : List α) (h : ∀ value ∈ values, RoundTrips room write read value) :
    Field (room + 1) (DocumentWriter.listIfAny write values)
      (Json.orDefault [] (Json.list? read)) values := by
  rw [DocumentWriter.listIfAny]
  split
  · next hempty =>
    rw [List.isEmpty_iff.1 hempty]
    exact ⟨by rintro _ ⟨⟩, rfl⟩
  · exact (RoundTrips.list values h).orDefault []

end RoundTrips

/-! ## Records -/

namespace Json

/-- The fields that are there, by their names. -/
def present (fields : List (String × Option Json)) : List (String × Json) :=
  fields.filterMap fun (name, value?) => value?.map fun value => (name, value)

def writtenEntry (entry : String × Json) : List Char × Json :=
  (JsonLiteral.escape entry.1.toList, entry.2)

theorem ofFields_eq (fields : List (String × Option Json)) :
    ofFields fields = .object ((present fields).map writtenEntry) := by
  rw [ofFields, present, List.map_filterMap]
  congr
  funext ⟨name, value?⟩
  cases value? <;> rfl

theorem mem_present {fields : List (String × Option Json)} {name : String} {value : Json} :
    (name, value) ∈ present fields ↔ (name, some value) ∈ fields := by
  simp only [present, List.mem_filterMap]
  constructor
  · rintro ⟨⟨name', value?⟩, hfield, heq⟩
    obtain ⟨value', rfl, hpair⟩ := Option.map_eq_some_iff.1 heq
    cases hpair
    exact hfield
  · intro hfield
    exact ⟨_, hfield, rfl⟩

theorem IsWritten.ofFields {room : Nat} {fields : List (String × Option Json)}
    (h : ∀ field ∈ fields, ∀ json ∈ field.2, json.IsWritten room) :
    (Json.ofFields fields).IsWritten (room + 1) := by
  rw [ofFields_eq]
  refine .object (fun entry hentry => ?_) fun entry hentry => ?_
  · obtain ⟨⟨name, value⟩, -, rfl⟩ := List.mem_map.1 hentry
    exact ⟨_, rfl⟩
  · obtain ⟨⟨name, value⟩, hmem, rfl⟩ := List.mem_map.1 hentry
    exact h _ (mem_present.1 hmem) value rfl

theorem IsWritten.of_ofFields {room : Nat} {fields : List (String × Option Json)}
    (h : (Json.ofFields fields).IsWritten (room + 1)) :
    ∀ field ∈ fields, ∀ json ∈ field.2, json.IsWritten room := by
  rintro ⟨name, _⟩ hfield value rfl
  rw [ofFields_eq] at h
  cases h with
  | object _ h =>
    exact h _ (List.mem_map_of_mem (mem_present.2 hfield))

theorem namedEntries?_writtenEntry (entries : List (String × Json)) :
    namedEntries? (entries.map writtenEntry) = some entries := by
  have hnamed : (entries.map writtenEntry).mapM (fun entry =>
      (JsonLiteral.unescape? entry.1).map fun name => (String.ofList name, entry.2)) =
        some (entries.map id) :=
    mapM_map_of_forall fun entry _ => by simp [writtenEntry]
  rwa [List.map_id] at hnamed

theorem present_cons (name : String) (value? : Option Json)
    (fields : List (String × Option Json)) :
    present ((name, value?) :: fields) =
      (value?.map fun value => (name, value)).toList ++ present fields := by
  cases value? <;> rfl

theorem filter_present_eq_nil {fields : List (String × Option Json)} {name : String}
    (h : name ∉ fields.map (·.1)) : (present fields).filter (·.1 == name) = [] := by
  refine List.filter_eq_nil_iff.2 fun entry hentry heq => h ?_
  have hfield := mem_present.1 hentry
  rw [eq_of_beq heq] at hfield
  exact List.mem_map_of_mem hfield

/-- Under the name of a field stands what was written in that field, once. -/
theorem filter_present {fields : List (String × Option Json)} {name : String}
    {value? : Option Json} (hnodup : (fields.map (·.1)).Nodup) (h : (name, value?) ∈ fields) :
    (present fields).filter (·.1 == name) = (value?.map fun value => (name, value)).toList := by
  induction fields with
  | nil => cases h
  | cons field fields ih =>
    obtain ⟨first, first?⟩ := field
    rw [List.map_cons, List.nodup_cons] at hnodup
    obtain ⟨hfresh, hnodup⟩ := hnodup
    rw [present_cons, List.filter_append]
    rcases List.mem_cons.1 h with heq | hmem
    · cases heq
      rw [filter_present_eq_nil hfresh, List.append_nil]
      cases value? <;> simp
    · have hne : first ≠ name := by
        rintro rfl
        exact hfresh (List.mem_map.2 ⟨_, hmem, rfl⟩)
      rw [ih hnodup hmem]
      cases first? <;> simp [hne]

theorem field?_present {fields : List (String × Option Json)} {name : String}
    {value? : Option Json} (hnodup : (fields.map (·.1)).Nodup) (h : (name, value?) ∈ fields) :
    field? (present fields) name = some value? := by
  rw [field?, filter_present hnodup h]
  cases value? <;> rfl

/-- The fields of a record are found again, those left out as absent ones. -/
theorem fields?_ofFields {fields : List (String × Option Json)} {names : List String}
    (hnames : fields.map (·.1) = names) (hnodup : names.Nodup) :
    (ofFields fields).fields? names = some (fields.map (·.2)) := by
  subst hnames
  rw [ofFields_eq, fields?, namedEntries?_writtenEntry, Option.bind_some]
  exact mapM_map_of_forall fun field hfield => field?_present hnodup hfield

/-- A tag that is written in front of a record is taken off again. -/
theorem tagged?_ofFields {tag value : String} {fields : List (String × Option Json)}
    (htag : tag ∉ fields.map (·.1)) :
    (ofFields ((tag, some (.ofString value)) :: fields)).tagged? tag =
      some (value, ofFields fields) := by
  have hentries : present ((tag, some (ofString value)) :: fields) =
      (tag, ofString value) :: present fields := rfl
  have hfield : field? ((tag, ofString value) :: present fields) tag =
      some (some (ofString value)) := by
    rw [field?, List.filter_cons, if_pos (beq_self_eq_true tag), filter_present_eq_nil htag]
  have hrest : (((present fields).map writtenEntry).zip (present fields)).filter
      (fun entry => entry.2.1 != tag) =
        ((present fields).map writtenEntry).zip (present fields) := by
    refine List.filter_eq_self.2 fun entry hentry => ?_
    have hpresent := (List.of_mem_zip hentry).2
    refine bne_iff_ne.2 fun heq => htag ?_
    rw [← heq]
    exact List.mem_map_of_mem (mem_present.1 hpresent)
  have htext : (ofString value).text? = some value := by
    simp [ofString, text?]
  rw [ofFields_eq, ofFields_eq, hentries, tagged?, namedEntries?_writtenEntry]
  simp only [Option.bind_eq_bind, Option.bind_some, hfield, htext]
  rw [List.map_cons, List.zip_cons_cons, List.filter_cons, if_neg (by simp), hrest,
    List.map_fst_zip (Nat.le_of_eq (List.length_map _))]

end Json

/-- A reader that asks for all fields of a record first gets what was written in each of them. -/
theorem reads_ofFields {α : Type} {read : Json → Option α} {value : α}
    {fields : List (String × Option Json)} {names : List String}
    {decode : List (Option Json) → Option α}
    (hread : ∀ json : Json, read json = (json.fields? names).bind decode)
    (hnames : fields.map (·.1) = names) (hnodup : names.Nodup)
    (hreads : decode (fields.map (·.2)) = some value) :
    read (Json.ofFields fields) = some value := by
  rw [hread, Json.fields?_ofFields hnames hnodup, Option.bind_some, hreads]

/-- A record comes back if its fields do. -/
theorem RoundTrips.ofFields {α : Type} {room : Nat} {write : α → Json} {read : Json → Option α}
    {value : α} {fields : List (String × Option Json)} {names : List String}
    {decode : List (Option Json) → Option α} (hwrite : write value = Json.ofFields fields)
    (hread : ∀ json : Json, read json = (json.fields? names).bind decode)
    (hnames : fields.map (·.1) = names) (hnodup : names.Nodup)
    (hwritten : ∀ field ∈ fields, ∀ json ∈ field.2, json.IsWritten room)
    (hreads : decode (fields.map (·.2)) = some value) : RoundTrips (room + 1) write read value where
  written := hwrite ▸ .ofFields hwritten
  reads := hwrite ▸ reads_ofFields hread hnames hnodup hreads

end Unmangle
