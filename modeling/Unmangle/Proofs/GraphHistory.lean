import Unmangle.Proofs.KeptTraces

/-!
# What a graph has been through

A graph of exceptions is built by adding exceptions and linking them, in any order, with renderings
in between that keep their texts in it. The ids that these operations are given may come from
anywhere, so some of them are refused; then the graph is what it was.

Whatever has been done to a graph, no link leads out of it, as long as the records that were added
had none. This is an invariant of the single operation, and the reason is the same for all but one
of them: `Change.edit` says that an operation that adds nothing changes the exceptions one by one,
that each of them stays the exception that it was, and that a link that is new leads into the graph.
-/

namespace Unmangle

/-- The records tell of the same exception: its type, its message and its frames. -/
def ExceptionRecord.SameException (record other : ExceptionRecord) : Prop :=
  record.typeName = other.typeName ∧ record.message = other.message ∧ record.trace = other.trace

theorem ExceptionRecord.SameException.trans {a b c : ExceptionRecord} (h : a.SameException b)
    (h' : b.SameException c) : a.SameException c :=
  ⟨h.1.trans h'.1, h.2.1.trans h'.2.1, h.2.2.trans h'.2.2⟩

/-- What can be done to a graph of exceptions. -/
inductive Operation where
  | add (record : ExceptionRecord)
  | setInner (id inner : ExceptionId)
  | addChild (id child : ExceptionId)
  | setRenderedTrace (id : ExceptionId) (text : String)
  | keepPlain (r : Renderer) (root : ExceptionId)
  | keepStyled (r : Renderer) (root : ExceptionId)

namespace Operation

/-- What an operation makes of a graph, unless it is refused. -/
def outcome (g : ExceptionGraph) : Operation → Except Error ExceptionGraph
  | add record => .ok (g.add record).1
  | setInner id inner => g.setInner id inner
  | addChild id child => g.addChild id child
  | setRenderedTrace id text => g.setRenderedTrace id text
  | keepPlain r root => .ok (r.plainKeeping g root).2
  | keepStyled r root => .ok (r.styledKeeping g root).2

/-- A record that is added links to exceptions of the graph. -/
def LinksInto (g : ExceptionGraph) : Operation → Prop
  | add record => ∀ link ∈ record.nested, g.contains link = true
  | setInner _ _ | addChild _ _ | setRenderedTrace _ _ | keepPlain _ _ | keepStyled _ _ => True

instance decidableLinksInto (g : ExceptionGraph) :
    (op : Operation) → Decidable (op.LinksInto g)
  | add record => inferInstanceAs (Decidable (∀ link ∈ record.nested, g.contains link = true))
  | setInner _ _ | addChild _ _ | setRenderedTrace _ _ | keepPlain _ _ | keepStyled _ _ =>
    inferInstanceAs (Decidable True)

end Operation

namespace ExceptionGraph

/-- The graph behind an operation. -/
def after (g : ExceptionGraph) (op : Operation) : ExceptionGraph :=
  match op.outcome g with
  | .ok changed => changed
  | .error _ => g

/-- The graph behind operations, one after the other. -/
def run (g : ExceptionGraph) (ops : List Operation) : ExceptionGraph := ops.foldl after g

/-- Each record that is added links to exceptions that are there by then. -/
def LinksBack (g : ExceptionGraph) : List Operation → Prop
  | [] => True
  | op :: rest => op.LinksInto g ∧ (g.after op).LinksBack rest

instance decidableLinksBack : (g : ExceptionGraph) → (ops : List Operation) →
    Decidable (g.LinksBack ops)
  | _, [] => inferInstanceAs (Decidable True)
  | g, op :: rest =>
    have := decidableLinksBack (g.after op) rest
    inferInstanceAs (Decidable (op.LinksInto g ∧ (g.after op).LinksBack rest))

variable {g h : ExceptionGraph} {id : ExceptionId} {record : ExceptionRecord} {op : Operation}

theorem run_cons (op : Operation) (rest : List Operation) :
    g.run (op :: rest) = (g.after op).run rest := rfl

theorem run_append (before after : List Operation) :
    g.run (before ++ after) = (g.run before).run after := List.foldl_append

theorem after_of_error {error : Error} (h : op.outcome g = .error error) : g.after op = g := by
  rw [after, h]

/-! ## What an operation does -/

/-- What an operation does to a graph. -/
inductive Change (g : ExceptionGraph) : ExceptionGraph → Prop
  | add (record : ExceptionRecord) (hlinks : ∀ link ∈ record.nested, g.contains link = true) :
      Change g (g.add record).1
  | edit {h : ExceptionGraph} (change : ExceptionId → ExceptionRecord → ExceptionRecord)
      (hget : ∀ id, h.get? id = (g.get? id).map (change id))
      (hsame : ∀ id record, (change id record).SameException record)
      (hlinks : ∀ id record, ∀ link ∈ (change id record).nested,
        link ∈ record.nested ∨ g.contains link = true) :
      Change g h

namespace Change

theorem refl : Change g g :=
  .edit (fun _ record => record) (fun _ => Option.map_id'.symm) (fun _ _ => ⟨rfl, rfl, rfl⟩)
    fun _ _ _ => .inl

/-- One exception is changed. -/
theorem modify {change : ExceptionRecord → ExceptionRecord}
    (hchanged : g.modify id change = .ok h)
    (hsame : ∀ record, (change record).SameException record)
    (hlinks : ∀ record, ∀ link ∈ (change record).nested,
      link ∈ record.nested ∨ g.contains link = true) : Change g h := by
  rw [ExceptionGraph.modify] at hchanged
  split at hchanged
  · cases hchanged
    refine .edit (fun other record => if id = other then change record else record)
      (fun other => ?_) (fun other record => ?_) fun other record link hlink => ?_
    · show (g.records.modify id change)[other]? = g.records[other]?.map _
      rw [Array.getElem?_modify]
      split
      · rfl
      · exact Option.map_id'.symm
    · split
      · exact hsame record
      · exact ⟨rfl, rfl, rfl⟩
    · split at hlink
      · exact hlinks record link hlink
      · exact .inl hlink
  · cases hchanged

/-- One exception is given one more link. -/
theorem link {linked : ExceptionId} {change : ExceptionRecord → ExceptionRecord}
    (hchanged : (if g.contains linked then g.modify id change
      else .error (.unknownException linked)) = .ok h)
    (hsame : ∀ record, (change record).SameException record)
    (hnested : ∀ record, ∀ link ∈ (change record).nested, link ∈ record.nested ∨ link = linked) :
    Change g h := by
  split at hchanged
  · next hlinked =>
      refine modify hchanged hsame fun record link hlink => ?_
      rcases hnested record link hlink with hold | rfl
      · exact .inl hold
      · exact .inr hlinked
  · cases hchanged

/-- Keeping traces changes neither links nor anything that tells of an exception. -/
theorem renderKeeping (r : Renderer) (write : Rendering → String) (root : ExceptionId) :
    Change g (r.renderKeeping write g root).2 := by
  cases haborted : (r.tree g root).aborted with
  | true =>
      rw [Renderer.renderKeeping_of_aborted haborted]
      exact refl
  | false =>
      have hkept : ∀ id record,
          r.keptRecord write g root id record = record ∨
            ∃ text, r.keptRecord write g root id record = record.withText text := by
        intro id record
        rw [Renderer.keptRecord]
        split
        · exact .inr ⟨_, rfl⟩
        · exact .inl rfl
      refine .edit _ (Renderer.get?_renderKeeping haborted) (fun id record => ?_)
        fun id record link hlink => .inl ?_
      · rcases hkept id record with heq | ⟨text, heq⟩ <;> rw [heq] <;> exact ⟨rfl, rfl, rfl⟩
      · rcases hkept id record with heq | ⟨text, heq⟩ <;> rw [heq] at hlink <;> exact hlink

/-- Each operation is such a change. -/
theorem of_outcome (hlinks : op.LinksInto g) (hchanged : op.outcome g = .ok h) : Change g h := by
  cases op with
  | add record =>
      cases hchanged
      exact .add record hlinks
  | setInner id inner =>
      refine link hchanged (fun _ => ⟨rfl, rfl, rfl⟩) fun record other hlink => ?_
      rcases ExceptionRecord.mem_nested.1 hlink with hchild | hcause
      · exact .inl (ExceptionRecord.mem_nested.2 (.inl hchild))
      · exact .inr (Option.some.inj hcause).symm
  | addChild id child =>
      refine link hchanged (fun _ => ⟨rfl, rfl, rfl⟩) fun record other hlink => ?_
      rcases ExceptionRecord.mem_nested.1 hlink with hchild | hcause
      · rcases List.mem_append.1 hchild with hold | hnew
        · exact .inl (ExceptionRecord.mem_nested.2 (.inl hold))
        · exact .inr (List.mem_singleton.1 hnew)
      · exact .inl (ExceptionRecord.mem_nested.2 (.inr hcause))
  | setRenderedTrace id text =>
      rw [Operation.outcome, setRenderedTrace] at hchanged
      exact modify hchanged (fun _ => ⟨rfl, rfl, rfl⟩) fun _ _ => .inl
  | keepPlain r root =>
      cases hchanged
      exact renderKeeping r _ root
  | keepStyled r root =>
      cases hchanged
      exact renderKeeping r _ root

theorem after (hlinks : op.LinksInto g) : Change g (g.after op) := by
  cases houtcome : op.outcome g with
  | ok changed =>
      rw [ExceptionGraph.after, houtcome]
      exact of_outcome hlinks houtcome
  | error error =>
      rw [after_of_error houtcome]
      exact refl

/-- An exception that is in the graph stays there as it was, its links and its text aside. -/
theorem keeps (hchange : Change g h) (hfound : g.get? id = some record) :
    ∃ now, h.get? id = some now ∧ now.SameException record := by
  cases hchange with
  | add added hlinks =>
      refine ⟨record, ?_, rfl, rfl, rfl⟩
      show (g.records.push added)[id]? = some record
      obtain ⟨hlt, heq⟩ := Array.getElem?_eq_some_iff.1 hfound
      rw [Array.getElem?_push_lt hlt, heq]
  | edit change hget hsame hlinks =>
      refine ⟨change id record, ?_, hsame id record⟩
      rw [hget, hfound, Option.map_some]

theorem contains (hchange : Change g h) (hid : g.contains id = true) : h.contains id = true := by
  obtain ⟨record, hfound⟩ := exists_get?_of_contains hid
  obtain ⟨now, hnow, -⟩ := hchange.keeps hfound
  exact decide_eq_true (Walk.lt_size_of_get? hnow)

theorem closed (hchange : Change g h) (hclosed : g.Closed) : h.Closed := by
  rintro id link ⟨record, hfound, hlink⟩
  refine hchange.contains ?_
  cases hchange with
  | add added hlinks =>
      have hrecord : (g.records.push added)[id]? = some record := hfound
      rw [Array.getElem?_push] at hrecord
      split at hrecord
      · cases hrecord
        exact hlinks link hlink
      · exact hclosed id link ⟨record, hrecord, hlink⟩
  | edit change hget _ hlinks =>
      rw [hget] at hfound
      obtain ⟨old, hold, rfl⟩ := Option.map_eq_some_iff.1 hfound
      rcases hlinks id old link hlink with hnested | hin
      · exact hclosed id link ⟨old, hold, hnested⟩
      · exact hin

end Change

/-! ## A run of operations -/

theorem Closed.run {ops : List Operation} (hclosed : g.Closed) (hlinks : g.LinksBack ops) :
    (g.run ops).Closed := by
  induction ops generalizing g with
  | nil => exact hclosed
  | cons op rest ih => exact ih ((Change.after hlinks.1).closed hclosed) hlinks.2

end ExceptionGraph

end Unmangle
