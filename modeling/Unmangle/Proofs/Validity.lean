import Unmangle.Document.Reader
import Unmangle.Proofs.Reach

/-!
# What an accepted document has

A document is searched for the first violation, so that there is one to report. A search that finds
nothing has looked at the root and at every link of every exception. One that finds something has
looked at all that comes before it, and `FirstViolation` says what that is: in front of a dangling
link stand the root, the links of all exceptions with a lower number, and the links that show
before it in its own exception.

An accepted document has nothing to miss. Whatever exception a walk starts from and wherever it is
cut off, no link leads it out of the graph.
-/

namespace Unmangle

namespace Document

theorem danglingLink?_eq_none_iff {g : ExceptionGraph} {id : ExceptionId} :
    danglingLink? g id = none ↔
      ∀ record ∈ g.get? id, ∀ link ∈ record.nested, g.contains link = true := by
  rw [danglingLink?]
  cases g.get? id with
  | none => simp
  | some record => simp [List.find?_eq_none]

theorem violation?_eq_none_iff {d : Document} :
    d.violation? = none ↔ d.exceptions.contains d.root = true ∧ d.exceptions.Closed := by
  rw [violation?, ExceptionGraph.closed_iff]
  split
  · next hroot =>
    rw [List.findSome?_eq_none_iff, hroot]
    simp only [List.mem_range, danglingLink?_eq_none_iff, true_and]
  · next hroot => simp [hroot]

/-- A document is accepted if its root is in the graph and no link leads out of it. -/
theorem validate_eq_ok_iff {d : Document} :
    d.validate = .ok () ↔ d.exceptions.contains d.root = true ∧ d.exceptions.Closed := by
  rw [← violation?_eq_none_iff, validate]
  cases d.violation? <;> simp

/-! ## The first violation -/

/-- The violation met first by one who looks at the root, then at the exceptions by number, and at
the links of each in the order in which they show. -/
inductive FirstViolation (d : Document) : Violation → Prop
  | root (hroot : d.exceptions.contains d.root = false) :
      FirstViolation d (.rootOutOfRange d.root d.exceptions.size)
  | link {id link : ExceptionId} {record : ExceptionRecord} {before after : List ExceptionId}
      (hroot : d.exceptions.contains d.root = true)
      (hearlier : ∀ earlier < id, ∀ other, d.exceptions.Links earlier other →
        d.exceptions.contains other = true)
      (hfound : d.exceptions.get? id = some record)
      (hnested : record.nested = before ++ link :: after)
      (hbefore : ∀ other ∈ before, d.exceptions.contains other = true)
      (hlink : d.exceptions.contains link = false) :
      FirstViolation d (.danglingLink id link)

/-- The first dangling link of an exception stands behind links that are not. -/
theorem danglingLink?_eq_some_iff {g : ExceptionGraph} {id : ExceptionId} {violation : Violation} :
    danglingLink? g id = some violation ↔
      ∃ record link before after, g.get? id = some record ∧
        record.nested = before ++ link :: after ∧
        (∀ other ∈ before, g.contains other = true) ∧ g.contains link = false ∧
        violation = .danglingLink id link := by
  rw [danglingLink?]
  constructor
  · intro h
    obtain ⟨record, hfound, hfind⟩ := Option.bind_eq_some_iff.1 h
    obtain ⟨link, hlink, rfl⟩ := Option.map_eq_some_iff.1 hfind
    obtain ⟨hout, before, after, hnested, hbefore⟩ := List.find?_eq_some_iff_append.1 hlink
    exact ⟨record, link, before, after, hfound, hnested, by simpa using hbefore,
      by simpa using hout, rfl⟩
  · rintro ⟨record, link, before, after, hfound, hnested, hbefore, hout, rfl⟩
    have hlink : record.nested.find? (!g.contains ·) = some link :=
      List.find?_eq_some_iff_append.2
        ⟨by simpa using hout, before, after, hnested, by simpa using hbefore⟩
    rw [hfound, Option.bind_some, hlink, Option.map_some]

/-- A search by number finds what it finds at a number, and nothing at those below. -/
theorem findSome?_range_eq_some_iff {α : Type} {n : Nat} {f : Nat → Option α} {found : α} :
    (List.range n).findSome? f = some found ↔
      ∃ i < n, f i = some found ∧ ∀ j < i, f j = none := by
  rw [List.findSome?_eq_some_iff, List.range_eq_range']
  constructor
  · rintro ⟨before, i, after, hrange, hfound, hbefore⟩
    obtain ⟨k, -, rfl, hrest⟩ := List.range'_eq_append_iff.1 hrange
    obtain ⟨rfl, hlt, -⟩ := List.range'_eq_cons_iff.1 hrest.symm
    rw [Nat.zero_add, Nat.mul_one] at hfound
    refine ⟨k, by omega, hfound, fun j hj => hbefore j ?_⟩
    simpa using hj
  · rintro ⟨i, hi, hfound, hbefore⟩
    have hsplit : List.range' 0 n = List.range' 0 i ++ i :: List.range' (i + 1) (n - i - 1) := by
      rw [List.range'_eq_append_iff]
      refine ⟨i, Nat.le_of_lt hi, rfl, ?_⟩
      rw [Nat.zero_add, Nat.mul_one]
      exact (List.range'_eq_cons_iff.2 ⟨rfl, by omega, rfl⟩).symm
    refine ⟨_, i, _, hsplit, hfound, fun j hj => hbefore j ?_⟩
    simpa using hj

theorem violation?_eq_some_iff {d : Document} {violation : Violation} :
    d.violation? = some violation ↔ d.FirstViolation violation := by
  rw [violation?]
  cases hroot : d.exceptions.contains d.root with
  | false =>
      rw [if_neg Bool.false_ne_true]
      constructor
      · intro h
        cases h
        exact .root hroot
      · intro h
        cases h with
        | root => rfl
        | link hin => rw [hroot] at hin; cases hin
  | true =>
      rw [if_pos rfl, findSome?_range_eq_some_iff]
      constructor
      · rintro ⟨id, -, hdangling, hearlier⟩
        obtain ⟨record, link, before, after, hfound, hnested, hbefore, hout, rfl⟩ :=
          danglingLink?_eq_some_iff.1 hdangling
        refine .link hroot ?_ hfound hnested hbefore hout
        rintro earlier hlt other ⟨record, hfound, hother⟩
        exact danglingLink?_eq_none_iff.1 (hearlier earlier hlt) record hfound other hother
      · intro h
        cases h with
        | root hout => rw [hroot] at hout; cases hout
        | @link id link record before after _ hearlier hfound hnested hbefore hout =>
            refine ⟨id, Walk.lt_size_of_get? hfound, danglingLink?_eq_some_iff.2
              ⟨record, link, before, after, hfound, hnested, hbefore, hout, rfl⟩, ?_⟩
            intro earlier hlt
            refine danglingLink?_eq_none_iff.2 fun record hfound other hother => ?_
            exact hearlier earlier hlt other ⟨record, hfound, hother⟩

theorem validate_eq_error_iff {d : Document} {error : Error} :
    d.validate = .error error ↔
      ∃ violation, d.FirstViolation violation ∧ error = .invalidDocument violation.message := by
  simp only [← violation?_eq_some_iff]
  rw [validate]
  cases d.violation? with
  | none => simp
  | some violation => simp [eq_comm]

/-! ## Documents that were read -/

theorem validate_of_ofJson {text : String} {d : Document} (h : Document.ofJson text = .ok d) :
    d.validate = .ok () := by
  rw [Document.ofJson] at h
  split at h
  · rw [Document.ofValue] at h
    split at h
    · next read _ =>
        cases hvalid : read.validate with
        | error error => rw [hvalid] at h; cases h
        | ok => rw [hvalid] at h; cases h; exact hvalid
    · cases h
  · cases h

/-- A document is accepted if its root and every child and every cause in it is in the graph, and
only then. Otherwise the error tells the violation that comes first. In a document that was read, no
walk leads out of the graph. -/
theorem validate_reports_first_violation (d : Document) :
    (d.validate = .ok () ↔
      d.root < d.exceptions.size ∧
        ∀ id record, d.exceptions.get? id = some record →
          (∀ child ∈ record.children, child < d.exceptions.size) ∧
            ∀ inner ∈ record.inner, inner < d.exceptions.size) ∧
    (∀ error, d.validate = .error error ↔
      ∃ violation, d.FirstViolation violation ∧ error = .invalidDocument violation.message) ∧
    ∀ text, Document.ofJson text = .ok d →
      ∀ root maxDepth, d.exceptions.contains root = true →
        ∀ id depth, .missing id depth ∉ d.exceptions.walk root maxDepth := by
  refine ⟨?accepted, fun error => validate_eq_error_iff, ?read⟩
  case accepted =>
    rw [validate_eq_ok_iff, ExceptionGraph.closed_iff_children, ExceptionGraph.contains,
      decide_eq_true_iff]
  case read =>
    intro text hread root maxDepth hroot id depth
    have hclosed := (validate_eq_ok_iff.1 (validate_of_ofJson hread)).2
    exact ExceptionGraph.missing_not_mem_walk hclosed hroot

/-- Two exceptions that lead to each other and one of them to itself, all fields by position. -/
def ringText : String :=
  "[[], [[\"Cause\", \"\", [], 1], [\"Group\", \"\", [], null, [0, 1]]], 1]"

def ring : Document where
  exceptions :=
    ⟨#[{ typeName := "Cause", inner := some 1 }, { typeName := "Group", children := [0, 1] }]⟩
  root := 1

/-- The second exception leads out of the graph twice, by a child and by its cause, and the third
does so as well. -/
def straying : Document where
  exceptions :=
    ⟨#[{ typeName := "Cause", inner := some 1 },
       { typeName := "Group", children := [0, 4], inner := some 7 },
       { typeName := "Late", inner := some 9 }]⟩
  root := 1

theorem validate_ring_straying :
    (Document.ofJson ringText = .ok ring ∧ ring.exceptions.contains 0 = true ∧
      ∀ id depth, .missing id depth ∉ ring.exceptions.walk 0 64) ∧
    straying.FirstViolation (.danglingLink 1 4) ∧
      straying.validate =
        .error (.invalidDocument "exception #1 links to unknown exception #4") := by
  have hread : Document.ofJson ringText = .ok ring := by with_unfolding_all rfl
  have hroot : ring.exceptions.contains 0 = true := by decide
  have hearlier : ∀ earlier < 1, ∀ other, straying.exceptions.Links earlier other →
      straying.exceptions.contains other = true := by
    rintro earlier hlt other ⟨record, hfound, hother⟩
    obtain rfl := Nat.lt_one_iff.1 hlt
    cases hfound
    obtain rfl := List.mem_singleton.1 hother
    rfl
  have hfirst : straying.FirstViolation (.danglingLink 1 4) :=
    FirstViolation.link rfl hearlier rfl rfl (List.forall_mem_singleton.2 rfl) rfl
  refine ⟨⟨hread, hroot, (validate_reports_first_violation ring).2.2 ringText hread 0 64 hroot⟩,
    hfirst, ?_⟩
  exact ((validate_reports_first_violation straying).2.1 _).2 ⟨_, hfirst, rfl⟩

end Document

end Unmangle
