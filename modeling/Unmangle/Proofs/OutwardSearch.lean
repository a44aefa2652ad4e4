import Unmangle.Metadata.Enclosing
import Mathlib.Data.List.Chain

/-!
# What a search outward finds

A search for a method looks at a type and at the types around it, and takes its choice on the first
one that has a method of the kind sought. Two things could go wrong on bad metadata. The declaring
types may run in circles or lead nowhere, and then the search must not go round, and must not stop
short either; `GoesOutward` says of a list of types when it goes exactly as far as it should. And a
type may declare many methods of one name; which of them is meant is said by `IsChosen`, in terms of
the lowest token, since tokens are the order of declaration.

That the search looks at one list of types and no other takes two steps. The list that it makes goes
outward, which is an induction over the types met before. And there is only one such list: each type
is declared in at most one other, so of two lists with the same start one continues the other, and
the shorter one may not have ended where it did.
-/

namespace Unmangle.Metadata

/-! ## The types that are searched -/

/-- The token stands for a definition, or for an instance of one, which is declared in `outer`. -/
inductive IsDeclaredIn (md : Metadata) (token outer : TypeToken) : Prop
  | definition {type : NamedType} (htoken : md.typeDef? token = some (.named type))
      (houter : type.declaringType = some outer)
  | instantiation {definition : TypeToken} {args : List TypeToken} {type : NamedType}
      (htoken : md.typeDef? token = some (.genericInstance definition args))
      (htype : md.typeDef? definition = some (.named type))
      (houter : type.declaringType = some outer)

/-- Types from `start` on, each declared in the next and none there twice. They end where there is
nothing to go on to, and before that only at the limit of a search or in front of a type that is
among them. -/
structure GoesOutward (md : Metadata) (start : TypeToken) (types : List TypeToken) : Prop where
  starts : types.head? = some start
  outward : types.IsChain md.IsDeclaredIn
  nodup : types.Nodup
  length_le : types.length ≤ maxEnclosingSearch
  ends : ∀ last ∈ types.getLast?, ∀ outer, md.IsDeclaredIn last outer →
    types.length = maxEnclosingSearch ∨ outer ∈ types

variable {md : Metadata} {room : Nat} {met : List TypeToken} {start outer : TypeToken}

theorem declaringType_eq_some_iff {token : TypeToken} :
    (md.named? token).bind (·.declaringType) = some outer ↔ md.IsDeclaredIn token outer := by
  rw [Option.bind_eq_some_iff]
  refine ⟨fun h => ?_, fun h => ?_⟩
  · obtain ⟨type, hnamed, houter⟩ := h
    obtain ⟨found, hfound, rfl⟩ := named?_eq_some_iff.1 hnamed
    cases hfound with
    | definition htoken => exact .definition htoken houter
    | instantiation htoken htype => exact .instantiation htoken htype houter
  · cases h with
    | definition htoken houter =>
        exact ⟨_, named?_eq_some_iff.2 ⟨_, .definition htoken, rfl⟩, houter⟩
    | instantiation htoken htype houter =>
        exact ⟨_, named?_eq_some_iff.2 ⟨_, .instantiation htoken htype, rfl⟩, houter⟩

theorem IsDeclaredIn.unique {token other : TypeToken} (h : md.IsDeclaredIn token outer)
    (hother : md.IsDeclaredIn token other) : outer = other :=
  Option.some.inj ((declaringType_eq_some_iff.2 h).symm.trans (declaringType_eq_some_iff.2 hother))

/-! ### The list of the search goes outward -/

/-- The four things that a search for types can do: there is no room for another type, it has met
the type before, it goes on from the type to the one that it is declared in, or it ends with the
type. -/
theorem enclosingFrom_induction (md : Metadata)
    {motive : Nat → List TypeToken → TypeToken → List TypeToken → Prop}
    (full : ∀ met start, motive 0 met start [])
    (known : ∀ room met start, start ∈ met → motive (room + 1) met start [])
    (onward : ∀ room met start outer, start ∉ met → md.IsDeclaredIn start outer →
      motive room (start :: met) outer (md.enclosingFrom room (start :: met) outer) →
      motive (room + 1) met start (start :: md.enclosingFrom room (start :: met) outer))
    (outermost : ∀ room met start, start ∉ met → (∀ outer, ¬ md.IsDeclaredIn start outer) →
      motive (room + 1) met start [start])
    (room : Nat) (met : List TypeToken) (start : TypeToken) :
    motive room met start (md.enclosingFrom room met start) := by
  induction room generalizing met start with
  | zero => exact full met start
  | succ room ih =>
      rw [enclosingFrom]
      by_cases hstart : start ∈ met
      · rw [if_pos hstart]
        exact known room met start hstart
      · rw [if_neg hstart]
        cases houter : (md.named? start).bind (·.declaringType) with
        | some outer =>
            exact onward room met start outer hstart (declaringType_eq_some_iff.1 houter) (ih _ _)
        | none =>
            refine outermost room met start hstart fun outer h => ?_
            cases houter.symm.trans (declaringType_eq_some_iff.2 h)

theorem head?_enclosingFrom (room : Nat) (met : List TypeToken) (start : TypeToken) :
    ∀ first ∈ (md.enclosingFrom room met start).head?, first = start := by
  intro first hfirst
  induction room, met, start using enclosingFrom_induction md with
  | full met start => cases hfirst
  | known room met start hstart => cases hfirst
  | onward room met start outer hstart houter ih => exact (Option.some.inj hfirst).symm
  | outermost room met start hstart hnone => exact (Option.some.inj hfirst).symm

theorem not_mem_of_mem_enclosingFrom (room : Nat) (met : List TypeToken) (start : TypeToken) :
    ∀ type ∈ md.enclosingFrom room met start, type ∉ met := by
  intro type h
  induction room, met, start using enclosingFrom_induction md with
  | full met start => cases h
  | known room met start hstart => cases h
  | onward room met start outer hstart houter ih =>
      rcases List.mem_cons.1 h with rfl | h
      · exact hstart
      · exact fun hmet => ih h (List.mem_cons_of_mem _ hmet)
  | outermost room met start hstart hnone => rwa [List.mem_singleton.1 h]

theorem nodup_enclosingFrom (room : Nat) (met : List TypeToken) (start : TypeToken) :
    (md.enclosingFrom room met start).Nodup := by
  induction room, met, start using enclosingFrom_induction md with
  | full met start => exact List.nodup_nil
  | known room met start hstart => exact List.nodup_nil
  | onward room met start outer hstart houter ih =>
      refine List.nodup_cons.2 ⟨fun hmem => ?_, ih⟩
      exact not_mem_of_mem_enclosingFrom room (start :: met) outer start hmem List.mem_cons_self
  | outermost room met start hstart hnone =>
      exact List.nodup_cons.2 ⟨List.not_mem_nil, List.nodup_nil⟩

theorem isChain_enclosingFrom (room : Nat) (met : List TypeToken) (start : TypeToken) :
    (md.enclosingFrom room met start).IsChain md.IsDeclaredIn := by
  induction room, met, start using enclosingFrom_induction md with
  | full met start => exact .nil
  | known room met start hstart => exact .nil
  | onward room met start outer hstart houter ih =>
      refine List.isChain_cons.2 ⟨fun next hnext => ?_, ih⟩
      rwa [head?_enclosingFrom room (start :: met) outer next hnext]
  | outermost room met start hstart hnone => exact .singleton start

theorem length_enclosingFrom_le (room : Nat) (met : List TypeToken) (start : TypeToken) :
    (md.enclosingFrom room met start).length ≤ room := by
  induction room, met, start using enclosingFrom_induction md with
  | full met start => exact Nat.le_refl 0
  | known room met start hstart => exact Nat.zero_le _
  | onward room met start outer hstart houter ih => exact Nat.succ_le_succ ih
  | outermost room met start hstart hnone => exact Nat.succ_le_succ (Nat.zero_le room)

theorem mem_of_enclosingFrom_eq_nil (h : md.enclosingFrom room met start = []) :
    room = 0 ∨ start ∈ met := by
  cases room with
  | zero => exact .inl rfl
  | succ room =>
      rw [enclosingFrom] at h
      split at h
      · next hmet => exact .inr hmet
      · cases h

/-- The search ends where there is no room, no type to go on to, or only one met before. -/
theorem enclosingFrom_ends (room : Nat) (met : List TypeToken) (start : TypeToken) :
    ∀ last ∈ (md.enclosingFrom room met start).getLast?, ∀ outer, md.IsDeclaredIn last outer →
      (md.enclosingFrom room met start).length = room ∨
        outer ∈ md.enclosingFrom room met start ∨ outer ∈ met := by
  intro last hlast outer houter
  induction room, met, start using enclosingFrom_induction md with
  | full met start => cases hlast
  | known room met start hstart => cases hlast
  | onward room met start next hstart hnext ih =>
      have hbefore : ∀ {types : List TypeToken}, outer ∈ start :: met →
          outer ∈ start :: types ∨ outer ∈ met := by
        intro types h
        exact (List.mem_cons.1 h).imp_left fun heq => List.mem_cons.2 (.inl heq)
      by_cases hnil : md.enclosingFrom room (start :: met) next = []
      · rw [hnil] at hlast ⊢
        obtain rfl : start = last := Option.some.inj hlast
        obtain rfl : next = outer := hnext.unique houter
        rcases mem_of_enclosingFrom_eq_nil hnil with rfl | hmet
        · exact .inl rfl
        · exact .inr (hbefore hmet)
      · rw [List.getLast?_cons_of_ne_nil hnil] at hlast
        rcases ih hlast with hroom | hmem | hmet
        · exact .inl (congrArg Nat.succ hroom)
        · exact .inr (.inl (List.mem_cons_of_mem _ hmem))
        · exact .inr (hbefore hmet)
  | outermost room met start hstart hnone =>
      obtain rfl : start = last := Option.some.inj hlast
      exact absurd houter (hnone outer)

theorem goesOutward_enclosingTypes : md.GoesOutward start (md.enclosingTypes start) where
  starts := by simp [enclosingTypes, maxEnclosingSearch, enclosingFrom]
  outward := isChain_enclosingFrom _ _ _
  nodup := nodup_enclosingFrom _ _ _
  length_le := length_enclosingFrom_le _ _ _
  ends last hlast outer houter := by
    rcases enclosingFrom_ends _ _ _ last hlast outer houter with hroom | hmem | hmet
    · exact .inl hroom
    · exact .inr hmem
    · cases hmet

/-! ### No other list does -/

/-- Where each type is declared in one other at most, one of two lists continues the other. -/
theorem isPrefix_or_isPrefix {types others : List TypeToken}
    (htypes : types.IsChain md.IsDeclaredIn) (hothers : others.IsChain md.IsDeclaredIn)
    (hstart : types.head? = others.head?) : types <+: others ∨ others <+: types := by
  induction types generalizing others with
  | nil => exact .inl List.nil_prefix
  | cons type types ih =>
      cases others with
      | nil => exact .inr List.nil_prefix
      | cons other others =>
          obtain rfl : type = other := Option.some.inj hstart
          obtain ⟨hnext, htypes⟩ := List.isChain_cons.1 htypes
          obtain ⟨hnext', hothers⟩ := List.isChain_cons.1 hothers
          cases types with
          | nil => exact .inl (List.cons_prefix_cons.2 ⟨rfl, List.nil_prefix⟩)
          | cons next types =>
              cases others with
              | nil => exact .inr (List.cons_prefix_cons.2 ⟨rfl, List.nil_prefix⟩)
              | cons next' others =>
                  obtain rfl : next = next' := (hnext next rfl).unique (hnext' next' rfl)
                  rcases ih htypes hothers rfl with h | h
                  · exact .inl (List.cons_prefix_cons.2 ⟨rfl, h⟩)
                  · exact .inr (List.cons_prefix_cons.2 ⟨rfl, h⟩)

/-- A list that goes outward does not end before one that continues it. -/
theorem GoesOutward.eq_of_isPrefix {types others : List TypeToken}
    (htypes : md.GoesOutward start types) (hothers : md.GoesOutward start others)
    (h : types <+: others) : types = others := by
  obtain ⟨rest, rfl⟩ := h
  cases rest with
  | nil => rw [List.append_nil]
  | cons next rest =>
      have hne : types ≠ [] := by
        rintro rfl
        cases htypes.starts
      have hlast := List.getLast?_eq_getLast_of_ne_nil hne
      have hnext : md.IsDeclaredIn (types.getLast hne) next :=
        (List.isChain_append.1 hothers.outward).2.2 _ hlast next rfl
      exfalso
      rcases htypes.ends _ hlast next hnext with hlength | hmem
      · have hle := hothers.length_le
        rw [List.length_append, List.length_cons] at hle
        omega
      · exact (List.nodup_append.1 hothers.nodup).2.2 next hmem next List.mem_cons_self rfl

theorem enclosingTypes_eq_iff {types : List TypeToken} :
    md.enclosingTypes start = types ↔ md.GoesOutward start types := by
  refine ⟨?_, fun h => ?_⟩
  · rintro rfl
    exact goesOutward_enclosingTypes
  · have hsearch : md.GoesOutward start (md.enclosingTypes start) := goesOutward_enclosingTypes
    rcases isPrefix_or_isPrefix hsearch.outward h.outward (hsearch.starts.trans h.starts.symm) with
      hle | hle
    · exact hsearch.eq_of_isPrefix h hle
    · exact (h.eq_of_isPrefix hsearch hle).symm

/-- Two types that are declared in each other are searched once each. -/
example :
    enclosingTypes
      { types := .ofList
          [(1, .named { name := "Left", declaringType := some ⟨2⟩ }),
           (2, .named { name := "Right", declaringType := some ⟨1⟩ })] } ⟨1⟩ =
      [⟨1⟩, ⟨2⟩] := by decide +kernel

/-! ## The methods that are chosen from -/

/-- A method of the table that is declared on the type. -/
def Declares (md : Metadata) (type : TypeToken) (token : MethodToken) (method : MethodDef) : Prop :=
  md.methodDef? token = some method ∧ method.declaringType = type

/-- A method of the type with a name. -/
def DeclaresNamed (md : Metadata) (name : String) (type : TypeToken) (token : MethodToken)
    (method : MethodDef) : Prop :=
  md.Declares type token method ∧ method.name = name

/-- A method of the type that says that its body lives in the machine. -/
def DeclaresOwner (md : Metadata) (machine type : TypeToken) (token : MethodToken)
    (method : MethodDef) : Prop :=
  md.Declares type token method ∧ ∃ attr, method.stateMachine = some attr ∧ attr.machine = machine

/-- Of all methods of a kind, the one with the lowest token. -/
def IsLowest (P : MethodToken → MethodDef → Prop) (found : MethodToken × MethodDef) : Prop :=
  P found.1 found.2 ∧ ∀ token method, P token method → found.1.val ≤ token.val

/-- The choice among the methods of one name that a type declares: the first one with the ordinal
that is hinted at, or the first one of all where none has it. -/
inductive IsChosen (md : Metadata) (name : String) (hint : Option UInt32) (type : TypeToken)
    (found : MethodToken × MethodDef) : Prop
  | hinted {ordinal : UInt32} (hhint : hint = some ordinal)
      (hlowest : IsLowest (fun token method =>
        md.DeclaresNamed name type token method ∧ method.ordinal = some ordinal) found)
  | first
      (hnone : ∀ ordinal ∈ hint, ∀ token method, md.DeclaresNamed name type token method →
        method.ordinal ≠ some ordinal)
      (hlowest : IsLowest (md.DeclaresNamed name type) found)

/-- The first of the types searched on which there is a method of a kind. -/
def IsInnermost (md : Metadata) (start : TypeToken)
    (P : TypeToken → MethodToken → MethodDef → Prop) (type : TypeToken) : Prop :=
  ∃ before after, md.enclosingTypes start = before ++ type :: after ∧
    (∃ token method, P type token method) ∧
    ∀ nearer ∈ before, ∀ token method, ¬ P nearer token method

theorem mem_methodsOf {type : TypeToken} {entry : MethodToken × MethodDef} :
    entry ∈ md.methodsOf type ↔ md.Declares type entry.1 entry.2 := by
  rw [mem_methodsOf_iff, TokenMap.mem_entries_iff]
  rfl

theorem pairwise_methodsOf (md : Metadata) (type : TypeToken) :
    (md.methodsOf type).Pairwise (·.1.val < ·.1.val) := by
  refine md.methods.ascending.filterMap _ ?_
  intro entry entry' hlt found hfound found' hfound'
  dsimp only at hfound hfound'
  split at hfound
  · split at hfound'
    · cases hfound
      cases hfound'
      exact hlt
    · cases hfound'
  · cases hfound

/-- In ascending order, the first hit is the lowest. -/
theorem find?_eq_some_iff_lowest {p : MethodToken × MethodDef → Bool}
    {entries : List (MethodToken × MethodDef)} (h : entries.Pairwise (·.1.val < ·.1.val))
    {found : MethodToken × MethodDef} :
    entries.find? p = some found ↔
      found ∈ entries ∧ p found = true ∧
        ∀ entry ∈ entries, p entry = true → found.1.val ≤ entry.1.val := by
  refine ⟨fun hfound => ?_, ?_⟩
  · obtain ⟨hp, before, after, rfl, hbefore⟩ := List.find?_eq_some_iff_append.1 hfound
    refine ⟨List.mem_append_right _ List.mem_cons_self, hp, fun entry hentry hother => ?_⟩
    rcases List.mem_append.1 hentry with hmem | hmem
    · have hnot := hbefore entry hmem
      rw [hother] at hnot
      cases hnot
    · rcases List.mem_cons.1 hmem with rfl | hmem
      · exact UInt32.le_refl _
      · have hafter := (List.pairwise_append.1 h).2.1
        exact UInt32.le_of_lt ((List.pairwise_cons.1 hafter).1 entry hmem)
  · rintro ⟨hmem, hp, hlowest⟩
    obtain ⟨before, after, rfl⟩ := List.append_of_mem hmem
    refine List.find?_eq_some_iff_append.2 ⟨hp, before, after, rfl, fun entry hentry => ?_⟩
    have hlt : entry.1.val < found.1.val :=
      (List.pairwise_append.1 h).2.2 entry hentry found List.mem_cons_self
    rw [Bool.not_eq_true', ← Bool.not_eq_true]
    intro hother
    have hle := hlowest entry (List.mem_append_left _ hentry) hother
    exact absurd hlt (UInt32.not_lt.2 hle)

theorem find?_methodsOf_eq_some_iff {p : MethodToken × MethodDef → Bool}
    {P : MethodToken → MethodDef → Prop} {type : TypeToken} {found : MethodToken × MethodDef}
    (hP : ∀ token method, P token method ↔
      md.Declares type token method ∧ p (token, method) = true) :
    (md.methodsOf type).find? p = some found ↔ IsLowest P found := by
  rw [find?_eq_some_iff_lowest (md.pairwise_methodsOf type), mem_methodsOf, IsLowest, hP, and_assoc]
  refine and_congr_right fun _ => and_congr_right fun _ => ?_
  refine ⟨fun h token method hmethod => ?_, fun h entry hentry hp => ?_⟩
  · obtain ⟨hdeclares, hp⟩ := (hP token method).1 hmethod
    exact h (token, method) (mem_methodsOf.2 hdeclares) hp
  · exact h entry.1 entry.2 ((hP _ _).2 ⟨mem_methodsOf.1 hentry, hp⟩)

theorem find?_methodsOf_eq_none_iff {p : MethodToken × MethodDef → Bool}
    {P : MethodToken → MethodDef → Prop} {type : TypeToken}
    (hP : ∀ token method, P token method ↔
      md.Declares type token method ∧ p (token, method) = true) :
    (md.methodsOf type).find? p = none ↔ ∀ token method, ¬ P token method := by
  rw [List.find?_eq_none]
  refine ⟨fun h token method hmethod => ?_, fun h entry hentry hp => ?_⟩
  · obtain ⟨hdeclares, hp⟩ := (hP token method).1 hmethod
    exact h (token, method) (mem_methodsOf.2 hdeclares) hp
  · exact h entry.1 entry.2 ((hP _ _).2 ⟨mem_methodsOf.1 hentry, hp⟩)

/-! ## The choice on one type -/

variable {name : String} {hint : Option UInt32} {type machine : TypeToken}
  {found : MethodToken × MethodDef}

theorem declaresNamed_iff (token : MethodToken) (method : MethodDef) :
    md.DeclaresNamed name type token method ↔
      md.Declares type token method ∧ (method.name == name) = true := by
  rw [DeclaresNamed, beq_iff_eq]

theorem declaresNamed_and_ordinal_iff (ordinal : UInt32) (token : MethodToken)
    (method : MethodDef) :
    md.DeclaresNamed name type token method ∧ method.ordinal = some ordinal ↔
      md.Declares type token method ∧
        (method.name == name && method.ordinal == some ordinal) = true := by
  rw [declaresNamed_iff, Bool.and_eq_true, beq_iff_eq (a := method.ordinal), and_assoc]

theorem declaresOwner_iff (token : MethodToken) (method : MethodDef) :
    md.DeclaresOwner machine type token method ↔
      md.Declares type token method ∧ method.stateMachine.any (·.machine == machine) = true := by
  rw [DeclaresOwner, Option.any_eq_true]
  simp only [beq_iff_eq]

/-- The methods of a name that a type declares, in the order of their tokens. -/
def candidates (md : Metadata) (name : String) (type : TypeToken) :
    List (MethodToken × MethodDef) :=
  (md.methodsOf type).filter fun (_, definition) => definition.name == name

theorem head?_candidates :
    (md.candidates name type).head? = (md.methodsOf type).find? fun entry => entry.2.name == name :=
  List.head?_filter

theorem find?_candidates (ordinal : UInt32) :
    ((md.candidates name type).find? fun (_, definition) => definition.ordinal == some ordinal) =
      (md.methodsOf type).find? fun entry =>
        entry.2.name == name && entry.2.ordinal == some ordinal := by
  rw [candidates, List.find?_filter]
  congr 1
  funext entry
  rw [Bool.decide_and, Bool.decide_eq_true, Bool.decide_eq_true]

theorem head?_candidates_eq_some_iff :
    (md.candidates name type).head? = some found ↔
      IsLowest (md.DeclaresNamed name type) found := by
  rw [head?_candidates]
  exact find?_methodsOf_eq_some_iff declaresNamed_iff

theorem pickByOrdinal_candidates_eq_none_iff :
    pickByOrdinal (md.candidates name type) hint = none ↔
      ∀ token method, ¬ md.DeclaresNamed name type token method := by
  have hempty : (md.candidates name type).head? = none ↔
      ∀ token method, ¬ md.DeclaresNamed name type token method := by
    rw [head?_candidates]
    exact find?_methodsOf_eq_none_iff declaresNamed_iff
  rw [← hempty]
  cases hint with
  | none => rfl
  | some ordinal =>
      rw [pickByOrdinal, Option.or_eq_none_iff]
      refine and_iff_right_of_imp fun hnone => ?_
      rw [List.head?_eq_none_iff] at hnone
      rw [hnone, List.find?_nil]

theorem pickByOrdinal_candidates_eq_some_iff :
    pickByOrdinal (md.candidates name type) hint = some found ↔
      md.IsChosen name hint type found := by
  cases hint with
  | none =>
      rw [pickByOrdinal, head?_candidates_eq_some_iff]
      refine ⟨fun h => .first (fun ordinal hordinal => ?_) h, fun h => ?_⟩
      · cases hordinal
      · cases h with
        | hinted hhint => cases hhint
        | first _ hlowest => exact hlowest
  | some ordinal =>
      rw [pickByOrdinal, Option.or_eq_some_iff, head?_candidates_eq_some_iff, find?_candidates,
        find?_methodsOf_eq_some_iff (declaresNamed_and_ordinal_iff ordinal),
        find?_methodsOf_eq_none_iff (declaresNamed_and_ordinal_iff ordinal)]
      refine ⟨?_, fun h => ?_⟩
      · rintro (hlowest | ⟨hnone, hlowest⟩)
        · exact .hinted rfl hlowest
        · refine .first (fun other hother token method hnamed hordinal => ?_) hlowest
          cases hother
          exact hnone token method ⟨hnamed, hordinal⟩
      · cases h with
        | hinted hhint hlowest =>
            cases hhint
            exact .inl hlowest
        | first hnone hlowest =>
            exact .inr ⟨fun token method h => hnone ordinal rfl token method h.1 h.2, hlowest⟩

/-! ## The searches -/

variable {P : TypeToken → MethodToken → MethodDef → Prop}
  {choose : TypeToken → Option (MethodToken × MethodDef)}

/-- A search that chooses on the first type where it can finds nothing if it can nowhere. -/
theorem findSome?_enclosingTypes_eq_none_iff
    (hnone : ∀ type, choose type = none ↔ ∀ token method, ¬ P type token method) :
    (md.enclosingTypes start).findSome? choose = none ↔
      ∀ type ∈ md.enclosingTypes start, ∀ token method, ¬ P type token method := by
  rw [List.findSome?_eq_none_iff]
  exact forall₂_congr fun type _ => hnone type

/-- It finds what it chooses on the innermost type where there is a choice. -/
theorem findSome?_enclosingTypes_eq_some_iff
    (hnone : ∀ type, choose type = none ↔ ∀ token method, ¬ P type token method) :
    (md.enclosingTypes start).findSome? choose = some found ↔
      ∃ type, md.IsInnermost start P type ∧ choose type = some found := by
  rw [List.findSome?_eq_some_iff]
  refine ⟨?_, ?_⟩
  · rintro ⟨before, type, after, htypes, hchoose, hbefore⟩
    refine ⟨type, ⟨before, after, htypes, ?_, fun nearer hmem => ?_⟩, hchoose⟩
    · by_contra hempty
      rw [(hnone type).2 fun token method h => hempty ⟨token, method, h⟩] at hchoose
      cases hchoose
    · exact (hnone nearer).1 (hbefore nearer hmem)
  · rintro ⟨type, ⟨before, after, htypes, -, hbefore⟩, hchoose⟩
    exact ⟨before, type, after, htypes, hchoose, fun nearer hmem =>
      (hnone nearer).2 (hbefore nearer hmem)⟩

theorem findStateMachineOwner_eq_none_iff :
    md.findStateMachineOwner start machine = none ↔
      ∀ type ∈ md.enclosingTypes start, ∀ token method,
        ¬ md.DeclaresOwner machine type token method :=
  findSome?_enclosingTypes_eq_none_iff fun _ => find?_methodsOf_eq_none_iff declaresOwner_iff

/-- A search looks at the types that go outward from where it starts, on any metadata. The search
for a name fails if none of them declares a method of that name, and else makes its choice on the
first one that does. The search for the owner of a state machine fails if none of them declares a
method that names the machine, and else finds the lowest one of the first type that does. -/
theorem searches_are_innermost (md : Metadata) (start : TypeToken) :
    (∀ types, md.enclosingTypes start = types ↔ md.GoesOutward start types) ∧
    (∀ name hint, md.findByName start name hint = none ↔
      ∀ type ∈ md.enclosingTypes start, ∀ token method,
        ¬ md.DeclaresNamed name type token method) ∧
    (∀ name hint found, md.findByName start name hint = some found ↔
      ∃ type, md.IsInnermost start (md.DeclaresNamed name) type ∧
        md.IsChosen name hint type found) ∧
    (∀ machine, md.findStateMachineOwner start machine = none ↔
      ∀ type ∈ md.enclosingTypes start, ∀ token method,
        ¬ md.DeclaresOwner machine type token method) ∧
    ∀ machine found, md.findStateMachineOwner start machine = some found ↔
      ∃ type, md.IsInnermost start (md.DeclaresOwner machine) type ∧
        IsLowest (md.DeclaresOwner machine type) found := by
  refine ⟨fun _ => enclosingTypes_eq_iff, fun name hint => ?_, fun name hint found => ?_,
    fun machine => ?_, fun machine found => ?_⟩
  · exact findSome?_enclosingTypes_eq_none_iff fun _ => pickByOrdinal_candidates_eq_none_iff
  · refine (findSome?_enclosingTypes_eq_some_iff fun _ =>
      pickByOrdinal_candidates_eq_none_iff).trans (exists_congr fun type => ?_)
    exact and_congr_right fun _ => pickByOrdinal_candidates_eq_some_iff
  · exact findStateMachineOwner_eq_none_iff
  · refine (findSome?_enclosingTypes_eq_some_iff fun _ =>
      find?_methodsOf_eq_none_iff declaresOwner_iff).trans (exists_congr fun type => ?_)
    exact and_congr_right fun _ => find?_methodsOf_eq_some_iff declaresOwner_iff

end Unmangle.Metadata
