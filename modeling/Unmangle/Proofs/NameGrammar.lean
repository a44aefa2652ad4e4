import Unmangle.GeneratedName.Basic

/-!
# The grammar of made-up names

A made-up name is a name in angle brackets with a kind character and some text behind it, and
perhaps `CS$` in front. The name in the brackets may hold brackets itself, as long as they pair off.

That there is one way only to take such a name apart rests on the closing bracket. The reader takes
the first one that closes more brackets than were opened inside. No prefix of a balanced text does
so, hence the reader stops nowhere before the end of the name in the brackets, and there it does
stop, whatever the text behind may hold. The lemma for it is stated for any number of open brackets
(`splitAtClosing?_eq_some_iff`), since that is what the reader goes by.
-/

namespace Unmangle

/-! ## Balanced texts -/

/-- Behind `depth` open brackets, a text closes these and its own: no prefix closes more than are
open, and at the end none is left. -/
structure ClosesFrom (depth : Nat) (text : List Char) : Prop where
  never_ahead : ∀ before, before <+: text → before.count '>' ≤ before.count '<' + depth
  settled : text.count '>' = text.count '<' + depth

/-- The brackets of a text pair off: no prefix has more closing than opening ones, and the whole has
as many of the one kind as of the other. -/
def IsBalanced (text : String) : Prop := ClosesFrom 0 text.toList

theorem closesFrom_nil {depth : Nat} : ClosesFrom depth [] ↔ depth = 0 := by
  constructor
  · intro h
    have hsettled := h.settled
    simp only [List.count_nil] at hsettled
    omega
  · rintro rfl
    refine ⟨fun before hbefore => ?_, rfl⟩
    rw [List.prefix_nil.1 hbefore]
    exact Nat.le_refl 0

/-- Passing a character changes the number of open brackets by what the character is. -/
theorem closesFrom_cons {c : Char} {depth next : Nat} {text : List Char}
    (h : [c].count '<' + depth = [c].count '>' + next) :
    ClosesFrom depth (c :: text) ↔ ClosesFrom next text := by
  have hcount : ∀ (bracket : Char) (part : List Char),
      (c :: part).count bracket = [c].count bracket + part.count bracket := by
    intro bracket part
    rw [← List.count_append, List.singleton_append]
  have hahead : ∀ part : List Char, (c :: part).count '>' ≤ (c :: part).count '<' + depth ↔
      part.count '>' ≤ part.count '<' + next := by
    intro part
    rw [hcount '<' part, hcount '>' part]
    omega
  have hsettled : (c :: text).count '>' = (c :: text).count '<' + depth ↔
      text.count '>' = text.count '<' + next := by
    rw [hcount '<' text, hcount '>' text]
    omega
  constructor
  · intro hcloses
    refine ⟨fun before hbefore => ?_, hsettled.1 hcloses.settled⟩
    exact (hahead before).1
      (hcloses.never_ahead (c :: before) (List.cons_prefix_cons.2 ⟨rfl, hbefore⟩))
  · intro hcloses
    refine ⟨fun before hbefore => ?_, hsettled.2 hcloses.settled⟩
    rcases List.prefix_cons_iff.1 hbefore with rfl | ⟨tail, rfl, htail⟩
    · exact Nat.zero_le _
    · exact (hahead tail).2 (hcloses.never_ahead tail htail)

theorem closesFrom_opening {depth : Nat} {text : List Char} :
    ClosesFrom depth ('<' :: text) ↔ ClosesFrom (depth + 1) text :=
  closesFrom_cons (by simp; omega)

theorem closesFrom_closing {depth : Nat} {text : List Char} :
    ClosesFrom (depth + 1) ('>' :: text) ↔ ClosesFrom depth text :=
  closesFrom_cons (by simp; omega)

theorem closesFrom_other {depth : Nat} {c : Char} {text : List Char} (hopening : c ≠ '<')
    (hclosing : c ≠ '>') : ClosesFrom depth (c :: text) ↔ ClosesFrom depth text :=
  closesFrom_cons (by simp [hopening, hclosing])

theorem not_closesFrom_zero {text : List Char} : ¬ ClosesFrom 0 ('>' :: text) := by
  intro h
  have hahead := h.never_ahead ['>'] ⟨text, rfl⟩
  exact absurd hahead (by decide)

theorem closesFrom_of_not_mem {text : List Char} (hopening : '<' ∉ text) (hclosing : '>' ∉ text) :
    ClosesFrom 0 text := by
  have hcount : text.count '>' = 0 := List.count_eq_zero.2 hclosing
  refine ⟨fun before hbefore => ?_, ?_⟩
  · have hle : before.count '>' ≤ text.count '>' := hbefore.sublist.count_le '>'
    omega
  · rw [hcount, List.count_eq_zero.2 hopening]

theorem ClosesFrom.append {depth : Nat} {text rest : List Char} (htext : ClosesFrom 0 text)
    (hrest : ClosesFrom depth rest) : ClosesFrom depth (text ++ rest) := by
  have htext_settled := htext.settled
  have hrest_settled := hrest.settled
  refine ⟨fun before hbefore => ?_, ?_⟩
  · rcases List.prefix_or_prefix_of_prefix hbefore (List.prefix_append text rest) with
      hinside | ⟨part, rfl⟩
    · have := htext.never_ahead before hinside
      omega
    · have := hrest.never_ahead part ((List.prefix_append_right_inj text).1 hbefore)
      rw [List.count_append, List.count_append]
      omega
  · rw [List.count_append, List.count_append]
    omega

theorem IsBalanced.append {text rest : String} (htext : IsBalanced text) (hrest : IsBalanced rest) :
    IsBalanced (text ++ rest) := by
  rw [IsBalanced, String.toList_append]
  exact ClosesFrom.append htext hrest

theorem IsBalanced.enclosed {text : String} (h : IsBalanced text) :
    IsBalanced ("<" ++ text ++ ">") := by
  have htext : ("<" ++ text ++ ">").toList = '<' :: (text.toList ++ ['>']) := by
    simp [String.toList_append]
  rw [IsBalanced, htext, closesFrom_opening]
  exact ClosesFrom.append h (closesFrom_closing.2 (closesFrom_nil.2 rfl))

namespace GeneratedName

/-! ## The closing bracket -/

/-- A character that does not end the text goes in front of what is read behind it. -/
theorem map_cons_eq_some_iff {c : Char} {depth next : Nat} {rest : List Char}
    (hstep : ∀ before, ClosesFrom depth (c :: before) ↔ ClosesFrom next before)
    (hpass : c = '>' → depth ≠ 0)
    (ih : ∀ {before after : List Char}, splitAtClosing? next rest = some (before, after) ↔
      rest = before ++ '>' :: after ∧ ClosesFrom next before)
    {before after : List Char} :
    ((splitAtClosing? next rest).map fun (before, after) => (c :: before, after)) =
        some (before, after) ↔
      c :: rest = before ++ '>' :: after ∧ ClosesFrom depth before := by
  rw [Option.map_eq_some_iff]
  constructor
  · rintro ⟨⟨inner, behind⟩, hinner, heq⟩
    cases heq
    obtain ⟨rfl, hcloses⟩ := ih.1 hinner
    exact ⟨rfl, (hstep inner).2 hcloses⟩
  · rintro ⟨heq, hcloses⟩
    cases before with
    | nil =>
        cases heq
        exact absurd (closesFrom_nil.1 hcloses) (hpass rfl)
    | cons first inner =>
        cases heq
        exact ⟨(inner, after), ih.2 ⟨rfl, (hstep inner).1 hcloses⟩, rfl⟩

/-- A text is split at the bracket before which it closes what is open. -/
theorem splitAtClosing?_eq_some_iff {depth : Nat} {text before after : List Char} :
    splitAtClosing? depth text = some (before, after) ↔
      text = before ++ '>' :: after ∧ ClosesFrom depth before := by
  fun_induction splitAtClosing? depth text generalizing before after with
  | case1 => simp
  | case2 depth rest ih =>
      exact map_cons_eq_some_iff (fun _ => closesFrom_opening) (fun h => absurd h (by decide)) ih
  | case3 rest =>
      constructor
      · rintro ⟨⟩
        exact ⟨rfl, closesFrom_nil.2 rfl⟩
      · rintro ⟨heq, hcloses⟩
        cases before with
        | nil =>
            cases heq
            rfl
        | cons first inner =>
            cases heq
            exact absurd hcloses not_closesFrom_zero
  | case4 depth rest ih =>
      exact map_cons_eq_some_iff (fun _ => closesFrom_closing) (fun _ => Nat.succ_ne_zero depth) ih
  | case5 depth c rest hopening hzero hsucc ih =>
      have hclosing : c ≠ '>' := by
        rintro rfl
        cases depth with
        | zero => exact hzero rfl rfl
        | succ depth => exact hsucc depth rfl rfl
      exact map_cons_eq_some_iff (fun _ => closesFrom_other hopening hclosing)
        (fun h => absurd h hclosing) ih

instance {depth : Nat} {text : List Char} : Decidable (ClosesFrom depth text) :=
  decidable_of_iff (splitAtClosing? depth (text ++ ['>']) = some (text, []))
    (splitAtClosing?_eq_some_iff.trans (and_iff_right rfl))

instance {text : String} : Decidable (IsBalanced text) :=
  inferInstanceAs (Decidable (ClosesFrom 0 _))

theorem afterOpening?_eq_some_iff {text inside : List Char} :
    afterOpening? text = some inside ↔
      ∃ isOld : Bool, text = (if isOld then ['C', 'S', '$'] else []) ++ '<' :: inside := by
  constructor
  · intro h
    unfold afterOpening? at h
    split at h
    · cases h
      exact ⟨false, rfl⟩
    · cases h
      exact ⟨true, rfl⟩
    · cases h
  · rintro ⟨_ | _, rfl⟩ <;> rfl

/-- One pair of underscores is dropped, and only one. -/
theorem dropUnderscores_eq_iff {rest suffix : List Char} :
    dropUnderscores rest = suffix ↔
      rest = '_' :: '_' :: suffix ∨ ¬ ['_', '_'] <+: rest ∧ rest = suffix := by
  unfold dropUnderscores
  split
  · next rest => simp
  · next rest hnot =>
      constructor
      · intro h
        refine .inr ⟨?_, h⟩
        rintro ⟨tail, rfl⟩
        exact hnot tail rfl
      · rintro (rfl | ⟨-, h⟩)
        · exact absurd rfl (hnot suffix)
        · exact h

theorem isKindChar_iff {c : Char} :
    isKindChar c = true ↔ ('1' ≤ c ∧ c ≤ '9') ∨ ('a' ≤ c ∧ c ≤ 'z') := by
  simp [isKindChar]

theorem parse?_eq_some_iff {text : String} {name : GeneratedName} :
    parse? text = some name ↔ ∃ inside enclosing kind rest,
      afterOpening? text.toList = some inside ∧
        splitAtClosing? 0 inside = some (enclosing, kind :: rest) ∧ isKindChar kind = true ∧
        name = ⟨.ofChar kind, .ofList enclosing, .ofList (dropUnderscores rest)⟩ := by
  constructor
  · intro h
    rw [parse?] at h
    obtain ⟨inside, hinside, h⟩ := Option.bind_eq_some_iff.1 h
    obtain ⟨⟨enclosing, after⟩, hsplit, h⟩ := Option.bind_eq_some_iff.1 h
    cases after with
    | nil => cases h
    | cons kind rest =>
        dsimp only at h
        split at h
        · next hkind =>
            cases h
            exact ⟨inside, enclosing, kind, rest, hinside, hsplit, hkind, rfl⟩
        · cases h
  · rintro ⟨inside, enclosing, kind, rest, hinside, hsplit, hkind, rfl⟩
    simp only [parse?, hinside, Option.bind_eq_bind, Option.bind_some, hsplit, if_pos hkind]

/-! ## Spellings -/

/-- A made-up name in the parts that it is spelled with. -/
structure Spelling where
  /-- Does `CS$` stand in front? -/
  isOld : Bool
  enclosing : String
  kind : Char
  /-- All that follows the kind character. -/
  rest : String
  balanced : IsBalanced enclosing
  isKind : ('1' ≤ kind ∧ kind ≤ '9') ∨ ('a' ≤ kind ∧ kind ≤ 'z')

namespace Spelling

def text (s : Spelling) : String :=
  (if s.isOld then "CS$" else "") ++ "<" ++ s.enclosing ++ ">" ++ .singleton s.kind ++ s.rest

/-- What a spelling says: its suffix is the rest without the two underscores that it may begin
with. -/
structure Says (s : Spelling) (name : GeneratedName) : Prop where
  kind : name.kind = .ofChar s.kind
  enclosing : name.enclosing = s.enclosing
  suffix : s.rest = "__" ++ name.suffix ∨ ¬ ['_', '_'] <+: s.rest.toList ∧ s.rest = name.suffix

theorem toList_text (s : Spelling) :
    s.text.toList = (if s.isOld then ['C', 'S', '$'] else []) ++
      '<' :: (s.enclosing.toList ++ '>' :: s.kind :: s.rest.toList) := by
  obtain ⟨_ | _, enclosing, kind, rest, -, -⟩ := s <;>
    simp [text, String.toList_append]

theorem splitAtClosing?_text (s : Spelling) :
    splitAtClosing? 0 (s.enclosing.toList ++ '>' :: s.kind :: s.rest.toList) =
      some (s.enclosing.toList, s.kind :: s.rest.toList) :=
  splitAtClosing?_eq_some_iff.2 ⟨rfl, s.balanced⟩

theorem afterOpening?_text (s : Spelling) :
    afterOpening? s.text.toList =
      some (s.enclosing.toList ++ '>' :: s.kind :: s.rest.toList) :=
  afterOpening?_eq_some_iff.2 ⟨s.isOld, s.toList_text⟩

theorem suffix_iff {rest suffix : String} :
    dropUnderscores rest.toList = suffix.toList ↔
      rest = "__" ++ suffix ∨ ¬ ['_', '_'] <+: rest.toList ∧ rest = suffix := by
  rw [dropUnderscores_eq_iff, ← String.toList_inj, ← String.toList_inj, String.toList_append]
  rfl

theorem says_iff {s : Spelling} {name : GeneratedName} :
    s.Says name ↔
      name = ⟨.ofChar s.kind, s.enclosing, .ofList (dropUnderscores s.rest.toList)⟩ := by
  constructor
  · rintro ⟨hkind, henclosing, hsuffix⟩
    obtain ⟨kind, enclosing, suffix⟩ := name
    rw [← suffix_iff] at hsuffix
    rw [hsuffix, String.ofList_toList, ← hkind, ← henclosing]
  · rintro rfl
    refine ⟨rfl, rfl, suffix_iff.1 ?_⟩
    rw [String.toList_ofList]

theorem parse?_eq_some_iff_says {s : Spelling} {name : GeneratedName} :
    parse? s.text = some name ↔ s.Says name := by
  rw [says_iff, parse?_eq_some_iff]
  constructor
  · rintro ⟨inside, enclosing, kind, rest, hinside, hsplit, -, rfl⟩
    cases s.afterOpening?_text.symm.trans hinside
    cases s.splitAtClosing?_text.symm.trans hsplit
    rw [String.ofList_toList]
  · rintro rfl
    refine ⟨_, _, _, _, s.afterOpening?_text, s.splitAtClosing?_text,
      isKindChar_iff.2 s.isKind, ?_⟩
    rw [String.ofList_toList]

/-- A name that is made up has a spelling. -/
theorem exists_of_parse? {text : String} {name : GeneratedName} (h : parse? text = some name) :
    ∃ s : Spelling, s.text = text := by
  obtain ⟨inside, enclosing, kind, rest, hinside, hsplit, hkind, -⟩ := parse?_eq_some_iff.1 h
  obtain ⟨isOld, htext⟩ := afterOpening?_eq_some_iff.1 hinside
  obtain ⟨rfl, hbalanced⟩ := splitAtClosing?_eq_some_iff.1 hsplit
  let s : Spelling :=
    { isOld, enclosing := .ofList enclosing, kind, rest := .ofList rest
      balanced := by rwa [IsBalanced, String.toList_ofList]
      isKind := isKindChar_iff.1 hkind }
  refine ⟨s, String.toList_inj.1 ?_⟩
  rw [toList_text, htext, String.toList_ofList, String.toList_ofList]

/-- The parts are where the reader finds them, so equal texts have equal parts. -/
theorem eq_of_text_eq {s t : Spelling} (h : s.text = t.text) : s = t := by
  have hinside : s.enclosing.toList ++ '>' :: s.kind :: s.rest.toList =
      t.enclosing.toList ++ '>' :: t.kind :: t.rest.toList :=
    Option.some.inj (s.afterOpening?_text.symm.trans (h ▸ t.afterOpening?_text))
  have hsplit : (s.enclosing.toList, s.kind :: s.rest.toList) =
      (t.enclosing.toList, t.kind :: t.rest.toList) := by
    rw [← Option.some_inj, ← s.splitAtClosing?_text, hinside, t.splitAtClosing?_text]
  have hold : (if s.isOld then ['C', 'S', '$'] else []) =
      if t.isOld then ['C', 'S', '$'] else [] := by
    have hlist := congrArg String.toList h
    rw [toList_text, toList_text, hinside] at hlist
    exact List.append_cancel_right hlist
  obtain ⟨isOld, enclosing, kind, rest, _, _⟩ := s
  obtain ⟨isOld', enclosing', kind', rest', _, _⟩ := t
  simp only [Prod.mk.injEq, List.cons.injEq, String.toList_inj] at hsplit
  obtain ⟨rfl, rfl, rfl⟩ := hsplit
  obtain rfl : isOld = isOld' := by
    cases isOld <;> cases isOld' <;> simp at hold ⊢
  rfl

end Spelling

/-- The reader accepts exactly the texts that are spelled, and takes each apart into what its
spelling says. No text has two spellings. Two underscores behind the kind character part the suffix
from it, and the suffix is all that follows them, further underscores included. -/
theorem parse?_reads_spellings :
    (∀ text name, parse? text = some name ↔ ∃ s : Spelling, s.text = text ∧ s.Says name) ∧
    (∀ s t : Spelling, s.text = t.text ↔ s = t) ∧
    ∀ (s : Spelling) (suffix : String),
      parse? ({ s with rest := "__" ++ suffix } : Spelling).text =
        some ⟨.ofChar s.kind, s.enclosing, suffix⟩ := by
  refine ⟨fun text name => ⟨fun h => ?_, ?_⟩, fun s t => ⟨Spelling.eq_of_text_eq, ?_⟩,
    fun s suffix => ?_⟩
  · obtain ⟨s, rfl⟩ := Spelling.exists_of_parse? h
    exact ⟨s, rfl, Spelling.parse?_eq_some_iff_says.1 h⟩
  · rintro ⟨s, rfl, hsays⟩
    exact Spelling.parse?_eq_some_iff_says.2 hsays
  · rintro rfl
    rfl
  · exact Spelling.parse?_eq_some_iff_says.2 ⟨rfl, rfl, .inl rfl⟩

/-- The machine of a lambda, by an old compiler, with a suffix that begins with underscores. -/
def oldMachine : Spelling where
  isOld := true
  enclosing := "<Main>b__0_0"
  kind := 'd'
  rest := ""
  balanced := by decide
  isKind := by decide

theorem parse?_oldMachine :
    parse? "CS$<<Main>b__0_0>d____x" = some ⟨.stateMachine, "<Main>b__0_0", "__x"⟩ :=
  parse?_reads_spellings.2.2 oldMachine "__x"

end GeneratedName

end Unmangle
