import Unmangle.GeneratedName.Suffix
import Unmangle.Proofs.NameGrammar
import Mathlib.Data.List.TakeDrop

/-!
# The numbers in made-up names

The compiler writes a number behind the kind of a name, or behind the own name of a local function,
and perhaps another one behind an underscore. Here the readers are held against two things: what the
compiler writes (`Ending`), and what a text holds at the place of a number, whoever wrote it.

At a place there is one run of decimal digits that goes as far as the digits go, the empty run if
there are none. A number is read there only if the whole run says it. The digits that a run is made
of are those of any script, while a number has ASCII digits only, so a run may well be there and say
nothing. It is then not cut down to a part that would say something.
-/

namespace Unmangle

open Text

/-- Behind `before`, this is the run of decimal digits that goes as far as the digits go. -/
def IsRunBehind (text before run : List Char) : Prop :=
  ∃ after, text = before ++ (run ++ after) ∧ (∀ c ∈ run, isDecimalDigit c = true) ∧
    ∀ c ∈ after.head?, isDecimalDigit c = false

theorem isRunBehind_iff {text before run : List Char} :
    IsRunBehind text before run ↔ ∃ rest, text = before ++ rest ∧ (spanDigits rest).1 = run := by
  constructor
  · rintro ⟨after, rfl, hrun, hafter⟩
    exact ⟨run ++ after, rfl, congrArg Prod.fst (spanDigits_eq_iff.2 ⟨rfl, hrun, hafter⟩)⟩
  · rintro ⟨rest, rfl, rfl⟩
    obtain ⟨hrest, hrun, hafter⟩ := spanDigits_eq_iff.1 (rfl : spanDigits rest = (_, _))
    exact ⟨_, congrArg _ hrest, hrun, hafter⟩

namespace GeneratedName

/-- The run at the place of the number of the method: behind the bar that ends the own name of a
local function, at the front of the suffix for all other kinds. -/
inductive IsHintRun (name : GeneratedName) (run : List Char) : Prop
  | behindBar {own : List Char} (hkind : name.kind = .localFunction) (hne : own ≠ [])
      (hbar : '|' ∉ own) (hrun : IsRunBehind name.suffix.toList (own ++ ['|']) run)
  | atFront (hkind : name.kind ≠ .localFunction) (hrun : IsRunBehind name.suffix.toList [] run)

/-- The run at the place of the number of a lambda: behind a first run and an underscore. -/
inductive IsLambdaRun (name : GeneratedName) (run : List Char) : Prop
  | behindFirst {first : List Char} (hkind : name.kind = .lambda) (hne : first ≠ [])
      (hfirst : ∀ c ∈ first, isDecimalDigit c = true)
      (hrun : IsRunBehind name.suffix.toList (first ++ ['_']) run)

/-! ## What is read at a place

Each reader looks for its place, takes the run that is there and asks what it says. -/

theorem splitAtBar?_eq_some_iff {suffix own rest : List Char} :
    splitAtBar? suffix = some (own, rest) ↔ suffix = own ++ '|' :: rest ∧ own ≠ [] ∧ '|' ∉ own := by
  have hspan := List.span_eq_takeWhile_dropWhile (· != '|') suffix
  constructor
  · intro h
    rw [splitAtBar?, hspan] at h
    split at h
    · cases h
    · cases h
    · next own' c rest' hne hpair =>
        cases h
        obtain ⟨rfl, hown, hstop⟩ := takeWhile_dropWhile_eq_iff.1 hpair
        obtain rfl : c = '|' := by simpa using hstop c rfl
        exact ⟨rfl, hne, fun hbar => by simpa using hown '|' hbar⟩
  · rintro ⟨rfl, hne, hbar⟩
    have hpair : (own ++ '|' :: rest).span (· != '|') = (own, '|' :: rest) := by
      refine hspan.trans (takeWhile_dropWhile_eq_iff.2 ⟨rfl, fun c hc => ?_, by simp⟩)
      exact bne_iff_ne.2 fun heq => hbar (heq ▸ hc)
    rw [splitAtBar?, hpair]
    cases own with
    | nil => exact absurd rfl hne
    | cons c own => rfl

/-- What stands behind an underscore. -/
def behindUnderscore? : List Char → Option (List Char)
  | '_' :: rest => some rest
  | _ => none

/-- What stands behind a first run of digits and an underscore. -/
def behindFirstRun? (suffix : List Char) : Option (List Char) :=
  if (spanDigits suffix).1.isEmpty then none else behindUnderscore? (spanDigits suffix).2

theorem behindUnderscore?_eq_some_iff {text rest : List Char} :
    behindUnderscore? text = some rest ↔ text = '_' :: rest := by
  unfold behindUnderscore?
  split
  · next rest' => simp
  · next hnot =>
      refine iff_of_false (by simp) ?_
      rintro rfl
      exact hnot rest rfl

/-- A second run that is not there says nothing, as if there were no place for it. -/
theorem word32?_secondRun (text : List Char) :
    word32? (secondRun text) =
      ((behindUnderscore? text).map fun rest => (spanDigits rest).1).bind word32? := by
  cases h : behindUnderscore? text with
  | some rest =>
      obtain rfl := behindUnderscore?_eq_some_iff.1 h
      rfl
  | none =>
      unfold secondRun
      split
      · cases h
      · rfl

theorem behindFirstRun?_eq_some_iff {suffix rest : List Char} :
    behindFirstRun? suffix = some rest ↔
      ∃ first, suffix = first ++ '_' :: rest ∧ first ≠ [] ∧
        ∀ c ∈ first, isDecimalDigit c = true := by
  rw [behindFirstRun?]
  constructor
  · intro h
    split at h
    · cases h
    · next hne =>
        have hspan : spanDigits suffix = ((spanDigits suffix).1, (spanDigits suffix).2) := rfl
        obtain ⟨hsuffix, hfirst, -⟩ := spanDigits_eq_iff.1 hspan
        rw [behindUnderscore?_eq_some_iff.1 h] at hsuffix
        exact ⟨_, hsuffix, fun hnil => hne (List.isEmpty_iff.2 hnil), hfirst⟩
  · rintro ⟨first, hsuffix, hne, hfirst⟩
    have hspan : spanDigits suffix = (first, '_' :: rest) :=
      spanDigits_eq_iff.2 ⟨hsuffix, hfirst, by rintro _ ⟨⟩; decide⟩
    rw [hspan, if_neg (fun hnil => hne (List.isEmpty_iff.1 hnil))]
    rfl

/-- The run at the place of the number of the method, found as the reader finds it. -/
def hintRun? (name : GeneratedName) : Option (List Char) :=
  match name.kind with
  | .localFunction => (splitAtBar? name.suffix.toList).map fun (_, rest) => (spanDigits rest).1
  | _ => some (spanDigits name.suffix.toList).1

/-- The run at the place of the number of a lambda. -/
def lambdaRun? (name : GeneratedName) : Option (List Char) :=
  match name.kind with
  | .lambda => (behindFirstRun? name.suffix.toList).map fun rest => (spanDigits rest).1
  | _ => none

section Readers

variable {name : GeneratedName} {run : List Char} {w : UInt32}

theorem ordinalHint?_eq : name.ordinalHint? = name.hintRun?.bind word32? := by
  obtain ⟨kind, enclosing, suffix⟩ := name
  cases kind with
  | localFunction =>
      simp only [ordinalHint?, hintRun?]
      cases splitAtBar? suffix.toList <;> rfl
  | lambda | stateMachine | displayClass | other => rfl

theorem lambdaOrdinal?_eq : name.lambdaOrdinal? = name.lambdaRun?.bind word32? := by
  obtain ⟨kind, enclosing, suffix⟩ := name
  cases kind with
  | lambda =>
      simp only [lambdaOrdinal?, lambdaRun?, ordinals, behindFirstRun?, word32?_secondRun]
      cases (spanDigits suffix.toList).1.isEmpty <;> rfl
  | localFunction | stateMachine | displayClass | other => rfl

theorem isHintRun_iff : name.IsHintRun run ↔ name.hintRun? = some run := by
  rw [hintRun?]
  constructor
  · rintro (⟨hkind, hne, hbar, hrun⟩ | ⟨hkind, hrun⟩)
    · obtain ⟨rest, hsuffix, rfl⟩ := isRunBehind_iff.1 hrun
      rw [List.append_assoc, List.singleton_append] at hsuffix
      simp only [hkind, splitAtBar?_eq_some_iff.2 ⟨hsuffix, hne, hbar⟩, Option.map_some]
    · obtain ⟨rest, hsuffix, rfl⟩ := isRunBehind_iff.1 hrun
      rw [hsuffix]
      split
      · next h => exact absurd h hkind
      · rfl
  · intro h
    split at h
    · next hkind =>
        obtain ⟨⟨own, rest⟩, hsplit, rfl⟩ := Option.map_eq_some_iff.1 h
        obtain ⟨hsuffix, hne, hbar⟩ := splitAtBar?_eq_some_iff.1 hsplit
        refine .behindBar hkind hne hbar (isRunBehind_iff.2 ⟨rest, ?_, rfl⟩)
        rw [hsuffix, List.append_assoc, List.singleton_append]
    · next hkind =>
        cases h
        exact .atFront hkind (isRunBehind_iff.2 ⟨_, rfl, rfl⟩)

theorem isLambdaRun_iff : name.IsLambdaRun run ↔ name.lambdaRun? = some run := by
  rw [lambdaRun?]
  constructor
  · rintro ⟨hkind, hne, hfirst, hrun⟩
    obtain ⟨rest, hsuffix, rfl⟩ := isRunBehind_iff.1 hrun
    rw [List.append_assoc, List.singleton_append] at hsuffix
    simp only [hkind, behindFirstRun?_eq_some_iff.2 ⟨_, hsuffix, hne, hfirst⟩, Option.map_some]
  · intro h
    split at h
    · next hkind =>
        obtain ⟨rest, hrest, rfl⟩ := Option.map_eq_some_iff.1 h
        obtain ⟨first, hsuffix, hne, hfirst⟩ := behindFirstRun?_eq_some_iff.1 hrest
        refine .behindFirst hkind hne hfirst (isRunBehind_iff.2 ⟨rest, ?_, rfl⟩)
        rw [hsuffix, List.append_assoc, List.singleton_append]
    · cases h

theorem ordinalHint?_eq_some_iff :
    name.ordinalHint? = some w ↔ ∃ run, name.IsHintRun run ∧ Spells run w := by
  simp only [ordinalHint?_eq, Option.bind_eq_some_iff, isHintRun_iff, word32?_eq_some_iff]

theorem lambdaOrdinal?_eq_some_iff :
    name.lambdaOrdinal? = some w ↔ ∃ run, name.IsLambdaRun run ∧ Spells run w := by
  simp only [lambdaOrdinal?_eq, Option.bind_eq_some_iff, isLambdaRun_iff, word32?_eq_some_iff]

end Readers

/-! ## What the compiler writes -/

/-- The endings that the compiler puts behind the name in the brackets. -/
inductive Ending where
  | lambda (method ordinal : UInt32)
  /-- A lambda that is the only one of its method. -/
  | onlyLambda (method : UInt32)
  | localFunction (own : String) (method ordinal : UInt32) (hne : own ≠ "")
      (hbar : '|' ∉ own.toList)
  | stateMachine (method : UInt32) (rest : String)
      (hrest : ∀ c ∈ rest.toList.head?, isDecimalDigit c = false)

namespace Ending

def kind : Ending → Char
  | lambda _ _ | onlyLambda _ => 'b'
  | localFunction .. => 'g'
  | stateMachine .. => 'd'

/-- What stands behind the kind character and two underscores. -/
def suffix : Ending → String
  | lambda method ordinal => toString method ++ "_" ++ toString ordinal
  | onlyLambda method => toString method
  | localFunction own method ordinal _ _ =>
    own ++ "|" ++ toString method ++ "_" ++ toString ordinal
  | stateMachine method rest _ => toString method ++ rest

def text (ending : Ending) : String := .singleton ending.kind ++ "__" ++ ending.suffix

def method : Ending → UInt32
  | lambda method _ | onlyLambda method | localFunction _ method _ _ _
  | stateMachine method _ _ => method

def lambdaOrdinal? : Ending → Option UInt32
  | lambda _ ordinal => some ordinal
  | _ => none

def localName? : Ending → Option String
  | localFunction own .. => some own
  | _ => none

/-- The name that has this ending, in its parts. -/
def name (enclosing : String) (ending : Ending) : GeneratedName :=
  ⟨.ofChar ending.kind, enclosing, ending.suffix⟩

section

variable {enclosing : String} {ending : Ending}

theorem isKindChar_kind : isKindChar ending.kind = true := by
  cases ending <;> rfl

theorem parse?_text (h : IsBalanced enclosing) :
    parse? ("<" ++ enclosing ++ ">" ++ ending.text) = some (ending.name enclosing) := by
  let s : Spelling :=
    { isOld := false, enclosing, kind := ending.kind, rest := "__" ++ ending.suffix
      balanced := h, isKind := isKindChar_iff.1 isKindChar_kind }
  have htext : s.text = "<" ++ enclosing ++ ">" ++ ending.text := by
    rw [← String.toList_inj]
    simp [s, Spelling.text, text, String.toList_append]
  rw [← htext, Spelling.parse?_eq_some_iff_says]
  exact ⟨rfl, rfl, .inl rfl⟩

/-- The digits of a number are the run at their place if no digit stands behind them. -/
theorem isRunBehind_toDigits {text : List Char} (before after : List Char) (w : UInt32)
    (htext : text = before ++ (Nat.toDigits 10 w.toNat ++ after))
    (hafter : ∀ c ∈ after.head?, isDecimalDigit c = false) :
    IsRunBehind text before (Nat.toDigits 10 w.toNat) :=
  ⟨after, htext, fun _ hc => isDecimalDigit_of_isDigit (isDigit_of_mem_toDigits hc), hafter⟩

theorem not_isDecimalDigit_underscore (rest : List Char) :
    ∀ c ∈ ('_' :: rest).head?, isDecimalDigit c = false := by
  rintro _ ⟨⟩
  decide

theorem isHintRun_name :
    (ending.name enclosing).IsHintRun (Nat.toDigits 10 ending.method.toNat) := by
  cases ending with
  | lambda method ordinal =>
      refine .atFront (by rintro ⟨⟩)
        (isRunBehind_toDigits [] ('_' :: Nat.toDigits 10 ordinal.toNat) method ?_
          (not_isDecimalDigit_underscore _))
      simp [name, suffix, String.toList_append, toList_toString_word32]
  | onlyLambda method =>
      refine .atFront (by rintro ⟨⟩) (isRunBehind_toDigits [] [] method ?_ (by simp))
      simp [name, suffix, toList_toString_word32]
  | localFunction own method ordinal hne hbar =>
      refine .behindBar rfl (mt String.toList_eq_nil_iff.1 hne) hbar
        (isRunBehind_toDigits _ ('_' :: Nat.toDigits 10 ordinal.toNat) method ?_
          (not_isDecimalDigit_underscore _))
      simp [name, suffix, String.toList_append, toList_toString_word32]
  | stateMachine method rest hrest =>
      refine .atFront (by rintro ⟨⟩) (isRunBehind_toDigits [] rest.toList method ?_ hrest)
      simp [name, suffix, String.toList_append, toList_toString_word32]

theorem ordinalHint?_name : (ending.name enclosing).ordinalHint? = some ending.method :=
  ordinalHint?_eq_some_iff.2 ⟨_, isHintRun_name, word32?_eq_some_iff.1 (word32?_toDigits _)⟩

theorem lambdaOrdinal?_name :
    (ending.name enclosing).lambdaOrdinal? = ending.lambdaOrdinal? := by
  cases ending with
  | lambda method ordinal =>
      have hrun : ((lambda method ordinal).name enclosing).IsLambdaRun
          (Nat.toDigits 10 ordinal.toNat) := by
        refine .behindFirst rfl Nat.toDigits_ne_nil
          (fun _ hc => isDecimalDigit_of_isDigit (isDigit_of_mem_toDigits hc))
          (isRunBehind_toDigits (Nat.toDigits 10 method.toNat ++ ['_']) [] ordinal ?_ (by simp))
        simp [name, suffix, String.toList_append, toList_toString_word32]
      exact lambdaOrdinal?_eq_some_iff.2 ⟨_, hrun, word32?_eq_some_iff.1 (word32?_toDigits _)⟩
  | onlyLambda method =>
      -- A second number would have an underscore before it, and there are digits only.
      refine Option.eq_none_iff_forall_ne_some.2 fun w hw => ?_
      obtain ⟨run, ⟨-, -, -, after, hsuffix, -, -⟩, -⟩ := lambdaOrdinal?_eq_some_iff.1 hw
      have hmem : '_' ∈ (toString method).toList := by
        rw [show (toString method).toList = _ from hsuffix]
        simp
      exact absurd (isDigit_of_mem_toString hmem) (by decide)
  | localFunction | stateMachine => rfl

theorem localName?_name : (ending.name enclosing).localName? = ending.localName? := by
  cases ending with
  | localFunction own method ordinal hne hbar =>
      have hsplit : splitAtBar? (localFunction own method ordinal hne hbar).suffix.toList =
          some (own.toList, (toString method).toList ++ '_' :: (toString ordinal).toList) := by
        refine splitAtBar?_eq_some_iff.2 ⟨?_, mt String.toList_eq_nil_iff.1 hne, hbar⟩
        simp [suffix, String.toList_append]
      have hread : ((localFunction own method ordinal hne hbar).name enclosing).localName? =
          some (.ofList own.toList) := by
        rw [GeneratedName.localName?]
        simp only [name, kind, GeneratedKind.ofChar, hsplit, Option.map_some]
      rw [hread, String.ofList_toList, Ending.localName?]
  | lambda | onlyLambda | stateMachine => rfl

end

end Ending

/-! ## The main theorem -/

/-- What the compiler writes is read as it was written. Of any name, however it came about, a number
is reported exactly if the whole run of digits at its place says it, and a run that says none, since
it is too large or holds a digit that is not ASCII, is reported as none. -/
theorem ordinals_are_whole_runs :
    (∀ (enclosing : String) (ending : Ending), IsBalanced enclosing →
      ∃ name, parse? ("<" ++ enclosing ++ ">" ++ ending.text) = some name ∧
        name.enclosing = enclosing ∧ name.ordinalHint? = some ending.method ∧
        name.lambdaOrdinal? = ending.lambdaOrdinal? ∧ name.localName? = ending.localName?) ∧
    (∀ (name : GeneratedName) (w : UInt32),
      (name.ordinalHint? = some w ↔ ∃ run, name.IsHintRun run ∧ Spells run w) ∧
      (name.lambdaOrdinal? = some w ↔ ∃ run, name.IsLambdaRun run ∧ Spells run w)) ∧
    ∀ (name : GeneratedName) (run : List Char),
      (∃ c ∈ run, c.isDigit = false) ∨ UInt32.size ≤ Nat.ofDigitChars 10 run 0 →
      (name.IsHintRun run → name.ordinalHint? = none) ∧
        (name.IsLambdaRun run → name.lambdaOrdinal? = none) := by
  refine ⟨fun enclosing ending h => ?_, fun name w => ?_, fun name run hrun => ?_⟩
  · exact ⟨ending.name enclosing, Ending.parse?_text h, rfl, Ending.ordinalHint?_name,
      Ending.lambdaOrdinal?_name, Ending.localName?_name⟩
  · exact ⟨ordinalHint?_eq_some_iff, lambdaOrdinal?_eq_some_iff⟩
  · have hsilent : word32? run = none := Option.eq_none_iff_forall_ne_some.2 fun w hw =>
      not_spells_of_unreadable hrun (word32?_eq_some_iff.1 hw)
    constructor
    · intro hplace
      rw [ordinalHint?_eq, isHintRun_iff.1 hplace, Option.bind_some, hsilent]
    · intro hplace
      rw [lambdaOrdinal?_eq, isLambdaRun_iff.1 hplace, Option.bind_some, hsilent]

/-- A local function with underscores and brackets in its name, in a lambda. -/
def oddLocal : Ending := .localFunction "__of<1>" 4294967295 0 (by decide) (by decide)

/-- A lambda whose first number is one too large. -/
def largeLambda : GeneratedName := ⟨.lambda, "Main", "4294967296_7"⟩

theorem ordinals_oddLocal :
    IsBalanced "<Main>b__0_0" ∧
      (∃ name, parse? "<<Main>b__0_0>g____of<1>|4294967295_0" = some name ∧
        name.ordinalHint? = some 4294967295 ∧ name.localName? = some "__of<1>") ∧
      largeLambda.IsHintRun "4294967296".toList ∧ largeLambda.ordinalHint? = none := by
  obtain ⟨hwritten, -, hrefused⟩ := ordinals_are_whole_runs
  have hbalanced : IsBalanced "<Main>b__0_0" := by decide
  have hplace : largeLambda.IsHintRun "4294967296".toList :=
    .atFront (by decide) ⟨"_7".toList, by decide, List.all_eq_true.1 (by decide),
      Ending.not_isDecimalDigit_underscore ['7']⟩
  obtain ⟨name, hparse, -, hhint, -, hlocal⟩ := hwritten "<Main>b__0_0" oddLocal hbalanced
  exact ⟨hbalanced, ⟨name, hparse, hhint, hlocal⟩, hplace,
    (hrefused largeLambda _ (.inr (by decide))).1 hplace⟩

end GeneratedName

end Unmangle
