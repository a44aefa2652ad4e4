import Unmangle.GeneratedName.Fragment
import Unmangle.Text.Decimal

/-!
# Which names are trusted

The name in the brackets of a made-up name is trusted if it is an identifier, or an identifier
inside a limited number of made-up names. The test for it takes off one layer after the other and
looks at the characters of what is left.

Said without the test: there is one way to take layers off a name (`peel?`), it stops at the first
name that is not made up, and what stands there has to be an identifier, less than
`maxFragmentNesting` layers in. An identifier opens with no bracket, so it is never made up, and the
test cannot stop too early. The characters are ASCII throughout, and they are listed here by their
ranges, apart from the classes that the test reads them by.
-/

namespace Unmangle

/-! ## Identifiers -/

def IsLetter (c : Char) : Prop := ('a' ≤ c ∧ c ≤ 'z') ∨ ('A' ≤ c ∧ c ≤ 'Z')

/-- A letter or an underscore, perhaps behind a dot, and then letters, digits, underscores, dots and
backticks, all of them ASCII. -/
def IsIdentifier (text : String) : Prop :=
  ∃ (isDotted : Bool) (first : Char) (rest : List Char),
    text.toList = (if isDotted then ['.'] else []) ++ first :: rest ∧
      (IsLetter first ∨ first = '_') ∧
      ∀ c ∈ rest, IsLetter c ∨ ('0' ≤ c ∧ c ≤ '9') ∨ c = '_' ∨ c = '.' ∨ c = '\x60'

theorem isAlpha_iff {c : Char} : c.isAlpha = true ↔ IsLetter c := by
  have hupper : c.isUpper = true ↔ 'A' ≤ c ∧ c ≤ 'Z' := decide_eq_true_iff
  have hlower : c.isLower = true ↔ 'a' ≤ c ∧ c ≤ 'z' := by
    show (decide ('a'.val ≤ c.val) && decide (c.val ≤ 'z'.val)) = true ↔ _
    rw [Bool.and_eq_true, decide_eq_true_eq, decide_eq_true_eq]
    exact Iff.rfl
  show (c.isUpper || c.isLower) = true ↔ _
  rw [Bool.or_eq_true, hupper, hlower]
  exact Or.comm

theorem isIdentifierStart_iff {c : Char} :
    isIdentifierStart c = true ↔ IsLetter c ∨ c = '_' := by
  rw [isIdentifierStart, Bool.or_eq_true, isAlpha_iff, beq_iff_eq]

theorem isIdentifierRest_iff {c : Char} :
    isIdentifierRest c = true ↔
      IsLetter c ∨ ('0' ≤ c ∧ c ≤ '9') ∨ c = '_' ∨ c = '.' ∨ c = '\x60' := by
  simp only [isIdentifierRest, Char.isAlphanum, Bool.or_eq_true, isAlpha_iff, Text.isDigit_iff,
    beq_iff_eq, or_assoc]

theorem isPlainName_iff {text : String} :
    isPlainName text.toList = true ↔ IsIdentifier text := by
  have hread : ∀ {first : Char} {rest : List Char},
      (isIdentifierStart first && rest.all isIdentifierRest) = true ↔
        (IsLetter first ∨ first = '_') ∧
          ∀ c ∈ rest, IsLetter c ∨ ('0' ≤ c ∧ c ≤ '9') ∨ c = '_' ∨ c = '.' ∨ c = '\x60' := by
    intro first rest
    rw [Bool.and_eq_true, List.all_eq_true, isIdentifierStart_iff]
    simp only [isIdentifierRest_iff]
  -- A dot in front is not the start of an identifier, so it is the dot before one.
  have hdot : ¬ (IsLetter '.' ∨ '.' = '_') := by
    rw [← isIdentifierStart_iff]
    decide
  refine ⟨fun h => ?_, ?_⟩
  · unfold isPlainName at h
    split at h
    · next first rest htext => exact ⟨true, first, rest, htext, hread.1 h⟩
    · next first rest _ htext => exact ⟨false, first, rest, htext, hread.1 h⟩
    · cases h
  · rintro ⟨isDotted, first, rest, htext, hfirst, hrest⟩
    rw [htext]
    cases isDotted with
    | true => exact hread.2 ⟨hfirst, hrest⟩
    | false =>
        show isPlainName (first :: rest) = true
        unfold isPlainName
        split
        · next heq =>
            cases heq
            exact absurd hfirst hdot
        · next heq =>
            cases heq
            exact hread.2 ⟨hfirst, hrest⟩
        · next heq => cases heq

instance {text : String} : Decidable (IsIdentifier text) := decidable_of_iff _ isPlainName_iff

/-! ## Taking layers off -/

namespace GeneratedName

/-- The name that is left when so many made-up names have been taken apart, each of them found in
the brackets of the one before. -/
def peel? : Nat → String → Option String
  | 0, text => some text
  | layers + 1, text => (parse? text).bind fun name => peel? layers name.enclosing

theorem peel?_succ {layers : Nat} {text : String} {name : GeneratedName}
    (h : parse? text = some name) : peel? (layers + 1) text = peel? layers name.enclosing := by
  rw [peel?, h, Option.bind_some]

theorem eq_of_peel?_of_plain {layers : Nat} {text inner : String} (hplain : parse? text = none)
    (h : peel? layers text = some inner) : layers = 0 ∧ inner = text := by
  cases layers with
  | zero => exact ⟨rfl, (Option.some.inj h).symm⟩
  | succ layers =>
      rw [peel?, hplain] at h
      cases h

/-- A name comes apart in one way, so there is one name inside that is not made up. -/
theorem peel?_unique {layers others : Nat} {text inner other : String}
    (hinner : peel? layers text = some inner) (hplain : parse? inner = none)
    (hother : peel? others text = some other) (hplain' : parse? other = none) :
    layers = others ∧ inner = other := by
  induction layers generalizing others text with
  | zero =>
      obtain rfl : text = inner := Option.some.inj hinner
      obtain ⟨rfl, rfl⟩ := eq_of_peel?_of_plain hplain hother
      exact ⟨rfl, rfl⟩
  | succ layers ih =>
      cases hparse : parse? text with
      | none =>
          rw [peel?, hparse] at hinner
          cases hinner
      | some name =>
          rw [peel?_succ hparse] at hinner
          cases others with
          | zero =>
              obtain rfl : text = other := Option.some.inj hother
              cases hparse.symm.trans hplain'
          | succ others =>
              rw [peel?_succ hparse] at hother
              obtain ⟨rfl, rfl⟩ := ih hinner hother
              exact ⟨rfl, rfl⟩

end GeneratedName

open GeneratedName (parse? peel?)

/-- A name is trusted within a limit if an identifier is found in it, fewer layers in. -/
theorem isWellFormedWithin_iff {limit : Nat} {text : String} :
    isWellFormedWithin limit text = true ↔
      ∃ layers < limit, ∃ inner, peel? layers text = some inner ∧ parse? inner = none ∧
        IsIdentifier inner := by
  induction limit generalizing text with
  | zero => simp [isWellFormedWithin]
  | succ limit ih =>
      rw [isWellFormedWithin]
      cases hparse : parse? text with
      | none =>
          dsimp only
          rw [isPlainName_iff]
          refine ⟨fun h => ⟨0, Nat.succ_pos limit, text, rfl, hparse, h⟩, ?_⟩
          rintro ⟨layers, -, inner, hpeel, -, hinner⟩
          obtain ⟨-, rfl⟩ := GeneratedName.eq_of_peel?_of_plain hparse hpeel
          exact hinner
      | some name =>
          dsimp only
          rw [ih]
          refine ⟨?_, ?_⟩
          · rintro ⟨layers, hlt, inner, hpeel, hplain, hinner⟩
            refine ⟨layers + 1, Nat.succ_lt_succ hlt, inner, ?_, hplain, hinner⟩
            rw [GeneratedName.peel?_succ hparse, hpeel]
          · rintro ⟨layers, hlt, inner, hpeel, hplain, hinner⟩
            cases layers with
            | zero =>
                obtain rfl : text = inner := Option.some.inj hpeel
                cases hparse.symm.trans hplain
            | succ layers =>
                rw [GeneratedName.peel?_succ hparse] at hpeel
                exact ⟨layers, Nat.lt_of_succ_lt_succ hlt, inner, hpeel, hplain, hinner⟩

/-- A name is trusted if an identifier is found in it, less than `maxFragmentNesting` layers in. A
made-up name of any kind and with any suffix is trusted, then, if the name in its brackets holds an
identifier and leaves room for one more layer, and what holds anything but an identifier, nothing at
all included, is not trusted however many layers are around it. -/
theorem isWellFormedFragment_iff_peeled :
    (∀ text, isWellFormedFragment text = true ↔
      ∃ layers < maxFragmentNesting, ∃ inner,
        peel? layers text = some inner ∧ parse? inner = none ∧ IsIdentifier inner) ∧
    (∀ text name layers inner, parse? text = some name →
      peel? layers name.enclosing = some inner → parse? inner = none → IsIdentifier inner →
      layers < maxFragmentNesting - 1 → isWellFormedFragment text = true) ∧
    ∀ text layers inner, peel? layers text = some inner → parse? inner = none →
      ¬ IsIdentifier inner → isWellFormedFragment text = false := by
  have hiff : ∀ text, isWellFormedFragment text = true ↔
      ∃ layers < maxFragmentNesting, ∃ inner,
        peel? layers text = some inner ∧ parse? inner = none ∧ IsIdentifier inner :=
    fun _ => isWellFormedWithin_iff
  refine ⟨hiff, ?_, ?_⟩
  · intro text name layers inner hparse hpeel hplain hinner hlt
    refine (hiff text).2 ⟨layers + 1, by omega, inner, ?_, hplain, hinner⟩
    rw [GeneratedName.peel?_succ hparse, hpeel]
  · intro text layers inner hpeel hplain hinner
    rw [← Bool.not_eq_true, hiff text]
    rintro ⟨others, -, other, hother, hplain', hidentifier⟩
    obtain ⟨-, rfl⟩ := GeneratedName.peel?_unique hpeel hplain hother hplain'
    exact hinner hidentifier

/-- So many lambdas inside each other, the outermost of them in a method. -/
def lambdasIn (method : String) : Nat → String
  | 0 => method
  | layers + 1 => "<" ++ lambdasIn method layers ++ ">b__0"

/-- The seventh layer is the last one that is trusted. A lambda of a constructor counts like any
other, and one in a method without a name is not trusted at all. -/
theorem isWellFormedFragment_lambdasIn :
    isWellFormedFragment (lambdasIn ".ctor" 7) = true ∧
      isWellFormedFragment (lambdasIn ".ctor" 8) = false ∧
      isWellFormedFragment (lambdasIn "" 1) = false := by
  refine ⟨?_, ?_, ?_⟩
  · exact isWellFormedFragment_iff_peeled.2.1 (lambdasIn ".ctor" 7)
      ⟨.lambda, lambdasIn ".ctor" 6, "0"⟩ 6 ".ctor" (by decide +kernel) (by decide +kernel)
      (by decide +kernel) (by decide +kernel) (by decide)
  · rw [← Bool.not_eq_true, isWellFormedFragment_iff_peeled.1]
    rintro ⟨layers, hlt, inner, hpeel, hplain, -⟩
    have hmethod : peel? 8 (lambdasIn ".ctor" 8) = some ".ctor" := by decide +kernel
    obtain ⟨rfl, -⟩ := GeneratedName.peel?_unique hpeel hplain hmethod (by decide +kernel)
    exact absurd hlt (by decide)
  · exact isWellFormedFragment_iff_peeled.2.2 (lambdasIn "" 1) 1 "" (by decide +kernel)
      (by decide +kernel) (by decide +kernel)

end Unmangle
