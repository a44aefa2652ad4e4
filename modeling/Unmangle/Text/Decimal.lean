/-!
# Decimal numbers in text

Names and documents carry numbers as runs of decimal digits. Two questions are kept apart here.
Where does a run end? At the first character that is no decimal digit of any script. What does a
run say? A number only if every digit of it is an ASCII one and the value stays below a bound; a
run that fails either test has no value at all, so nothing is ever cut short or wrapped around.
-/

namespace Unmangle.Text

/-- The zeros of the blocks of ten consecutive decimal digits (general category `Nd`). -/
def decimalZeros : List Nat :=
  [0x30, 0x660, 0x6f0, 0x7c0, 0x966, 0x9e6, 0xa66, 0xae6, 0xb66, 0xbe6, 0xc66, 0xce6, 0xd66,
   0xde6, 0xe50, 0xed0, 0xf20, 0x1040, 0x1090, 0x17e0, 0x1810, 0x1946, 0x19d0, 0x1a80, 0x1a90,
   0x1b50, 0x1bb0, 0x1c40, 0x1c50, 0xa620, 0xa8d0, 0xa900, 0xa9d0, 0xa9f0, 0xaa50, 0xabf0,
   0xff10, 0x104a0, 0x10d30, 0x10d40, 0x11066, 0x110f0, 0x11136, 0x111d0, 0x112f0, 0x11450,
   0x114d0, 0x11650, 0x116c0, 0x116d0, 0x116da, 0x11730, 0x118e0, 0x11950, 0x11bf0, 0x11c50,
   0x11d50, 0x11da0, 0x11f50, 0x16130, 0x16a60, 0x16ac0, 0x16b50, 0x16d70, 0x1ccf0, 0x1d7ce,
   0x1d7d8, 0x1d7e2, 0x1d7ec, 0x1d7f6, 0x1e140, 0x1e2f0, 0x1e4f0, 0x1e5f1, 0x1e950, 0x1fbf0]

/-- A decimal digit of any script. -/
def isDecimalDigit (c : Char) : Bool :=
  decimalZeros.any fun first => first ≤ c.toNat && c.toNat < first + 10

/-- Splits off the longest run of decimal digits at the front. -/
def spanDigits (text : List Char) : List Char × List Char :=
  (text.takeWhile isDecimalDigit, text.dropWhile isDecimalDigit)

/-- The value of a run of ASCII digits; a run that is empty or holds anything else has none. -/
def digitsValue? (digits : List Char) : Option Nat :=
  if digits.isEmpty || !digits.all Char.isDigit then none
  else some (Nat.ofDigitChars 10 digits 0)

/-- The value of a run of ASCII digits, if it is below `bound`. -/
def digitsBelow? (bound : Nat) (digits : List Char) : Option Nat :=
  (digitsValue? digits).filter (· < bound)

/-- The value of a run of ASCII digits that fits 32 bits. -/
def word32? (digits : List Char) : Option UInt32 :=
  (digitsBelow? UInt32.size digits).map UInt32.ofNat

/-- The value of a run of ASCII digits that fits 64 bits. -/
def word64? (digits : List Char) : Option UInt64 :=
  (digitsBelow? UInt64.size digits).map UInt64.ofNat

/-- A count in running text: digits that fit 64 bits, where one leading plus sign is allowed. -/
def count? : List Char → Option Nat
  | '+' :: digits => digitsBelow? UInt64.size digits
  | digits => digitsBelow? UInt64.size digits

example : decimalZeros.length = 76 := by decide

theorem isDecimalDigit_of_isDigit {c : Char} (h : c.isDigit) : isDecimalDigit c := by
  simp only [Char.isDigit, Bool.and_eq_true, decide_eq_true_eq, ge_iff_le,
    UInt32.le_iff_toNat_le] at h
  simp only [isDecimalDigit, decimalZeros, List.any_cons, Bool.or_eq_true, Bool.and_eq_true,
    decide_eq_true_eq]
  left
  exact ⟨h.1, Nat.lt_succ_of_le h.2⟩

theorem isDigit_iff {c : Char} : c.isDigit = true ↔ '0' ≤ c ∧ c ≤ '9' := by
  simp only [Char.isDigit, Bool.and_eq_true, decide_eq_true_eq]
  exact Iff.rfl

theorem isDigit_of_mem_toDigits {n : Nat} {c : Char} (h : c ∈ Nat.toDigits 10 n) : c.isDigit :=
  Nat.isDigit_of_mem_toDigits (by decide) (by decide) h

theorem isDigit_of_mem_toString {n : Nat} {c : Char} (h : c ∈ (toString n).toList) : c.isDigit := by
  have hrepr : (toString n).toList = Nat.toDigits 10 n := Nat.toList_repr
  exact isDigit_of_mem_toDigits (hrepr ▸ h)

theorem digitsValue?_toDigits (n : Nat) : digitsValue? (Nat.toDigits 10 n) = some n := by
  have hnonempty : (Nat.toDigits 10 n).isEmpty = false := by
    rw [List.isEmpty_eq_false_iff]
    exact Nat.toDigits_ne_nil
  have hdigits : (Nat.toDigits 10 n).all Char.isDigit = true :=
    List.all_eq_true.2 fun _ => isDigit_of_mem_toDigits
  rw [digitsValue?, hnonempty, hdigits, Nat.ofDigitChars_ten_toDigits]
  rfl

theorem digitsBelow?_toDigits {bound n : Nat} (h : n < bound) :
    digitsBelow? bound (Nat.toDigits 10 n) = some n := by
  rw [digitsBelow?, digitsValue?_toDigits, Option.filter_some, decide_eq_true h]
  rfl

@[simp]
theorem word32?_toDigits (w : UInt32) : word32? (Nat.toDigits 10 w.toNat) = some w := by
  rw [word32?, digitsBelow?_toDigits w.toNat_lt, Option.map_some, UInt32.ofNat_toNat]

@[simp]
theorem word64?_toDigits (w : UInt64) : word64? (Nat.toDigits 10 w.toNat) = some w := by
  rw [word64?, digitsBelow?_toDigits w.toNat_lt, Option.map_some, UInt64.ofNat_toNat]

/-- The run of a class at the front of a text is the one behind which the class ends. -/
theorem takeWhile_dropWhile_eq_iff {p : Char → Bool} {text run rest : List Char} :
    (text.takeWhile p, text.dropWhile p) = (run, rest) ↔
      text = run ++ rest ∧ (∀ c ∈ run, p c = true) ∧ ∀ c ∈ rest.head?, p c = false := by
  constructor
  · rintro ⟨⟩
    refine ⟨List.takeWhile_append_dropWhile.symm, List.all_eq_true.1 List.all_takeWhile, ?_⟩
    intro c hc
    have hstop := List.head?_dropWhile_not p text
    rwa [Option.mem_def.1 hc] at hstop
  · rintro ⟨rfl, hrun, hrest⟩
    rw [List.takeWhile_append_of_pos hrun, List.dropWhile_append_of_pos hrun]
    cases rest with
    | nil => simp
    | cons c rest => simp [hrest c rfl]

theorem spanDigits_eq_iff {text run rest : List Char} :
    spanDigits text = (run, rest) ↔
      text = run ++ rest ∧ (∀ c ∈ run, isDecimalDigit c = true) ∧
        ∀ c ∈ rest.head?, isDecimalDigit c = false :=
  takeWhile_dropWhile_eq_iff

theorem toList_toString_word32 (w : UInt32) :
    (toString w).toList = Nat.toDigits 10 w.toNat := Nat.toList_repr

theorem digitsValue?_eq_some_iff {digits : List Char} {n : Nat} :
    digitsValue? digits = some n ↔
      digits ≠ [] ∧ (∀ c ∈ digits, c.isDigit = true) ∧ Nat.ofDigitChars 10 digits 0 = n := by
  simp [digitsValue?, and_assoc]

theorem digitsBelow?_eq_some_iff {bound n : Nat} {digits : List Char} :
    digitsBelow? bound digits = some n ↔
      digits ≠ [] ∧ (∀ c ∈ digits, c.isDigit = true) ∧ Nat.ofDigitChars 10 digits 0 = n ∧
        n < bound := by
  rw [digitsBelow?, Option.filter_eq_some_iff, digitsValue?_eq_some_iff, decide_eq_true_eq]
  simp only [and_assoc]

theorem count?_eq_some_iff {text : List Char} {n : Nat} :
    count? text = some n ↔ ∃ (isSigned : Bool) (digits : List Char),
      text = (if isSigned then ['+'] else []) ++ digits ∧
        digitsBelow? UInt64.size digits = some n := by
  refine ⟨fun h => ?_, ?_⟩
  · unfold count? at h
    split at h
    · next digits => exact ⟨true, digits, rfl, h⟩
    · exact ⟨false, text, rfl, h⟩
  · rintro ⟨isSigned, digits, rfl, h⟩
    cases isSigned with
    | true => exact h
    | false =>
        show count? digits = some n
        unfold count?
        split
        · -- A plus sign is no digit.
          next digits =>
            have hdigit := (digitsBelow?_eq_some_iff.1 h).2.1 '+' List.mem_cons_self
            exact absurd hdigit (by decide)
        · exact h

/-- A run of ASCII digits, and the number it says if it fits 32 bits. -/
structure Spells (run : List Char) (w : UInt32) : Prop where
  ne_nil : run ≠ []
  isDigit : ∀ c ∈ run, c.isDigit = true
  value : Nat.ofDigitChars 10 run 0 = w.toNat

theorem not_spells_of_unreadable {run : List Char} {w : UInt32}
    (h : (∃ c ∈ run, c.isDigit = false) ∨ UInt32.size ≤ Nat.ofDigitChars 10 run 0) :
    ¬ Spells run w := by
  rintro ⟨-, hdigits, hvalue⟩
  rcases h with ⟨c, hc, hother⟩ | hlarge
  · exact Bool.false_ne_true (hother.symm.trans (hdigits c hc))
  · have hlt := w.toNat_lt
    rw [hvalue] at hlarge
    exact absurd hlt (Nat.not_lt.2 hlarge)

theorem word32?_eq_some_iff {run : List Char} {w : UInt32} :
    word32? run = some w ↔ Spells run w := by
  constructor
  · intro h
    obtain ⟨n, hn, rfl⟩ := Option.map_eq_some_iff.1 h
    obtain ⟨hne, hdigits, hvalue, hlt⟩ := digitsBelow?_eq_some_iff.1 hn
    refine ⟨hne, hdigits, ?_⟩
    rw [hvalue, UInt32.toNat_ofNat_of_lt' hlt]
  · rintro ⟨hne, hdigits, hvalue⟩
    have hread := digitsBelow?_eq_some_iff.2 ⟨hne, hdigits, hvalue, w.toNat_lt⟩
    rw [word32?, hread, Option.map_some, UInt32.ofNat_toNat]

end Unmangle.Text
