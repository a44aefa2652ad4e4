import Unmangle.Json.Printer
import Unmangle.Json.Token
import Unmangle.Json.Fields

/-!
# Literals come back as they were written

A string is written character by character and read character by character, but not along the same
seams: one character may have been written as one, two or six. So both readers, the one that looks
for the end of the literal and the one that asks what it stands for, are followed over what one
character was written as, with anything before it and anything behind it. Strings are then a matter
of induction on the text.

A natural number is written in digits that nobody adds to only if what stands behind it is no part
of a number. Whoever writes a number owes that to the reader; `endsNumber` says it.
-/

namespace Unmangle

theorem ne_of_isDigit {c other : Char} (hc : c.isDigit) (hother : other.isDigit = false) :
    c ≠ other := by
  intro heq
  rw [heq, hother] at hc
  exact Bool.false_ne_true hc

namespace JsonLiteral

/-! ## One character -/

/-- The three ways of writing a character: by a letter, by its number, or as it is. -/
inductive Escaped (c : Char) : List Char → Prop where
  | letter {letter : Char} (hne : letter ≠ 'u') (hc : letterEscapes.lookup letter = some c) :
    Escaped c ['\\', letter]
  | number (hc : isControl c) : Escaped c (hexEscape c)
  | bare (hquote : c ≠ '"') (hbackslash : c ≠ '\\') (hc : isControl c = false) : Escaped c [c]

theorem escaped_escapeChar (c : Char) : Escaped c (escapeChar c) := by
  unfold escapeChar
  split
  case h_8 hquote hbackslash _ _ _ _ _ =>
    split
    · next hc => exact .number hc
    · next hc => exact .bare hquote hbackslash (Bool.eq_false_iff.2 hc)
  all_goals exact .letter (by decide) (by decide)

theorem hexValue_control :
    ∀ n < 0x20, hexValue '0' '0' (Nat.digitChar (n / 16)) (Nat.digitChar (n % 16)) = n := by
  decide

theorem isHexDigit_digitChar : ∀ n < 16, isHexDigit (Nat.digitChar n) = true := by
  decide

/-- A number that is no half of a surrogate pair stands for its character, whatever follows. -/
theorem unescapeOnto_number (before rest : List Char) {a b c d : Char}
    (hlead : isLeadSurrogate (hexValue a b c d) = false)
    (htrail : isTrailSurrogate (hexValue a b c d) = false) :
    unescapeOnto before ('\\' :: 'u' :: a :: b :: c :: d :: rest) =
      unescapeOnto (.ofNat (hexValue a b c d) :: before) rest := by
  conv => lhs; unfold unescapeOnto
  simp only [htrail, hlead, Bool.false_eq_true, if_false]

theorem unescapeOnto_escapeChar (before rest : List Char) (c : Char) :
    unescapeOnto before (escapeChar c ++ rest) = unescapeOnto (c :: before) rest := by
  have hescaped := escaped_escapeChar c
  generalize escapeChar c = written at hescaped ⊢
  cases hescaped with
  | letter hne hc =>
    rw [List.cons_append, List.singleton_append,
      unescapeOnto.eq_4 _ _ _ fun _ _ _ _ _ hu => absurd hu hne, hc]
  | number hc =>
    have hlt : c.toNat < 0x20 := of_decide_eq_true hc
    have hvalue := hexValue_control c.toNat hlt
    rw [hexEscape]
    refine (unescapeOnto_number before rest ?_ ?_).trans ?_
    · simp only [hvalue, isLeadSurrogate, Bool.and_eq_false_iff, decide_eq_false_iff_not]
      omega
    · simp only [hvalue, isTrailSurrogate, Bool.and_eq_false_iff, decide_eq_false_iff_not]
      omega
    · rw [hvalue, Char.ofNat_toNat]
  | bare _ hbackslash _ =>
    rw [List.singleton_append,
      unescapeOnto.eq_5 _ _ _ (fun _ _ _ _ _ hc _ => hbackslash hc) fun _ _ hc _ => hbackslash hc]

theorem scan_escapeChar (before rest : List Char) (c : Char) :
    scan before (escapeChar c ++ rest) = scan ((escapeChar c).reverse ++ before) rest := by
  have hescaped := escaped_escapeChar c
  generalize escapeChar c = written at hescaped ⊢
  cases hescaped with
  | letter hne hc =>
    rw [List.cons_append, List.singleton_append,
      scan.eq_4 _ _ _ fun _ _ _ _ _ hu => absurd hu hne, hc]
    rfl
  | number hc =>
    have hlt : c.toNat < 0x20 := of_decide_eq_true hc
    have hdigits : ['0', '0', Nat.digitChar (c.toNat / 16), Nat.digitChar (c.toNat % 16)].all
        isHexDigit = true := by
      have hhigh := isHexDigit_digitChar (c.toNat / 16) (by omega)
      have hlow := isHexDigit_digitChar (c.toNat % 16) (by omega)
      have hzero : isHexDigit '0' = true := by decide
      simp only [List.all_cons, List.all_nil, hzero, hhigh, hlow, Bool.and_self]
    exact (scan.eq_3 before _ _ _ _ rest).trans (if_pos hdigits)
  | bare hquote hbackslash hc =>
    rw [List.singleton_append,
      scan.eq_5 _ _ _ hquote (fun _ _ _ _ _ h _ => hbackslash h) fun _ _ h _ => hbackslash h, hc]
    rfl

/-! ## Strings -/

theorem unescapeOnto_escape (before rest text : List Char) :
    unescapeOnto before (escape text ++ rest) = unescapeOnto (text.reverse ++ before) rest := by
  induction text generalizing before with
  | nil => rfl
  | cons c text ih =>
    rw [escape, List.flatMap_cons, List.append_assoc, unescapeOnto_escapeChar, ← escape, ih,
      List.reverse_cons, List.append_assoc, List.singleton_append]

@[simp]
theorem unescape?_escape (text : List Char) : unescape? (escape text) = some text := by
  have h := unescapeOnto_escape [] [] text
  rwa [List.append_nil, List.append_nil, unescapeOnto, List.reverse_reverse] at h

/-- What is written for a text ends at the quote that is put behind it, and not before. -/
theorem scan_escape (before rest text : List Char) :
    scan before (escape text ++ '"' :: rest) = some (before.reverse ++ escape text, rest) := by
  induction text generalizing before with
  | nil => rw [escape, List.flatMap_nil, List.nil_append, List.append_nil, scan]
  | cons c text ih =>
    rw [escape, List.flatMap_cons, List.append_assoc, scan_escapeChar, ← escape, ih,
      List.reverse_append, List.reverse_reverse, List.append_assoc]

theorem escapeChar_of_isDigit {c : Char} (h : c.isDigit) : escapeChar c = [c] := by
  have hne : ∀ special : Char, special.isDigit = false → c ≠ special :=
    fun _ => ne_of_isDigit h
  have hcontrol : isControl c = false := by
    simp only [Char.isDigit, Bool.and_eq_true, decide_eq_true_eq, ge_iff_le,
      UInt32.le_iff_toNat_le] at h
    exact decide_eq_false (Nat.not_lt.2 (Nat.le_trans (by decide) h.1))
  rw [escapeChar.eq_8 c (hne _ rfl) (hne _ rfl) (hne _ rfl) (hne _ rfl) (hne _ rfl) (hne _ rfl)
    (hne _ rfl), hcontrol]
  rfl

theorem escape_of_isDigit {digits : List Char} (h : ∀ c ∈ digits, c.isDigit) :
    escape digits = digits := by
  induction digits with
  | nil => rfl
  | cons c digits ih =>
    rw [escape, List.flatMap_cons, escapeChar_of_isDigit (h c List.mem_cons_self), ← escape,
      ih fun d hd => h d (List.mem_cons_of_mem c hd), List.singleton_append]

end JsonLiteral

/-! ## Digits -/

/-- Only zero is written with a leading zero. -/
theorem eq_zero_of_toDigits_eq_cons {n : Nat} {rest : List Char}
    (h : Nat.toDigits 10 n = '0' :: rest) : n = 0 := by
  induction n using Nat.strongRecOn generalizing rest with
  | ind n ih =>
    rcases Nat.lt_or_ge n 10 with hlt | hle
    · have hdigit : ∀ k < 10, Nat.digitChar k = '0' → k = 0 := by decide
      rw [Nat.toDigits_of_lt_base hlt] at h
      exact hdigit n hlt (List.cons.inj h).1
    · rw [Nat.toDigits_of_base_le (by decide) hle] at h
      obtain hnil | ⟨high, hhigh, -⟩ := List.append_eq_cons_iff.1 h
      · exact absurd hnil.1 Nat.toDigits_ne_nil
      · have hzero := ih (n / 10) (by omega) hhigh
        omega

theorem exists_toDigits_eq_cons (n : Nat) :
    ∃ first rest, Nat.toDigits 10 n = first :: rest ∧ first.isDigit := by
  obtain ⟨first, rest, h⟩ := List.exists_cons_of_ne_nil (Nat.toDigits_ne_nil (b := 10) (n := n))
  exact ⟨first, rest, h, Text.isDigit_of_mem_toDigits (h ▸ List.mem_cons_self)⟩

namespace JsonNumber

/-- Is the number over where this text begins? -/
def endsNumber : List Char → Bool
  | [] => true
  | c :: _ => !(c.isDigit || c == '.' || c == 'e' || c == 'E')

theorem spanAscii_append {digits rest : List Char} (hdigits : ∀ c ∈ digits, c.isDigit)
    (hrest : endsNumber rest) : spanAscii (digits ++ rest) = (digits, rest) := by
  have hstop : rest.takeWhile Char.isDigit = [] ∧ rest.dropWhile Char.isDigit = rest := by
    cases rest with
    | nil => exact ⟨rfl, rfl⟩
    | cons c rest =>
      have hc : c.isDigit = false := by
        simp only [endsNumber, Bool.not_eq_true', Bool.or_eq_false_iff] at hrest
        exact hrest.1.1.1
      exact ⟨by rw [List.takeWhile_cons, hc]; rfl, by rw [List.dropWhile_cons, hc]; rfl⟩
  rw [spanAscii, List.takeWhile_append_of_pos hdigits, List.dropWhile_append_of_pos hdigits,
    hstop.1, hstop.2, List.append_nil]

theorem scanWhole?_toDigits {rest : List Char} (n : Nat) (h : endsNumber rest) :
    scanWhole? (Nat.toDigits 10 n ++ rest) = some (Nat.toDigits 10 n, rest) := by
  have hspan : spanAscii (Nat.toDigits 10 n ++ rest) = (Nat.toDigits 10 n, rest) :=
    spanAscii_append (fun _ => Text.isDigit_of_mem_toDigits) h
  obtain ⟨first, digits, hcons, -⟩ := exists_toDigits_eq_cons n
  by_cases hfirst : first = '0'
  · obtain rfl := eq_zero_of_toDigits_eq_cons (hfirst ▸ hcons)
    rfl
  · rw [hcons, List.cons_append] at hspan ⊢
    rw [scanWhole?.eq_2 _ fun _ heq => hfirst (List.cons.inj heq).1, scanDigits?, hspan]

theorem scanFraction?_of_ends {rest : List Char} (h : endsNumber rest) :
    scanFraction? rest = some (none, rest) := by
  refine scanFraction?.eq_2 rest fun rest' heq => ?_
  rw [heq] at h
  exact Bool.false_ne_true h

theorem scanExponent?_of_ends {rest : List Char} (h : endsNumber rest) :
    scanExponent? rest = some (none, rest) := by
  refine scanExponent?.eq_3 rest (fun rest' heq => ?_) fun rest' heq => ?_ <;>
  · rw [heq] at h
    exact Bool.false_ne_true h

/-- The digits of a natural number are read as one number, and nothing behind them is. -/
theorem scan?_toDigits {rest : List Char} (n : Nat) (h : endsNumber rest) :
    scan? (Nat.toDigits 10 n ++ rest) = some ({ whole := Nat.toDigits 10 n }, rest) := by
  have hunsigned : scanUnsigned? false (Nat.toDigits 10 n ++ rest) =
      some ({ whole := Nat.toDigits 10 n }, rest) := by
    simp only [scanUnsigned?, scanWhole?_toDigits n h, scanFraction?_of_ends h,
      scanExponent?_of_ends h, Option.bind_eq_bind, Option.bind_some]
  obtain ⟨first, digits, hcons, hfirst⟩ := exists_toDigits_eq_cons n
  rw [scan?.eq_2, hunsigned]
  rintro _ heq
  rw [hcons, List.cons_append] at heq
  exact ne_of_isDigit hfirst rfl (List.cons.inj heq).1

/-! ## Magnitude -/

/-- A number that fits 64 bits is far below the end of the range of binary64. -/
theorem fitsFloat_toDigits {n : Nat} (h : n < UInt64.size) :
    fitsFloat { whole := Nat.toDigits 10 n } := by
  have hvalue : Nat.ofDigitChars 10 (Nat.toDigits 10 n) 0 = n := Nat.ofDigitChars_ten_toDigits
  have hscaled : scaled { whole := Nat.toDigits 10 n } = ⟨n, 0⟩ := by
    rw [scaled, appendDigits_of_lt (hvalue.symm ▸ h), hvalue]
    rfl
  have hpower : roundToFloat (Nat.pow 10 (Int.toNat 0)) = 1 := by decide
  have hproduct : roundToFloat (roundToFloat n * 1) < floatLimit := by
    have hfactor := roundToFloat_le n
    have hrounded := roundToFloat_le (roundToFloat n * 1)
    have hlimit : 4 * UInt64.size < floatLimit := by decide
    omega
  rw [fitsFloat, hscaled, ScaledDigits.fitsFloat]
  split
  · rfl
  · dsimp only
    rw [if_neg (by decide), hpower]
    exact decide_eq_true hproduct

end JsonNumber

/-- A key in digits has leading zeros only if it was written by somebody else. -/
@[simp]
theorem Json.numericKey?_toDigits (w : UInt32) :
    numericKey? (Nat.toDigits 10 w.toNat) = some w := by
  unfold numericKey?
  split
  · next hcons =>
    rw [eq_zero_of_toDigits_eq_cons hcons, Nat.toDigits_zero] at hcons
    exact absurd hcons (by simp)
  · exact Text.word32?_toDigits w

end Unmangle
