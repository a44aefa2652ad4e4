import Unmangle.Json.Basic
import Unmangle.Text.Decimal

/-!
# Literals

A string is written with escapes for quotes, backslashes and control characters, and read with
those and the rest of the escapes that JSON has. Beyond the Basic Multilingual Plane a character
may be escaped as a pair of surrogates; half a pair stands for nothing.
-/

namespace Unmangle

namespace JsonLiteral

/-- The escapes of one letter, each with the character that it stands for. -/
def letterEscapes : List (Char × Char) :=
  [('"', '"'), ('\\', '\\'), ('/', '/'), ('b', '\x08'), ('f', '\x0c'), ('n', '\n'), ('r', '\r'),
   ('t', '\t')]

def isHexDigit (c : Char) : Bool :=
  c.isDigit || ('a' ≤ c && c ≤ 'f') || ('A' ≤ c && c ≤ 'F')

def hexDigitValue (c : Char) : Nat :=
  if c.isDigit then c.toNat - '0'.toNat
  else if c.toNat < 'a'.toNat then c.toNat - 'A'.toNat + 10
  else c.toNat - 'a'.toNat + 10

/-- The value of four hexadecimal digits. -/
def hexValue (a b c d : Char) : Nat :=
  [a, b, c, d].foldl (fun value digit => 16 * value + hexDigitValue digit) 0

def isControl (c : Char) : Bool := c.toNat < 0x20

def isLeadSurrogate (unit : Nat) : Bool := 0xd800 ≤ unit && unit < 0xdc00

def isTrailSurrogate (unit : Nat) : Bool := 0xdc00 ≤ unit && unit < 0xe000

/-- The character of a pair of surrogates. -/
def surrogatePair (lead trail : Nat) : Char :=
  .ofNat (0x10000 + (lead - 0xd800) * 0x400 + (trail - 0xdc00))

/-- The characters of a literal in front of which those of `before` were read, last first. -/
def unescapeOnto (before : List Char) : List Char → Option (List Char)
  | [] => some before.reverse
  | '\\' :: 'u' :: a :: b :: c :: d :: rest =>
    let unit := hexValue a b c d
    if isTrailSurrogate unit then none
    else if isLeadSurrogate unit then
      match rest with
      | '\\' :: 'u' :: e :: f :: g :: h :: rest =>
        let trail := hexValue e f g h
        if isTrailSurrogate trail then unescapeOnto (surrogatePair unit trail :: before) rest
        else none
      | _ => none
    else unescapeOnto (.ofNat unit :: before) rest
  | '\\' :: letter :: rest =>
    match letterEscapes.lookup letter with
    | some c => unescapeOnto (c :: before) rest
    | none => none
  | c :: rest => unescapeOnto (c :: before) rest

/-- The characters that a literal stands for, unless it holds half a pair of surrogates. -/
def unescape? (literal : List Char) : Option (List Char) := unescapeOnto [] literal

/-- A control character that has no escape of one letter. -/
def hexEscape (c : Char) : List Char :=
  ['\\', 'u', '0', '0', Nat.digitChar (c.toNat / 16), Nat.digitChar (c.toNat % 16)]

/-- A character as it stands in a literal. -/
def escapeChar (c : Char) : List Char :=
  match c with
  | '"' => ['\\', '"']
  | '\\' => ['\\', '\\']
  | '\x08' => ['\\', 'b']
  | '\t' => ['\\', 't']
  | '\n' => ['\\', 'n']
  | '\x0c' => ['\\', 'f']
  | '\r' => ['\\', 'r']
  | c => if isControl c then hexEscape c else [c]

def escape (text : List Char) : List Char := text.flatMap escapeChar

/--
Reads a literal up to the quote that ends it, checking that every escape has the form of one and
that no control character stands bare. `before` holds what was read, last first.
-/
def scan (before : List Char) : List Char → Option (List Char × List Char)
  | [] => none
  | '"' :: rest => some (before.reverse, rest)
  | '\\' :: 'u' :: a :: b :: c :: d :: rest =>
    if [a, b, c, d].all isHexDigit then scan (d :: c :: b :: a :: 'u' :: '\\' :: before) rest
    else none
  | '\\' :: letter :: rest =>
    if (letterEscapes.lookup letter).isSome then scan (letter :: '\\' :: before) rest else none
  | c :: rest => if isControl c then none else scan (c :: before) rest

theorem length_scan {before text literal rest : List Char}
    (h : scan before text = some (literal, rest)) : rest.length < text.length := by
  fun_induction scan before text with
  | case1 => simp at h
  | case2 => simp_all
  | case3 _ _ _ _ _ _ _ ih => have := ih h; simp only [List.length_cons]; omega
  | case4 => simp at h
  | case5 _ _ _ _ _ ih => have := ih h; simp only [List.length_cons]; omega
  | case6 => simp at h
  | case7 => simp at h
  | case8 _ _ _ _ _ _ _ ih => have := ih h; simp only [List.length_cons]; omega

end JsonLiteral

namespace JsonNumber

/-- Splits off the ASCII digits at the front. -/
def spanAscii (text : List Char) : List Char × List Char :=
  (text.takeWhile Char.isDigit, text.dropWhile Char.isDigit)

/-- Reads digits, at least one of them. -/
def scanDigits? (text : List Char) : Option (List Char × List Char) :=
  match spanAscii text with
  | ([], _) => none
  | found => some found

/-- Reads the whole part, which starts with zero only if it is zero. -/
def scanWhole? : List Char → Option (List Char × List Char)
  | '0' :: rest => some (['0'], rest)
  | text => scanDigits? text

/-- Reads the fraction, if there is a point. -/
def scanFraction? : List Char → Option (Option (List Char) × List Char)
  | '.' :: rest => (scanDigits? rest).map fun (digits, rest) => (some digits, rest)
  | rest => some (none, rest)

/-- Reads the digits of an exponent behind its sign. -/
def scanSigned? : List Char → Option (JsonExponent × List Char)
  | '-' :: rest => (scanDigits? rest).map fun (digits, rest) => (⟨true, digits⟩, rest)
  | '+' :: rest => (scanDigits? rest).map fun (digits, rest) => (⟨false, digits⟩, rest)
  | rest => (scanDigits? rest).map fun (digits, rest) => (⟨false, digits⟩, rest)

/-- Reads the exponent, if there is one. -/
def scanExponent? : List Char → Option (Option JsonExponent × List Char)
  | 'e' :: rest => (scanSigned? rest).map fun (exponent, rest) => (some exponent, rest)
  | 'E' :: rest => (scanSigned? rest).map fun (exponent, rest) => (some exponent, rest)
  | rest => some (none, rest)

/-- Reads the number after its sign. -/
def scanUnsigned? (negative : Bool) (text : List Char) : Option (JsonNumber × List Char) := do
  let (whole, rest) ← scanWhole? text
  let (fraction, rest) ← scanFraction? rest
  let (exponent, rest) ← scanExponent? rest
  some ({ negative, whole, fraction, exponent }, rest)

/-- Reads a number. -/
def scan? : List Char → Option (JsonNumber × List Char)
  | '-' :: rest => scanUnsigned? true rest
  | text => scanUnsigned? false text

theorem length_scanDigits? {text digits rest : List Char}
    (h : scanDigits? text = some (digits, rest)) : rest.length < text.length := by
  unfold scanDigits? at h
  split at h
  · simp at h
  · next hne =>
    have hfound : spanAscii text = (digits, rest) := by simpa using h
    have hsplit : digits ++ rest = text := by
      have := List.takeWhile_append_dropWhile (p := Char.isDigit) (l := text)
      simp_all [spanAscii]
    have hpos : digits ≠ [] := fun hnil => hne rest (by rw [hfound, hnil])
    have := List.length_pos_iff.2 hpos
    rw [← hsplit, List.length_append]
    omega

theorem length_scanWhole? {text whole rest : List Char}
    (h : scanWhole? text = some (whole, rest)) : rest.length < text.length := by
  unfold scanWhole? at h
  split at h
  · obtain ⟨rfl, rfl⟩ := by simpa using h
    simp
  · exact length_scanDigits? h

theorem length_scanFraction? {text rest : List Char} {fraction : Option (List Char)}
    (h : scanFraction? text = some (fraction, rest)) : rest.length ≤ text.length := by
  unfold scanFraction? at h
  split at h
  · obtain ⟨⟨digits, rest'⟩, hdigits, heq⟩ := Option.map_eq_some_iff.1 h
    obtain ⟨rfl, rfl⟩ := by simpa using heq
    have := length_scanDigits? hdigits
    simp only [List.length_cons]
    omega
  · obtain ⟨rfl, rfl⟩ := by simpa using h
    exact Nat.le_refl _

theorem length_scanSigned? {text rest : List Char} {exponent : JsonExponent}
    (h : scanSigned? text = some (exponent, rest)) : rest.length < text.length := by
  unfold scanSigned? at h
  split at h <;>
  · obtain ⟨⟨digits, rest'⟩, hdigits, heq⟩ := Option.map_eq_some_iff.1 h
    obtain ⟨rfl, rfl⟩ := by simpa using heq
    have := length_scanDigits? hdigits
    simp only [List.length_cons] at *
    omega

theorem length_scanExponent? {text rest : List Char} {exponent : Option JsonExponent}
    (h : scanExponent? text = some (exponent, rest)) : rest.length ≤ text.length := by
  unfold scanExponent? at h
  split at h
  case h_3 =>
    obtain ⟨rfl, rfl⟩ := by simpa using h
    exact Nat.le_refl _
  all_goals
    obtain ⟨⟨signed, rest'⟩, hsigned, heq⟩ := Option.map_eq_some_iff.1 h
    obtain ⟨rfl, rfl⟩ := by simpa using heq
    have := length_scanSigned? hsigned
    simp only [List.length_cons]
    omega

theorem length_scanUnsigned? {negative : Bool} {text rest : List Char} {number : JsonNumber}
    (h : scanUnsigned? negative text = some (number, rest)) : rest.length < text.length := by
  simp only [scanUnsigned?, Option.bind_eq_bind, Option.bind_eq_some_iff, Prod.exists] at h
  obtain ⟨_, _, hwhole, _, _, hfraction, _, _, hexponent, heq⟩ := h
  obtain ⟨rfl, rfl⟩ := by simpa using heq
  have := length_scanWhole? hwhole
  have := length_scanFraction? hfraction
  have := length_scanExponent? hexponent
  omega

theorem length_scan? {text rest : List Char} {number : JsonNumber}
    (h : scan? text = some (number, rest)) : rest.length < text.length := by
  unfold scan? at h
  split at h
  · have := length_scanUnsigned? h
    simp only [List.length_cons]
    omega
  · exact length_scanUnsigned? h

end JsonNumber

end Unmangle
