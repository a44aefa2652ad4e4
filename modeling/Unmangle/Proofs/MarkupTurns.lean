import Unmangle.Proofs.MarkupText
import Unmangle.Text.Decimal

/-!
# Markup is read in turns

A reader of markup takes one piece after the other off the front of what is left: a bracket that
is written twice, a pair of brackets with what is between them, a bracket that stands alone, a run
of other characters. To tell them apart it looks ahead, behind a single bracket as far as the next
closing one, wherever that is. So two things are to be said of it: that each turn takes something
and hence the last one comes, and that looking ahead does not make it see a tag in escaped text.

`Turn` says what a single turn may take, by the characters alone, and `Turns` is a row of them up to
the end of the markup. There is one such row for every markup, and its pieces are the ones that the
reader finds (`turns_iff`).

For escaped text no turn needs to be looked at. Every bracket in it is one of two, so the reader is
done with a text where the text ends, and all that can differ is where a run of other characters is
cut. `TakesText.read_escape` has the rest of the markup in it for that reason.
-/

namespace Unmangle.Markup

/-- A turn of the reader: what is left of the markup, the piece at the front of it, and what is left
behind that. -/
inductive Turn : List Char → Piece → List Char → Prop
  | doubled {c : Char} {rest : List Char} (hbracket : isBracket c = true) :
      Turn (c :: c :: rest) (.text [c]) rest
  | bracketed {tag rest : List Char} (hsingle : tag.head? ≠ some '[') (hclose : ']' ∉ tag) :
      Turn ('[' :: (tag ++ ']' :: rest)) (.ofBracketed tag) rest
  | unterminated {text : List Char} (hsingle : text.head? ≠ some '[') (hclose : ']' ∉ text) :
      Turn ('[' :: text) (.text ('[' :: text)) []
  | strayBracket {rest : List Char} (hsingle : rest.head? ≠ some ']') :
      Turn (']' :: rest) (.text [']']) rest
  | ordinary {text rest : List Char} (hne : text ≠ [])
      (hplain : ∀ c ∈ text, isBracket c = false) (hstop : ∀ c ∈ rest.head?, isBracket c = true) :
      Turn (text ++ rest) (.text text) rest

/-- Turns that use up the markup, and their pieces. -/
inductive Turns : List Char → List Piece → Prop
  | done : Turns [] []
  | turn {markup rest : List Char} {piece : Piece} {found : List Piece}
      (hturn : Turn markup piece rest) (hrest : Turns rest found) : Turns markup (piece :: found)

variable {markup rest : List Char} {piece : Piece}

/-- No turn takes nothing. -/
theorem Turn.exists_taken (h : Turn markup piece rest) :
    ∃ taken, taken ≠ [] ∧ taken ++ rest = markup := by
  cases h with
  | @doubled c => exact ⟨[c, c], List.cons_ne_nil _ _, rfl⟩
  | @bracketed tag => exact ⟨'[' :: (tag ++ [']']), List.cons_ne_nil _ _, by simp⟩
  | @unterminated text => exact ⟨'[' :: text, List.cons_ne_nil _ _, List.append_nil _⟩
  | strayBracket => exact ⟨[']'], List.cons_ne_nil _ _, rfl⟩
  | @ordinary text _ hne => exact ⟨text, hne, rfl⟩

theorem Turn.length_lt (h : Turn markup piece rest) : rest.length < markup.length := by
  obtain ⟨taken, hne, rfl⟩ := h.exists_taken
  have htaken := List.length_pos_iff.2 hne
  rw [List.length_append]
  omega

theorem pieces_run {text rest : List Char} (hne : text ≠ [])
    (hplain : ∀ c ∈ text, isBracket c = false) (hstop : ∀ c ∈ rest.head?, isBracket c = true) :
    pieces (text ++ rest) = .text text :: pieces rest := by
  obtain ⟨c, text, rfl⟩ := List.exists_cons_of_ne_nil hne
  rw [List.forall_mem_cons] at hplain
  have hcut : ((text ++ rest).takeWhile (!isBracket ·), (text ++ rest).dropWhile (!isBracket ·)) =
      (text, rest) := by
    refine Text.takeWhile_dropWhile_eq_iff.2 ⟨rfl, fun c hc => ?_, fun c hc => ?_⟩
    · rw [hplain.2 c hc, Bool.not_false]
    · rw [hstop c hc, Bool.not_true]
  rw [Prod.mk.injEq] at hcut
  rw [List.cons_append, pieces_ordinary hplain.1, hcut.1, hcut.2]

theorem pieces_of_turn (h : Turn markup piece rest) : pieces markup = piece :: pieces rest := by
  cases h with
  | doubled hbracket => exact pieces_doubled hbracket rest
  | bracketed hsingle hclose => exact pieces_bracketed hsingle hclose rest
  | unterminated hsingle hclose => rw [pieces_unterminated hsingle hclose, pieces]
  | strayBracket hsingle => exact pieces_strayBracket hsingle
  | ordinary hne hplain hstop => exact pieces_run hne hplain hstop

/-- As long as something is left there is a turn. -/
theorem exists_turn (h : markup ≠ []) : ∃ piece rest, Turn markup piece rest := by
  obtain ⟨c, rest, rfl⟩ := List.exists_cons_of_ne_nil h
  cases hc : isBracket c with
  | false =>
      obtain ⟨hmarkup, hplain, hstop⟩ := Text.takeWhile_dropWhile_eq_iff.1
        (Eq.refl ((c :: rest).takeWhile (!isBracket ·), (c :: rest).dropWhile (!isBracket ·)))
      have hne : (c :: rest).takeWhile (!isBracket ·) ≠ [] := by simp [hc]
      rw [hmarkup]
      exact ⟨_, _, .ordinary hne (by simpa using hplain) (by simpa using hstop)⟩
  | true =>
  by_cases hdoubled : rest.head? = some c
  · obtain ⟨after, rfl⟩ := List.head?_eq_some_iff.1 hdoubled
    exact ⟨_, _, .doubled hc⟩
  rcases isBracket_eq_true.1 hc with rfl | rfl
  · by_cases hclose : ']' ∈ rest
    · obtain ⟨tag, after, rfl, htag⟩ := List.eq_append_cons_of_mem hclose
      exact ⟨_, _, .bracketed (fun h => hdoubled (by simp [h])) htag⟩
    · exact ⟨_, _, .unterminated hdoubled hclose⟩
  · exact ⟨_, _, .strayBracket hdoubled⟩

/-- The turns come to an end on every markup, with the pieces that are found in it and with no
others. -/
theorem turns_iff {found : List Piece} : Turns markup found ↔ found = pieces markup := by
  constructor
  · intro h
    induction h with
    | done => rw [pieces]
    | turn hturn hrest ih => rw [pieces_of_turn hturn, ih]
  · rintro rfl
    induction hlength : markup.length using Nat.strong_induction_on generalizing markup with
    | _ length ih =>
    subst hlength
    by_cases hmarkup : markup = []
    · subst hmarkup
      rw [pieces]
      exact .done
    · obtain ⟨piece, rest, hturn⟩ := exists_turn hmarkup
      rw [pieces_of_turn hturn]
      exact .turn hturn (ih rest.length hturn.length_lt rfl)

/-! ## Escaped text -/

theorem toList_escape (text : String) : (escape text).toList = escapeChars text.toList :=
  String.toList_ofList

theorem escape_append (text more : String) :
    escape (text ++ more) = escape text ++ escape more := by
  rw [← String.toList_inj, String.toList_append, toList_escape, toList_escape, toList_escape,
    String.toList_append, escapeChars, List.flatMap_append]
  rfl

section

variable {read : List Piece → List Char} (hread : TakesText read)
include hread

theorem TakesText.ofList_read_escape_append (text markup : String) :
    String.ofList (read (pieces (escape text ++ markup).toList)) =
      text ++ String.ofList (read (pieces markup.toList)) := by
  rw [String.toList_append, toList_escape, hread.read_escape, String.ofList_append,
    String.ofList_toList]

theorem TakesText.ofList_read_escape (hnil : read [] = []) (text : String) :
    String.ofList (read (pieces (escape text).toList)) = text := by
  have h := hread.ofList_read_escape_append text ""
  have hempty : pieces "".toList = [] := by rw [String.toList_empty, pieces]
  rwa [hempty, hnil, String.ofList_nil, String.append_empty, String.append_empty] at h

end

/-- Escaped text is read as the text, whatever markup stands behind it, and texts may be escaped one
by one or together. The reader comes to the end of every markup, and each of its turns takes at
least one character off. -/
theorem escaped_text_reads_as_text :
    (∀ text markup : String,
      strip (escape text ++ markup) = text ++ strip markup ∧
        toAnsi (escape text ++ markup) = text ++ toAnsi markup) ∧
    (∀ text more : String, escape (text ++ more) = escape text ++ escape more) ∧
    (∀ text : String, strip (escape text) = text ∧ toAnsi (escape text) = text) ∧
    (∀ (markup : List Char) (found : List Piece), Turns markup found ↔ found = pieces markup) ∧
    (∀ (markup : List Char) (piece : Piece) (rest : List Char), Turn markup piece rest →
      pieces markup = piece :: pieces rest ∧ ∃ taken, taken ≠ [] ∧ taken ++ rest = markup) := by
  refine ⟨fun text markup => ⟨?strip, ?ansi⟩, escape_append, fun text => ⟨?stripAll, ?ansiAll⟩,
    fun markup found => turns_iff, fun markup piece rest hturn => ?turn⟩
  case strip => exact takesText_chars.ofList_read_escape_append text markup
  case ansi => exact (takesText_ansiChars []).ofList_read_escape_append text markup
  case stripAll => exact takesText_chars.ofList_read_escape rfl text
  case ansiAll => exact (takesText_ansiChars []).ofList_read_escape rfl text
  case turn => exact ⟨pieces_of_turn hturn, hturn.exists_taken⟩

/-- A bracket at the end of an escaped text and one at the front of the markup behind it are not
taken for one that is written twice. -/
theorem reads_brackets_in_a_row :
    strip (escape "x[" ++ "[bold]y") = "x[y" ∧ strip (escape "[x]" ++ "]y") = "[x]]y" ∧
      Turn "[bold]y".toList (.opening [1]) ['y'] ∧
      pieces "[bold]y".toList = .opening [1] :: pieces ['y'] := by
  obtain ⟨hreads, -, -, -, hturns⟩ := escaped_text_reads_as_text
  have htag : Piece.ofBracketed ['b', 'o', 'l', 'd'] = .opening [1] := by decide +kernel
  have hturn : Turn "[bold]y".toList (.opening [1]) ['y'] :=
    htag ▸ @Turn.bracketed ['b', 'o', 'l', 'd'] ['y'] (by decide) (by decide)
  refine ⟨?_, ?_, hturn, (hturns _ _ _ hturn).1⟩
  · exact (hreads "x[" "[bold]y").1.trans (by decide +kernel)
  · exact (hreads "[x]" "]y").1.trans (by decide +kernel)

end Unmangle.Markup
