import Unmangle.Renderer
import Mathlib.Data.List.TakeWhile

/-!
# Styled text says what plain text says

A rendering is written as plain text or as markup. The markup holds the same text with brackets
doubled and tags around it, all without separators, so the question is whether a reader of the
markup cuts it where the writer joined it: a doubled bracket right before a tag, a token that is
nothing but brackets, a text that looks like a tag.

It does, because reading goes from left to right and each part that is written is consumed as a
whole, whatever follows: the lemmas below all carry the rest of the markup along. Where text is
cut into pieces depends on what follows it, since a run of ordinary characters goes on into the
next part; a reading that only joins the texts does not see those cuts, and `TakesText` is the
property of readings that says so.
-/

namespace Unmangle

open Markup

namespace Markup

/-- A reading of pieces to which it makes no difference where text is cut into pieces. -/
def TakesText (read : List Piece → List Char) : Prop :=
  ∀ (chars : List Char) (rest : List Piece), read (.text chars :: rest) = chars ++ read rest

theorem takesText_chars : TakesText (·.flatMap (·.chars)) := fun _ _ => rfl

theorem takesText_ansiChars (opened : List Codes) : TakesText (ansiChars opened) := by
  intro chars rest
  cases opened <;> rfl

theorem isBracket_eq_true {c : Char} : isBracket c = true ↔ c = '[' ∨ c = ']' := by
  simp [isBracket]

/-- A run of ordinary characters is one piece. -/
theorem pieces_ordinary {c : Char} (h : isBracket c = false) (rest : List Char) :
    pieces (c :: rest) =
      .text (c :: rest.takeWhile (!isBracket ·)) :: pieces (rest.dropWhile (!isBracket ·)) := by
  have hopen : c ≠ '[' := by rintro rfl; cases h
  have hclose : c ≠ ']' := by rintro rfl; cases h
  rw [pieces]
  · exact fun _ hc => absurd hc hopen
  · exact fun _ hc => absurd hc hclose
  · exact hopen
  · exact hclose

theorem pieces_doubled {c : Char} (h : isBracket c = true) (rest : List Char) :
    pieces (c :: c :: rest) = .text [c] :: pieces rest := by
  rcases isBracket_eq_true.1 h with rfl | rfl
  · rw [pieces]
  · rw [pieces]

/-- A tag is one piece, whatever stands behind it. -/
theorem pieces_bracketed {tag : List Char} (hopen : tag.head? ≠ some '[') (hclose : ']' ∉ tag)
    (rest : List Char) :
    pieces ('[' :: (tag ++ ']' :: rest)) = .ofBracketed tag :: pieces rest := by
  have hinside : ∀ c ∈ tag, (c != ']') = true := fun c hc => by
    simpa using fun heq : c = ']' => hclose (heq ▸ hc)
  have hsingle : ∀ more : List Char, tag ++ ']' :: rest = '[' :: more → False := by
    intro more heq
    cases tag with
    | nil => exact absurd (List.cons.inj heq).1 (by decide)
    | cons c _ => exact hopen (congrArg some (List.cons.inj heq).1)
  rw [pieces.eq_4 _ hsingle, List.takeWhile_append_of_pos hinside]
  split
  · next hdrop => simp [List.dropWhile_append_of_pos hinside] at hdrop
  · next c after hdrop =>
      simp only [List.dropWhile_append_of_pos hinside, List.dropWhile_cons, bne_self_eq_false,
        Bool.false_eq_true, if_false, List.cons.injEq] at hdrop
      simp [hdrop.2]

theorem pieces_strayBracket {rest : List Char} (h : rest.head? ≠ some ']') :
    pieces (']' :: rest) = .text [']'] :: pieces rest := by
  rw [pieces]
  rintro more rfl
  exact h rfl

theorem pieces_unterminated {rest : List Char} (hsingle : rest.head? ≠ some '[')
    (hclose : ']' ∉ rest) : pieces ('[' :: rest) = [.text ('[' :: rest)] := by
  have hopen : ∀ more, rest = '[' :: more → False := by
    rintro more rfl
    exact hsingle rfl
  have hdrop : rest.dropWhile (· != ']') = [] := by
    exact List.dropWhile_eq_nil_iff.2 fun c hc => bne_iff_ne.2 fun heq => hclose (heq ▸ hc)
  rw [pieces.eq_4 _ hopen]
  split
  · rfl
  · next after hafter => cases hdrop.symm.trans hafter

theorem escapeChars_cons (c : Char) (text : List Char) :
    escapeChars (c :: text) = (if isBracket c then [c, c] else [c]) ++ escapeChars text :=
  List.flatMap_cons

namespace TakesText

variable {read : List Piece → List Char}

theorem read_ordinary (hread : TakesText read) {c : Char} (h : isBracket c = false)
    (rest : List Char) : read (pieces (c :: rest)) = c :: read (pieces rest) := by
  rw [pieces_ordinary h, hread]
  cases rest with
  | nil => rfl
  | cons d rest =>
      cases hd : isBracket d with
      | true => simp [hd]
      | false =>
          rw [pieces_ordinary hd, hread]
          simp [hd]

/-- Escaped text is read as the text, whatever stands behind it. -/
theorem read_escape (hread : TakesText read) (text rest : List Char) :
    read (pieces (escapeChars text ++ rest)) = text ++ read (pieces rest) := by
  induction text with
  | nil => rfl
  | cons c text ih =>
      rw [escapeChars_cons, List.append_assoc]
      cases hc : isBracket c with
      | true =>
          rw [if_pos rfl]
          exact (congrArg read (pieces_doubled hc _)).trans ((hread _ _).trans (congrArg _ ih))
      | false =>
          rw [if_neg Bool.false_ne_true]
          exact (hread.read_ordinary hc _).trans (congrArg _ ih)

end TakesText

/-- The words of every style are known ones, so that its tag is not taken for text. -/
theorem chars_ofBracketed_tag (style : Style) :
    (Piece.ofBracketed style.tag.toList).chars = [] := by
  cases style <;> decide +kernel

theorem pieces_tag (style : Style) (rest : List Char) :
    pieces ('[' :: (style.tag.toList ++ ']' :: rest)) =
      .ofBracketed style.tag.toList :: pieces rest := by
  refine pieces_bracketed ?_ ?_ rest
  · cases style <;> decide +kernel
  · cases style <;> decide +kernel

theorem pieces_closing (rest : List Char) :
    pieces ('[' :: '/' :: ']' :: rest) = .closing :: pieces rest := by
  have hopen : ['/'].head? ≠ some '[' := by decide
  have hclose : ']' ∉ ['/'] := by decide
  exact pieces_bracketed hopen hclose rest

/-- The text that a text in the form of markup stands for: without color, it is that text. -/
def read (color : Bool) (text : String) : String := if color then strip text else text

end Markup

/-- The markup of a span is read as the text of the span, whatever stands behind it. -/
theorem Span.chars_pieces_append (span : Span) (rest : List Char) :
    (pieces (span.markupChars ++ rest)).flatMap (·.chars) =
      span.plainChars ++ (pieces rest).flatMap (·.chars) := by
  cases span with
  | text chars => exact takesText_chars.read_escape chars.toList rest
  | lineStart => rfl
  | styled chars style =>
      rw [markupChars, plainChars]
      split
      · next hempty => simp [String.isEmpty_iff.1 hempty]
      · simp only [List.cons_append, List.append_assoc, List.nil_append]
        rw [pieces_tag, List.flatMap_cons, chars_ofBracketed_tag, List.nil_append,
          takesText_chars.read_escape, pieces_closing, List.flatMap_cons, Piece.chars,
          List.nil_append]

theorem chars_pieces_markup (spans : List Span) :
    (pieces (spans.flatMap (·.markupChars))).flatMap (·.chars) =
      spans.flatMap (·.plainChars) := by
  induction spans with
  | nil => rw [List.flatMap_nil, pieces]; rfl
  | cons span rest ih =>
      rw [List.flatMap_cons, List.flatMap_cons, Span.chars_pieces_append, ih]

theorem Rendering.read_styled (color : Bool) (rendering : Rendering) :
    Markup.read color (rendering.styled color) = rendering.plain := by
  cases color with
  | false => rfl
  | true =>
      rw [Markup.read, if_pos rfl, Rendering.styled, if_pos rfl, strip, String.toList_ofList,
        chars_pieces_markup, Rendering.plain]

/-- Whatever is written, its styled text says what its plain text says: spans of any texts and
styles, the tree of any exception and the line of any frame, under any options and faults. -/
theorem styled_reads_as_plain :
    (∀ rendering : Rendering,
      Markup.strip (rendering.styled true) = rendering.plain ∧
        rendering.styled false = rendering.plain) ∧
    (∀ (r : Renderer) (g : ExceptionGraph) (root : ExceptionId),
      Markup.read r.options.colorEnabled (r.styled g root) = r.plain g root) ∧
    (∀ (r : Renderer) (frame : Frame),
      Markup.read r.options.colorEnabled (r.frameStyled frame) = r.framePlain frame) := by
  refine ⟨fun rendering => ⟨?_, ?_⟩, fun r g root => ?_, fun r frame => ?_⟩
  · exact rendering.read_styled true
  · exact rendering.read_styled false
  · exact (r.tree g root).rendering.read_styled r.options.colorEnabled
  · exact (r.frame frame).rendering.read_styled r.options.colorEnabled

end Unmangle
