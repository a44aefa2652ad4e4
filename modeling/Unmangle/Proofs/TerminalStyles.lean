import Unmangle.Proofs.MarkupTurns

/-!
# A terminal shows markup in its styles

A terminal knows no tags. It keeps the codes that were set since the last reset, adds to them, or
forgets them all, and prints each character in those it has. So where a tag ends, the escape
sequences have to forget more than the tag said and to say the rest again, and whether they do is
seen on the terminal only.

`Markup.Shows` reads markup with no terminal in mind: a list of open tags and a rule for each way in
which the rest of the markup can begin. The terminal follows it from rule to rule, since behind the
sequences for a prefix of the markup its codes are those of the tags that are open there, one after
the other (`Shows.run_ansiChars`). At the end nothing is open, or all is reset.
-/

namespace Unmangle

open Markup

/-- Codes that set something and reset nothing. -/
def Markup.Codes.IsStyle (codes : Codes) : Prop := codes ≠ [] ∧ 0 ∉ codes

/-- Codes as an escape sequence has them. -/
def Markup.Codes.parameters (codes : Codes) : List Char :=
  List.intercalate [';'] (codes.map fun code => (toString code).toList)

/-! ## The terminal -/

/-- A terminal: the codes set since the last reset, and what it has printed, each character with the
codes that were set. -/
structure Terminal where
  codes : Codes := []
  cells : List (Char × Codes) := []
deriving DecidableEq, Repr

namespace Terminal

def print (t : Terminal) (c : Char) : Terminal :=
  { t with cells := t.cells ++ [(c, t.codes)] }

/-- Sets codes; the code zero alone is the reset. -/
def set (t : Terminal) (codes : Codes) : Terminal :=
  { t with codes := if codes = [0] then [] else t.codes ++ codes }

/-- The codes of an escape sequence behind its bracket, and what follows the sequence: numbers with
semicolons between them up to the letter `m`. -/
def sequence? (text : List Char) : Option (Codes × List Char) :=
  match text.dropWhile (· != 'm') with
  | [] => none
  | _ :: rest =>
    (((text.takeWhile (· != 'm')).splitOn ';').mapM Text.digitsValue?).map (·, rest)

theorem length_sequence? {text rest : List Char} {codes : Codes}
    (h : sequence? text = some (codes, rest)) : rest.length < text.length := by
  have hdrop := (List.dropWhile_sublist (· != 'm') (l := text)).length_le
  rw [sequence?] at h
  split at h
  · cases h
  · next after hsplit =>
      obtain ⟨_, -, hpair⟩ := Option.map_eq_some_iff.1 h
      cases hpair
      rw [hsplit] at hdrop
      exact hdrop

/-- Shows a text: obeys the escape sequences in it and prints everything else. -/
def run (t : Terminal) : List Char → Terminal
  | [] => t
  | '\x1b' :: '[' :: text =>
    match _h : sequence? text with
    | some (codes, rest) => run (t.set codes) rest
    | none => run (t.print '\x1b') ('[' :: text)
  | c :: text => run (t.print c) text
termination_by text => text.length
decreasing_by
  · have := length_sequence? _h
    simp only [List.length_cons]
    omega
  · simp
  · simp

/-- Prints a text without escape sequences. -/
def printAll (t : Terminal) (text : List Char) : Terminal :=
  { t with cells := t.cells ++ text.map (·, t.codes) }

variable {t : Terminal}

theorem set_of_isStyle {codes : Codes} (h : codes.IsStyle) :
    t.set codes = { t with codes := t.codes ++ codes } := by
  have hzero : codes ≠ [0] := fun heq => h.2 (heq ▸ List.mem_cons_self)
  rw [set, if_neg hzero]

theorem codes_print {c : Char} : (t.print c).codes = t.codes := rfl

theorem codes_printAll {text : List Char} : (t.printAll text).codes = t.codes := rfl

theorem run_nil : t.run [] = t := by rw [run]

theorem run_cons {c : Char} (h : c ≠ '\x1b') (rest : List Char) :
    t.run (c :: rest) = (t.print c).run rest := by
  rw [run]
  exact fun _ hc => absurd hc h

theorem run_append {text : List Char} (h : '\x1b' ∉ text) (rest : List Char) :
    t.run (text ++ rest) = (t.printAll text).run rest := by
  induction text generalizing t with
  | nil => rw [printAll, List.map_nil, List.append_nil, List.nil_append]
  | cons c text ih =>
      have hc : c ≠ '\x1b' := fun heq => h (heq ▸ List.mem_cons_self)
      have htext : '\x1b' ∉ text := fun hmem => h (List.mem_cons_of_mem _ hmem)
      rw [List.cons_append, run_cons hc, ih htext]
      simp [printAll, print]

theorem ne_of_mem_parameters {codes : Codes} {c : Char} (h : c ∈ codes.parameters) : c ≠ 'm' := by
  have hnumber : ∀ code : Nat, c ∈ (toString code).toList → c ≠ 'm' := by
    rintro code hmem rfl
    exact absurd (Text.isDigit_of_mem_toString hmem) (by decide)
  rw [Codes.parameters] at h
  induction codes with
  | nil => cases h
  | cons code rest ih =>
      cases rest with
      | nil =>
          rw [List.map_cons, List.map_nil, List.intercalate_singleton] at h
          exact hnumber code h
      | cons next rest =>
          rw [List.map_cons, List.map_cons, List.intercalate_cons_cons, List.append_assoc] at h
          rcases List.mem_append.1 h with h | h
          · exact hnumber code h
          · rcases List.mem_cons.1 h with rfl | h
            · decide
            · exact ih h

/-- The numbers of a sequence are read as they are written. -/
theorem sequence?_append {codes : Codes} (h : codes ≠ []) (rest : List Char) :
    sequence? (codes.parameters ++ 'm' :: rest) = some (codes, rest) := by
  have hinside : ∀ c ∈ codes.parameters, (c != 'm') = true := fun c hc =>
    bne_iff_ne.2 (ne_of_mem_parameters hc)
  have hsplit : codes.parameters.splitOn ';' = codes.map fun code => (toString code).toList := by
    refine List.splitOn_intercalate ';' ?_ (by simpa using h)
    intro number hnumber hmem
    obtain ⟨code, -, rfl⟩ := List.mem_map.1 hnumber
    exact absurd (Text.isDigit_of_mem_toString hmem) (by decide)
  have hnumbers : (codes.map fun code => (toString code).toList).mapM Text.digitsValue? =
      some codes := by
    have hvalue : ∀ code : Nat, Text.digitsValue? (toString code).toList = some code := fun code =>
      (congrArg Text.digitsValue? Nat.toList_repr).trans (Text.digitsValue?_toDigits code)
    rw [List.mapM_map]
    have hread : (Text.digitsValue? ∘ fun code : Nat => (toString code).toList) = pure :=
      funext hvalue
    rw [hread]
    exact List.mapM_pure.trans (congrArg some (List.map_id codes))
  have htake : ('m' :: rest).takeWhile (· != 'm') = [] := rfl
  have hdrop : ('m' :: rest).dropWhile (· != 'm') = 'm' :: rest := rfl
  rw [sequence?, List.takeWhile_append_of_pos hinside, List.dropWhile_append_of_pos hinside, htake,
    hdrop, List.append_nil]
  dsimp only
  rw [hsplit, hnumbers, Option.map_some]

theorem run_setSequence {codes : Codes} (h : codes ≠ []) (rest : List Char) :
    t.run (setSequence codes ++ rest) = (t.set codes).run rest := by
  have hread := sequence?_append h rest
  have hwritten : setSequence codes ++ rest =
      '\x1b' :: '[' :: (codes.parameters ++ 'm' :: rest) := by
    simp [setSequence, Codes.parameters]
  rw [hwritten, run]
  split
  · next found after hfound =>
      cases hfound.symm.trans hread
      rfl
  · next hnone => cases hnone.symm.trans hread

/-- Sequences that set one style after the other leave the codes of all of them. -/
theorem run_setSequences {styles : List Codes} (h : ∀ codes ∈ styles, codes.IsStyle)
    (rest : List Char) :
    t.run (styles.flatMap setSequence ++ rest) =
      { t with codes := t.codes ++ styles.flatten }.run rest := by
  induction styles generalizing t with
  | nil => rw [List.flatMap_nil, List.flatten_nil, List.append_nil, List.nil_append]
  | cons codes styles ih =>
      have hcodes := h codes List.mem_cons_self
      rw [List.flatMap_cons, List.append_assoc, run_setSequence hcodes.1,
        ih fun other hother => h other (List.mem_cons_of_mem _ hother), set_of_isStyle hcodes,
        List.flatten_cons, List.append_assoc]

theorem run_resetSequence (rest : List Char) :
    t.run (resetSequence ++ rest) = { t with codes := [] }.run rest :=
  run_setSequence (List.cons_ne_nil 0 []) rest

end Terminal

/-! ## What markup shows -/

namespace Markup

/-- What markup shows, each character with the codes of the tags that are open there, the outermost
first. The list holds the tags that are open at the start of the markup, the innermost first. -/
inductive Shows : List Codes → List Char → List (Char × Codes) → Prop where
  | nil {opened} : Shows opened [] []
  | ordinary {opened c rest cells} (hplain : isBracket c = false)
      (hrest : Shows opened rest cells) :
      Shows opened (c :: rest) ((c, opened.reverse.flatten) :: cells)
  | doubled {opened c rest cells} (hbracket : isBracket c = true)
      (hrest : Shows opened rest cells) :
      Shows opened (c :: c :: rest) ((c, opened.reverse.flatten) :: cells)
  | strayBracket {opened rest cells} (hsingle : rest.head? ≠ some ']')
      (hrest : Shows opened rest cells) :
      Shows opened (']' :: rest) ((']', opened.reverse.flatten) :: cells)
  | unterminated {opened rest} (hsingle : rest.head? ≠ some '[') (hclose : ']' ∉ rest) :
      Shows opened ('[' :: rest) (('[' :: rest).map (·, opened.reverse.flatten))
  | closing {opened rest cells} (hrest : Shows opened.tail rest cells) :
      Shows opened ('[' :: '/' :: ']' :: rest) cells
  | opening {opened tag codes rest cells} (hsingle : tag.head? ≠ some '[') (hclose : ']' ∉ tag)
      (hcodes : tagCodes? tag = some codes) (hrest : Shows (codes :: opened) rest cells) :
      Shows opened ('[' :: (tag ++ ']' :: rest)) cells
  | unknown {opened tag rest cells} (hsingle : tag.head? ≠ some '[') (hclose : ']' ∉ tag)
      (hslash : tag ≠ ['/']) (hcodes : tagCodes? tag = none) (hrest : Shows opened rest cells) :
      Shows opened ('[' :: (tag ++ ']' :: rest))
        (('[' :: (tag ++ [']'])).map (·, opened.reverse.flatten) ++ cells)

theorem exists_eq_some_of_mem_mapM {α β : Type} {f : α → Option β} {l : List α} {results : List β}
    (h : l.mapM f = some results) {b : β} (hb : b ∈ results) : ∃ a, f a = some b := by
  induction l generalizing results with
  | nil => cases h; cases hb
  | cons a l ih =>
      rw [List.mapM_cons] at h
      obtain ⟨first, hfirst, h⟩ := Option.bind_eq_some_iff.1 h
      obtain ⟨others, hothers, h⟩ := Option.bind_eq_some_iff.1 h
      cases h
      rcases List.mem_cons.1 hb with rfl | hb
      · exact ⟨a, hfirst⟩
      · exact ih hothers hb

/-- No style is a reset, so a tag always adds to what is set. -/
theorem tagCodes?_isStyle {tag : List Char} {codes : Codes} (h : tagCodes? tag = some codes) :
    codes.IsStyle := by
  have hwords : (Text.words tag).mapM (fun word => styleWords.lookup (.ofList word)) = some codes ∧
      codes ≠ [] := by
    rw [tagCodes?] at h
    split at h
    · cases h
    · next hne => exact ⟨h, fun heq => hne (h.trans (congrArg some heq))⟩
  refine ⟨hwords.2, fun hzero => ?_⟩
  obtain ⟨word, hlookup⟩ := exists_eq_some_of_mem_mapM hwords.1 hzero
  have hall : ∀ entry ∈ styleWords, entry.2 ≠ 0 := by decide
  exact hall _ (mem_of_lookup_eq_some hlookup) rfl

theorem ansiChars_opening (opened : List Codes) (codes : Codes) (rest : List Piece) :
    ansiChars opened (.opening codes :: rest) =
      setSequence codes ++ ansiChars (codes :: opened) rest := by
  cases opened <;> rfl

/-- At the end nothing is open, or all is reset. -/
theorem run_ansiChars_nil {opened : List Codes} {t : Terminal}
    (ht : t.codes = opened.reverse.flatten) :
    t.run (ansiChars opened []) = { codes := [], cells := t.cells } := by
  cases opened with
  | nil =>
      rw [ansiChars, Terminal.run_nil]
      exact congrArg (Terminal.mk · t.cells) ht
  | cons codes opened =>
      have hreset := Terminal.run_resetSequence (t := t) []
      rw [List.append_nil, Terminal.run_nil] at hreset
      rw [ansiChars, hreset]

theorem ofBracketed_opening {tag : List Char} {codes : Codes} (h : tagCodes? tag = some codes) :
    Piece.ofBracketed tag = .opening codes := by
  have hslash : tag ≠ ['/'] := by
    rintro rfl
    have hnone : tagCodes? ['/'] = none := by decide +kernel
    cases hnone.symm.trans h
  rw [Piece.ofBracketed, if_neg hslash, h]

theorem ofBracketed_unknown {tag : List Char} (hslash : tag ≠ ['/']) (h : tagCodes? tag = none) :
    Piece.ofBracketed tag = .text ('[' :: (tag ++ [']'])) := by
  rw [Piece.ofBracketed, if_neg hslash, h]
  rfl

/-- A run of ordinary characters shows them in front of what the rest shows. -/
theorem exists_shows_append {opened : List Codes} {text rest : List Char}
    (hplain : ∀ c ∈ text, isBracket c = false) (hrest : ∃ cells, Shows opened rest cells) :
    ∃ cells, Shows opened (text ++ rest) cells := by
  induction text with
  | nil => exact hrest
  | cons c text ih =>
      obtain ⟨hc, htext⟩ := List.forall_mem_cons.1 hplain
      obtain ⟨cells, hcells⟩ := ih htext
      exact ⟨_, .ordinary hc hcells⟩

/-- Every markup shows something, turn by turn. -/
theorem exists_shows (opened : List Codes) (markup : List Char) :
    ∃ cells, Shows opened markup cells := by
  obtain ⟨found, hturns⟩ : ∃ found, Turns markup found := ⟨_, turns_iff.2 rfl⟩
  induction hturns generalizing opened with
  | done => exact ⟨_, .nil⟩
  | turn hturn hrest ih =>
      cases hturn with
      | doubled hbracket =>
          obtain ⟨cells, hcells⟩ := ih opened
          exact ⟨_, .doubled hbracket hcells⟩
      | strayBracket hsingle =>
          obtain ⟨cells, hcells⟩ := ih opened
          exact ⟨_, .strayBracket hsingle hcells⟩
      | unterminated hsingle hclose => exact ⟨_, .unterminated hsingle hclose⟩
      | ordinary hne hplain hstop => exact exists_shows_append hplain (ih opened)
      | @bracketed tag rest hsingle hclose =>
          by_cases hslash : tag = ['/']
          · subst hslash
            obtain ⟨cells, hcells⟩ := ih opened.tail
            exact ⟨_, .closing hcells⟩
          · cases hcodes : tagCodes? tag with
            | none =>
                obtain ⟨cells, hcells⟩ := ih opened
                exact ⟨_, .unknown hsingle hclose hslash hcodes hcells⟩
            | some codes =>
                obtain ⟨cells, hcells⟩ := ih (codes :: opened)
                exact ⟨_, .opening hsingle hclose hcodes hcells⟩

/-- The characters that are shown are the text of the markup. -/
theorem Shows.chars {opened : List Codes} {markup : List Char} {cells : List (Char × Codes)}
    (h : Shows opened markup cells) :
    cells.map (·.1) = (pieces markup).flatMap (·.chars) := by
  have hstyled : ∀ (text : List Char) (codes : Codes),
      (text.map (·, codes)).map Prod.fst = text := fun text codes => by
    rw [List.map_map]
    exact List.map_id text
  induction h with
  | nil => rw [pieces]; rfl
  | ordinary hplain hrest ih => rw [takesText_chars.read_ordinary hplain, ← ih]; rfl
  | doubled hbracket hrest ih => rw [pieces_doubled hbracket, List.flatMap_cons, ← ih]; rfl
  | strayBracket hsingle hrest ih => rw [pieces_strayBracket hsingle, List.flatMap_cons, ← ih]; rfl
  | unterminated hsingle hclose =>
      rw [pieces_unterminated hsingle hclose, hstyled]
      exact (List.append_nil _).symm
  | closing hrest ih => rw [pieces_closing, ih]; rfl
  | opening hsingle hclose hcodes hrest ih =>
      rw [pieces_bracketed hsingle hclose, ofBracketed_opening hcodes, ih]; rfl
  | unknown hsingle hclose hslash hcodes hrest ih =>
      rw [pieces_bracketed hsingle hclose, ofBracketed_unknown hslash hcodes, List.flatMap_cons,
        ← ih, List.map_append, hstyled, Piece.chars]

/-- The terminal prints what the markup shows, and forgets all codes at the end, if its codes are
those of the open tags. -/
theorem Shows.run_ansiChars {opened : List Codes} {markup : List Char} {cells : List (Char × Codes)}
    (h : Shows opened markup cells) (hopened : ∀ codes ∈ opened, codes.IsStyle)
    (hesc : '\x1b' ∉ markup) {t : Terminal} (ht : t.codes = opened.reverse.flatten) :
    t.run (ansiChars opened (pieces markup)) = { codes := [], cells := t.cells ++ cells } := by
  induction h generalizing t with
  | nil => rw [pieces, run_ansiChars_nil ht, List.append_nil]
  | @ordinary opened c rest cells hplain hrest ih =>
      rw [List.mem_cons, not_or] at hesc
      rw [(takesText_ansiChars opened).read_ordinary hplain, Terminal.run_cons (Ne.symm hesc.1),
        ih hopened hesc.2 (Terminal.codes_print.trans ht),
        Terminal.print, ht, List.append_assoc, List.singleton_append]
  | @doubled opened c rest cells hbracket hrest ih =>
      rw [List.mem_cons, List.mem_cons, not_or, not_or] at hesc
      rw [pieces_doubled hbracket, takesText_ansiChars opened, List.singleton_append,
        Terminal.run_cons (Ne.symm hesc.1), ih hopened hesc.2.2 (Terminal.codes_print.trans ht),
        Terminal.print, ht,
        List.append_assoc, List.singleton_append]
  | @strayBracket opened rest cells hsingle hrest ih =>
      rw [List.mem_cons, not_or] at hesc
      rw [pieces_strayBracket hsingle, takesText_ansiChars opened, List.singleton_append,
        Terminal.run_cons (Ne.symm hesc.1), ih hopened hesc.2 (Terminal.codes_print.trans ht),
        Terminal.print, ht,
        List.append_assoc, List.singleton_append]
  | @unterminated opened rest hsingle hclose =>
      rw [pieces_unterminated hsingle hclose, takesText_ansiChars opened, Terminal.run_append hesc,
        run_ansiChars_nil (Terminal.codes_printAll.trans ht), Terminal.printAll, ht]
  | @closing opened rest cells hrest ih =>
      have hrestEsc : '\x1b' ∉ rest := fun hmem => hesc (by simp [hmem])
      rw [pieces_closing]
      cases opened with
      | nil => exact ih hopened hrestEsc ht
      | cons codes opened =>
          -- The sequences for the tags that stay open follow the reset, the outermost first.
          have houter : ∀ codes ∈ opened, codes.IsStyle := fun codes hcodes =>
            hopened codes (List.mem_cons_of_mem _ hcodes)
          have hreverse : ∀ codes ∈ opened.reverse, codes.IsStyle := fun codes hcodes =>
            houter codes (List.mem_reverse.1 hcodes)
          rw [ansiChars, List.append_assoc, Terminal.run_resetSequence,
            Terminal.run_setSequences hreverse]
          exact ih houter hrestEsc rfl
  | @opening opened tag codes rest cells hsingle hclose hcodes hrest ih =>
      have hrestEsc : '\x1b' ∉ rest := fun hmem => hesc (by simp [hmem])
      have hstyle := tagCodes?_isStyle hcodes
      rw [pieces_bracketed hsingle hclose, ofBracketed_opening hcodes, ansiChars_opening,
        Terminal.run_setSequence hstyle.1, Terminal.set_of_isStyle hstyle]
      refine ih (List.forall_mem_cons.2 ⟨hstyle, hopened⟩) hrestEsc ?_
      rw [List.reverse_cons, List.flatten_append, List.flatten_singleton, ← ht]
  | @unknown opened tag rest cells hsingle hclose hslash hcodes hrest ih =>
      have htext : '[' :: (tag ++ ']' :: rest) = '[' :: (tag ++ [']']) ++ rest := by simp
      rw [htext, List.mem_append, not_or] at hesc
      rw [pieces_bracketed hsingle hclose, ofBracketed_unknown hslash hcodes,
        takesText_ansiChars opened, Terminal.run_append hesc.1,
        ih hopened hesc.2 (Terminal.codes_printAll.trans ht), Terminal.printAll, ht,
        List.append_assoc]

end Markup

/-- Markup without escapes, turned into text for a terminal, is shown by a terminal that has set
nothing: the characters are those of the stripped markup, each in the styles of the tags that are
open there, and nothing is set at the end. -/
theorem terminal_shows_markup (markup : String) (h : '\x1b' ∉ markup.toList) :
    (∀ cells, Shows [] markup.toList cells ↔
      (({} : Terminal).run (toAnsi markup).toList).cells = cells) ∧
    String.ofList ((({} : Terminal).run (toAnsi markup).toList).cells.map (·.1)) = strip markup ∧
    (({} : Terminal).run (toAnsi markup).toList).codes = [] := by
  have hnone : ∀ codes ∈ ([] : List Codes), codes.IsStyle := fun _ hmem => nomatch hmem
  have hrun : ∀ cells, Shows [] markup.toList cells →
      ({} : Terminal).run (toAnsi markup).toList = { codes := [], cells := cells } := by
    intro cells hcells
    rw [toAnsi, String.toList_ofList]
    exact hcells.run_ansiChars hnone h rfl
  obtain ⟨cells, hcells⟩ := exists_shows [] markup.toList
  refine ⟨fun other => ⟨fun hother => ?_, fun heq => ?_⟩, ?_, ?_⟩
  · rw [hrun other hother]
  · rw [hrun cells hcells] at heq
    exact heq ▸ hcells
  · rw [hrun cells hcells, strip, ← hcells.chars]
  · rw [hrun cells hcells]

/-- Behind the end of the inner tag the outer one is set again. -/
theorem terminal_shows_nested_tags :
    (({} : Terminal).run (toAnsi "[bold]a[red dim]b[/]c").toList).cells =
      [('a', [1]), ('b', [1, 31, 2]), ('c', [1])] := by
  have hshows : Shows [] "[bold]a[red dim]b[/]c".toList
      [('a', [1]), ('b', [1, 31, 2]), ('c', [1])] := by
    refine @Shows.opening _ ['b', 'o', 'l', 'd'] [1] _ _ (by decide) (by decide) (by decide +kernel)
      (.ordinary rfl ?_)
    refine @Shows.opening _ ['r', 'e', 'd', ' ', 'd', 'i', 'm'] [31, 2] _ _ (by decide) (by decide)
      (by decide +kernel) (.ordinary rfl ?_)
    exact .closing (.ordinary rfl .nil)
  exact ((terminal_shows_markup "[bold]a[red dim]b[/]c" (by decide)).1 _).1 hshows

end Unmangle
