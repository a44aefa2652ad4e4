import Unmangle.Json.Reader
import Unmangle.Proofs.JsonLiterals

/-!
# Written values are read as they were

Between a value and its text stands the list of its tokens. The text is cut into these tokens
whatever the level it was written at, because what a level adds is white space; and the machine
makes the value of them whatever is open on its stack, because it closes what it opens. The two
halves meet in `parse?_pretty`.

Both halves go by induction on the value, with the items of an array and the entries of an object
done by an induction of their own inside. The first item is no different from the rest, except that
an array just opened is also ready to be closed: there it matters that no value begins with a
closing bracket.
-/

namespace Unmangle

/-- A property of all values that an array or an object has as soon as its parts have it. -/
@[elab_as_elim]
theorem Json.induction {P : Json → Prop} (null : P .null) (bool : ∀ value, P (.bool value))
    (number : ∀ value, P (.number value)) (string : ∀ literal, P (.string literal))
    (array : ∀ items, (∀ item ∈ items, P item) → P (.array items))
    (object : ∀ entries : List (List Char × Json), (∀ entry ∈ entries, P entry.2) →
      P (.object entries)) (value : Json) : P value :=
  @Json.rec P (fun items => ∀ item ∈ items, P item) (fun entries => ∀ entry ∈ entries, P entry.2)
    (fun entry => P entry.2) null bool number string array object
    (List.forall_mem_nil _) (fun _ _ hitem hrest => List.forall_mem_cons.2 ⟨hitem, hrest⟩)
    (List.forall_mem_nil _) (fun _ _ hentry hrest => List.forall_mem_cons.2 ⟨hentry, hrest⟩)
    (fun _ _ hvalue => hvalue) value

namespace Json

mutual

/-- The tokens that a value is written in. -/
def tokens : Json → List JsonToken
  | .null => [.null]
  | .bool value => [.bool value]
  | .number value => [.number value]
  | .string literal => [.string literal]
  | .array [] => [.openBracket, .closeBracket]
  | .array (item :: rest) => .openBracket :: item.tokens ++ itemsTokens rest ++ [.closeBracket]
  | .object [] => [.openBrace, .closeBrace]
  | .object ((key, value) :: rest) =>
    .openBrace :: .string key :: .colon :: value.tokens ++ entriesTokens rest ++ [.closeBrace]

def itemsTokens : List Json → List JsonToken
  | [] => []
  | item :: rest => .comma :: item.tokens ++ itemsTokens rest

def entriesTokens : List (List Char × Json) → List JsonToken
  | [] => []
  | (key, value) :: rest => .comma :: .string key :: .colon :: value.tokens ++ entriesTokens rest

end

/-! ## From tokens to the value -/

section Machine

open JsonReader

/-- Where a value is due, the tokens of this one make it, and the stack is as before. -/
def IsMade (value : Json) : Prop :=
  ∀ stack, value.tokens.foldlM take ⟨.value, stack⟩ = some ⟨.next value, stack⟩

theorem exists_tokens_eq_cons (value : Json) :
    ∃ first rest, value.tokens = first :: rest ∧ first ≠ .closeBracket := by
  cases value with
  | array items => cases items <;> simp [tokens]
  | object entries => cases entries <;> simp [tokens]
  | _ => simp [tokens]

theorem IsMade.first {value : Json} (h : value.IsMade) (stack : List Open) :
    value.tokens.foldlM take ⟨.item, stack⟩ = some ⟨.next value, .array [] :: stack⟩ := by
  -- The machine is ready for the end of the array as well, so the two states differ there.
  have htake : ∀ token : JsonToken, token ≠ .closeBracket →
      take ⟨.item, stack⟩ token = take ⟨.value, .array [] :: stack⟩ token := by
    intro token hne
    cases token <;> first | rfl | exact absurd rfl hne
  have hmade := h (.array [] :: stack)
  obtain ⟨first, rest, htokens, hne⟩ := exists_tokens_eq_cons value
  rw [htokens, List.foldlM_cons] at hmade ⊢
  rwa [htake first hne]

/-- An array with some of its items complete takes in the rest and closes. -/
theorem foldlM_itemsTokens {items : List Json} (h : ∀ item ∈ items, item.IsMade)
    (item : Json) (before : List Json) (stack : List Open) :
    (itemsTokens items ++ [JsonToken.closeBracket]).foldlM take
        ⟨.next item, .array before :: stack⟩ =
      some ⟨.next (.array ((item :: before).reverse ++ items)), stack⟩ := by
  induction items generalizing item before with
  | nil => rw [itemsTokens, List.append_nil]; rfl
  | cons next rest ih =>
    obtain ⟨hnext, hrest⟩ := List.forall_mem_cons.1 h
    have hcomma : take ⟨.next item, .array before :: stack⟩ .comma =
        some ⟨.value, .array (item :: before) :: stack⟩ := rfl
    rw [itemsTokens, List.cons_append, List.cons_append, List.append_assoc, List.foldlM_cons,
      hcomma, Option.bind_eq_bind, Option.bind_some, List.foldlM_append, hnext,
      Option.bind_eq_bind, Option.bind_some, ih hrest]
    simp

/-- An object with some of its entries complete takes in the rest and closes. -/
theorem foldlM_entriesTokens {entries : List (List Char × Json)}
    (h : ∀ entry ∈ entries, entry.2.IsMade) (key : List Char) (value : Json)
    (before : List (List Char × Json)) (stack : List Open) :
    (entriesTokens entries ++ [JsonToken.closeBrace]).foldlM take
        ⟨.next value, .object before key :: stack⟩ =
      some ⟨.next (.object (((key, value) :: before).reverse ++ entries)), stack⟩ := by
  induction entries generalizing key value before with
  | nil => rw [entriesTokens, List.append_nil]; rfl
  | cons next rest ih =>
    obtain ⟨nextKey, nextValue⟩ := next
    obtain ⟨hnext, hrest⟩ := List.forall_mem_cons.1 h
    have hcolon : [JsonToken.comma, .string nextKey, .colon].foldlM take
        ⟨.next value, .object before key :: stack⟩ =
          some ⟨.value, .object ((key, value) :: before) nextKey :: stack⟩ := rfl
    have htokens : entriesTokens ((nextKey, nextValue) :: rest) ++ [.closeBrace] =
        [.comma, .string nextKey, .colon] ++
          (nextValue.tokens ++ (entriesTokens rest ++ [.closeBrace])) := by
      simp [entriesTokens]
    rw [htokens, List.foldlM_append, hcolon, Option.bind_eq_bind, Option.bind_some,
      List.foldlM_append, hnext, Option.bind_eq_bind, Option.bind_some, ih hrest]
    simp

theorem isMade (value : Json) : value.IsMade := by
  induction value using Json.induction with
  | null => intro stack; rw [tokens]; rfl
  | bool value => intro stack; rw [tokens]; rfl
  | number value => intro stack; rw [tokens]; rfl
  | string literal => intro stack; rw [tokens]; rfl
  | array items ih =>
    intro stack
    cases items with
    | nil => rw [tokens]; rfl
    | cons item rest =>
      obtain ⟨hitem, hrest⟩ := List.forall_mem_cons.1 ih
      have hopen : take ⟨.value, stack⟩ .openBracket = some ⟨.item, stack⟩ := rfl
      rw [tokens, List.cons_append, List.cons_append, List.append_assoc, List.foldlM_cons, hopen,
        Option.bind_eq_bind, Option.bind_some, List.foldlM_append, hitem.first,
        Option.bind_eq_bind, Option.bind_some, foldlM_itemsTokens hrest]
      rfl
  | object entries ih =>
    intro stack
    cases entries with
    | nil => rw [tokens]; rfl
    | cons entry rest =>
      obtain ⟨key, value⟩ := entry
      obtain ⟨hvalue, hrest⟩ := List.forall_mem_cons.1 ih
      have hopen : [JsonToken.openBrace, .string key, .colon].foldlM take ⟨.value, stack⟩ =
          some ⟨.value, .object [] key :: stack⟩ := rfl
      have htokens : (Json.object ((key, value) :: rest)).tokens =
          [.openBrace, .string key, .colon] ++
            (value.tokens ++ (entriesTokens rest ++ [.closeBrace])) := by
        simp [tokens]
      rw [htokens, List.foldlM_append, hopen, Option.bind_eq_bind, Option.bind_some,
        List.foldlM_append, hvalue, Option.bind_eq_bind, Option.bind_some,
        foldlM_entriesTokens hrest]
      rfl

theorem ofTokens?_tokens (value : Json) : ofTokens? value.tokens = some value := by
  rw [ofTokens?, value.isMade, Option.bind_some]
  rfl

end Machine

/-! ## From the text to tokens -/

section Scanner

open JsonToken

theorem scanAllOnto_of_scan? {before : List JsonToken} {token : JsonToken} {c : Char}
    {text rest : List Char} (hspace : isSpace c = false)
    (h : scan? (c :: text) = some (token, rest)) :
    scanAllOnto before (c :: text) = scanAllOnto (token :: before) rest := by
  rw [scanAllOnto, hspace]
  simp only [Bool.false_eq_true, if_false]
  split
  · next heq =>
    rw [h] at heq
    obtain ⟨rfl, rfl⟩ := by simpa using heq
    rfl
  · next heq =>
    rw [h] at heq
    exact absurd heq (by simp)

theorem scanAllOnto_space {c : Char} (h : isSpace c) (before : List JsonToken)
    (rest : List Char) : scanAllOnto before (c :: rest) = scanAllOnto before rest := by
  rw [scanAllOnto, if_pos h]

theorem scanAllOnto_blank {blank : List Char} (h : ∀ c ∈ blank, isSpace c)
    (before : List JsonToken) : scanAllOnto before blank = some before.reverse := by
  induction blank with
  | nil => rw [scanAllOnto]
  | cons c rest ih =>
    obtain ⟨hspace, hrest⟩ := List.forall_mem_cons.1 h
    rw [scanAllOnto_space hspace, ih hrest]

theorem scanAllOnto_newLine (before : List JsonToken) (level : Nat) (rest : List Char) :
    scanAllOnto before (newLine level ++ rest) = scanAllOnto before rest := by
  have hblanks : ∀ count, scanAllOnto before (List.replicate count ' ' ++ rest) =
      scanAllOnto before rest := by
    intro count
    induction count with
    | zero => rfl
    | succ count ih => rw [List.replicate_succ, List.cons_append, scanAllOnto_space rfl, ih]
  rw [newLine, List.cons_append, scanAllOnto_space rfl, hblanks]

theorem scanAllOnto_quoted (before : List JsonToken) (text rest : List Char) :
    scanAllOnto before (quoted (JsonLiteral.escape text) ++ rest) =
      scanAllOnto (.string (JsonLiteral.escape text) :: before) rest := by
  have hscan : scan? ('"' :: (JsonLiteral.escape text ++ '"' :: rest)) =
      some (.string (JsonLiteral.escape text), rest) := by
    rw [scan?, JsonLiteral.scan_escape]
    rfl
  have htext : quoted (JsonLiteral.escape text) ++ rest =
      '"' :: (JsonLiteral.escape text ++ '"' :: rest) := by
    simp [quoted]
  rw [htext]
  exact scanAllOnto_of_scan? rfl hscan

theorem scanAllOnto_toDigits (before : List JsonToken) (n : Nat) {rest : List Char}
    (h : JsonNumber.endsNumber rest) :
    scanAllOnto before (Nat.toDigits 10 n ++ rest) =
      scanAllOnto (.number { whole := Nat.toDigits 10 n } :: before) rest := by
  have hnumber := JsonNumber.scan?_toDigits n h
  obtain ⟨first, digits, hcons, hfirst⟩ := exists_toDigits_eq_cons n
  have hne : ∀ other : Char, other.isDigit = false → first ≠ other := fun _ => ne_of_isDigit hfirst
  have hspace : isSpace first = false := by
    simp [isSpace, hne]
  rw [hcons, List.cons_append] at hnumber ⊢
  refine scanAllOnto_of_scan? hspace ?_
  rw [scan?.eq_11, hnumber, Option.map_some]
  all_goals exact fun _ heq => hne _ rfl (List.cons.inj heq).1

end Scanner

/-! ## Written values -/

/-- The values that a writer of documents makes, nesting less than `room` deep. -/
inductive IsWritten : Nat → Json → Prop where
  | bool {room : Nat} (value : Bool) : IsWritten room (.bool value)
  | number {room n : Nat} (h : n < UInt64.size) : IsWritten room (.ofNat n)
  | string {room : Nat} (text : List Char) : IsWritten room (.string (JsonLiteral.escape text))
  | array {room : Nat} {items : List Json} (h : ∀ item ∈ items, IsWritten room item) :
    IsWritten (room + 1) (.array items)
  | object {room : Nat} {entries : List (List Char × Json)}
    (hkeys : ∀ entry ∈ entries, ∃ name, entry.1 = JsonLiteral.escape name)
    (h : ∀ entry ∈ entries, IsWritten room entry.2) : IsWritten (room + 1) (.object entries)

/-- At any level and behind any tokens, the text of a value is cut into the tokens of it. -/
def IsCut (value : Json) : Prop :=
  ∀ level before rest, JsonNumber.endsNumber rest →
    JsonToken.scanAllOnto before (value.chars level ++ rest) =
      JsonToken.scanAllOnto (value.tokens.reverse ++ before) rest

section Layout

open JsonToken JsonNumber

theorem endsNumber_blank {blank : List Char} (h : ∀ c ∈ blank, isSpace c) : endsNumber blank := by
  cases blank with
  | nil => rfl
  | cons c rest =>
    have hspace := h c List.mem_cons_self
    simp only [isSpace, Bool.or_eq_true, beq_iff_eq] at hspace
    rcases hspace with ((rfl | rfl) | rfl) | rfl <;> rfl

theorem endsNumber_newLine (level : Nat) (rest : List Char) :
    endsNumber (newLine level ++ rest) := rfl

theorem endsNumber_itemsChars (level : Nat) (items : List Json) {rest : List Char}
    (h : endsNumber rest) : endsNumber (itemsChars level items ++ rest) := by
  cases items with
  | nil => rwa [itemsChars, List.nil_append]
  | cons item items => rw [itemsChars]; rfl

theorem endsNumber_entriesChars (level : Nat) (entries : List (List Char × Json))
    {rest : List Char} (h : endsNumber rest) : endsNumber (entriesChars level entries ++ rest) := by
  cases entries with
  | nil => rwa [entriesChars, List.nil_append]
  | cons entry entries => rw [entriesChars]; rfl

theorem scanAllOnto_itemsChars {items : List Json} (h : ∀ item ∈ items, item.IsCut) (level : Nat)
    (before : List JsonToken) {rest : List Char} (hrest : endsNumber rest) :
    scanAllOnto before (itemsChars level items ++ rest) =
      scanAllOnto ((itemsTokens items).reverse ++ before) rest := by
  induction items generalizing before with
  | nil => rw [itemsChars, itemsTokens]; rfl
  | cons item items ih =>
    obtain ⟨hitem, hitems⟩ := List.forall_mem_cons.1 h
    have hnext := endsNumber_itemsChars level items hrest
    rw [itemsChars, itemsTokens]
    simp only [List.cons_append, List.append_assoc, List.reverse_cons, List.reverse_append,
      List.nil_append]
    rw [scanAllOnto_of_scan? (c := ',') rfl rfl, scanAllOnto_newLine, hitem level _ _ hnext,
      ih hitems]

theorem scanAllOnto_entry {value : Json} (h : value.IsCut) (level : Nat) (name : List Char)
    (before : List JsonToken) {rest : List Char} (hrest : endsNumber rest) :
    scanAllOnto before
        (quoted (JsonLiteral.escape name) ++ ':' :: ' ' :: (value.chars level ++ rest)) =
      scanAllOnto
        (value.tokens.reverse ++ .colon :: .string (JsonLiteral.escape name) :: before) rest := by
  rw [scanAllOnto_quoted, scanAllOnto_of_scan? (c := ':') rfl rfl, scanAllOnto_space rfl,
    h level _ _ hrest]

theorem scanAllOnto_entriesChars {entries : List (List Char × Json)}
    (hkeys : ∀ entry ∈ entries, ∃ name, entry.1 = JsonLiteral.escape name)
    (h : ∀ entry ∈ entries, entry.2.IsCut) (level : Nat) (before : List JsonToken)
    {rest : List Char} (hrest : endsNumber rest) :
    scanAllOnto before (entriesChars level entries ++ rest) =
      scanAllOnto ((entriesTokens entries).reverse ++ before) rest := by
  induction entries generalizing before with
  | nil => rw [entriesChars, entriesTokens]; rfl
  | cons entry entries ih =>
    obtain ⟨key, value⟩ := entry
    obtain ⟨⟨name, (hname : key = _)⟩, hnames⟩ := List.forall_mem_cons.1 hkeys
    obtain ⟨hvalue, hentries⟩ := List.forall_mem_cons.1 h
    have hnext := endsNumber_entriesChars level entries hrest
    rw [entriesChars, entriesTokens, hname]
    simp only [List.cons_append, List.append_assoc, List.reverse_cons, List.reverse_append,
      List.nil_append]
    rw [scanAllOnto_of_scan? (c := ',') rfl rfl, scanAllOnto_newLine,
      scanAllOnto_entry hvalue level name _ hnext, ih hnames hentries]

theorem IsWritten.isCut {room : Nat} {value : Json} (h : value.IsWritten room) : value.IsCut := by
  induction h with
  | bool value =>
    intro level before rest _
    cases value <;> rw [chars, tokens] <;> exact scanAllOnto_of_scan? rfl rfl
  | @number _ n _ =>
    intro level before rest hrest
    have hchars : (ofNat n).chars level = Nat.toDigits 10 n := by
      simp [ofNat, chars, numberChars]
    rw [hchars, scanAllOnto_toDigits before n hrest]
    rfl
  | string text =>
    intro level before rest _
    rw [chars, tokens, scanAllOnto_quoted]
    rfl
  | @array _ items _ ih =>
    intro level before rest _
    cases items with
    | nil =>
      rw [chars, tokens]
      exact (scanAllOnto_of_scan? rfl rfl).trans (scanAllOnto_of_scan? rfl rfl)
    | cons item items =>
      obtain ⟨hitem, hitems⟩ := List.forall_mem_cons.1 ih
      -- Behind the last item stands a line break, behind the others a comma: no number goes on.
      have hend := endsNumber_newLine level (']' :: rest)
      have hnext := endsNumber_itemsChars (level + 1) items hend
      rw [chars, tokens]
      simp only [List.cons_append, List.append_assoc, List.reverse_cons, List.reverse_append,
        List.nil_append, List.reverse_nil]
      rw [scanAllOnto_of_scan? (c := '[') rfl rfl, scanAllOnto_newLine, hitem _ _ _ hnext,
        scanAllOnto_itemsChars hitems _ _ hend, scanAllOnto_newLine,
        scanAllOnto_of_scan? (c := ']') rfl rfl]
  | @object _ entries hkeys _ ih =>
    intro level before rest _
    cases entries with
    | nil =>
      rw [chars, tokens]
      exact (scanAllOnto_of_scan? rfl rfl).trans (scanAllOnto_of_scan? rfl rfl)
    | cons entry entries =>
      obtain ⟨key, value⟩ := entry
      obtain ⟨⟨name, (hname : key = _)⟩, hnames⟩ := List.forall_mem_cons.1 hkeys
      obtain ⟨hvalue, hentries⟩ := List.forall_mem_cons.1 ih
      have hend := endsNumber_newLine level ('}' :: rest)
      have hnext := endsNumber_entriesChars (level + 1) entries hend
      rw [chars, tokens, hname]
      simp only [List.cons_append, List.append_assoc, List.reverse_cons, List.reverse_append,
        List.nil_append, List.reverse_nil]
      rw [scanAllOnto_of_scan? (c := '{') rfl rfl, scanAllOnto_newLine,
        scanAllOnto_entry hvalue _ _ _ hnext, scanAllOnto_entriesChars hnames hentries _ _ hend,
        scanAllOnto_newLine, scanAllOnto_of_scan? (c := '}') rfl rfl]

end Layout

/-- A value is read from its text, whatever white space stands behind it. -/
theorem parse?_chars_append {room : Nat} {value : Json} (h : value.IsWritten room)
    {blank : List Char} (hblank : ∀ c ∈ blank, JsonToken.isSpace c) :
    parse? (.ofList (value.chars 0 ++ blank)) = some value := by
  have hscan : JsonToken.scanAll? (value.chars 0 ++ blank) = some value.tokens := by
    rw [JsonToken.scanAll?, h.isCut 0 [] blank (endsNumber_blank hblank), List.append_nil,
      scanAllOnto_blank hblank, List.reverse_reverse]
  rw [parse?, String.toList_ofList, hscan, Option.bind_some, ofTokens?_tokens]

theorem parse?_pretty {room : Nat} {value : Json} (h : value.IsWritten room) :
    parse? value.pretty = some value := by
  have hparse := parse?_chars_append h (List.forall_mem_nil _)
  rwa [List.append_nil] at hparse

/-! ## What else a written value is -/

theorem allReadable_iff {room : Nat} {items : List Json} :
    allReadable room items ↔ ∀ item ∈ items, item.isReadable room := by
  induction items with
  | nil => simp [allReadable]
  | cons item items ih => simp [allReadable, ih]

theorem allEntriesReadable_iff {room : Nat} {entries : List (List Char × Json)} :
    allEntriesReadable room entries ↔
      ∀ entry ∈ entries, (JsonLiteral.unescape? entry.1).isSome ∧ entry.2.isReadable room := by
  induction entries with
  | nil => simp [allEntriesReadable]
  | cons entry entries ih => simp [allEntriesReadable, ih]

/-- A written value holds nothing that stands in the way of reading all of it. -/
theorem IsWritten.isReadable {room : Nat} {value : Json} (h : value.IsWritten room) :
    value.isReadable room := by
  induction h with
  | bool value => rw [Json.isReadable]
  | number hlt =>
    rw [ofNat, Json.isReadable]
    exact JsonNumber.fitsFloat_toDigits hlt
  | string text => rw [Json.isReadable, JsonLiteral.unescape?_escape]; rfl
  | array _ ih =>
    rw [Json.isReadable]
    exact allReadable_iff.2 ih
  | object hkeys _ ih =>
    rw [Json.isReadable]
    refine allEntriesReadable_iff.2 fun entry hentry => ⟨?_, ih entry hentry⟩
    obtain ⟨name, hname⟩ := hkeys entry hentry
    rw [hname, JsonLiteral.unescape?_escape]
    rfl

theorem IsWritten.mono {room larger : Nat} {value : Json} (h : value.IsWritten room)
    (hle : room ≤ larger) : value.IsWritten larger := by
  induction h generalizing larger with
  | bool value => exact .bool value
  | number hlt => exact .number hlt
  | string text => exact .string text
  | array _ ih =>
    obtain ⟨larger, rfl⟩ := Nat.exists_eq_add_one_of_ne_zero (Nat.ne_of_gt (Nat.zero_lt_of_lt hle))
    exact .array fun item hitem => ih item hitem (Nat.le_of_succ_le_succ hle)
  | object hkeys _ ih =>
    obtain ⟨larger, rfl⟩ := Nat.exists_eq_add_one_of_ne_zero (Nat.ne_of_gt (Nat.zero_lt_of_lt hle))
    exact .object hkeys fun entry hentry => ih entry hentry (Nat.le_of_succ_le_succ hle)

theorem IsWritten.isNull {room : Nat} {value : Json} (h : value.IsWritten room) :
    value.isNull = false := by
  cases h <;> rfl

end Json

end Unmangle
