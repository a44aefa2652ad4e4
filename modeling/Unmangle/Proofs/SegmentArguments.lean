import Unmangle.Proofs.TypeNodes
import Mathlib.Algebra.Order.Ring.Nat
import Mathlib.Data.List.Chain
import Mathlib.Data.List.TakeDrop
import Mathlib.Data.List.Forall2

/-!
# How arguments come to the segments of a nested name

The metadata gives a nested type all arguments in one list, those of the types around it first. The
source writes them where they belong, `Map<K, V>.Cursor<S>`, and what tells how many belong where is
the number behind the backtick in each name. The names may lie: there may be no number, or one that
cannot be read, or one larger than the list is long, and declaring types may run in circles.

Whatever the names say, no argument is lost, doubled or moved, since each segment takes from the
front of what the ones before it have left, and the last takes the rest. So the lengths say it all,
and they are what `IsDealt` speaks of. What a name asks for is said by `AsksFor`, by the characters
of the name and not by the reader, and the types around a type by `IsDeclaringChain`.
-/

namespace Unmangle

/-! ## What a name asks for -/

/-- The name ends in a backtick and a number: ASCII digits, perhaps behind a plus sign, that fit 64
bits. -/
def EndsInArity (name base : String) (arity : Nat) : Prop :=
  ∃ (isSigned : Bool) (digits : List Char),
    name.toList = base.toList ++ '\x60' :: ((if isSigned then ['+'] else []) ++ digits) ∧
      digits ≠ [] ∧ (∀ c ∈ digits, '0' ≤ c ∧ c ≤ '9') ∧
      Nat.ofDigitChars 10 digits 0 = arity ∧ arity < UInt64.size

/-- A name without its arity, and the number of arguments it asks for, which is none for a name that
ends in no arity. -/
inductive AsksFor (name : String) : String → Nat → Prop
  | arity {base : String} {count : Nat} (h : EndsInArity name base count) : AsksFor name base count
  | nothing (h : ∀ base count, ¬ EndsInArity name base count) : AsksFor name name 0

theorem splitAtLastTick?_eq_some_iff {name base count : List Char} :
    splitAtLastTick? name = some (base, count) ↔
      name = base ++ '\x60' :: count ∧ '\x60' ∉ count := by
  have hspan := List.span_eq_takeWhile_dropWhile (· != '\x60') name.reverse
  refine ⟨fun h => ?_, ?_⟩
  · rw [splitAtLastTick?, hspan] at h
    split at h
    · cases h
    · next run tick rest hpair =>
        cases h
        obtain ⟨hname, hrun, hstop⟩ := Text.takeWhile_dropWhile_eq_iff.1 hpair
        obtain rfl : tick = '\x60' := by simpa using hstop tick rfl
        refine ⟨?_, fun htick => ?_⟩
        · rw [← List.reverse_inj, hname]
          simp
        · simpa using hrun '\x60' (List.mem_reverse.1 htick)
  · rintro ⟨rfl, htick⟩
    have hpair : (base ++ '\x60' :: count).reverse.span (· != '\x60') =
        (count.reverse, '\x60' :: base.reverse) := by
      refine hspan.trans (Text.takeWhile_dropWhile_eq_iff.2 ⟨by simp, fun c hc => ?_, by simp⟩)
      exact bne_iff_ne.2 fun heq => htick (heq ▸ List.mem_reverse.1 hc)
    rw [splitAtLastTick?, hpair]
    simp

theorem splitArity_eq_some_iff {name base : String} {arity : Nat} :
    splitArity name = (base, some arity) ↔ EndsInArity name base arity := by
  have hread : ∀ {text : List Char}, Text.count? text = some arity ↔
      ∃ (isSigned : Bool) (digits : List Char),
        text = (if isSigned then ['+'] else []) ++ digits ∧ digits ≠ [] ∧
          (∀ c ∈ digits, '0' ≤ c ∧ c ≤ '9') ∧ Nat.ofDigitChars 10 digits 0 = arity ∧
          arity < UInt64.size := by
    intro text
    simp only [Text.count?_eq_some_iff, Text.digitsBelow?_eq_some_iff, Text.isDigit_iff]
  refine ⟨fun h => ?_, ?_⟩
  · rw [splitArity] at h
    split at h
    · cases h
    · next before count hsplit =>
        obtain ⟨hname, -⟩ := splitAtLastTick?_eq_some_iff.1 hsplit
        split at h
        · next found hfound =>
            cases h
            obtain ⟨isSigned, digits, rfl, hdigits⟩ := hread.1 hfound
            refine ⟨isSigned, digits, ?_, hdigits⟩
            rw [hname, String.toList_ofList]
        · cases h
  · rintro ⟨isSigned, digits, hname, hne, hdigits, hvalue, hbound⟩
    -- No backtick stands in a number, so the one in front of it is the last.
    have htick : '\x60' ∉ (if isSigned then ['+'] else []) ++ digits := by
      intro hmem
      rcases List.mem_append.1 hmem with hsign | hmem
      · cases isSigned with
        | true => exact absurd (List.mem_singleton.1 hsign) (by decide)
        | false => cases hsign
      · exact absurd (hdigits '\x60' hmem) (by decide)
    rw [splitArity, splitAtLastTick?_eq_some_iff.2 ⟨hname, htick⟩]
    simp only
    rw [hread.2 ⟨isSigned, digits, rfl, hne, hdigits, hvalue, hbound⟩, String.ofList_toList]

theorem splitArity_fst_of_none {name : String} (h : (splitArity name).2 = none) :
    (splitArity name).1 = name := by
  rw [splitArity] at h ⊢
  split
  · rfl
  · next before count hsplit =>
      rw [hsplit] at h
      split
      · next hcount =>
          simp only [hcount] at h
          cases h
      · rfl

/-- The number of arguments that a type asks for in its name. -/
def NamedType.ownArity (type : NamedType) : Nat := (splitArity type.name).2.getD 0

theorem asksFor_iff {type : NamedType} {base : String} {count : Nat} :
    AsksFor type.name base count ↔ base = (splitArity type.name).1 ∧ count = type.ownArity := by
  rw [NamedType.ownArity]
  cases hsplit : (splitArity type.name).2 with
  | some arity =>
      have hends : EndsInArity type.name (splitArity type.name).1 arity :=
        splitArity_eq_some_iff.1 (Prod.ext rfl hsplit)
      refine ⟨fun h => ?_, ?_⟩
      · cases h with
        | arity h =>
            rw [splitArity_eq_some_iff.2 h] at hsplit ⊢
            cases hsplit
            exact ⟨rfl, rfl⟩
        | nothing h => exact absurd hends (h _ _)
      · rintro ⟨rfl, rfl⟩
        exact .arity hends
  | none =>
      have hbase := splitArity_fst_of_none hsplit
      refine ⟨fun h => ?_, ?_⟩
      · cases h with
        | arity h =>
            rw [splitArity_eq_some_iff.2 h] at hsplit
            cases hsplit
        | nothing h => exact ⟨hbase.symm, rfl⟩
      · rintro ⟨rfl, rfl⟩
        rw [hbase]
        refine .nothing fun base count h => ?_
        rw [splitArity_eq_some_iff.2 h] at hsplit
        cases hsplit

/-! ## The types around a type -/

namespace Metadata

variable {md : Metadata} {type outer : NamedType} {room : Nat} {args : List SourceType}

def IsNestedIn (md : Metadata) (inner outer : NamedType) : Prop :=
  ∃ token, inner.declaringType = some token ∧ md.typeDef? token = some (.named outer)

/-- A type and the types around it, innermost first. Nothing but the bound cuts the chain short, and
it repeats itself up to the bound where declaring types run in a circle. -/
structure IsDeclaringChain (md : Metadata) (type : NamedType) (chain : List NamedType) : Prop where
  starts : chain.head? = some type
  outward : chain.IsChain md.IsNestedIn
  length_le : chain.length ≤ maxTypeDepth
  ends : chain.length < maxTypeDepth →
    ∀ last ∈ chain.getLast?, ∀ outer, ¬ md.IsNestedIn last outer

theorem declaringChain_of_nested (h : md.IsNestedIn type outer) :
    md.declaringChain (room + 1) type = type :: md.declaringChain room outer := by
  obtain ⟨token, htoken, houter⟩ := h
  rw [declaringChain, htoken, Option.bind_some, houter]

theorem declaringChain_of_outermost (h : ∀ outer, ¬ md.IsNestedIn type outer) :
    md.declaringChain (room + 1) type = [type] := by
  rw [declaringChain]
  split
  · next outer heq => exact absurd (Option.bind_eq_some_iff.1 heq) (h outer)
  · rfl

theorem exists_declaringChain_eq_cons (md : Metadata) (room : Nat) (type : NamedType) :
    ∃ outward, md.declaringChain room type = type :: outward := by
  cases room with
  | zero => exact ⟨[], rfl⟩
  | succ room => exact ⟨_, rfl⟩

/-- A type is nested in nothing, or in a type around which the chain goes on. -/
theorem declaringChain_induction (md : Metadata)
    {motive : Nat → NamedType → List NamedType → Prop}
    (full : ∀ type, motive 0 type [type])
    (outermost : ∀ room type, (∀ outer, ¬ md.IsNestedIn type outer) →
      motive (room + 1) type [type])
    (nested : ∀ room type outer, md.IsNestedIn type outer →
      motive room outer (md.declaringChain room outer) →
      motive (room + 1) type (type :: md.declaringChain room outer))
    (room : Nat) (type : NamedType) : motive room type (md.declaringChain room type) := by
  induction room generalizing type with
  | zero => exact full type
  | succ room ih =>
      by_cases h : ∃ outer, md.IsNestedIn type outer
      · obtain ⟨outer, houter⟩ := h
        rw [declaringChain_of_nested houter]
        exact nested room type outer houter (ih outer)
      · rw [not_exists] at h
        rw [declaringChain_of_outermost h]
        exact outermost room type h

theorem length_declaringChain_le (room : Nat) (type : NamedType) :
    (md.declaringChain room type).length ≤ room + 1 := by
  induction room, type using declaringChain_induction md with
  | full type => simp
  | outermost room type h => simp
  | nested room type outer h ih => simpa using ih

theorem isChain_declaringChain (room : Nat) (type : NamedType) :
    (md.declaringChain room type).IsChain md.IsNestedIn := by
  induction room, type using declaringChain_induction md with
  | full type => exact .singleton type
  | outermost room type h => exact .singleton type
  | nested room type outer h ih =>
      obtain ⟨outward, heq⟩ := exists_declaringChain_eq_cons md room outer
      rw [heq] at ih ⊢
      exact .cons_cons h ih

theorem outermost_declaringChain (room : Nat) (type : NamedType) :
    (md.declaringChain room type).length < room + 1 →
      ∀ last ∈ (md.declaringChain room type).getLast?, ∀ outer, ¬ md.IsNestedIn last outer := by
  induction room, type using declaringChain_induction md with
  | full type => simp
  | outermost room type h =>
      intro _ last hlast
      obtain rfl : type = last := by simpa using hlast
      exact h
  | nested room type outer h ih =>
      intro hlength last hlast
      rw [List.getLast?_cons_of_ne_nil (declaringChain_ne_nil room)] at hlast
      exact ih (by simpa using hlength) last hlast

theorem isDeclaringChain_declaringChain (type : NamedType) :
    md.IsDeclaringChain type (md.declaringChain (maxTypeDepth - 1) type) where
  starts := by
    obtain ⟨outward, heq⟩ := exists_declaringChain_eq_cons md (maxTypeDepth - 1) type
    rw [heq, List.head?_cons]
  outward := isChain_declaringChain _ type
  length_le := length_declaringChain_le _ type
  ends := outermost_declaringChain _ type

/-! ## The segments -/

/-- The arguments of a chain, outermost first, as its segments hold them. -/
structure IsDealt (chain : List NamedType) (args : List SourceType) (segments : List TypeSegment) :
    Prop where
  named : chain.Forall₂ (fun type segment => ∃ count, AsksFor type.name segment.name count) segments
  whole : segments.flatMap (·.args) = args
  /-- Any segment but the last holds the first of what there is from it on. -/
  takes : ∀ before segment after, segments = before ++ segment :: after → after ≠ [] →
    ∀ type ∈ chain[before.length]?, ∀ base count, AsksFor type.name base count →
      segment.args = ((segment :: after).flatMap (·.args)).take count
  /-- Names that ask for all there is are all given what they ask for. -/
  exact : ∀ counts, chain.Forall₂ (fun type count => ∃ base, AsksFor type.name base count) counts →
    counts.sum = args.length → segments.map (·.args.length) = counts

theorem dealArguments_cons_cons (type next : NamedType) (inner : List NamedType)
    (args : List SourceType) :
    dealArguments (type :: next :: inner) args =
      .mk (splitArity type.name).1 (args.take type.ownArity) ::
        dealArguments (next :: inner) (args.drop type.ownArity) := rfl

theorem forall₂_dealArguments (chain : List NamedType) (args : List SourceType) :
    chain.Forall₂ (fun type segment => ∃ count, AsksFor type.name segment.name count)
      (dealArguments chain args) := by
  have hnames : (chain.map fun type => (splitArity type.name).1).Forall₂ (· = ·)
      ((dealArguments chain args).map (·.name)) := by
    rw [name_dealArguments]
    exact List.forall₂_refl _
  rw [List.forall₂_map_left_iff, List.forall₂_map_right_iff] at hnames
  exact hnames.imp fun type segment heq => ⟨_, asksFor_iff.2 ⟨heq.symm, rfl⟩⟩

theorem takes_dealArguments {before after : List TypeSegment} {segment : TypeSegment}
    (hafter : after ≠ []) : ∀ {chain : List NamedType} {args : List SourceType},
      dealArguments chain args = before ++ segment :: after → ∀ type ∈ chain[before.length]?,
        segment.args = ((segment :: after).flatMap (·.args)).take type.ownArity := by
  induction before with
  | nil =>
      intro chain args h type htype
      rw [List.nil_append] at h
      cases chain with
      | nil => cases h
      | cons outermost inner =>
          obtain rfl : outermost = type := by simpa using htype
          have hwhole := args_dealArguments (List.cons_ne_nil outermost inner) args
          rw [h] at hwhole
          rw [hwhole]
          cases inner with
          | nil =>
              cases h
              exact absurd rfl hafter
          | cons next inner =>
              rw [dealArguments_cons_cons, List.cons.injEq] at h
              rw [← h.1, TypeSegment.args]
  | cons first before ih =>
      intro chain args h type htype
      cases chain with
      | nil => cases h
      | cons outermost inner =>
          cases inner with
          | nil => simp [dealArguments] at h
          | cons next inner =>
              rw [dealArguments_cons_cons, List.cons_append, List.cons.injEq] at h
              exact ih h.2 type (by simpa using htype)

theorem lengths_dealArguments : ∀ (chain : List NamedType) (args : List SourceType),
    chain ≠ [] → (chain.map (·.ownArity)).sum = args.length →
      (dealArguments chain args).map (·.args.length) = chain.map (·.ownArity)
  | [], _, hne, _ => absurd rfl hne
  | [type], args, _, hsum => by simpa [dealArguments, TypeSegment.args] using hsum.symm
  | type :: next :: inner, args, _, hsum => by
    rw [List.map_cons, List.sum_cons] at hsum
    rw [dealArguments_cons_cons, List.map_cons, List.map_cons,
      lengths_dealArguments (next :: inner) _ (List.cons_ne_nil _ _)
        (by rw [List.length_drop]; omega),
      TypeSegment.args, List.length_take]
    congr 1
    omega

theorem isDealt_dealArguments {chain : List NamedType} (h : chain ≠ []) (args : List SourceType) :
    IsDealt chain args (dealArguments chain args) where
  named := forall₂_dealArguments chain args
  whole := args_dealArguments h args
  takes := by
    intro before segment after heq hafter type htype base count hasks
    rw [(asksFor_iff.1 hasks).2]
    exact takes_dealArguments hafter heq type htype
  exact := by
    intro counts hcounts hsum
    obtain rfl : chain.map (·.ownArity) = counts := by
      refine List.forall₂_eq_eq_eq ▸ List.forall₂_map_left_iff.2 (hcounts.imp ?_)
      rintro type count ⟨base, hasks⟩
      exact (asksFor_iff.1 hasks).2.symm
    exact lengths_dealArguments chain args h hsum

theorem resolveNamed_eq_spellNested {space : Option String} {segments : List TypeSegment}
    (h : md.resolveNamed type args = .named space segments) :
    md.spellNested type args = .named space segments := by
  have hspelling := spelling_resolveNamed md type args
  rw [h] at hspelling
  cases hspelling with
  | nested hnested => exact hnested

/-- A definition that is spelled by its declaring types is spelled by all of them, up to the bound,
and each of them is dealt its arguments. -/
theorem arguments_are_dealt {space : Option String} {segments : List TypeSegment}
    (h : md.resolveNamed type args = .named space segments) :
    ∃ chain, md.IsDeclaringChain type chain ∧
      space = chain.getLast?.bind (·.space) ∧
      IsDealt chain.reverse
        (if args = [] then type.genericParams.map .genericParam else args) segments := by
  have hspell := resolveNamed_eq_spellNested h
  rw [spellNested] at hspell
  simp only [List.isEmpty_iff, List.head?_reverse] at hspell
  cases hspell
  refine ⟨_, isDeclaringChain_declaringChain type, rfl, ?_⟩
  exact isDealt_dealArguments (mt List.reverse_eq_nil_iff.1 (declaringChain_ne_nil _)) _

/-- A cursor over the keys of a map. The name of the type in the middle ends in no number. -/
def cursor : NamedType := { name := "Cursor\x601", declaringType := some ⟨2⟩ }

def cursorTypes : Metadata :=
  (({} : Metadata).insertType ⟨1⟩ (.named { name := "Map\x602", space := some "Lib" }))
    |>.insertType ⟨2⟩ (.named { name := "Keys\x60two", declaringType := some ⟨1⟩ })

def cursorSegments : List TypeSegment :=
  [.mk "Map" [.genericParam "K", .genericParam "V"], .mk "Keys\x60two" [],
    .mk "Cursor" [.genericParam "S"]]

theorem arguments_of_cursor :
    cursorTypes.resolveNamed cursor [.genericParam "K", .genericParam "V", .genericParam "S"] =
      .named (some "Lib") cursorSegments ∧
    ∃ chain, cursorTypes.IsDeclaringChain cursor chain ∧
      some "Lib" = chain.getLast?.bind (·.space) ∧
      IsDealt chain.reverse [.genericParam "K", .genericParam "V", .genericParam "S"]
        cursorSegments :=
  have h : cursorTypes.resolveNamed cursor
      [.genericParam "K", .genericParam "V", .genericParam "S"] =
        .named (some "Lib") cursorSegments := rfl
  ⟨h, arguments_are_dealt h⟩

end Metadata

end Unmangle
