import Unmangle.Error
import Unmangle.Metadata.TokenMap

/-!
# Following tokens

The table behind a trace maps tokens to definitions. Tokens come from outside, so each lookup can
fail, and it fails with an error that names the token.
-/

namespace Unmangle

/-- All that is known about the types and methods of a trace. -/
structure Metadata where
  types : TokenMap TypeDef := ∅
  methods : TokenMap MethodDef := ∅
deriving Inhabited

namespace Metadata

def insertType (md : Metadata) (token : TypeToken) (definition : TypeDef) : Metadata :=
  { md with types := md.types.insert token.val definition }

def insertMethod (md : Metadata) (token : MethodToken) (definition : MethodDef) : Metadata :=
  { md with methods := md.methods.insert token.val definition }

def typeDef? (md : Metadata) (token : TypeToken) : Option TypeDef :=
  md.types.get? token.val

def methodDef? (md : Metadata) (token : MethodToken) : Option MethodDef :=
  md.methods.get? token.val

/-- The methods that a type declares, in the order of their tokens. -/
def methodsOf (md : Metadata) (type : TypeToken) : List (MethodToken × MethodDef) :=
  md.methods.entries.filterMap fun (token, definition) =>
    if definition.declaringType = type then some (⟨token⟩, definition) else none

/-- A definition with the arguments that an instance of it is given. -/
structure Instantiation where
  definition : TypeToken
  type : NamedType
  args : List TypeToken
deriving DecidableEq, Repr

/-- The definition behind a token: its own, or the one that it is an instance of. -/
def definitionOf (md : Metadata) (token : TypeToken) : Except Error Instantiation :=
  match md.typeDef? token with
  | none => .error (.unknownType token)
  | some (.named type) => .ok ⟨token, type, []⟩
  | some (.genericInstance definition args) =>
    match md.typeDef? definition with
    | some (.named type) => .ok ⟨definition, type, args⟩
    | _ => .error (.unknownType definition)
  | some _ => .error (.unknownType token)

/-- The named type behind a token, arguments aside. -/
def named? (md : Metadata) (token : TypeToken) : Option NamedType :=
  match md.definitionOf token with
  | .ok found => some found.type
  | .error _ => none

/-- The token stands for a definition: for the definition itself, or for an instance of it. -/
inductive StandsFor (md : Metadata) (token : TypeToken) : Instantiation → Prop
  | definition {type : NamedType} (htoken : md.typeDef? token = some (.named type)) :
      StandsFor md token ⟨token, type, []⟩
  | instantiation {definition : TypeToken} {type : NamedType} {args : List TypeToken}
      (htoken : md.typeDef? token = some (.genericInstance definition args))
      (htype : md.typeDef? definition = some (.named type)) :
      StandsFor md token ⟨definition, type, args⟩

theorem definitionOf_eq_ok_iff {md : Metadata} {token : TypeToken} {found : Instantiation} :
    md.definitionOf token = .ok found ↔ md.StandsFor token found := by
  refine ⟨fun h => ?_, fun h => ?_⟩
  · rw [definitionOf] at h
    split at h
    · cases h
    · next htoken =>
        cases h
        exact .definition htoken
    · next htoken =>
        split at h
        · next htype =>
            cases h
            exact .instantiation htoken htype
        · cases h
    · cases h
  · cases h with
    | definition htoken => rw [definitionOf, htoken]
    | instantiation htoken htype =>
        rw [definitionOf, htoken]
        dsimp only
        rw [htype]

theorem StandsFor.typeDef?_definition {md : Metadata} {token : TypeToken} {found : Instantiation}
    (h : md.StandsFor token found) : md.typeDef? found.definition = some (.named found.type) := by
  cases h with
  | definition htoken => exact htoken
  | instantiation _ htype => exact htype

theorem named?_eq_some_iff {md : Metadata} {token : TypeToken} {type : NamedType} :
    md.named? token = some type ↔ ∃ found, md.StandsFor token found ∧ found.type = type := by
  simp only [← definitionOf_eq_ok_iff]
  rw [named?]
  cases md.definitionOf token with
  | ok found => simp
  | error error => simp

theorem named?_of_named {md : Metadata} {token : TypeToken} {type : NamedType}
    (h : md.typeDef? token = some (.named type)) : md.named? token = some type := by
  rw [named?, definitionOf, h]

theorem mem_methodsOf_iff {md : Metadata} {type : TypeToken} {entry : MethodToken × MethodDef} :
    entry ∈ md.methodsOf type ↔
      (entry.1.val, entry.2) ∈ md.methods.entries ∧ entry.2.declaringType = type := by
  rw [methodsOf, List.mem_filterMap]
  constructor
  · rintro ⟨⟨token, definition⟩, hmem, hentry⟩
    dsimp only at hentry
    split at hentry
    · next htype =>
        cases hentry
        exact ⟨hmem, htype⟩
    · cases hentry
  · rintro ⟨hmem, htype⟩
    exact ⟨(entry.1.val, entry.2), hmem, if_pos htype⟩

end Metadata

end Unmangle
