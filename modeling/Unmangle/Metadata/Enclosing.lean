import Unmangle.Metadata.Lookup
import Unmangle.Metadata.Traits

/-!
# Searching outward

The method that a hoisted body came from is declared on the type around the body or on a type
around that one. Declaring types may run in circles, so the search stops at the first type it has
met before, and at a fixed number of types in any case.
-/

namespace Unmangle.Metadata

/-- How many types one search looks at. -/
def maxEnclosingSearch : Nat := 10

/-- Up to `room` types outward from `start`, none of them in `met`. -/
def enclosingFrom (md : Metadata) : Nat → List TypeToken → TypeToken → List TypeToken
  | 0, _, _ => []
  | room + 1, met, start =>
    if start ∈ met then []
    else
      start ::
        match (md.named? start).bind (·.declaringType) with
        | some outer => enclosingFrom md room (start :: met) outer
        | none => []

/-- A type and the types around it, innermost first. -/
def enclosingTypes (md : Metadata) (start : TypeToken) : List TypeToken :=
  md.enclosingFrom maxEnclosingSearch [] start

/-- Of the methods of one name, the one of the wanted ordinal, else the first. -/
def pickByOrdinal (candidates : List (MethodToken × MethodDef)) (hint : Option UInt32) :
    Option (MethodToken × MethodDef) :=
  match hint with
  | some ordinal =>
    (candidates.find? fun (_, definition) => definition.ordinal == some ordinal).or candidates.head?
  | none => candidates.head?

theorem mem_of_pickByOrdinal {candidates : List (MethodToken × MethodDef)} {hint : Option UInt32}
    {found : MethodToken × MethodDef} (h : pickByOrdinal candidates hint = some found) :
    found ∈ candidates := by
  cases hint with
  | none => exact List.mem_of_head? h
  | some ordinal =>
      rcases Option.or_eq_some_iff.1 h with hfind | ⟨-, hhead⟩
      · exact List.mem_of_find?_eq_some hfind
      · exact List.mem_of_head? hhead

/-- Where there is no choice the ordinal does not matter. -/
theorem pickByOrdinal_singleton (candidate : MethodToken × MethodDef) (hint : Option UInt32) :
    pickByOrdinal [candidate] hint = some candidate := by
  cases hint with
  | none => rfl
  | some ordinal =>
      rw [pickByOrdinal, List.find?_singleton]
      dsimp only
      split
      · rfl
      · rfl

/-- The method of a name on the innermost type that has one, chosen by ordinal. -/
def findByName (md : Metadata) (start : TypeToken) (name : String) (hint : Option UInt32) :
    Option (MethodToken × MethodDef) :=
  (md.enclosingTypes start).findSome? fun type =>
    pickByOrdinal ((md.methodsOf type).filter fun (_, definition) => definition.name == name) hint

/-- The innermost method whose body lives in the state machine `machine`. -/
def findStateMachineOwner (md : Metadata) (start machine : TypeToken) :
    Option (MethodToken × MethodDef) :=
  (md.enclosingTypes start).findSome? fun type =>
    (md.methodsOf type).find? fun (_, definition) =>
      definition.stateMachine.any (·.machine == machine)

/-- A named type that someone wrote: neither flagged nor named as made by the compiler. -/
def isUserType (md : Metadata) (token : TypeToken) : Bool :=
  (md.named? token).any fun type =>
    !type.compilerGenerated && (GeneratedName.parse? type.name).isNone

/-- The innermost type outward from `start` that someone wrote, or `start` if there is none. -/
def nearestUserType (md : Metadata) (start : TypeToken) : TypeToken :=
  ((md.enclosingTypes start).find? md.isUserType).getD start

end Unmangle.Metadata
