import Unmangle.Metadata.Basic

/-!
# Types as the source spells them

A type that is ready to be shown holds no tokens: all that was to be looked up has been looked up,
and what could not be found is a mark in its place.
-/

namespace Unmangle

mutual

/-- A type ready to be shown. -/
inductive SourceType where
  /-- A named type, the outermost of its segments first. -/
  | named (space : Option String) (segments : List TypeSegment)
  /-- A primitive type: its keyword, and its name with the namespace. -/
  | primitive (keyword : String) (fullName : String)
  /-- A generic parameter that nothing is bound to. -/
  | genericParam (name : String)
  | array (element : SourceType) (rank : Nat)
  | pointer (element : SourceType)
  | byRef (element : SourceType)
  | nullable (element : SourceType)
  | tuple (elements : List SourceType)
  /-- The type written `dynamic`. -/
  | dynamic
  /-- The type of no value, which never shows as a parameter. -/
  | foreignUnit
  /-- Something that the metadata does not know. -/
  | unresolved
  /-- The place where a guard stopped the resolution. -/
  | truncated

/-- One name of a nested type, with the generic arguments that are its own. -/
inductive TypeSegment where
  | mk (name : String) (args : List SourceType)

end

deriving instance Repr, Inhabited for SourceType
deriving instance Repr, Inhabited for TypeSegment

namespace TypeSegment

def name : TypeSegment → String
  | mk name _ => name

def args : TypeSegment → List SourceType
  | mk _ args => args

end TypeSegment

namespace SourceType

def isForeignUnit : SourceType → Bool
  | foreignUnit => true
  | _ => false

def isGenericParam : SourceType → Bool
  | genericParam _ => true
  | _ => false

end SourceType

end Unmangle
