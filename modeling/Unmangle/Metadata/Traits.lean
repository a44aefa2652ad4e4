import Unmangle.GeneratedName.Basic
import Unmangle.Metadata.Basic

/-!
# Types and methods with a role of their own

State machines are told by the interfaces they implement or, failing that, by their names. A few
types of the library and all primitive types have a spelling of their own in the source. Methods
are constructors or not by their names.
-/

namespace Unmangle

namespace NamedType

def asyncStateMachine : String := "System.Runtime.CompilerServices.IAsyncStateMachine"

def enumerator : String := "System.Collections.IEnumerator"

/-- The kind of state machine that the interfaces of a type make it. -/
def stateMachineKind? (type : NamedType) : Option StateMachineKind :=
  match type.implements asyncStateMachine, type.implements enumerator with
  | true, true => some .asyncIterator
  | true, false => some .async
  | false, true => some .iterator
  | false, false => none

/-- The name of a type read as the name of a state machine. -/
def asStateMachineName? (type : NamedType) : Option GeneratedName :=
  (GeneratedName.parse? type.name).filter (·.kind == .stateMachine)

/-- A state machine, by its interfaces or by its name. -/
def isStateMachine (type : NamedType) : Bool :=
  type.stateMachineKind?.isSome || type.asStateMachineName?.isSome

/-- The type by which F# says that there is no value. -/
def isForeignUnit (type : NamedType) : Bool :=
  type.name == "Unit" && type.module == some "FSharp.Core.dll"

/-- The wrapper written `T?`. -/
def isNullable (type : NamedType) : Bool :=
  type.space == some "System" && type.name == "Nullable`1"

/-- A tuple of values, written `(A, B)`. -/
def isValueTuple (type : NamedType) : Bool :=
  type.space == some "System" && "ValueTuple`".toList.isPrefixOf type.name.toList

/-- The keywords for the types of namespace `System` that have one. -/
def keywords : List (String × String) :=
  [("Void", "void"), ("Boolean", "bool"), ("Byte", "byte"), ("SByte", "sbyte"), ("Char", "char"),
   ("Decimal", "decimal"), ("Double", "double"), ("Single", "float"), ("Int16", "short"),
   ("UInt16", "ushort"), ("Int32", "int"), ("UInt32", "uint"), ("Int64", "long"),
   ("UInt64", "ulong"), ("Object", "object"), ("String", "string")]

/-- The keyword for a type, if it is a primitive one. -/
def keyword? (type : NamedType) : Option String :=
  if type.space == some "System" then keywords.lookup type.name else none

/-- The name with its namespace in front, if that is not empty. -/
def qualifiedName (type : NamedType) : String :=
  match type.space with
  | some space => if space.isEmpty then type.name else s!"{space}.{type.name}"
  | none => type.name

end NamedType

/-- What the source calls a method of some name. -/
inductive MethodKind where
  | method
  | constructor
  | staticConstructor
deriving DecidableEq, Repr

def MethodKind.ofName (name : String) : MethodKind :=
  if name == ".ctor" then .constructor
  else if name == ".cctor" then .staticConstructor
  else .method

end Unmangle
