/-!
# What the runtime knows about types and methods

A stack frame names its type and its method by tokens. The definitions behind the tokens are given
here, as the runtime describes them and before any decision on how to show them: a type is a
definition of its own or a shape built from other tokens, and nothing promises that a token leads
anywhere.
-/

namespace Unmangle

/-- A handle on a type definition or on a shape of types. -/
structure TypeToken where
  val : UInt32
deriving DecidableEq, Repr, Inhabited

/-- A handle on a method definition. -/
structure MethodToken where
  val : UInt32
deriving DecidableEq, Repr, Inhabited

/-- Who declares a generic parameter. -/
inductive GenericOwner where
  | type
  | method
deriving DecidableEq, Repr

/--
A definition of a class, a struct or an interface. The name is the one of the metadata: it may
end in an arity and it may be one that the compiler made up.
-/
structure NamedType where
  name : String
  space : Option String := none
  /-- The type that a nested type is nested in. -/
  declaringType : Option TypeToken := none
  /-- The generic parameters, those taken over from the declaring types first. -/
  genericParams : List String := []
  /-- The file of the assembly that holds the type. -/
  module : Option String := none
  /-- Full names of the interfaces. -/
  interfaces : List String := []
  compilerGenerated : Bool := false
deriving DecidableEq, Repr, Inhabited

/-- What a type token stands for. -/
inductive TypeDef where
  | named (type : NamedType)
  | genericInstance (definition : TypeToken) (args : List TypeToken)
  | genericParam (name : String) (owner : GenericOwner) (position : UInt64)
  | array (element : TypeToken) (rank : UInt32)
  | pointer (element : TypeToken)
  | byRef (element : TypeToken)
deriving DecidableEq, Repr

/-- How an argument is passed. -/
inductive ParamModifier where
  | ref
  | out
  | in
  | params
deriving DecidableEq, Repr

/-- The keyword for a way of passing. -/
def ParamModifier.keyword : ParamModifier → String
  | .ref => "ref"
  | .out => "out"
  | .in => "in"
  | .params => "params"

/-- A declared parameter. -/
structure ParamDef where
  name : Option String := none
  type : TypeToken
  modifier : Option ParamModifier := none
  /-- Declared as `dynamic`. -/
  isDynamic : Bool := false
deriving DecidableEq, Repr

/-- The kinds of state machine that a compiler turns a method body into. -/
inductive StateMachineKind where
  | async
  | iterator
  | asyncIterator
deriving DecidableEq, Repr

namespace StateMachineKind

def isAsync : StateMachineKind → Bool
  | .async | .asyncIterator => true
  | .iterator => false

def isIterator : StateMachineKind → Bool
  | .iterator | .asyncIterator => true
  | .async => false

end StateMachineKind

/-- The note on a method that its body lives in a state machine type. -/
structure StateMachineAttr where
  kind : StateMachineKind
  machine : TypeToken
deriving DecidableEq, Repr

/-- A method definition. -/
structure MethodDef where
  name : String
  declaringType : TypeToken
  genericParams : List String := []
  parameters : List ParamDef := []
  stateMachine : Option StateMachineAttr := none
  /-- The number by which generated names refer to this method. -/
  ordinal : Option UInt32 := none
deriving DecidableEq, Repr

/-- Does the type list this interface, by its full name? -/
def NamedType.implements (type : NamedType) (interface : String) : Bool :=
  type.interfaces.contains interface

end Unmangle
