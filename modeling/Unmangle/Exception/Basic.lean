import Unmangle.Metadata.Basic

/-!
# Captured exceptions

A trace as the runtime reports it: the frames of one exception, and the exceptions that it holds.
Links go by number, so that a corrupt trace, where an exception leads back to itself, is a value
like any other.
-/

namespace Unmangle

/-- One frame of a stack, by its tokens. -/
structure Frame where
  /-- The type of the frame; as an instance it brings the arguments of the type. -/
  declaringType : TypeToken
  method : MethodToken
  /-- The types of the arguments at run time; they go before the declared ones. -/
  parameterTypes : List TypeToken := []
  /-- The arguments of a generic method. -/
  methodGenericArgs : List TypeToken := []
  file : Option String := none
  line : Option UInt32 := none
  column : Option UInt32 := none
  /-- The last frame before the exception was thrown again by a task. -/
  isLastInChain : Bool := false
deriving DecidableEq, Repr

/-- The frames of one exception, the outermost call last. -/
structure StackTrace where
  frames : List Frame := []
  /-- How many frames were not captured. -/
  omittedFrames : UInt64 := 0
deriving DecidableEq, Repr, Inhabited

def StackTrace.isEmpty (trace : StackTrace) : Bool :=
  trace.frames.isEmpty && trace.omittedFrames == 0

/-- The place of an exception in its graph. -/
abbrev ExceptionId := Nat

/-- One exception with its links. -/
structure ExceptionRecord where
  typeName : String
  message : String := ""
  trace : StackTrace := {}
  /-- The exception that caused this one. -/
  inner : Option ExceptionId := none
  /-- The exceptions gathered in this one. -/
  children : List ExceptionId := []
  /-- The text of the trace as last rendered. -/
  renderedTrace : Option String := none
deriving DecidableEq, Repr, Inhabited

/-- The linked exceptions in the order in which they show: the cause comes last, unless it is
among the children anyway. -/
def ExceptionRecord.nested (record : ExceptionRecord) : List ExceptionId :=
  match record.inner with
  | some inner =>
    if inner ∈ record.children then record.children else record.children ++ [inner]
  | none => record.children

theorem ExceptionRecord.mem_nested {record : ExceptionRecord} {link : ExceptionId} :
    link ∈ record.nested ↔ link ∈ record.children ∨ record.inner = some link := by
  rw [ExceptionRecord.nested]
  cases record.inner with
  | none => simp
  | some inner =>
    simp only [Option.some.injEq]
    split
    · next hinner =>
      constructor
      · exact .inl
      · rintro (hlink | rfl)
        · exact hlink
        · exact hinner
    · rw [List.mem_append, List.mem_singleton, eq_comm (a := link)]

end Unmangle
