import Unmangle.Metadata.Basic

/-!
# What can go wrong

Rendering never fails: whatever is missing shows as a mark in the text. The errors below are for
the other questions: is this token known, is this text a document, can the file be read. Each has
one wording and one number, and the number is the exit code of the program.
-/

namespace Unmangle

inductive Error where
  | unknownType (token : TypeToken)
  | unknownMethod (token : MethodToken)
  | unrecognizedName (name : String)
  | depthExceeded (limit : UInt64) (activity : String)
  | unknownException (id : Nat)
  /-- The text of a document or of a file of options is not JSON of the right shape. -/
  | malformedDocument
  /-- The document has the right shape but contradicts itself. -/
  | invalidDocument (reason : String)
  | invalidArguments (reason : String)
  | io (reason : String)
  | internal (reason : String)
deriving DecidableEq, Repr

namespace Error

def message : Error → String
  | unknownType token => s!"unknown type token type#{token.val}"
  | unknownMethod token => s!"unknown method token method#{token.val}"
  | unrecognizedName name => s!"unrecognized generated name '{name}'"
  | depthExceeded limit activity => s!"depth limit {limit} exceeded while {activity}"
  | unknownException id => s!"unknown exception #{id}"
  | malformedDocument => "invalid trace document"
  | invalidDocument reason => s!"invalid trace document: {reason}"
  | invalidArguments reason => s!"invalid arguments: {reason}"
  | io reason => s!"IO error: {reason}"
  | internal reason => s!"internal error: {reason}"

/-- 2 for bad input, 3 for what is not there, 4 for reading and writing, 10 for the rest. -/
def code : Error → Nat
  | malformedDocument | invalidDocument _ | invalidArguments _ => 2
  | unknownType _ | unknownMethod _ | unrecognizedName _ | unknownException _ => 3
  | io _ => 4
  | depthExceeded _ _ | internal _ => 10

end Error

end Unmangle
