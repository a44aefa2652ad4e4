import Unmangle.Exception.Graph
import Unmangle.Metadata.Lookup

/-!
# Trace documents

A document holds all that one rendering needs: the metadata, the exceptions and the one to start
from. It is accepted only if none of its links leads out of it.
-/

namespace Unmangle

structure Document where
  metadata : Metadata := {}
  exceptions : ExceptionGraph
  root : ExceptionId := 0

/-- What makes a document contradict itself. -/
inductive Violation where
  | rootOutOfRange (root : ExceptionId) (count : Nat)
  | danglingLink (id link : ExceptionId)
deriving DecidableEq, Repr

def Violation.message : Violation → String
  | rootOutOfRange root count => s!"root exception #{root} out of range ({count} exceptions)"
  | danglingLink id link => s!"exception #{id} links to unknown exception #{link}"

namespace Document

/-- The first link of an exception that leads out of the graph. -/
def danglingLink? (g : ExceptionGraph) (id : ExceptionId) : Option Violation :=
  (g.get? id).bind fun record =>
    (record.nested.find? (!g.contains ·)).map (.danglingLink id)

/-- The first violation: the root goes before the exceptions, these go by number. -/
def violation? (d : Document) : Option Violation :=
  if d.exceptions.contains d.root then
    (List.range d.exceptions.size).findSome? (danglingLink? d.exceptions)
  else some (.rootOutOfRange d.root d.exceptions.size)

def validate (d : Document) : Except Error Unit :=
  match d.violation? with
  | some violation => .error (.invalidDocument violation.message)
  | none => .ok ()

end Document

end Unmangle
