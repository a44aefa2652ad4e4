import Unmangle.Error
import Unmangle.Exception.Basic

/-!
# Graphs of exceptions

Exceptions are numbered in the order in which they were added, and none is ever taken away. The
operations that link exceptions refuse a link that leads out of the graph.
-/

namespace Unmangle

structure ExceptionGraph where
  records : Array ExceptionRecord := #[]
deriving DecidableEq, Repr, Inhabited

namespace ExceptionGraph

def size (g : ExceptionGraph) : Nat := g.records.size

def get? (g : ExceptionGraph) (id : ExceptionId) : Option ExceptionRecord := g.records[id]?

def contains (g : ExceptionGraph) (id : ExceptionId) : Bool := id < g.size

/-- The graph with one more exception, and its number. -/
def add (g : ExceptionGraph) (record : ExceptionRecord) : ExceptionGraph × ExceptionId :=
  (⟨g.records.push record⟩, g.size)

/-- Changes one exception of the graph. -/
def modify (g : ExceptionGraph) (id : ExceptionId) (change : ExceptionRecord → ExceptionRecord) :
    Except Error ExceptionGraph :=
  if g.contains id then .ok ⟨g.records.modify id change⟩ else .error (.unknownException id)

/-- Makes `inner` the cause of `id`. -/
def setInner (g : ExceptionGraph) (id inner : ExceptionId) : Except Error ExceptionGraph :=
  if g.contains inner then g.modify id fun record => { record with inner := some inner }
  else .error (.unknownException inner)

/-- Adds `child` to the exceptions gathered in `id`. -/
def addChild (g : ExceptionGraph) (id child : ExceptionId) : Except Error ExceptionGraph :=
  if g.contains child then
    g.modify id fun record => { record with children := record.children ++ [child] }
  else .error (.unknownException child)

def renderedTrace? (g : ExceptionGraph) (id : ExceptionId) : Option String :=
  (g.get? id).bind (·.renderedTrace)

def setRenderedTrace (g : ExceptionGraph) (id : ExceptionId) (text : String) :
    Except Error ExceptionGraph :=
  g.modify id fun record => { record with renderedTrace := some text }

end ExceptionGraph

end Unmangle
