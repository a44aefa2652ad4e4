import Unmangle.Metadata.Lookup
import Unmangle.Source.Resolve

/-!
# Where the search for an origin stands

The search starts at the method of a frame and moves outward from method to method. A site is one
of these methods with the generic arguments that are bound there. A type that the compiler nests
into another takes over the arguments of the outer type and then those of the method around it;
moving outward splits them again by what the outer type declares.
-/

namespace Unmangle

/-- A method on the way outward, with the arguments that are bound there. -/
structure Site where
  method : MethodDef
  /-- The type on which the search looks for the methods around this one. -/
  owner : TypeToken
  typeArgs : List TypeToken := []
  methodArgs : List TypeToken := []
  /-- The types of the arguments at run time, known for the method of the frame alone. -/
  actualTypes : List TypeToken := []
deriving DecidableEq, Repr

namespace Site

def bindings (site : Site) : Bindings := ⟨site.typeArgs, site.methodArgs⟩

/-- How many generic parameters the type behind a token declares. -/
def genericArity (md : Metadata) (token : TypeToken) : Nat :=
  match md.named? token with
  | some type => type.genericParams.length
  | none => 0

/-- Moves outward to the method that a body was taken from. -/
def outward (md : Metadata) (site : Site) (method : MethodDef) : Site :=
  if method.declaringType = site.owner then { site with method, actualTypes := [] }
  else
    let arity := genericArity md method.declaringType
    { method
      owner := method.declaringType
      typeArgs := site.typeArgs.take arity
      methodArgs := site.typeArgs.drop arity }

variable {md : Metadata} {site : Site} {method : MethodDef}

theorem outward_of_eq (h : method.declaringType = site.owner) :
    site.outward md method = { site with method, actualTypes := [] } :=
  if_pos h

theorem outward_of_ne (h : method.declaringType ≠ site.owner) :
    site.outward md method =
      { method
        owner := method.declaringType
        typeArgs := site.typeArgs.take (genericArity md method.declaringType)
        methodArgs := site.typeArgs.drop (genericArity md method.declaringType) } :=
  if_neg h

end Site

end Unmangle
