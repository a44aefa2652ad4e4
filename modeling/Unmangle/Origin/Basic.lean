import Unmangle.Exception.Basic
import Unmangle.Origin.Step

/-!
# The origin of a frame

Stepping outward from the method of a frame, a bounded number of times, ends at the method that
the programmer wrote or, if the metadata lacks it, at the last method before it and a name.
-/

namespace Unmangle

/-- How many steps outward one search makes. -/
def maxUnwrapDepth : Nat := 8

/-- What a search found. -/
structure Origin where
  /-- The last site reached. -/
  site : Site
  /-- The name of the method sought, where the metadata lacks it. -/
  orphanName : Option String := none
  /-- The bodies passed on the way, outermost first. -/
  bodies : List Body := []
  isAsync : Bool := false
  /-- The sites from which a step was tried, innermost first. -/
  visited : List Site := []
deriving DecidableEq, Repr

namespace Origin

/-- The search is at a site and goes no further, with what has been passed. -/
def ending (site : Site) (passed : Passed) : Origin :=
  { site, bodies := passed.bodies.reverse, isAsync := passed.isAsync }

/-- Steps outward from a site, at most so many times, where this much has been passed before. -/
def searchFrom (md : Metadata) : Nat → Site → Passed → Origin
  | 0, site, passed => ending site passed
  | steps + 1, site, passed =>
    match (site.unwrap md).run passed with
    | (.stay, passed) => { ending site passed with visited := [site] }
    | (.orphan name, passed) =>
      { ending site passed with orphanName := some name, visited := [site] }
    | (.outward next, passed) =>
      let found := Origin.searchFrom md steps next passed
      { found with visited := site :: found.visited }

def search (md : Metadata) (steps : Nat) (site : Site) : Origin := searchFrom md steps site {}

end Origin

/-- The site of a frame: its own method on its own type. -/
def Frame.site? (md : Metadata) (frame : Frame) : Except Error Site :=
  match md.methodDef? frame.method with
  | none => .error (.unknownMethod frame.method)
  | some method =>
    let (owner, typeArgs) :=
      match md.definitionOf frame.declaringType with
      | .ok found => (found.definition, found.args)
      | .error _ => (method.declaringType, [])
    .ok
      { method, owner, typeArgs
        methodArgs := frame.methodGenericArgs
        actualTypes := frame.parameterTypes }

/-- Where the type of the frame stands for a definition, the search looks for methods there. -/
theorem Frame.site?_of_standsFor {md : Metadata} {frame : Frame} {method : MethodDef}
    {found : Metadata.Instantiation} (hmethod : md.methodDef? frame.method = some method)
    (htype : md.StandsFor frame.declaringType found) :
    frame.site? md = .ok
      { method
        owner := found.definition
        typeArgs := found.args
        methodArgs := frame.methodGenericArgs
        actualTypes := frame.parameterTypes } := by
  rw [site?, hmethod, Metadata.definitionOf_eq_ok_iff.2 htype]

/-- The origin of a frame. It fails only if the method of the frame is unknown. -/
def Frame.origin (md : Metadata) (frame : Frame) : Except Error Origin :=
  (frame.site? md).map (Origin.search md maxUnwrapDepth)

end Unmangle
