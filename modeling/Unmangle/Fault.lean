import Unmangle.Origin.Call

/-!
# Faults

The rules on made-up names are a table that someone supplies, and a supplied rule may fail outright.
Rendering must survive that, so faults can be planted: on reading a name as a made-up one, and on
asking whether a type is the type of no value. A resolution that asks a faulty question has no
result at all. Hence it is enough to know which questions a resolution asks, and that is listed
here for each of them.
-/

namespace Unmangle

/-- The questions that fail. -/
structure Faults where
  /-- The names that cannot be read as made-up ones. -/
  names : List String := []
  /-- The names of types that cannot be asked for being the type of no value. -/
  types : List String := []
deriving DecidableEq, Repr, Inhabited

/-- The questions that a resolution asks: names read, and names of types asked. -/
structure Questions where
  names : List String := []
  types : List String := []

namespace Questions

def append (a b : Questions) : Questions := ⟨a.names ++ b.names, a.types ++ b.types⟩

instance : Append Questions := ⟨append⟩

def all (parts : List Questions) : Questions := parts.foldr append {}

end Questions

/-- Is one of the questions faulty? They are worked out only if there is any fault at all. -/
def Faults.strike (faults : Faults) (asked : Unit → Questions) : Bool :=
  faults.names.any (fun name => (asked ()).names.contains name) ||
    faults.types.any fun name => (asked ()).types.contains name

@[simp]
theorem Faults.strike_none (asked : Unit → Questions) : ({} : Faults).strike asked = false := rfl

namespace Metadata

/-- Each named definition that a resolution expands, alone or as an instance, is asked. -/
def questions (md : Metadata) (bindings : Bindings) (token : TypeToken) : Questions :=
  { types := (md.resolveLogged bindings token).2.toList.filterMap fun expanded =>
      (md.named? expanded).map (·.name) }

end Metadata

namespace Site

/-- The name of the method is read, and that of the type where it is left as a state machine. -/
def questions (md : Metadata) (site : Site) : Questions :=
  { names := site.method.name ::
      match site.reading md with
      | .stateMachine type => [type.name]
      | _ => [] }

def parameterQuestions (md : Metadata) (site : Site) : Questions :=
  .all (site.parameterTokens.map fun (_, token) => md.questions site.bindings token)

def argumentQuestions (md : Metadata) (site : Site) : Questions :=
  .all ((site.methodArgs.take site.method.genericParams.length).map (md.questions {}))

end Site

def Body.questions (md : Metadata) (body : Body) : Questions :=
  match body.kind with
  | .localFunction _ => body.site.argumentQuestions md ++ body.site.parameterQuestions md
  | _ => body.site.parameterQuestions md

namespace Origin

/-- The names read in the search for a type that someone wrote: those of the types looked at that
are not flagged as made by the compiler. -/
def userTypeQuestions (md : Metadata) (start : TypeToken) : Questions :=
  let types := md.enclosingTypes start
  { names := (types.take (types.findIdx md.isUserType + 1)).filterMap fun token =>
      ((md.named? token).filter (!·.compilerGenerated)).map (·.name) }

def declaringTypeQuestions (md : Metadata) (token : TypeToken) (args : List TypeToken) :
    Questions :=
  match md.named? token with
  | some type => { types := [type.name] } ++ .all ((ownArguments type args).map (md.questions {}))
  | none => {}

def methodQuestions (md : Metadata) (origin : Origin) : Questions :=
  let site := origin.site
  match origin.orphanName with
  | some _ =>
    userTypeQuestions md site.owner ++
      declaringTypeQuestions md (md.nearestUserType site.owner) site.typeArgs
  | none =>
    declaringTypeQuestions md site.owner site.typeArgs ++ site.argumentQuestions md ++
      site.parameterQuestions md

def questions (md : Metadata) (origin : Origin) : Questions :=
  .all (origin.visited.map (·.questions md)) ++
    .all (origin.bodies.map (·.questions md)) ++
    origin.methodQuestions md

end Origin

/-- A frame of an unknown method asks nothing. -/
def Frame.questions (md : Metadata) (frame : Frame) : Questions :=
  match frame.origin md with
  | .ok origin => origin.questions md
  | .error _ => {}

end Unmangle
