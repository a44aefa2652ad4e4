import Unmangle.GeneratedName.Fragment
import Unmangle.GeneratedName.Suffix
import Unmangle.Metadata.Enclosing
import Unmangle.Origin.Site

/-!
# One step outward

A site can be the body of a closure, by the name of its method, or the body of a state machine, by
its type. If it could be both, the name decides, provided that the name in its brackets can be
trusted. A step either stays, or it moves to the method around the body, or it finds that this
method is not in the metadata and keeps its name only.

All steps of a search add to one state, what has been passed so far, and a step comes to its answer
bit by bit. So it matters what it has added by the time it finds that it has to stay.
-/

namespace Unmangle

/-- The kinds of body that show behind the method around them. -/
inductive BodyKind where
  | lambda (ordinal : Option UInt32)
  | localFunction (name : String)
  /-- The loop of an iterator, shown under the name that the compiler gave it. -/
  | iteration
deriving DecidableEq, Repr

/-- A body and the site where it was found. -/
structure Body where
  kind : BodyKind
  site : Site
deriving DecidableEq, Repr

/-- What a search has passed on its way. -/
structure Passed where
  /-- The bodies, innermost first. -/
  bodies : List Body := []
  isAsync : Bool := false
deriving DecidableEq, Repr

namespace Passed

/-- A body is passed behind the others. -/
def push (passed : Passed) (body : Body) : Passed :=
  { passed with bodies := passed.bodies ++ [body] }

def markAsync (passed : Passed) : Passed := { passed with isAsync := true }

end Passed

/-- What comes of a step. -/
inductive Answer where
  /-- The site is where the search ends. -/
  | stay
  | outward (next : Site)
  /-- The method around the body is known by name only. -/
  | orphan (name : String)
deriving DecidableEq, Repr

/-- What a site is taken for. -/
inductive Reading where
  | method
  | closure (name : GeneratedName)
  | stateMachine (type : NamedType)
deriving DecidableEq, Repr

namespace Site

/-- The name of the method read as that of a lambda or a local function. -/
def hoistedName? (site : Site) : Option GeneratedName :=
  (GeneratedName.parse? site.method.name).filter (·.kind.isHoistedBody)

/-- The type of the site, if it is a state machine. -/
def stateMachine? (md : Metadata) (site : Site) : Option NamedType :=
  (md.named? site.owner).filter (·.isStateMachine)

def reading (md : Metadata) (site : Site) : Reading :=
  match site.hoistedName?, site.stateMachine? md with
  | some name, some type =>
    if isWellFormedFragment name.enclosing then .closure name else .stateMachine type
  | some name, none => .closure name
  | none, some type => .stateMachine type
  | none, none => .method

/-- The body that a trusted name of a closure stands for. -/
def closureKind? (name : GeneratedName) : Option BodyKind :=
  match name.kind with
  | .localFunction => name.localName?.map .localFunction
  | _ => some (.lambda name.lambdaOrdinal?)

theorem localName?_of_closureKind? {name : GeneratedName} {own : String}
    (h : closureKind? name = some (.localFunction own)) : name.localName? = some own := by
  rw [closureKind?] at h
  split at h
  · obtain ⟨found, hfound, heq⟩ := Option.map_eq_some_iff.1 h
    cases heq
    exact hfound
  · cases h

/-- Leaves the body of a closure, whose name tells the method around it. -/
def leaveClosure (md : Metadata) (site : Site) (name : GeneratedName) :
    StateM Passed Answer := do
  if !isWellFormedFragment name.enclosing then
    return .stay
  let some kind := closureKind? name | return .stay
  modify (·.push ⟨kind, site⟩)
  match md.findByName site.owner name.enclosing name.ordinalHint? with
  | some (_, method) => return .outward (site.outward md method)
  | none => return .orphan name.enclosing

/-- The method that a state machine was made from: the one that says so, else the one that the
name of the machine tells. -/
def machineOwner? (md : Metadata) (site : Site) (type : NamedType) : Option MethodDef :=
  type.declaringType.bind fun outer =>
    ((md.findStateMachineOwner outer site.owner).or
      (type.asStateMachineName?.bind fun name =>
        md.findByName outer name.enclosing name.ordinalHint?)).map (·.2)

/-- The name of the method that a state machine was made from, if it can be trusted. -/
def machineOwnerName? (type : NamedType) : Option String :=
  (type.asStateMachineName?.map (·.enclosing)).filter isWellFormedFragment

/-- Passes a state machine of some kind: an async one marks the method at the outside, and the loop
of an iterator shows as a body. -/
def passMachine (site : Site) (kind : Option StateMachineKind) : StateM Passed Unit := do
  if let some kind := kind then
    if kind.isAsync then
      modify (·.markAsync)
    if kind.isIterator then
      modify (·.push ⟨.iteration, site⟩)

/-- Leaves the body of a state machine. Where no method can be told the machine must not count as
passed, so that is found out first. -/
def leaveStateMachine (md : Metadata) (site : Site) (type : NamedType) :
    StateM Passed Answer := do
  let owner := site.machineOwner? md type
  let told := machineOwnerName? type
  if owner.isNone && told.isNone then
    return .stay
  site.passMachine
    (type.stateMachineKind?.or (owner.bind fun method => method.stateMachine.map (·.kind)))
  match owner, told with
  | some method, _ => return .outward (site.outward md method)
  | none, some name => return .orphan name
  | none, none => return .stay

/-- One step of a search, which adds to what has been passed before. -/
def unwrap (md : Metadata) (site : Site) : StateM Passed Answer :=
  match site.reading md with
  | .method => return .stay
  | .closure name => site.leaveClosure md name
  | .stateMachine type => site.leaveStateMachine md type

/-! ## What a site is read as -/

variable {md : Metadata} {site : Site}

theorem hoistedName?_of_parse? {name : GeneratedName}
    (hname : GeneratedName.parse? site.method.name = some name)
    (hkind : name.kind.isHoistedBody = true) : site.hoistedName? = some name := by
  rw [hoistedName?, hname, Option.filter_some, if_pos hkind]

theorem hoistedName?_eq_none
    (h : ∀ name ∈ GeneratedName.parse? site.method.name, name.kind.isHoistedBody = false) :
    site.hoistedName? = none := by
  rw [hoistedName?, Option.filter_eq_none_iff]
  intro name hname
  simp [h name hname]

theorem stateMachine?_of_named {type : NamedType}
    (htype : md.typeDef? site.owner = some (.named type)) :
    site.stateMachine? md = if type.isStateMachine then some type else none := by
  rw [stateMachine?, Metadata.named?_of_named htype, Option.filter_some]

theorem reading_of_method (hname : site.hoistedName? = none)
    (htype : site.stateMachine? md = none) : site.reading md = .method := by
  rw [reading, hname, htype]

/-- A name that is trusted decides. -/
theorem reading_of_trusted {name : GeneratedName} (hname : site.hoistedName? = some name)
    (hwell : isWellFormedFragment name.enclosing = true) : site.reading md = .closure name := by
  rw [reading, hname]
  cases site.stateMachine? md with
  | none => rfl
  | some type => exact if_pos hwell

theorem reading_of_machine {type : NamedType} (htype : site.stateMachine? md = some type)
    (hname : ∀ name ∈ site.hoistedName?, isWellFormedFragment name.enclosing = false) :
    site.reading md = .stateMachine type := by
  rw [reading, htype]
  cases hfound : site.hoistedName? with
  | none => rfl
  | some name => exact if_neg (by simp [hname name hfound])

theorem reading_of_closure {name : GeneratedName} (hname : site.hoistedName? = some name)
    (htype : site.stateMachine? md = none) : site.reading md = .closure name := by
  rw [reading, hname, htype]

end Site

end Unmangle
