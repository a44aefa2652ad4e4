import Unmangle.Origin.Step

/-!
# What a step adds

A step adds to what has been passed before, but it does not look at it. So it is known from what it
does where nothing was passed (`Site.step`), and anywhere else it adds the same (`run_unwrap`).

There are six ways in which a site takes its step, each with all that decides it (`Site.Takes`).
Whatever a search keeps to is shown of these cases, and nothing beyond this module opens a step.
-/

namespace Unmangle

/-- What leaving a site adds to what has been passed. -/
structure Passage where
  body : Option Body := none
  isAsync : Bool := false
deriving DecidableEq, Repr

/-- A step with what it adds. One that stays has nothing to say on that. -/
inductive Step where
  | stay
  | outward (passage : Passage) (next : Site)
  | orphan (passage : Passage) (name : String)
deriving DecidableEq, Repr

namespace Passed

def after (passed : Passed) (passage : Passage) : Passed :=
  { bodies := passed.bodies ++ passage.body.toList
    isAsync := passed.isAsync || passage.isAsync }

theorem after_nothing (passed : Passed) : passed.after {} = passed := by simp [after]

theorem after_async (passed : Passed) : passed.after { isAsync := true } = passed.markAsync := by
  simp [after, markAsync]

theorem after_body (passed : Passed) (body : Body) :
    passed.after { body := some body } = passed.push body := by
  simp [after, push]

theorem after_asyncBody (passed : Passed) (body : Body) :
    passed.after { body := some body, isAsync := true } = passed.markAsync.push body := by
  simp [after, push, markAsync]

/-- All that was passed as that of a single step. -/
def passage (passed : Passed) : Passage :=
  { body := passed.bodies.head?, isAsync := passed.isAsync }

theorem passage_after (passage : Passage) : (after {} passage).passage = passage := by
  obtain ⟨body, isAsync⟩ := passage
  cases body <;> rfl

end Passed

/-- What comes of a step, and what has been passed by then. -/
def Step.after (passed : Passed) : Step → Answer × Passed
  | .stay => (.stay, passed)
  | .outward passage next => (.outward next, passed.after passage)
  | .orphan passage name => (.orphan name, passed.after passage)

namespace Site

/-- The step that a site takes, with what it adds where nothing has been passed before. -/
def step (md : Metadata) (site : Site) : Step :=
  match (site.unwrap md).run {} with
  | (.stay, _) => .stay
  | (.outward next, passed) => .outward passed.passage next
  | (.orphan name, passed) => .orphan passed.passage name

/-- What a state machine of some kind adds: the mark of an async method, the loop of an
iterator. -/
def machinePassage (site : Site) (kind : Option StateMachineKind) : Passage :=
  { body := if kind.any (·.isIterator) then some ⟨.iteration, site⟩ else none
    isAsync := kind.any (·.isAsync) }

/-! ## What a step can do -/

/-- The site takes this step. -/
inductive Takes (md : Metadata) (site : Site) : Step → Prop
  /-- The name is trusted but tells no body. -/
  | keepClosure {name : GeneratedName}
      (hname : site.hoistedName? = some name)
      (hwell : isWellFormedFragment name.enclosing = true)
      (hkind : closureKind? name = none) :
      Takes md site .stay
  /-- There is no name to be looked at, and the type tells of no method around it. -/
  | rest
      (hname : ∀ name ∈ site.hoistedName?, isWellFormedFragment name.enclosing = false)
      (htype : ∀ type ∈ site.stateMachine? md,
        site.machineOwner? md type = none ∧ machineOwnerName? type = none) :
      Takes md site .stay
  | leaveClosure {name : GeneratedName} {kind : BodyKind} {token : MethodToken} {method : MethodDef}
      (hname : site.hoistedName? = some name)
      (hwell : isWellFormedFragment name.enclosing = true)
      (hkind : closureKind? name = some kind)
      (hfound : md.findByName site.owner name.enclosing name.ordinalHint? = some (token, method)) :
      Takes md site (.outward { body := some ⟨kind, site⟩ } (site.outward md method))
  | loseClosure {name : GeneratedName} {kind : BodyKind}
      (hname : site.hoistedName? = some name)
      (hwell : isWellFormedFragment name.enclosing = true)
      (hkind : closureKind? name = some kind)
      (hmissing : md.findByName site.owner name.enclosing name.ordinalHint? = none) :
      Takes md site (.orphan { body := some ⟨kind, site⟩ } name.enclosing)
  | leaveMachine {type : NamedType} {method : MethodDef}
      (hname : ∀ name ∈ site.hoistedName?, isWellFormedFragment name.enclosing = false)
      (htype : site.stateMachine? md = some type)
      (howner : site.machineOwner? md type = some method) :
      Takes md site
        (.outward
          (site.machinePassage (type.stateMachineKind?.or (method.stateMachine.map (·.kind))))
          (site.outward md method))
  | loseMachine {type : NamedType} {name : String}
      (hname : ∀ name ∈ site.hoistedName?, isWellFormedFragment name.enclosing = false)
      (htype : site.stateMachine? md = some type)
      (howner : site.machineOwner? md type = none)
      (htold : machineOwnerName? type = some name) :
      Takes md site (.orphan (site.machinePassage type.stateMachineKind?) name)

variable {md : Metadata} {site : Site} {step : Step}

/-- Every site takes a step in one of the six ways. -/
theorem exists_takes (md : Metadata) (site : Site) : ∃ step, Takes md site step := by
  by_cases htrusted : ∃ name ∈ site.hoistedName?, isWellFormedFragment name.enclosing = true
  · obtain ⟨name, hname, hwell⟩ := htrusted
    cases hkind : closureKind? name with
    | none => exact ⟨_, .keepClosure hname hwell hkind⟩
    | some kind =>
        cases hfound : md.findByName site.owner name.enclosing name.ordinalHint? with
        | none => exact ⟨_, .loseClosure hname hwell hkind hfound⟩
        | some found => exact ⟨_, .leaveClosure hname hwell hkind hfound⟩
  · have hname : ∀ name ∈ site.hoistedName?, isWellFormedFragment name.enclosing = false :=
      fun name hmem => Bool.eq_false_iff.2 fun hwell => htrusted ⟨name, hmem, hwell⟩
    cases htype : site.stateMachine? md with
    | none => exact ⟨_, .rest hname (by simp [htype])⟩
    | some type =>
        cases howner : site.machineOwner? md type with
        | some method => exact ⟨_, .leaveMachine hname htype howner⟩
        | none =>
            cases htold : machineOwnerName? type with
            | some name => exact ⟨_, .loseMachine hname htype howner htold⟩
            | none =>
                refine ⟨_, .rest hname fun other hother => ?_⟩
                cases htype.symm.trans hother
                exact ⟨howner, htold⟩

theorem run_passMachine (kind : Option StateMachineKind) (passed : Passed) :
    (site.passMachine kind).run passed = ((), passed.after (site.machinePassage kind)) := by
  refine Prod.ext rfl (Eq.symm ?_)
  cases kind with
  | none => exact passed.after_nothing
  | some kind =>
      cases kind with
      | async => exact passed.after_async
      | iterator => exact passed.after_body _
      | asyncIterator => exact passed.after_asyncBody _

/-- The way in which a site takes its step decides what comes of the step, whatever has been passed
before. -/
theorem Takes.run_unwrap (h : Takes md site step) (passed : Passed) :
    (site.unwrap md).run passed = step.after passed := by
  cases h with
  | keepClosure hname hwell hkind =>
      rw [unwrap, reading_of_trusted hname hwell]
      simp only [Site.leaveClosure, hwell, hkind]
      rfl
  | rest hname htype =>
      cases hmachine : site.stateMachine? md with
      | some type =>
          obtain ⟨howner, htold⟩ := htype type hmachine
          rw [unwrap, reading_of_machine hmachine hname]
          simp only [leaveStateMachine, howner, htold]
          rfl
      | none =>
          cases hhoisted : site.hoistedName? with
          | some name =>
              rw [unwrap, reading_of_closure hhoisted hmachine]
              simp only [Site.leaveClosure, hname name hhoisted]
              rfl
          | none =>
              rw [unwrap, reading_of_method hhoisted hmachine]
              rfl
  | leaveClosure hname hwell hkind hfound =>
      rw [unwrap, reading_of_trusted hname hwell, Step.after, Passed.after_body]
      simp only [Site.leaveClosure, hwell, hkind, hfound]
      rfl
  | loseClosure hname hwell hkind hmissing =>
      rw [unwrap, reading_of_trusted hname hwell, Step.after, Passed.after_body]
      simp only [Site.leaveClosure, hwell, hkind, hmissing]
      rfl
  | leaveMachine hname htype howner =>
      rw [unwrap, reading_of_machine htype hname]
      simp only [leaveStateMachine, howner]
      exact congrArg (fun ran => (Answer.outward _, ran.2)) (run_passMachine _ passed)
  | loseMachine hname htype howner htold =>
      rw [unwrap, reading_of_machine htype hname]
      simp only [leaveStateMachine, howner, htold, Option.bind_none, Option.or_none]
      exact congrArg (fun ran => (Answer.orphan _, ran.2)) (run_passMachine _ passed)

/-! ## The step of a site -/

theorem Takes.step_eq (h : Takes md site step) : site.step md = step := by
  rw [Site.step, h.run_unwrap]
  cases step with
  | stay => rfl
  | outward passage next | orphan passage name => simp only [Step.after, Passed.passage_after]

theorem takes_step (md : Metadata) (site : Site) : Takes md site (site.step md) := by
  obtain ⟨step, htakes⟩ := exists_takes md site
  rwa [htakes.step_eq]

/-- What has been passed before has no part in a step. -/
theorem run_unwrap (md : Metadata) (site : Site) (passed : Passed) :
    (site.unwrap md).run passed = (site.step md).after passed :=
  (takes_step md site).run_unwrap passed

/-- A site stays where its name is trusted but tells no body, and where there is no such name to be
looked at and its type tells of no method around it. -/
theorem step_eq_stay_iff :
    site.step md = .stay ↔
      (∃ name ∈ site.hoistedName?, isWellFormedFragment name.enclosing = true ∧
        closureKind? name = none) ∨
      (∀ name ∈ site.hoistedName?, isWellFormedFragment name.enclosing = false) ∧
        ∀ type ∈ site.stateMachine? md,
          site.machineOwner? md type = none ∧ machineOwnerName? type = none := by
  constructor
  · intro hstay
    have htakes := takes_step md site
    rw [hstay] at htakes
    cases htakes with
    | keepClosure hname hwell hkind => exact .inl ⟨_, hname, hwell, hkind⟩
    | rest hname htype => exact .inr ⟨hname, htype⟩
  · rintro (⟨name, hname, hwell, hkind⟩ | ⟨hname, htype⟩)
    · exact (Takes.keepClosure hname hwell hkind).step_eq
    · exact (Takes.rest hname htype).step_eq

end Site

/-! ## What a step does not look at

The types at run time are of no account for a step. They show with the body that was left, and the
next site has none. -/

/-- The site with other types at run time. -/
def Site.retyped (types : List TypeToken) (site : Site) : Site := { site with actualTypes := types }

def Body.retyped (types : List TypeToken) (body : Body) : Body :=
  { body with site := body.site.retyped types }

def Passage.retyped (types : List TypeToken) (passage : Passage) : Passage :=
  { passage with body := passage.body.map (·.retyped types) }

/-- The step with other types at run time in the body that it leaves. -/
def Step.retyped (types : List TypeToken) : Step → Step
  | .stay => .stay
  | .outward passage next => .outward (passage.retyped types) next
  | .orphan passage name => .orphan (passage.retyped types) name

namespace Site

variable {md : Metadata} {site : Site} (types : List TypeToken)

theorem outward_retyped (method : MethodDef) :
    (site.retyped types).outward md method = site.outward md method := by
  rw [outward, outward]
  rfl

theorem machinePassage_retyped (kind : Option StateMachineKind) :
    (site.retyped types).machinePassage kind = (site.machinePassage kind).retyped types := by
  rw [machinePassage, machinePassage, Passage.retyped]
  split <;> rfl

/-- Other types at run time lead to the same step in the same way. -/
theorem Takes.retyped {step : Step} (h : Takes md site step) :
    Takes md (site.retyped types) (step.retyped types) := by
  have houtward (method : MethodDef) :
      (site.retyped types).outward md method = site.outward md method :=
    outward_retyped types method
  cases h with
  | keepClosure hname hwell hkind => exact .keepClosure hname hwell hkind
  | rest hname htype => exact .rest hname htype
  | leaveClosure hname hwell hkind hfound =>
      rw [Step.retyped, ← houtward]
      exact .leaveClosure hname hwell hkind hfound
  | loseClosure hname hwell hkind hmissing => exact .loseClosure hname hwell hkind hmissing
  | leaveMachine hname htype howner =>
      rw [Step.retyped, ← houtward, ← machinePassage_retyped]
      exact .leaveMachine hname htype howner
  | loseMachine hname htype howner htold =>
      rw [Step.retyped, ← machinePassage_retyped]
      exact .loseMachine hname htype howner htold

theorem step_retyped : (site.retyped types).step md = (site.step md).retyped types :=
  ((takes_step md site).retyped types).step_eq

end Site

end Unmangle
