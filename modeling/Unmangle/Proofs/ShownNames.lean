import Unmangle.Proofs.Moves

/-!
# Which made-up names show

A name can be decoded if it is that of a lambda or a local function and tells the method around it
in a way that can be trusted. No step stays at a method of such a name (`not_isDecodable_of_stay`),
so a search that ends by itself at a method of the table shows a name that cannot be decoded.

A search that breaks off shows the name that the last body told it, as it was told. That name may
be the one of a body in its turn, where a lambda stands in a lambda, and then it shows although it
can be decoded: the name has been trusted, and to trust a name is to trust the one inside it.
-/

namespace Unmangle

/-- A name that the compiler gives to the body of a lambda or of a local function. -/
def GeneratedName.TellsBody (name : GeneratedName) : Prop :=
  name.kind.isHoistedBody = true ∧ (name.kind = .localFunction → name.localName?.isSome = true)

instance (name : GeneratedName) : Decidable name.TellsBody := inferInstanceAs (Decidable (_ ∧ _))

/-- The name of a lambda or of a local function. -/
def IsBodyName (text : String) : Prop := ∃ name ∈ GeneratedName.parse? text, name.TellsBody

/-- The name of a lambda or of a local function which tells the method around it. -/
def IsDecodable (text : String) : Prop :=
  ∃ name ∈ GeneratedName.parse? text,
    name.TellsBody ∧ isWellFormedFragment name.enclosing = true

instance (text : String) : Decidable (IsBodyName text) :=
  inferInstanceAs (Decidable (∃ name ∈ GeneratedName.parse? text, name.TellsBody))

instance (text : String) : Decidable (IsDecodable text) :=
  inferInstanceAs (Decidable (∃ name ∈ GeneratedName.parse? text, _ ∧ _))

theorem closureKind?_ne_none {name : GeneratedName} (h : name.TellsBody) :
    Site.closureKind? name ≠ none := by
  obtain ⟨-, hlocal⟩ := h
  rw [Site.closureKind?]
  split
  · next hkind =>
      intro hnone
      simp [Option.map_eq_none_iff.1 hnone] at hlocal
      exact hlocal hkind
  · exact Option.some_ne_none _

namespace Site

variable {md : Metadata} {site : Site}

/-- No step stays at a method whose name can be decoded. -/
theorem not_isDecodable_of_stay (h : site.step md = .stay) : ¬ IsDecodable site.method.name := by
  rintro ⟨name, hparse, hbody, hwell⟩
  have hread : site.hoistedName? = some name := hoistedName?_of_parse? hparse hbody.1
  have htakes := site.takes_step md
  rw [h] at htakes
  cases htakes with
  | keepClosure hname _ hkind =>
      cases hread.symm.trans hname
      exact closureKind?_ne_none hbody hkind
  | rest hname => exact absurd hwell (by simp [hname name hread])

/-- The name that a step keeps of a method that is missing is a trusted one. -/
theorem isWellFormed_of_orphan {passage : Passage} {name : String}
    (h : site.step md = .orphan passage name) : isWellFormedFragment name = true := by
  have htakes := site.takes_step md
  rw [h] at htakes
  cases htakes with
  | loseClosure hname hwell hkind hmissing => exact hwell
  | loseMachine hname htype howner htold => exact (Option.filter_eq_some_iff.1 htold).2

end Site

/-- A trusted name can be decoded as soon as it is that of a body. -/
theorem isDecodable_iff_of_isWellFormed {text : String} (h : isWellFormedFragment text = true) :
    IsDecodable text ↔ IsBodyName text := by
  constructor
  · rintro ⟨name, hparse, hbody, -⟩
    exact ⟨name, hparse, hbody⟩
  · rintro ⟨name, hparse, hbody⟩
    exact ⟨name, hparse, hbody, isWellFormedFragment_enclosing hparse h⟩

/-- Where the search of a frame ends by itself, the name that shows can be decoded only if the
method of a body is missing and the body tells the name of another body for it. -/
theorem shown_name_isDecodable_iff {md : Metadata} {frame : Frame} {site : Site}
    (hsite : frame.site? md = .ok site)
    (hends : Origin.EndsByItself md maxUnwrapDepth site) :
    ∃ origin call, frame.origin md = .ok origin ∧ frame.resolve md = .ok call ∧
      (IsDecodable call.method.name ↔
        ∃ passage, origin.site.step md = .orphan passage call.method.name ∧
          IsBodyName call.method.name) := by
  refine ⟨Origin.search md maxUnwrapDepth site, (Origin.search md maxUnwrapDepth site).present md,
    ?_, ?_, ?_⟩
  · rw [Frame.origin, hsite]
    rfl
  · rw [Frame.resolve, Frame.origin, hsite]
    rfl
  · generalize horigin : Origin.search md maxUnwrapDepth site = origin
    rw [Origin.present, Origin.method]
    cases hname : origin.orphanName with
    | some name =>
        obtain ⟨passage, hstep⟩ := Origin.step_eq_orphan (horigin ▸ hname)
        rw [horigin] at hstep
        rw [isDecodable_iff_of_isWellFormed (Site.isWellFormed_of_orphan hstep)]
        exact ⟨fun hbody => ⟨passage, hstep, hbody⟩, fun ⟨_, _, hbody⟩ => hbody⟩
    | none =>
        have hstep := Origin.step_eq_stay hends (horigin ▸ hname)
        rw [horigin] at hstep
        refine iff_of_false (Site.not_isDecodable_of_stay hstep) ?_
        rintro ⟨passage, horphan, -⟩
        cases hstep.symm.trans horphan

/-! ## A lambda that the metadata lost

Both methods of the table ran in a body whose method is not there. The lambda was written in a
method `Gone`, and that is what shows. The machine belongs to an async lambda in `Outer`, and what
shows is the name of the lambda. -/

namespace LostMethods

def table : Metadata :=
  { types := .ofList
      [(1, .named { name := "Program", space := some "App" }),
       (2, .named { name := "<>c", declaringType := some ⟨1⟩, compilerGenerated := true }),
       (3, .named
          { name := "<<Outer>b__0_0>d"
            declaringType := some ⟨2⟩
            interfaces := [NamedType.asyncStateMachine]
            compilerGenerated := true })]
    methods := .ofList
      [(10, { name := "Outer", declaringType := ⟨1⟩, ordinal := some 0 }),
       (11, { name := "<Gone>b__4_0", declaringType := ⟨2⟩ }),
       (12, { name := "MoveNext", declaringType := ⟨3⟩ })] }

def lambdaFrame : Frame := { declaringType := ⟨2⟩, method := ⟨11⟩ }

def lambdaSite : Site :=
  { method := { name := "<Gone>b__4_0", declaringType := ⟨2⟩ }, owner := ⟨2⟩ }

def machineFrame : Frame := { declaringType := ⟨3⟩, method := ⟨12⟩ }

def machineSite : Site :=
  { method := { name := "MoveNext", declaringType := ⟨3⟩ }, owner := ⟨3⟩ }

end LostMethods

open LostMethods

theorem lostMethod_shows_plain_name :
    lambdaFrame.site? table = .ok lambdaSite ∧
      Origin.EndsByItself table maxUnwrapDepth lambdaSite ∧
      ∃ call, lambdaFrame.resolve table = .ok call ∧ call.method.name = "Gone" ∧
        ¬ IsDecodable call.method.name := by
  have hsite : lambdaFrame.site? table = .ok lambdaSite := rfl
  have hends : Origin.EndsByItself table maxUnwrapDepth lambdaSite := by decide +kernel
  obtain ⟨origin, call, -, hresolve, hiff⟩ := shown_name_isDecodable_iff hsite hends
  have hshown : (lambdaFrame.resolve table).map (·.method.name) = .ok "Gone" := by rfl
  rw [hresolve] at hshown
  have hname : call.method.name = "Gone" := Except.ok.inj hshown
  refine ⟨hsite, hends, call, hresolve, hname, ?_⟩
  rw [hiff, hname]
  rintro ⟨-, -, hbody⟩
  exact absurd hbody (by decide +kernel)

theorem lostLambda_shows_decodable_name :
    machineFrame.site? table = .ok machineSite ∧
      Origin.EndsByItself table maxUnwrapDepth machineSite ∧
      (machineFrame.resolve table).map (·.method.name) = .ok "<Outer>b__0_0" ∧
      IsDecodable "<Outer>b__0_0" := by
  refine ⟨rfl, ?ends, by rfl, ?decodable⟩
  case ends => decide +kernel
  case decodable => decide +kernel

end Unmangle
