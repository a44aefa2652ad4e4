import Unmangle.Rendering.Method
import Mathlib.Data.List.Forall2

/-!
# Parameters of the type of no value

A function that takes nothing is compiled to a method with a parameter of the type of no value, and
the source shows no trace of that. So such parameters are left out wherever a list of parameters
shows, and with them the separators that would stand around them: a separator belongs to two
parameters that are shown, however many are left out between the two.

Leaving out is decided by a parameter alone, so the lists that a call shows are the same lists
whatever is put in of this kind. A parameter that is declared as `dynamic` is not of this kind,
since it shows as `dynamic` and its type does not count.
-/

namespace Unmangle

/-- A parameter that is not shown: of the type of no value, and not written `dynamic`. -/
def SourceParameter.IsUnit (parameter : SourceParameter) : Prop :=
  parameter.isDynamic = false ∧ parameter.type = .foreignUnit

/-- The second list is the first one with parameters put in that are not shown. -/
inductive UnitPadded : List SourceParameter → List SourceParameter → Prop
  | nil : UnitPadded [] []
  | keep {parameters padded : List SourceParameter} (parameter : SourceParameter)
      (hrest : UnitPadded parameters padded) :
      UnitPadded (parameter :: parameters) (parameter :: padded)
  | unit {parameters padded : List SourceParameter} {parameter : SourceParameter}
      (hunit : parameter.IsUnit) (hrest : UnitPadded parameters padded) :
      UnitPadded parameters (parameter :: padded)

/-- The methods differ by no more than parameters that are not shown. -/
def SourceMethod.PaddedTo (method other : SourceMethod) : Prop :=
  ∃ padded, UnitPadded method.parameters padded ∧ other = { method with parameters := padded }

/-- The calls differ by no more than parameters that are not shown, in any of their methods. -/
structure SourceCall.PaddedTo (call other : SourceCall) : Prop where
  method : call.method.PaddedTo other.method
  bodies : call.bodies.Forall₂ SourceMethod.PaddedTo other.bodies

/-- What stands between the brackets of a list of parameters: behind a parameter that is shown there
is a separator if another one that is shown follows it, and there is no separator anywhere else. -/
inductive Listed (options : FormatOptions) : List SourceParameter → Rendering → Prop
  | nil : Listed options [] []
  | unit {parameter : SourceParameter} {rest : List SourceParameter} {content : Rendering}
      (hunit : parameter.IsUnit) (hrest : Listed options rest content) :
      Listed options (parameter :: rest) content
  | last {parameter : SourceParameter} {rest : List SourceParameter}
      (hshown : ¬ parameter.IsUnit) (hrest : ∀ other ∈ rest, other.IsUnit) :
      Listed options (parameter :: rest) (parameter.render options)
  | next {parameter : SourceParameter} {rest : List SourceParameter} {content : Rendering}
      (hshown : ¬ parameter.IsUnit) (hnext : ∃ other ∈ rest, ¬ other.IsUnit)
      (hrest : Listed options rest content) :
      Listed options (parameter :: rest)
        (parameter.render options ++ punctuation ", " :: content)

/-! ## The parameters that are shown -/

theorem SourceParameter.isElided_iff {parameter : SourceParameter} :
    parameter.isElided = true ↔ parameter.IsUnit := by
  obtain ⟨name, type, modifier, isDynamic⟩ := parameter
  cases type <;> simp [isElided, IsUnit, SourceType.isForeignUnit]

/-- The parameters of a list that are shown. -/
def shownParameters (parameters : List SourceParameter) : List SourceParameter :=
  parameters.filter (!·.isElided)

variable {parameter : SourceParameter} {parameters padded rest : List SourceParameter}

theorem shownParameters_of_isUnit (h : parameter.IsUnit) :
    shownParameters (parameter :: rest) = shownParameters rest :=
  List.filter_cons_of_neg (by simp [SourceParameter.isElided_iff.2 h])

theorem shownParameters_of_not_isUnit (h : ¬ parameter.IsUnit) :
    shownParameters (parameter :: rest) = parameter :: shownParameters rest := by
  rw [← SourceParameter.isElided_iff] at h
  exact List.filter_cons_of_pos (by simp [h])

theorem shownParameters_eq_nil_iff :
    shownParameters parameters = [] ↔ ∀ parameter ∈ parameters, parameter.IsUnit := by
  simp only [shownParameters, List.filter_eq_nil_iff, Bool.not_eq_true', Bool.not_eq_false,
    SourceParameter.isElided_iff]

theorem not_isUnit_of_mem_shownParameters (h : parameter ∈ shownParameters parameters) :
    ¬ parameter.IsUnit := by
  rw [← SourceParameter.isElided_iff]
  simpa using (List.mem_filter.1 h).2

theorem unitPadded_shownParameters (parameters : List SourceParameter) :
    UnitPadded (shownParameters parameters) parameters := by
  induction parameters with
  | nil => exact .nil
  | cons parameter rest ih =>
      by_cases hunit : parameter.IsUnit
      · rw [shownParameters_of_isUnit hunit]
        exact .unit hunit ih
      · rw [shownParameters_of_not_isUnit hunit]
        exact .keep parameter ih

/-- What is put in is not among the parameters that are shown. -/
theorem UnitPadded.shownParameters_eq (h : UnitPadded parameters padded) :
    shownParameters padded = shownParameters parameters := by
  induction h with
  | nil => rfl
  | keep parameter hrest ih =>
      by_cases hunit : parameter.IsUnit
      · rw [shownParameters_of_isUnit hunit, shownParameters_of_isUnit hunit, ih]
      · rw [shownParameters_of_not_isUnit hunit, shownParameters_of_not_isUnit hunit, ih]
  | unit hunit hrest ih => rw [shownParameters_of_isUnit hunit, ih]

/-- What stands between the brackets of a list of parameters that is known. -/
def listContent (options : FormatOptions) (parameters : List SourceParameter) : Rendering :=
  separated ", " ((shownParameters parameters).map (·.render options))

variable (options : FormatOptions)

theorem renderParameters_known (parameters : List SourceParameter) :
    renderParameters options true parameters =
      punctuation "(" :: listContent options parameters ++ [punctuation ")"] := rfl

/-! ## Lists with parameters put in -/

theorem UnitPadded.renderParameters_eq (h : UnitPadded parameters padded) (known : Bool) :
    renderParameters options known padded = renderParameters options known parameters := by
  cases known with
  | false => rfl
  | true =>
      rw [renderParameters_known, renderParameters_known, listContent, listContent,
        h.shownParameters_eq]

namespace SourceMethod.PaddedTo

variable {method other : SourceMethod}

theorem renderName_eq (h : method.PaddedTo other) (hasBodies : Bool) :
    other.renderName options hasBodies = method.renderName options hasBodies := by
  obtain ⟨padded, -, rfl⟩ := h
  rfl

theorem renderSignature_eq (h : method.PaddedTo other) :
    other.renderSignature options = method.renderSignature options := by
  obtain ⟨padded, hpadded, rfl⟩ := h
  rw [renderSignature, renderSignature]
  dsimp only
  rw [hpadded.renderParameters_eq options]

theorem renderBody_eq (h : method.PaddedTo other) :
    other.renderBody options = method.renderBody options := by
  rw [renderBody, renderBody, h.renderSignature_eq options]
  obtain ⟨padded, hpadded, rfl⟩ := h
  dsimp only
  rw [hpadded.renderParameters_eq options]

end SourceMethod.PaddedTo

theorem SourceCall.PaddedTo.render_eq {call other : SourceCall} (h : call.PaddedTo other) :
    other.render options = call.render options := by
  obtain ⟨method, bodies⟩ := call
  obtain ⟨paddedMethod, paddedBodies⟩ := other
  obtain ⟨hmethod, hbodies⟩ := h
  dsimp only at hmethod hbodies
  have hasync : paddedMethod.isAsync = method.isAsync := by
    obtain ⟨padded, -, rfl⟩ := hmethod
    rfl
  have hempty : paddedBodies.isEmpty = bodies.isEmpty := by cases hbodies <;> rfl
  have hrendered : paddedBodies.flatMap (·.renderBody options) =
      bodies.flatMap (·.renderBody options) := by
    clear hempty
    induction hbodies with
    | nil => rfl
    | cons hbody hrest ih => rw [List.flatMap_cons, List.flatMap_cons, hbody.renderBody_eq, ih]
  rw [render, render]
  dsimp only
  rw [hasync, hempty, hrendered, hmethod.renderName_eq, hmethod.renderSignature_eq]

/-! ## Where the separators are -/

section

variable {options}

theorem listContent_of_isUnit (h : parameter.IsUnit) :
    listContent options (parameter :: rest) = listContent options rest := by
  rw [listContent, listContent, shownParameters_of_isUnit h]

theorem listContent_last (h : ¬ parameter.IsUnit) (hrest : shownParameters rest = []) :
    listContent options (parameter :: rest) = parameter.render options := by
  rw [listContent, shownParameters_of_not_isUnit h, hrest, separated, List.map_singleton,
    List.intercalate_singleton]

theorem listContent_next (h : ¬ parameter.IsUnit) (hrest : shownParameters rest ≠ []) :
    listContent options (parameter :: rest) =
      parameter.render options ++ punctuation ", " :: listContent options rest := by
  obtain ⟨next, more, hmore⟩ := List.exists_cons_of_ne_nil hrest
  simp only [listContent, separated, shownParameters_of_not_isUnit h, hmore, List.map_cons,
    List.intercalate_cons_cons, List.append_assoc, List.singleton_append]

theorem listed_iff {content : Rendering} :
    Listed options parameters content ↔ listContent options parameters = content := by
  constructor
  · intro h
    induction h with
    | nil => rfl
    | unit hunit hrest ih => rw [listContent_of_isUnit hunit, ih]
    | last hshown hrest => exact listContent_last hshown (shownParameters_eq_nil_iff.2 hrest)
    | @next parameter rest content hshown hnext hrest ih =>
        have hne : shownParameters rest ≠ [] := by
          simpa [shownParameters_eq_nil_iff] using hnext
        rw [listContent_next hshown hne, ih]
  · rintro rfl
    induction parameters with
    | nil => exact .nil
    | cons parameter rest ih =>
        by_cases hunit : parameter.IsUnit
        · rw [listContent_of_isUnit hunit]
          exact .unit hunit ih
        · by_cases hnone : shownParameters rest = []
          · rw [listContent_last hunit hnone]
            exact .last hunit (shownParameters_eq_nil_iff.1 hnone)
          · rw [listContent_next hunit hnone]
            exact .next hunit (by simpa [shownParameters_eq_nil_iff] using hnone) ih

end

theorem renderParameters_eq_iff {content : Rendering} :
    renderParameters options true parameters =
        punctuation "(" :: content ++ [punctuation ")"] ↔ Listed options parameters content := by
  rw [renderParameters_known, listed_iff, List.cons_append, List.cons_append, List.cons.injEq,
    List.append_cancel_right_eq]
  exact and_iff_right rfl

/-- Parameters of the type of no value never show. Calls that differ by no more than such
parameters, put in anywhere, are rendered by the same spans, so no output tells them apart. A list
of parameters that is known has its other parameters between the brackets, in order, with a
separator behind each of them that another one follows and with no other separator. -/
theorem unit_parameters_never_show (options : FormatOptions) :
    (∀ call other : SourceCall, call.PaddedTo other →
      other.render options = call.render options) ∧
    (∀ parameters : List SourceParameter, ∃ shown, UnitPadded shown parameters ∧
      (∀ parameter ∈ shown, ¬ parameter.IsUnit) ∧
      renderParameters options true parameters =
        punctuation "(" :: List.intercalate [punctuation ", "] (shown.map (·.render options)) ++
          [punctuation ")"]) ∧
    (∀ (parameters : List SourceParameter) (content : Rendering),
      renderParameters options true parameters =
          punctuation "(" :: content ++ [punctuation ")"] ↔
        Listed options parameters content) := by
  refine ⟨fun call other hpadded => ?calls, fun parameters => ?shown,
    fun parameters content => ?separators⟩
  case calls => exact hpadded.render_eq options
  case shown =>
    refine ⟨shownParameters parameters, unitPadded_shownParameters parameters, ?_,
      renderParameters_known options parameters⟩
    exact fun parameter hparameter => not_isUnit_of_mem_shownParameters hparameter
  case separators => exact renderParameters_eq_iff options

/-! A method with a local function and a lambda in it. One parameter is of the type of no value and
written `dynamic`. -/

namespace TakesNothing

def unit (name : Option String) (modifier : Option ParamModifier) : SourceParameter :=
  { name, type := .foreignUnit, modifier }

def int (name : String) : SourceParameter :=
  { name := some name, type := .primitive "int" "System.Int32" }

def anything : SourceParameter := { name := some "o", type := .foreignUnit, isDynamic := true }

def call (run find each : List SourceParameter) : SourceCall :=
  { method :=
      { declaringType := some (.named none [.mk "Program" []]), name := "Run", parameters := run
        parametersKnown := true }
    bodies :=
      [{ name := "Find", parameters := find },
       { isLambda := true, parameters := each, parametersKnown := true }] }

def plainCall : SourceCall := call [int "a", anything, int "b"] [int "n"] []

def paddedCall : SourceCall :=
  call [unit none none, int "a", unit (some "u") (some .ref), unit none none, anything, int "b",
      unit (some "v") none]
    [int "n", unit none (some .out)] [unit none none, unit none (some .in)]

theorem paddedTo : plainCall.PaddedTo paddedCall where
  method := by
    refine ⟨_, ?_, rfl⟩
    exact .unit ⟨rfl, rfl⟩ (.keep _ (.unit ⟨rfl, rfl⟩ (.unit ⟨rfl, rfl⟩
      (.keep _ (.keep _ (.unit ⟨rfl, rfl⟩ .nil))))))
  bodies := by
    refine .cons ⟨_, ?_, rfl⟩ (.cons ⟨_, ?_, rfl⟩ .nil)
    · exact .keep _ (.unit ⟨rfl, rfl⟩ .nil)
    · exact .unit ⟨rfl, rfl⟩ (.unit ⟨rfl, rfl⟩ .nil)

end TakesNothing

open TakesNothing

theorem render_takesNothing :
    plainCall.PaddedTo paddedCall ∧
      paddedCall.render {} = plainCall.render {} ∧
      (paddedCall.render {}).plain =
        "Program.Run(int a, dynamic o, int b)+Find(?)+() => \x7b \x7d" := by
  have hsame := (unit_parameters_never_show {}).1 plainCall paddedCall paddedTo
  refine ⟨paddedTo, hsame, ?_⟩
  rw [hsame]
  decide +kernel

end Unmangle
