import Unmangle.GeneratedName.Basic

/-!
# Which enclosing names can be trusted

The name in the brackets is taken for the name of a method only if it looks like one: an
identifier, or a made-up name around such a name, nested to a limited depth.
-/

namespace Unmangle

/-- A name nested this deep is not trusted. -/
def maxFragmentNesting : Nat := 8

/-- An ASCII letter or an underscore. -/
def isIdentifierStart (c : Char) : Bool :=
  c.isAlpha || c == '_'

/-- What may follow the start of a name, dots of qualified names and arities included. -/
def isIdentifierRest (c : Char) : Bool :=
  c.isAlphanum || c == '_' || c == '.' || c == '\x60'

/-- An identifier, perhaps after a dot, as constructors have it. -/
def isPlainName (text : List Char) : Bool :=
  match text with
  | '.' :: first :: rest => isIdentifierStart first && rest.all isIdentifierRest
  | first :: rest => isIdentifierStart first && rest.all isIdentifierRest
  | [] => false

/-- Does peeling off at most `peels - 1` made-up layers leave a plain name? -/
def isWellFormedWithin : Nat → String → Bool
  | 0, _ => false
  | peels + 1, fragment =>
    match GeneratedName.parse? fragment with
    | some g => isWellFormedWithin peels g.enclosing
    | none => isPlainName fragment.toList

/-- Can a name from inside the brackets be taken for the name of a method? -/
def isWellFormedFragment (fragment : String) : Bool :=
  isWellFormedWithin maxFragmentNesting fragment

theorem isWellFormedWithin_succ {peels : Nat} {fragment : String}
    (h : isWellFormedWithin peels fragment = true) :
    isWellFormedWithin (peels + 1) fragment = true := by
  induction peels generalizing fragment with
  | zero => cases h
  | succ peels ih =>
      rw [isWellFormedWithin] at h ⊢
      cases hparse : GeneratedName.parse? fragment with
      | none =>
          rw [hparse] at h
          exact h
      | some name =>
          rw [hparse] at h
          exact ih h

/-- A trusted name that is made up holds a trusted name again. -/
theorem isWellFormedFragment_enclosing {fragment : String} {name : GeneratedName}
    (hparse : GeneratedName.parse? fragment = some name)
    (h : isWellFormedFragment fragment = true) : isWellFormedFragment name.enclosing = true := by
  rw [isWellFormedFragment, maxFragmentNesting, isWellFormedWithin, hparse] at h
  exact isWellFormedWithin_succ h

end Unmangle
