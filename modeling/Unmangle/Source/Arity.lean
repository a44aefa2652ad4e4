import Unmangle.Text.Decimal

/-!
# Arities in the names of types

A generic definition carries the number of its own parameters behind a backtick at the end of its
name, as in ``Box`1``. What follows the last backtick counts as an arity only if it is a number.
-/

namespace Unmangle

/-- Splits at the last backtick. -/
def splitAtLastTick? (name : List Char) : Option (List Char × List Char) :=
  match name.reverse.span (· != '\x60') with
  | (_, []) => none
  | (count, _ :: base) => some (base.reverse, count.reverse)

/-- A name without its arity, and the arity. -/
def splitArity (name : String) : String × Option Nat :=
  match splitAtLastTick? name.toList with
  | none => (name, none)
  | some (base, count) =>
    match Text.count? count with
    | some arity => (.ofList base, some arity)
    | none => (name, none)

end Unmangle
