import Unmangle.GeneratedName.Basic
import Unmangle.Text.Decimal

/-!
# What the suffix of a made-up name tells

A suffix opens with numbers: the one of the method around the construct and, after an underscore,
the one of the construct within that method. For a local function its own name and a bar come
first, as in `Local|2_0`. A number is the whole run of digits at its place or it is not there.
-/

namespace Unmangle.GeneratedName

open Text

/-- The numbers of a suffix, each as its run of digits; an absent number is an empty run. -/
structure Ordinals where
  method : List Char
  construct : List Char
deriving DecidableEq, Repr

/-- Reads what follows the first run of digits: an underscore and a second run, or nothing. -/
def secondRun : List Char → List Char
  | '_' :: rest => (spanDigits rest).1
  | _ => []

/-- The numbers at the front of a text. -/
def ordinals (text : List Char) : Ordinals :=
  let (method, rest) := spanDigits text
  { method, construct := secondRun rest }

/-- The name before the first bar of a suffix and what follows the bar. -/
def splitAtBar? (suffix : List Char) : Option (List Char × List Char) :=
  match suffix.span (· != '|') with
  | ([], _) => none
  | (_, []) => none
  | (name, _ :: rest) => some (name, rest)

/-- The source name of a local function. -/
def localName? (g : GeneratedName) : Option String :=
  match g.kind with
  | .localFunction => (splitAtBar? g.suffix.toList).map fun (name, _) => .ofList name
  | _ => none

/-- The number of the method around the construct. -/
def ordinalHint? (g : GeneratedName) : Option UInt32 :=
  match g.kind with
  | .localFunction => do
    let (_, rest) ← splitAtBar? g.suffix.toList
    word32? (ordinals rest).method
  | _ => word32? (ordinals g.suffix.toList).method

/-- The number of a lambda within the method around it; it stands only after the first number. -/
def lambdaOrdinal? (g : GeneratedName) : Option UInt32 :=
  match g.kind with
  | .lambda =>
    let numbers := ordinals g.suffix.toList
    if numbers.method.isEmpty then none else word32? numbers.construct
  | _ => none

end Unmangle.GeneratedName
