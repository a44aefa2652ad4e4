/-!
# Names that the C# compiler makes up

A lambda, a local function, a closure object or a state machine has no name in the source, so the
compiler writes one: the name of the method around it in angle brackets, one character that tells
the construct, and a suffix that tells constructs of one method apart.

| Construct          | Example                 | Kind |
|--------------------|-------------------------|------|
| lambda             | `<Outer>b__2_0`         | `b`  |
| local function     | `<Outer>g__Local\|2_0`  | `g`  |
| state machine type | `<Outer>d__4`           | `d`  |
| closure object     | `<>c__DisplayClass2_0`  | `c`  |

The name in brackets may itself be made up, as in `<<Outer>b__0_0>d`, so the closing bracket is
the one that balances the first. Old compilers put `CS$` in front of the whole.
-/

namespace Unmangle

/-- The construct that a made-up name stands for, told by its kind character. -/
inductive GeneratedKind where
  | lambda
  | localFunction
  | stateMachine
  | displayClass
  | other (kind : Char)
deriving DecidableEq, Repr

namespace GeneratedKind

def ofChar : Char → GeneratedKind
  | 'b' => .lambda
  | 'g' => .localFunction
  | 'd' => .stateMachine
  | 'c' => .displayClass
  | kind => .other kind

/-- Lambdas and local functions are bodies moved out of the method around them. -/
def isHoistedBody : GeneratedKind → Bool
  | .lambda | .localFunction => true
  | _ => false

end GeneratedKind

/-- A made-up name in its parts. -/
structure GeneratedName where
  kind : GeneratedKind
  /-- The name in the brackets. -/
  enclosing : String
  /-- All that follows the kind character, less the two underscores that may part them. -/
  suffix : String
deriving DecidableEq, Repr

namespace GeneratedName

/-- What follows the first angle bracket, if the name opens with one. -/
def afterOpening? : List Char → Option (List Char)
  | '<' :: rest => some rest
  | 'C' :: 'S' :: '$' :: '<' :: rest => some rest
  | _ => none

/--
Splits a text that stands inside an open bracket at the bracket that closes it. `depth` counts
the further brackets that are open.
-/
def splitAtClosing? : Nat → List Char → Option (List Char × List Char)
  | _, [] => none
  | depth, '<' :: rest => (splitAtClosing? (depth + 1) rest).map fun (before, after) =>
      ('<' :: before, after)
  | 0, '>' :: rest => some ([], rest)
  | depth + 1, '>' :: rest => (splitAtClosing? depth rest).map fun (before, after) =>
      ('>' :: before, after)
  | depth, c :: rest => (splitAtClosing? depth rest).map fun (before, after) =>
      (c :: before, after)

/-- The characters that tell a construct: `1` to `9` and `a` to `z`. -/
def isKindChar (c : Char) : Bool :=
  ('1' ≤ c && c ≤ '9') || ('a' ≤ c && c ≤ 'z')

/-- A suffix without the two underscores that may stand before it. -/
def dropUnderscores : List Char → List Char
  | '_' :: '_' :: rest => rest
  | rest => rest

/-- Takes a made-up name apart; nothing for any other name. -/
def parse? (name : String) : Option GeneratedName := do
  let inside ← afterOpening? name.toList
  let (enclosing, after) ← splitAtClosing? 0 inside
  match after with
  | [] => none
  | kind :: rest =>
    if isKindChar kind then
      some
        { kind := .ofChar kind
          enclosing := .ofList enclosing
          suffix := .ofList (dropUnderscores rest) }
    else none

end GeneratedName

end Unmangle
