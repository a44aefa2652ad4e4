import Unmangle.Metadata.Lookup
import Unmangle.Metadata.Traits
import Unmangle.Source.Arity
import Unmangle.Source.Type

/-!
# From tokens to types

Resolving follows a token through the metadata until nothing but names is left. Metadata comes
from outside and may be cyclic, or so repetitive that its unfolding would fill the memory. Three
guards end every resolution: no token is met twice on one path, no path is longer than
`maxTypeDepth`, and no more than `maxTypeNodes` tokens are expanded in one go. Where a guard
strikes, the result says so by `SourceType.truncated` and goes on beside it.
-/

namespace Unmangle

/-- The longest path of tokens that one resolution follows. -/
def maxTypeDepth : Nat := 32

/-- The most tokens that one resolution expands. -/
def maxTypeNodes : Nat := 4096

/-- The highest rank that the runtime gives to an array. -/
def maxArrayRank : Nat := 32

/-- The arguments that the open parameters of a type and of a method are bound to. -/
structure Bindings where
  typeArgs : List TypeToken := []
  methodArgs : List TypeToken := []
deriving DecidableEq, Repr, Inhabited

def Bindings.lookup (bindings : Bindings) (owner : GenericOwner) (position : UInt64) :
    Option TypeToken :=
  match owner with
  | .type => bindings.typeArgs[position.toNat]?
  | .method => bindings.methodArgs[position.toNat]?

/-- Maps a function over a list, left to right, handing a state on from element to element. -/
def mapThreading {α β σ : Type} (f : α → σ → β × σ) : List α → σ → List β × σ
  | [], state => ([], state)
  | a :: rest, state =>
    let (b, state) := f a state
    let (bs, state) := mapThreading f rest state
    (b :: bs, state)

namespace Metadata

/-- A type and the types it is nested in, innermost first, up to `room + 1` of them. -/
def declaringChain (md : Metadata) : Nat → NamedType → List NamedType
  | 0, type => [type]
  | room + 1, type =>
    type ::
      match type.declaringType.bind md.typeDef? with
      | some (.named outer) => declaringChain md room outer
      | _ => []

/--
Deals generic arguments out to the segments of a nested type, outermost first: each takes as many
as its arity asks for, and the last takes what is left.
-/
def dealArguments : List NamedType → List SourceType → List TypeSegment
  | [], _ => []
  | [type], args => [.mk (splitArity type.name).1 args]
  | type :: inner, args =>
    let (base, arity) := splitArity type.name
    let own := arity.getD 0
    .mk base (args.take own) :: dealArguments inner (args.drop own)

/-- The spelling of a definition by its declaring types, with its open parameters if no arguments
are given. -/
def spellNested (md : Metadata) (type : NamedType) (args : List SourceType) : SourceType :=
  let chain := (md.declaringChain (maxTypeDepth - 1) type).reverse
  let args := if args.isEmpty then type.genericParams.map .genericParam else args
  .named (chain.head?.bind (·.space)) (dealArguments chain args)

/--
The spelling of a definition with its arguments. The type of no value, primitive types, nullable
types and tuples have one of their own.
-/
def resolveNamed (md : Metadata) (type : NamedType) (args : List SourceType) : SourceType :=
  if type.isForeignUnit then .foreignUnit
  else
    match args with
    | [] =>
      match type.keyword? with
      | some keyword => .primitive keyword type.qualifiedName
      | none => md.spellNested type []
    | [element] =>
      if type.isNullable then .nullable element
      else if type.isValueTuple then .tuple [element]
      else md.spellNested type [element]
    | elements =>
      if type.isValueTuple then .tuple elements else md.spellNested type elements

/--
Resolves a token below the tokens of `path`, with `room` left for the path. The state is the list
of the tokens expanded so far, oldest first.
-/
def resolveAt (md : Metadata) :
    Nat → List TypeToken → Bindings → TypeToken → Array TypeToken → SourceType × Array TypeToken
  | 0, _, _, _, expanded => (.truncated, expanded)
  | room + 1, path, bindings, token, expanded =>
    if expanded.size ≥ maxTypeNodes then (.truncated, expanded)
    else if token ∈ path then (.truncated, expanded)
    else
      match md.typeDef? token with
      | none => (.unresolved, expanded)
      | some definition =>
        let expanded := expanded.push token
        let path := token :: path
        match definition with
        | .named type => (md.resolveNamed type [], expanded)
        | .genericInstance definition args =>
          let (args, expanded) := mapThreading (resolveAt md room path bindings) args expanded
          match md.typeDef? definition with
          | some (.named type) => (md.resolveNamed type args, expanded)
          | _ => (.unresolved, expanded)
        | .genericParam name owner position =>
          match bindings.lookup owner position with
          | some bound => resolveAt md room path {} bound expanded
          | none => (.genericParam name, expanded)
        | .array element rank =>
          if rank.toNat > maxArrayRank then (.unresolved, expanded)
          else
            let (element, expanded) := resolveAt md room path bindings element expanded
            (.array element (max rank.toNat 1), expanded)
        | .pointer element =>
          let (element, expanded) := resolveAt md room path bindings element expanded
          (.pointer element, expanded)
        | .byRef element =>
          let (element, expanded) := resolveAt md room path bindings element expanded
          (.byRef element, expanded)

/-- A type with the tokens that were expanded on the way to it. -/
def resolveLogged (md : Metadata) (bindings : Bindings) (token : TypeToken) :
    SourceType × Array TypeToken :=
  md.resolveAt maxTypeDepth [] bindings token #[]

/-- The type behind a token. -/
def resolveType (md : Metadata) (bindings : Bindings) (token : TypeToken) : SourceType :=
  (md.resolveLogged bindings token).1

end Metadata

end Unmangle
