import Unmangle.Rendering.Span

/-!
# Output that may break off

When a fault strikes in the middle of a rendering, what was written before it stays.
-/

namespace Unmangle

/-- What was written, and whether a fault put an end to it. -/
structure Output where
  rendering : Rendering
  aborted : Bool := false
deriving DecidableEq, Repr

namespace Output

def whole (rendering : Rendering) : Output := ⟨rendering, false⟩

/-- What a fault leaves of a rendering. -/
def broken (rendering : Rendering) : Output := ⟨rendering, true⟩

/-- Goes on after a rendering, unless that broke off. -/
def append (first second : Output) : Output :=
  if first.aborted then first else ⟨first.rendering ++ second.rendering, second.aborted⟩

instance : Append Output := ⟨append⟩

/-- One output after the other, up to the first that breaks off. -/
def concat (parts : List Output) : Output := parts.foldr append (.whole [])

end Output

end Unmangle
