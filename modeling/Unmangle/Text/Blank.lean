/-!
# White space and words

Style words inside a markup tag are separated by white space of any kind: the characters that
carry the Unicode property `White_Space`, which are more than the ASCII ones.
-/

namespace Unmangle.Text

/-- A character with the Unicode property `White_Space`. -/
def isBlank (c : Char) : Bool :=
  let n := c.toNat
  (0x9 ≤ n && n ≤ 0xd) || n == 0x20 || n == 0x85 || n == 0xa0 || n == 0x1680
    || (0x2000 ≤ n && n ≤ 0x200a) || n == 0x2028 || n == 0x2029 || n == 0x202f || n == 0x205f
    || n == 0x3000

/-- The words of a text: its maximal runs of characters that are not white space. -/
def words (text : List Char) : List (List Char) :=
  (text.splitBy fun a b => isBlank a == isBlank b).filter fun run => !run.any isBlank

example : words " red\u00a0 bold".toList = ["red".toList, "bold".toList] := by decide +kernel

end Unmangle.Text
