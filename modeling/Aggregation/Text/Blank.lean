import Aggregation.Text.CodeRanges

/-! Blanks: the characters with the Unicode property White_Space.

They are few: the ASCII blanks with the vertical tab and the form feed, the next-line control, the
no-break spaces, the spaces of fixed width and the two separators. A zero-width space is none of
them, and neither is the byte order mark. -/
namespace Aggregation

/-- All blanks. -/
def blankRanges : CodeRanges := [
  (0x9, 0xd), (0x20, 0x20), (0x85, 0x85), (0xa0, 0xa0), (0x1680, 0x1680), (0x2000, 0x200a),
  (0x2028, 0x2029), (0x202f, 0x202f), (0x205f, 0x205f), (0x3000, 0x3000)]

def isBlank (c : Char) : Bool :=
  blankRanges.covers c.toNat

example : blankRanges.size = 25 := by decide

end Aggregation
