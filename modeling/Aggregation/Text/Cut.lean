/-! Texts cut in two.

A reader of text takes some characters off the front and leaves the rest. A `Cut` holds both parts,
so that nothing is lost: the two together are the text that was read. -/
namespace Aggregation

/-- The characters read and the text after them. -/
structure Cut where
  taken : List Char
  rest : List Char
deriving DecidableEq, Repr

namespace Cut

/-- The text that was cut. -/
def whole (c : Cut) : List Char :=
  c.taken ++ c.rest

/-- Nothing read yet. -/
def none (cs : List Char) : Cut := ⟨[], cs⟩

/-- Puts characters in front of those read. -/
def push (cs : List Char) (c : Cut) : Cut :=
  ⟨cs ++ c.taken, c.rest⟩

/-- The longest run of characters with a property. -/
def span (p : Char → Bool) (cs : List Char) : Cut :=
  ⟨cs.takeWhile p, cs.dropWhile p⟩

@[simp] theorem whole_mk (cs ds : List Char) : (mk cs ds).whole = cs ++ ds := rfl

@[simp] theorem whole_none (cs : List Char) : (none cs).whole = cs := rfl

@[simp] theorem whole_push (cs : List Char) (c : Cut) : (c.push cs).whole = cs ++ c.whole := by
  simp [whole, push]

@[simp] theorem whole_span (p : Char → Bool) (cs : List Char) : (span p cs).whole = cs :=
  List.takeWhile_append_dropWhile

end Cut

end Aggregation
