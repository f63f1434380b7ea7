import Aggregation.Text.Blank
import Aggregation.Text.Cut

/-! What may stand between two tokens: blanks, line comments and closed block comments.

A line comment runs from `//` to the end of its line, and a block comment from `/*` to the next
`*/`. `Gap.split` cuts the longest gap off a text. A block comment that is never closed is no part
of a gap, so what is left of the text then still begins with `/*`. -/
namespace Aggregation.Gap

mutual

/-- The longest gap at the start of a text. -/
def split : List Char → Cut
  | [] => .none []
  | '/' :: '/' :: cs => (line cs).push ['/', '/']
  | '/' :: '*' :: cs =>
    match block cs with
    | some r => r.push ['/', '*']
    | none => .none ('/' :: '*' :: cs)
  | c :: cs => if isBlank c then (split cs).push [c] else .none (c :: cs)

/-- The rest of a line comment, with the gap that goes on after it. -/
def line : List Char → Cut
  | [] => .none []
  | c :: cs => if c = '\n' then (split cs).push [c] else (line cs).push [c]

/-- The rest of a block comment, with the gap that goes on after it, if the comment is closed. -/
def block : List Char → Option Cut
  | [] => none
  | '*' :: '/' :: cs => some ((split cs).push ['*', '/'])
  | c :: cs => (block cs).map (·.push [c])

end

mutual

/-- A gap and what follows it make up the text. -/
@[simp] theorem whole_split (cs : List Char) : (split cs).whole = cs := by
  unfold split
  split
  · rfl
  · rw [Cut.whole_push, whole_line]; rfl
  · split
    · next h => rw [Cut.whole_push, whole_block h]; rfl
    · rfl
  · split
    · rw [Cut.whole_push, whole_split]; rfl
    · rfl

/-- The rest of a line comment and what follows it make up the text. -/
theorem whole_line (cs : List Char) : (line cs).whole = cs := by
  unfold line
  split
  · rfl
  · split
    · rw [Cut.whole_push, whole_split]; rfl
    · rw [Cut.whole_push, whole_line]; rfl

/-- The rest of a closed block comment and what follows it make up the text. -/
theorem whole_block {cs : List Char} {r : Cut} (h : block cs = some r) : r.whole = cs := by
  unfold block at h
  split at h
  · simp at h
  · obtain rfl := Option.some.inj h
    rw [Cut.whole_push, whole_split]; rfl
  · obtain ⟨s, hs, rfl⟩ := Option.map_eq_some_iff.1 h
    rw [Cut.whole_push, whole_block hs]; rfl

end

end Aggregation.Gap
