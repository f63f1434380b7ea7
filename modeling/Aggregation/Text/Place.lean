/-! Places in a source text.

A place is a byte offset into the UTF-8 form of the text, and a stretch of text is a `Span`, the
half-open interval between two places. Readers of a message want a `Position` instead: the line and
the column, both counted from one, where a column counts characters and only a line feed ends a
line. `Position.of` turns the first into the second, and `Span.slice` reads a stretch back. -/
namespace Aggregation

/-! ### Bytes -/

/-- The number of bytes of a text in UTF-8. -/
def byteLength : List Char → Nat
  | [] => 0
  | c :: cs => c.utf8Size + byteLength cs

@[simp] theorem byteLength_nil : byteLength [] = 0 := rfl

@[simp] theorem byteLength_cons (c : Char) (cs : List Char) :
    byteLength (c :: cs) = c.utf8Size + byteLength cs := rfl

@[simp] theorem byteLength_append (cs ds : List Char) :
    byteLength (cs ++ ds) = byteLength cs + byteLength ds := by
  induction cs with
  | nil => simp
  | cons c cs ih => simp [ih, Nat.add_assoc]

theorem byteLength_pos {cs : List Char} (h : cs ≠ []) : 0 < byteLength cs := by
  cases cs with
  | nil => exact absurd rfl h
  | cons c cs => exact Nat.lt_of_lt_of_le c.utf8Size_pos (Nat.le_add_right _ _)

/-- The text after its first `n` bytes, if a character starts there. -/
def dropBytes : List Char → Nat → Option (List Char)
  | cs, 0 => some cs
  | [], _ + 1 => none
  | c :: cs, n + 1 => if c.utf8Size ≤ n + 1 then dropBytes cs (n + 1 - c.utf8Size) else none

/-- The first `n` bytes of the text, if a character ends there. -/
def takeBytes : List Char → Nat → Option (List Char)
  | _, 0 => some []
  | [], _ + 1 => none
  | c :: cs, n + 1 =>
    if c.utf8Size ≤ n + 1 then (takeBytes cs (n + 1 - c.utf8Size)).map (c :: ·) else none

@[simp] theorem dropBytes_zero (cs : List Char) : dropBytes cs 0 = some cs := by
  cases cs <;> rfl

@[simp] theorem takeBytes_zero (cs : List Char) : takeBytes cs 0 = some [] := by
  cases cs <;> rfl

/-- Dropping the bytes of a leading text leaves what follows it. -/
@[simp] theorem dropBytes_append (cs ds : List Char) :
    dropBytes (cs ++ ds) (byteLength cs) = some ds := by
  induction cs with
  | nil => simp
  | cons c cs ih =>
    obtain ⟨k, hk⟩ := Nat.exists_eq_succ_of_ne_zero (Nat.ne_of_gt c.utf8Size_pos)
    rw [byteLength_cons, hk, Nat.succ_add, List.cons_append, dropBytes, hk]
    simp [Nat.succ_sub_succ, ih]

/-- Taking the bytes of a leading text gives that text. -/
@[simp] theorem takeBytes_append (cs ds : List Char) :
    takeBytes (cs ++ ds) (byteLength cs) = some cs := by
  induction cs with
  | nil => simp
  | cons c cs ih =>
    obtain ⟨k, hk⟩ := Nat.exists_eq_succ_of_ne_zero (Nat.ne_of_gt c.utf8Size_pos)
    rw [byteLength_cons, hk, Nat.succ_add, List.cons_append, takeBytes, hk]
    simp [Nat.succ_sub_succ, ih]

/-! ### Lines and columns -/

/-- A line and a column, both counted from one. -/
structure Position where
  line : Nat
  column : Nat
deriving DecidableEq, Repr

namespace Position

/-- Where a text begins. -/
def first : Position := ⟨1, 1⟩

/-- The position after one more character: a line feed opens a line, any other character a column. -/
def advance (p : Position) (c : Char) : Position :=
  if c = '\n' then ⟨p.line + 1, 1⟩ else ⟨p.line, p.column + 1⟩

/-- The position reached from `p` by every character that starts less than `n` bytes ahead. -/
def walk (p : Position) : List Char → Nat → Position
  | [], _ => p
  | c :: cs, n => if n = 0 then p else walk (p.advance c) cs (n - c.utf8Size)

/-- The position of a byte offset. Past the end it is the end of the text, and inside a character
it is the place after that character. -/
def of (source : List Char) (offset : Nat) : Position :=
  walk first source offset

/-- The written form, `line:column`. -/
def text (p : Position) : String :=
  toString p.line ++ ":" ++ toString p.column

/-- Walking the bytes of a leading text passes its characters one by one. -/
theorem walk_append (p : Position) (cs ds : List Char) :
    walk p (cs ++ ds) (byteLength cs) = cs.foldl advance p := by
  induction cs generalizing p with
  | nil => cases ds <;> simp [walk]
  | cons c cs ih =>
    have h : c.utf8Size + byteLength cs ≠ 0 := by have := c.utf8Size_pos; omega
    rw [List.cons_append, walk, byteLength_cons, if_neg h, Nat.add_sub_cancel_left, ih,
      List.foldl_cons]

end Position

/-! ### Stretches of text -/

/-- The bytes from `start` up to `stop`. -/
structure Span where
  start : Nat
  stop : Nat
deriving DecidableEq, Repr

namespace Span

/-- The smallest span that covers both. -/
def union (a b : Span) : Span :=
  ⟨min a.start b.start, max a.stop b.stop⟩

/-- The text of a span, or nothing where the span is reversed, reaches past the end or cuts a
character. -/
def slice (s : Span) (source : List Char) : List Char :=
  if s.stop < s.start then []
  else ((dropBytes source s.start).bind (takeBytes · (s.stop - s.start))).getD []

/-- A span between two characters of a text reads back what stands between them. -/
theorem slice_append (before inside after : List Char) :
    (Span.mk (byteLength before) (byteLength before + byteLength inside)).slice
      (before ++ (inside ++ after)) = inside := by
  have h : ¬ byteLength before + byteLength inside < byteLength before := by omega
  rw [slice, if_neg h]
  simp

end Span

end Aggregation
