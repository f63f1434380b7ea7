import Mathlib.Data.List.DropRight
import Mathlib.Data.List.Induction
import Aggregation.Proofs.Excerpt
import Aggregation.Proofs.Progress

/-! Positions and offsets.

`Position.of` walks over a text byte by byte and keeps a line and a column. At a boundary between two
characters the walk has passed just the characters before it, so its line counts their line feeds and its
column those behind the last line feed (`endOf_eq`). Each character moves the position on
(`before_advance`), so positions of boundaries stand in the order of the boundaries
(`before_of_iff`). Other offsets have the position of a boundary: one inside a character that of its end,
one behind the text that of the end of the text. -/
namespace Aggregation.Position

/-! ### Order -/

/-- The position is on an earlier line, or further left on the same line. -/
def Before (p q : Position) : Prop :=
  p.line < q.line ∨ p.line = q.line ∧ p.column < q.column

theorem Before.trans {p q r : Position} (hpq : p.Before q) (hqr : q.Before r) : p.Before r := by
  unfold Before at *
  omega

theorem Before.asymm {p q : Position} (h : p.Before q) : ¬ q.Before p := by
  unfold Before at *
  omega

theorem Before.irrefl (p : Position) : ¬ p.Before p := fun h => h.asymm h

/-- Every character moves a position on. -/
theorem before_advance (p : Position) (c : Char) : p.Before (p.advance c) := by
  unfold advance Before
  split
  · exact .inl (Nat.lt_succ_self _)
  · exact .inr ⟨rfl, Nat.lt_succ_self _⟩

theorem before_foldl (p : Position) {cs : List Char} (h : cs ≠ []) : p.Before (cs.foldl advance p) := by
  induction cs generalizing p with
  | nil => exact absurd rfl h
  | cons c cs ih =>
    rw [List.foldl_cons]
    cases cs with
    | nil => exact before_advance p c
    | cons d cs => exact (before_advance p c).trans (ih _ (List.cons_ne_nil d cs))

/-! ### Boundaries -/

variable {source before after : List Char} {m n : Nat}

/-- At a boundary the characters before it have been passed. -/
theorem of_append (before after : List Char) :
    Position.of (before ++ after) (byteLength before) = endOf before :=
  walk_append first before after

/-- The line counts the line feeds passed, and the column the characters passed since the last one. -/
theorem endOf_eq (cs : List Char) :
    endOf cs = ⟨1 + cs.count '\n', 1 + (cs.rtakeWhile (· ≠ '\n')).length⟩ := by
  induction cs using List.reverseRecOn with
  | nil => rfl
  | append_singleton cs c ih =>
    have hstep : endOf (cs ++ [c]) = (endOf cs).advance c := List.foldl_append
    rw [hstep, ih, advance]
    by_cases hc : c = '\n'
    · subst hc
      rw [if_pos rfl, List.rtakeWhile_concat_neg _ _ _ (by simp)]
      simp [Nat.add_assoc]
    · rw [if_neg hc, List.rtakeWhile_concat_pos _ _ _ (by simpa using hc)]
      simp [hc, Nat.add_assoc]

/-- Of two boundaries the one further on has more characters before it. -/
theorem before_of_lt (hm : IsBoundary source m) (hn : IsBoundary source n) (h : m < n) :
    (Position.of source m).Before (Position.of source n) := by
  obtain ⟨b₁, a₁, rfl, rfl⟩ := hm
  obtain ⟨b₂, a₂, heq, rfl⟩ := hn
  obtain ⟨mid, rfl, -⟩ | ⟨mid, rfl, -⟩ := List.append_eq_append_iff.1 heq
  · have hmid : mid ≠ [] := by
      rintro rfl
      simp at h
    rw [of_append, heq, of_append, endOf, endOf, List.foldl_append]
    exact before_foldl _ hmid
  · rw [byteLength_append] at h
    omega

theorem before_of_iff (hm : IsBoundary source m) (hn : IsBoundary source n) :
    (Position.of source m).Before (Position.of source n) ↔ m < n := by
  refine ⟨fun h => ?_, before_of_lt hm hn⟩
  by_contra hlt
  rcases Nat.lt_or_eq_of_le (Nat.le_of_not_lt hlt) with hgt | rfl
  · exact h.asymm (before_of_lt hn hm hgt)
  · exact Before.irrefl _ h

/-! ### Other offsets -/

theorem walk_zero (p : Position) (cs : List Char) : walk p cs 0 = p := by
  cases cs <;> rfl

/-- Inside a character the whole character has been passed. -/
theorem of_inside {c : Char} (hlt : byteLength before < n) (hle : n ≤ byteLength before + c.utf8Size) :
    Position.of (before ++ c :: after) n = endOf (before ++ [c]) := by
  obtain ⟨k, rfl⟩ := Nat.exists_eq_add_of_lt hlt
  have hn : byteLength before + k + 1 = k + 1 + byteLength before := by omega
  have hk : k + 1 - c.utf8Size = 0 := by omega
  rw [Position.of, hn, walk_append_add, walk, if_neg (Nat.succ_ne_zero k), hk, walk_zero, endOf,
    List.foldl_append]
  rfl

/-- Behind the text all of it has been passed. -/
theorem of_end (h : byteLength source ≤ n) : Position.of source n = endOf source := by
  obtain ⟨k, rfl⟩ := Nat.exists_eq_add_of_le' h
  have hwalk := walk_append_add first source [] k
  rwa [List.append_nil] at hwalk

/-- Behind a line feed positions are counted as in the text that follows it, some lines below. -/
theorem of_below (cs second : List Char) (n : Nat) :
    Position.of (cs ++ ['\n'] ++ second) (byteLength (cs ++ ['\n']) + n) =
      (Position.of second n).down (cs.count '\n' + 1) := by
  rw [← after_endOf_concat, Position.of, Nat.add_comm, walk_append_add]
  exact walk_after (p := first) (endOf (cs ++ ['\n'])) (Nat.le_refl 1) (Nat.le_refl 1) second n

/-- Positions and boundaries correspond one to one and in order. The line of a boundary counts the line
feeds before it, and the column the characters behind the last of these or behind the start. An
offset inside a character is at the end of that character, and one past the text at the end of the text.
A text that follows a line feed has the positions it has by itself, below the lines before it. -/
theorem positions_match_offsets (source : List Char) :
    (∀ m n, IsBoundary source m → IsBoundary source n →
      ((Position.of source m).Before (Position.of source n) ↔ m < n) ∧
        (Position.of source m = Position.of source n ↔ m = n)) ∧
    (∀ before after, source = before ++ after →
      Position.of source (byteLength before) =
        ⟨1 + before.count '\n', 1 + (before.rtakeWhile (· ≠ '\n')).length⟩) ∧
    (∀ before c after n, source = before ++ c :: after → byteLength before < n →
      n < byteLength before + c.utf8Size →
      Position.of source n = Position.of source (byteLength before + c.utf8Size)) ∧
    (∀ n, byteLength source ≤ n → Position.of source n = Position.of source (byteLength source)) ∧
    ∀ above below, source = above ++ below → above.getLast? = some '\n' → ∀ n,
      Position.of source (byteLength above + n) =
        ⟨(Position.of below n).line + above.count '\n', (Position.of below n).column⟩ := by
  refine ⟨fun m n hm hn => ⟨before_of_iff hm hn, fun h => ?_, fun h => h ▸ rfl⟩, ?_, ?_, ?_, ?_⟩
  · rcases Nat.lt_trichotomy m n with hlt | heq | hgt
    · exact absurd (h ▸ before_of_lt hm hn hlt) (Before.irrefl _)
    · exact heq
    · exact absurd (h ▸ before_of_lt hn hm hgt) (Before.irrefl _)
  · rintro before after rfl
    rw [of_append, endOf_eq]
  · rintro before c after n rfl hlt hgt
    have hpos := c.utf8Size_pos
    rw [of_inside hlt (Nat.le_of_lt hgt), of_inside (by omega) (Nat.le_refl _)]
  · intro n h
    rw [of_end h, of_end (Nat.le_refl _)]
  · rintro above below rfl habove n
    obtain ⟨cs, rfl⟩ := List.getLast?_eq_some_iff.1 habove
    rw [of_below, down, List.count_append]
    rfl

/-- A text of two lines, the first an accented letter of two bytes: its ends are in order, its middle is its
end, the second line begins anew, and nothing is behind the last letter. -/
theorem positions_match_offsets_accent :
    let source : List Char := ['é', '\n', 'b']
    (Position.of source 0).Before (Position.of source 2) ∧
      Position.of source 1 = Position.of source 2 ∧
      Position.of source 2 = ⟨1, 2⟩ ∧
      Position.of source 4 = ⟨(Position.of ['b'] 1).line + 1, (Position.of ['b'] 1).column⟩ ∧
      Position.of source 9 = Position.of source 4 := by
  intro source
  obtain ⟨horder, hcounts, hinside, hend, hbelow⟩ := positions_match_offsets source
  exact ⟨(horder 0 2 ⟨[], source, rfl, rfl⟩ ⟨['é'], ['\n', 'b'], rfl, rfl⟩).1.2 (by decide),
    hinside [] 'é' ['\n', 'b'] 1 rfl (by decide) (by decide), hcounts ['é'] ['\n', 'b'] rfl,
    hbelow ['é', '\n'] ['b'] rfl rfl 1, hend 9 (by decide)⟩

end Aggregation.Position
