import Aggregation.Proofs.Relocation

/-! Places in a text that stands in another text.

A place of a text is found again in every longer text that holds it, moved by the bytes that stand
before (`Excerpt.between`). The stretch of text between two places stays the same, and a position is
counted on from the one that the text begins at. So an error or an entry of the longer text is that
of the shorter one, moved (`Entry.of_relocate`). -/
namespace Aggregation

/-! ### Bytes -/

/-- Bytes are dropped one text after the other. -/
theorem dropBytes_append_add (cs ds : List Char) (n : Nat) :
    dropBytes (cs ++ ds) (n + byteLength cs) = dropBytes ds n := by
  induction cs with
  | nil => rfl
  | cons c cs ih =>
    obtain ⟨k, hk⟩ := Nat.exists_eq_succ_of_ne_zero (Nat.ne_of_gt c.utf8Size_pos)
    have hlength : n + byteLength (c :: cs) = n + byteLength cs + k + 1 := by
      rw [byteLength_cons, hk]
      omega
    rw [hlength, List.cons_append, dropBytes, if_pos (by omega), hk]
    have : n + byteLength cs + k + 1 - (k + 1) = n + byteLength cs := by omega
    rw [this, ih]

/-- What follows a text does not matter where bytes of the text are dropped. -/
theorem dropBytes_append_of_le {cs : List Char} {n : Nat} (h : n ≤ byteLength cs) (ds : List Char) :
    dropBytes (cs ++ ds) n = (dropBytes cs n).map (· ++ ds) := by
  induction cs generalizing n with
  | nil =>
    obtain rfl := Nat.le_zero.1 h
    simp
  | cons c cs ih =>
    cases n with
    | zero => simp
    | succ n =>
      rw [byteLength_cons] at h
      rw [List.cons_append, dropBytes, dropBytes]
      split
      · exact ih (by omega)
      · rfl

theorem byteLength_of_dropBytes {cs r : List Char} {n : Nat} (h : dropBytes cs n = some r) :
    byteLength r + n = byteLength cs := by
  induction cs generalizing n with
  | nil =>
    cases n with
    | zero =>
      obtain rfl := Option.some.inj h
      rfl
    | succ n => cases h
  | cons c cs ih =>
    cases n with
    | zero =>
      obtain rfl := Option.some.inj h
      rfl
    | succ n =>
      rw [dropBytes] at h
      split at h
      · have := ih h
        rw [byteLength_cons]
        omega
      · cases h

/-- What follows a text does not matter where bytes of the text are taken. -/
theorem takeBytes_append_of_le {cs : List Char} {n : Nat} (h : n ≤ byteLength cs) (ds : List Char) :
    takeBytes (cs ++ ds) n = takeBytes cs n := by
  induction cs generalizing n with
  | nil =>
    obtain rfl := Nat.le_zero.1 h
    simp
  | cons c cs ih =>
    cases n with
    | zero => simp
    | succ n =>
      rw [byteLength_cons] at h
      rw [List.cons_append, takeBytes, takeBytes]
      split
      · rw [ih (by omega)]
      · rfl

/-- A stretch of a text is found again in a longer text. -/
theorem Span.slice_between {cs : List Char} {s : Span} (hstop : s.stop ≤ byteLength cs)
    (before after : List Char) :
    (s.relocate (· + byteLength before)).slice (before ++ (cs ++ after)) = s.slice cs := by
  obtain ⟨start, stop⟩ := s
  show (Span.mk (start + byteLength before) (stop + byteLength before)).slice _ = _
  simp only [slice] at hstop ⊢
  by_cases hrev : stop < start
  · rw [if_pos hrev, if_pos (by omega)]
  · rw [if_neg hrev, if_neg (by omega), dropBytes_append_add, dropBytes_append_of_le (by omega),
      Nat.add_sub_add_right]
    cases hd : dropBytes cs start with
    | none => rfl
    | some r =>
      have hr := byteLength_of_dropBytes hd
      have htake := takeBytes_append_of_le (n := stop - start) (by omega : stop - start ≤ byteLength r)
      simp only [Option.map_some, Option.bind_some, htake]

/-! ### Lines and columns -/

namespace Position

/-- The position, counted on from where the text begins. -/
def after (q p : Position) : Position :=
  if p.line = 1 then ⟨q.line, q.column + p.column - 1⟩ else ⟨q.line + p.line - 1, p.column⟩

/-- The position, some lines below. -/
def down (k : Nat) (p : Position) : Position :=
  ⟨p.line + k, p.column⟩

theorem advance_after {p : Position} (q : Position) (hline : 1 ≤ p.line) (hcolumn : 1 ≤ p.column)
    (c : Char) : (q.after p).advance c = q.after (p.advance c) := by
  grind [after, advance]

/-- Walking does not depend on where the text begins, but for the lines and columns passed before. -/
theorem walk_after {p : Position} (q : Position) (hline : 1 ≤ p.line) (hcolumn : 1 ≤ p.column)
    (cs : List Char) (n : Nat) : walk (q.after p) cs n = q.after (walk p cs n) := by
  induction cs generalizing p n with
  | nil => rfl
  | cons c cs ih =>
    rw [walk, walk]
    split
    · rfl
    · rw [advance_after q hline hcolumn]
      refine ih ?_ ?_ _
      · unfold advance
        split
        · exact Nat.le_add_left 1 p.line
        · exact hline
      · unfold advance
        split
        · exact Nat.le_refl 1
        · exact Nat.le_add_left 1 p.column

theorem walk_append_add (p : Position) (cs ds : List Char) (n : Nat) :
    walk p (cs ++ ds) (n + byteLength cs) = walk (cs.foldl advance p) ds n := by
  induction cs generalizing p with
  | nil => rfl
  | cons c cs ih =>
    have hpos := c.utf8Size_pos
    rw [List.cons_append, walk, byteLength_cons, if_neg (by omega), List.foldl_cons, ← ih]
    congr 1
    omega

theorem walk_append_of_le (p : Position) {cs : List Char} {n : Nat} (h : n ≤ byteLength cs)
    (ds : List Char) : walk p (cs ++ ds) n = walk p cs n := by
  induction cs generalizing p n with
  | nil =>
    obtain rfl := Nat.le_zero.1 h
    cases ds <;> rfl
  | cons c cs ih =>
    rw [byteLength_cons] at h
    rw [List.cons_append, walk, walk]
    split
    · rfl
    · exact ih _ (by omega)

/-- Where a text ends that begins at the first position. -/
def endOf (cs : List Char) : Position :=
  cs.foldl advance first

/-- A position of a text is found again in a longer text, counted on from where the text begins. -/
theorem of_between {cs : List Char} {n : Nat} (h : n ≤ byteLength cs) (before after : List Char) :
    Position.of (before ++ (cs ++ after)) (n + byteLength before) =
      (endOf before).after (Position.of cs n) := by
  rw [Position.of, walk_append_add, walk_append_of_le _ h]
  exact walk_after (p := first) (endOf before) (Nat.le_refl 1) (Nat.le_refl 1) cs n

theorem line_foldl (p : Position) (cs : List Char) :
    (cs.foldl advance p).line = p.line + cs.count '\n' := by
  induction cs generalizing p with
  | nil => rfl
  | cons c cs ih =>
    rw [List.foldl_cons, ih, List.count_cons]
    unfold advance
    by_cases hc : c = '\n'
    · simp [hc]
      omega
    · simp [hc]

/-- Behind a line feed only the lines are counted on. -/
theorem after_endOf_concat (cs : List Char) :
    (endOf (cs ++ ['\n'])).after = down (cs.count '\n' + 1) := by
  have hend : endOf (cs ++ ['\n']) = ⟨first.line + cs.count '\n' + 1, 1⟩ := by
    rw [endOf, List.foldl_append, List.foldl_cons, List.foldl_nil, advance, if_pos rfl, line_foldl]
  funext p
  rw [hend]
  grind [after, down, first]

end Position

/-! ### Errors and entries -/

def Snippet.relocate (g : Nat → Nat) (m : Position → Position) (s : Snippet) : Snippet :=
  { s with span := s.span.relocate g, position := m s.position }

def CompileError.relocate (g : Nat → Nat) (m : Position → Position) (e : CompileError) :
    CompileError :=
  { e with snippet := e.snippet.relocate g m }

/-- The entry with its place moved, and that of its error. -/
def Entry.relocate (g : Nat → Nat) (m : Position → Position) (e : Entry) : Entry :=
  { e with
    span := e.span.relocate g
    position := m e.position
    result := e.result.mapError (CompileError.relocate g m) }

/-- The places of the source are places of the text: `g` moves the bytes, and `m` the lines and
columns. -/
structure Excerpt (text source : List Char) (g : Nat → Nat) (m : Position → Position) : Prop where
  slice {s : Span} : s.stop ≤ byteLength source → (s.relocate g).slice text = s.slice source
  position {n : Nat} : n ≤ byteLength source → Position.of text (g n) = m (Position.of source n)

namespace Excerpt

/-- A text between two others. -/
theorem between (before source after : List Char) :
    Excerpt (before ++ (source ++ after)) source (· + byteLength before)
      (Position.endOf before).after where
  slice h := Span.slice_between h before after
  position h := Position.of_between h before after

/-- A text before another. -/
theorem front (source after : List Char) : Excerpt (source ++ after) source id id where
  slice h := Span.slice_between h [] after
  position h := Position.walk_append_of_le _ h after

/-- A text behind a line feed. -/
theorem below (before source : List Char) :
    Excerpt (before ++ '\n' :: source) source (· + (byteLength before + 1))
      (Position.down (before.count '\n' + 1)) := by
  have h := between (before ++ ['\n']) source []
  have hlength : byteLength (before ++ ['\n']) = byteLength before + 1 := byteLength_append ..
  rwa [hlength, Position.after_endOf_concat, List.append_nil, List.append_assoc,
    List.singleton_append] at h

variable {text source : List Char} {f g : Nat → Nat} {m : Position → Position}

/-- A node of the source is shown as the one that it is moved to. -/
theorem snippet_relocate (h : Excerpt text source g m) {e : Expr Nat}
    (he : e.relocate id (min (byteLength source)) = e) :
    Snippet.of text (e.relocate f g) = (Snippet.of source e).relocate g m := by
  -- A place that is not changed by cutting it off at the end of the source lies in the source.
  have hspan : e.span.relocate (min (byteLength source)) = e.span := by
    rw [← Expr.span_relocate (f := id), he]
  have hstart : min (byteLength source) e.span.start = e.span.start := congrArg Span.start hspan
  have hstop : min (byteLength source) e.span.stop = e.span.stop := congrArg Span.stop hspan
  replace hstart : e.span.start ≤ byteLength source := by omega
  replace hstop : e.span.stop ≤ byteLength source := by omega
  simp only [Snippet.of, Snippet.relocate, Expr.kind_relocate, Expr.span_relocate, h.slice hstop,
    ← h.position hstart]
  rfl

/-- A computation that fails on the source fails in the same way, elsewhere, on the text. -/
theorem mapError_relocate {α : Type} (h : Excerpt text source g m) {x y : Except CompileFault α}
    (hxy : Agree (Moved f g (min (byteLength source))) (· = ·) x y) :
    y.mapError (.ofFault text) =
      (x.mapError (.ofFault source)).mapError (CompileError.relocate g m) := by
  cases hxy with
  | ok hv => rw [hv]; rfl
  | @fault cause e _ he =>
    obtain ⟨rfl, he⟩ := he
    show Except.error (CompileError.mk cause _) = Except.error (CompileError.mk cause _)
    rw [h.snippet_relocate he]
    rfl

end Excerpt

section Entries

variable {text source : List Char} {f g : Nat → Nat} {m : Position → Position}

/-- The entry of a builder call that is moved is that of the builder call, moved. -/
theorem Entry.of_relocate (h : Excerpt text source g m) (config : Config) {b : BuilderCall}
    (hfix : b.relocate id (min (byteLength source)) = b)
    (hn : (labelsOf (nodesAll b.args)).Nodup)
    (hn' : (labelsOf (nodesAll (b.relocate f g).args)).Nodup) :
    Entry.of config text (b.relocate f g) = (Entry.of config source b).relocate g m := by
  have hsnippet := h.snippet_relocate (f := f) (congrArg BuilderCall.call hfix)
  have hspan := congrArg Snippet.span hsnippet
  have hposition := congrArg Snippet.position hsnippet
  have hresult := h.mapError_relocate (BuilderCall.agree_compile config hfix hn hn')
  simp only [Snippet.of, Snippet.relocate] at hspan hposition
  simp only [Entry.of, Entry.relocate, hresult]
  simp only [BuilderCall.relocate, hspan] at hposition ⊢
  rw [hposition]

/-- The entries of a program that is moved are those of the program, moved. -/
theorem compileProgram_relocate (h : Excerpt text source g m) (config : Config)
    {ss : List (Statement Nat)} (hfix : relocateStatements id (min (byteLength source)) ss = ss)
    (hn : (labelsOf (nodesStatements ss)).Nodup)
    (hn' : (labelsOf (nodesStatements (relocateStatements f g ss))).Nodup) :
    compileProgram config text (relocateStatements f g ss) =
      (compileProgram config source ss).map (Entry.relocate g m) := by
  have hlocate := BuilderCall.withinStatements_relocate config f g ss
  have hcalls := BuilderCall.withinStatements_relocate config id (min (byteLength source)) ss
  rw [hfix] at hcalls
  have hbfix := List.map_inj_left.1 ((List.map_id _).trans hcalls).symm
  rw [compileProgram, locate, hlocate, List.map_map, compileProgram, List.map_map]
  refine List.map_congr_left fun b hb => ?_
  refine Entry.of_relocate h config (hbfix b hb) ?_ ?_
  · exact hn.sublist ((BuilderCall.nodesAll_args_sublist hb).map _)
  · have hb' : b.relocate f g ∈ locate config (relocateStatements f g ss) := by
      rw [locate, hlocate]
      exact List.mem_map_of_mem hb
    exact hn'.sublist ((BuilderCall.nodesAll_args_sublist hb').map _)

end Entries

end Aggregation
