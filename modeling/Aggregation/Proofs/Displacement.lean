import Aggregation.Proofs.Recognition
import Aggregation.Proofs.Relocation

/-! Phrases that stand elsewhere.

Which phrase tokens are depends on the tokens alone, and their places only become places of the tree.
So a phrase whose tokens are moved is a phrase that denotes what the first did, moved
(`Derives.relocate`). A function that leaves the places of the tokens alone leaves those of the tree
alone too (`program_fixed`, `wholeExpression_fixed`), because tokens denote one tree only. -/
namespace Aggregation

def Lexeme.relocate (g : Nat → Nat) (x : Lexeme) : Lexeme :=
  ⟨x.token, x.span.relocate g⟩

namespace Grammar

def Piece.relocate (g : Nat → Nat) : Piece → Piece
  | .expr e => .expr (e.relocate id g)
  | .exprs es => .exprs (relocateAll id g es)
  | .entry p => .entry (p.relocate id g)
  | .entries ps => .entries (relocateProperties id g ps)
  | .statement s => .statement (s.relocate id g)
  | .statements ss => .statements (relocateStatements id g ss)

variable {g : Nat → Nat}

/-! ### Lookahead -/

@[simp] theorem token_relocate (x : Lexeme) : (x.relocate g).token = x.token := rfl

@[simp] theorem startsWith_map (s : Symbol) (ts : List Lexeme) :
    startsWith s (ts.map (Lexeme.relocate g)) = startsWith s ts := by
  cases ts <;> rfl

@[simp] theorem startsSuffix_map (ts : List Lexeme) :
    startsSuffix (ts.map (Lexeme.relocate g)) = startsSuffix ts := by
  simp [startsSuffix]

@[simp] theorem startsOperator_map (l : Level) (ts : List Lexeme) :
    startsOperator l (ts.map (Lexeme.relocate g)) = startsOperator l ts := by
  cases ts <;> rfl

@[simp] theorem startsWithPair_map (ts : List Lexeme) :
    startsWithPair (ts.map (Lexeme.relocate g)) = startsWithPair ts := by
  simp [startsWithPair, ← List.map_tail]

theorem arrowAfter_map (depth : Nat) (ts : List Lexeme) :
    arrowAfter depth (ts.map (Lexeme.relocate g)) = arrowAfter depth ts := by
  induction ts generalizing depth with
  | nil => rfl
  | cons x r ih => simp only [List.map_cons, arrowAfter, token_relocate, startsWith_map, ih]

@[simp] theorem atArrow_map (ts : List Lexeme) :
    atArrow (ts.map (Lexeme.relocate g)) = atArrow ts := by
  match ts with
  | [] => rfl
  | ⟨.name _, _⟩ :: r => exact startsWith_map .arrow r
  | ⟨.symbol s, _⟩ :: r =>
    cases s with
    | leftParen => exact arrowAfter_map 1 r
    | _ => rfl
  | ⟨.integer _, _⟩ :: _ | ⟨.float _, _⟩ :: _ | ⟨.string _, _⟩ :: _ | ⟨.boolean _, _⟩ :: _
  | ⟨.null, _⟩ :: _ | ⟨.keyword _, _⟩ :: _ => rfl

theorem negative?_map_eq_none {ts : List Lexeme} (h : negative? ts = none) :
    negative? (ts.map (Lexeme.relocate g)) = none := by
  match ts with
  | [] => rfl
  | x :: r =>
    rw [List.map_cons, Derives.negative?_eq_none_iff, startsSuffix_map, token_relocate]
    exact Derives.negative?_eq_none_iff.1 h

theorem startOf_map (g : Nat → Nat) {ts : List Lexeme} (h : ts ≠ []) :
    startOf (ts.map (Lexeme.relocate g)) = g (startOf ts) := by
  obtain ⟨x, r, rfl⟩ := List.exists_cons_of_ne_nil h
  rfl

theorem stopOf_map (g : Nat → Nat) {ts : List Lexeme} (h : ts ≠ []) :
    stopOf (ts.map (Lexeme.relocate g)) = g (stopOf ts) := by
  simp [stopOf, List.getLast?_eq_some_getLast h, Lexeme.relocate, Span.relocate]

/-! ### Annotations -/

theorem Questioned.relocate {q : List Lexeme} (h : Questioned q) :
    Questioned (q.map (Lexeme.relocate g)) := by
  cases h with
  | nil => exact .nil
  | mark p => exact .mark _

theorem Annotates.relocate {p : TypePhrase} {u : List Lexeme} {v : TypePiece} {r : List Lexeme}
    (h : Annotates p u v r) :
    Annotates p (u.map (Lexeme.relocate g)) v (r.map (Lexeme.relocate g)) := by
  induction h with
  | name hr => exact .name (by rwa [startsWith_map])
  | null => exact .null
  | applied _ ih =>
    simp only [List.map_append, List.map_cons, List.map_nil] at ih ⊢
    exact .applied ih
  | object _ ih =>
    simp only [List.map_append, List.map_cons, List.map_nil] at ih ⊢
    exact .object ih
  | start _ ih => exact .start ih
  | array _ ih =>
    simp only [List.map_append, List.map_cons, List.map_nil] at ih ⊢
    exact .array ih
  | full _ hr ih => exact .full ih (by rwa [startsWithPair_map])
  | lastArg _ ih => exact .lastArg ih
  | arg _ _ ih ihw =>
    simp only [List.map_append, List.map_cons] at ih ⊢
    exact .arg ih ihw
  | noMember => exact .noMember
  | lastMember hx hq _ ih =>
    simp only [List.map_append, List.map_cons]
    exact .lastMember hx hq.relocate ih
  | member hx hq hy _ _ ih ihw =>
    simp only [List.map_append, List.map_cons] at ih ⊢
    exact .member hx hq.relocate hy ih ihw

theorem Ascribes.relocate {u : List Lexeme} {a : Option TypeExpr} {r : List Lexeme}
    (h : Ascribes u a r) : Ascribes (u.map (Lexeme.relocate g)) a (r.map (Lexeme.relocate g)) := by
  cases h with
  | none hr => exact .none (by rwa [startsWith_map])
  | some hu => exact .some hu.relocate

theorem Declares.relocate {u : List Lexeme} {ps : List Param} {r : List Lexeme}
    (h : Declares u ps r) : Declares (u.map (Lexeme.relocate g)) (ps.map (Param.relocate g))
      (r.map (Lexeme.relocate g)) := by
  induction h with
  | none => exact .none
  | last hw => exact .last hw.relocate
  | more hw _ ih =>
    have hw := hw.relocate (g := g)
    simp only [List.map_append, List.map_cons] at hw ⊢
    exact .more hw ih

theorem Heads.relocate {u : List Lexeme} {ps : List Param} {r : List Lexeme}
    (h : Heads u ps r) : Heads (u.map (Lexeme.relocate g)) (ps.map (Param.relocate g))
      (r.map (Lexeme.relocate g)) := by
  cases h with
  | name => exact .name
  | group hu =>
    have hu := hu.relocate (g := g)
    simp only [List.map_append, List.map_cons, List.map_nil] at hu ⊢
    exact .group hu

/-! ### Expressions and statements -/

theorem Named.relocate {k : List Lexeme} (h : Named k) : Named (k.map (Lexeme.relocate g)) := by
  cases h with
  | none => exact .none
  | name n p => exact .name n _

theorem Ended.relocate {t r : List Lexeme} (h : Ended t r) :
    Ended (t.map (Lexeme.relocate g)) (r.map (Lexeme.relocate g)) := by
  cases h with
  | none hr => exact .none (by rwa [startsWith_map])
  | semicolon => exact .semicolon

@[simp] theorem relocate_mark (a b : Nat) : (mark a b).relocate id g = mark (g a) (g b) := rfl

theorem start_span_relocate (g : Nat → Nat) (e : Expr Unit) :
    (e.relocate id g).span.start = g e.span.start := by
  rw [Expr.span_relocate]
  rfl

/-- A phrase whose tokens are moved denotes what it did, moved. -/
theorem Derives.relocate {p : Phrase} {u : List Lexeme} {v : Piece} {r : List Lexeme}
    (h : Derives p u v r) :
    Derives p (u.map (Lexeme.relocate g)) (v.relocate g) (r.map (Lexeme.relocate g)) := by
  induction h with
  | lambda hu hb hw ih =>
    have hu' := hu.relocate (g := g)
    simp only [List.map_append, List.map_cons] at hu' ⊢
    rw [Piece.relocate, Expr.relocate, relocate_mark, ← startOf_map g hu.ne_nil,
      ← stopOf_map g hw.expr_ne_nil]
    exact .lambda hu' (by rwa [startsWith_map]) ih
  | arrow hu hw ih =>
    have hu' := hu.relocate (g := g)
    simp only [List.map_append, List.map_cons, List.map_nil] at hu' ih ⊢
    rw [Piece.relocate, Expr.relocate, relocate_mark, ← startOf_map g hu.ne_nil]
    exact .arrow hu' ih
  | plain ha _ ih => exact .plain (by rwa [← List.map_append, atArrow_map]) ih
  | condition _ hr ih => exact .condition ih (by rwa [startsWith_map])
  | choice _ _ hw ihu ihv ihw =>
    simp only [List.map_append, List.map_cons] at ihu ihv ⊢
    rw [Piece.relocate, Expr.relocate, relocate_mark, ← start_span_relocate g,
      ← stopOf_map g hw.expr_ne_nil]
    exact .choice ihu ihv ihw
  | settled _ hr ih => exact .settled ih (by rwa [startsOperator_map])
  | first _ ih => exact .first ih
  | join hx _ hw ihu ihw =>
    simp only [List.map_append, List.map_cons] at ihu ⊢
    rw [Piece.relocate, Expr.relocate, relocate_mark, ← start_span_relocate g,
      ← stopOf_map g hw.expr_ne_nil]
    exact .join hx ihu ihw
  | tighter hl _ ih => exact .tighter hl ih
  | tightest hl _ ih => exact .tightest hl ih
  | not hu ih =>
    rw [Piece.relocate, Expr.relocate, relocate_mark, ← stopOf_map g hu.expr_ne_nil]
    exact .not ih
  | negative hx hr => exact .negative hx (by rwa [startsSuffix_map])
  | negate hn hu ih =>
    rw [Piece.relocate, Expr.relocate, relocate_mark, ← stopOf_map g hu.expr_ne_nil]
    exact .negate (by rw [← List.map_append, negative?_map_eq_none hn]) ih
  | operand _ ih => exact .operand ih
  | suffixed _ hr ih => exact .suffixed ih (by rwa [startsSuffix_map])
  | start _ ih => exact .start ih
  | property _ ih =>
    rw [List.map_append, Piece.relocate, Expr.relocate, relocate_mark, ← start_span_relocate g]
    exact .property ih
  | element _ _ ihu ihw =>
    simp only [List.map_append, List.map_cons, List.map_nil] at ihu ihw ⊢
    rw [Piece.relocate, Expr.relocate, relocate_mark, ← start_span_relocate g]
    exact .element ihu ihw
  | call _ _ ihu ihw =>
    simp only [List.map_append, List.map_cons, List.map_nil] at ihu ihw ⊢
    rw [Piece.relocate, Expr.relocate, relocate_mark, ← start_span_relocate g]
    exact .call ihu ihw
  | name => exact .name
  | literal hx => exact .literal hx
  | paren _ ih =>
    simp only [List.map_append, List.map_cons, List.map_nil] at ih ⊢
    exact .paren ih
  | object _ ih =>
    simp only [List.map_append, List.map_cons, List.map_nil] at ih ⊢
    exact .object ih
  | function hk hu hw _ ih =>
    have hu' := hu.relocate (g := g)
    have hw' := hw.relocate (g := g)
    simp only [List.map_append, List.map_cons, List.map_nil] at hu' hw' ih ⊢
    exact .function hk.relocate hu' hw' ih
  | noArgument => exact .noArgument
  | lastArgument _ ih => exact .lastArgument ih
  | argument _ _ ihu ihw =>
    simp only [List.map_append, List.map_cons] at ihu ⊢
    exact .argument ihu ihw
  | noEntry => exact .noEntry
  | lastEntry _ ih =>
    rw [Piece.relocate, relocateProperties_eq_map]
    exact .lastEntry ih
  | entry _ _ ihu ihw =>
    simp only [List.map_append, List.map_cons, Piece.relocate, relocateProperties_eq_map]
      at ihu ihw ⊢
    exact .entry ihu ihw
  | shorthand => exact .shorthand
  | field hx hu ih =>
    rw [Piece.relocate, Property.relocate, Span.relocate, ← stopOf_map g hu.expr_ne_nil]
    exact .field hx ih
  | computed _ hw ihu ihw =>
    simp only [List.map_append, List.map_cons] at ihu ⊢
    rw [Piece.relocate, Property.relocate, Span.relocate, ← stopOf_map g hw.expr_ne_nil]
    exact .computed ihu ihw
  | declaration hk hw hr ht =>
    have hw' := hw.relocate (g := g)
    rw [Piece.relocate, Statement.relocate, Span.relocate,
      ← stopOf_map g (List.append_ne_nil_of_left_ne_nil (List.cons_ne_nil _ _) _)]
    simp only [List.map_append, List.map_cons] at hw' ⊢
    exact .declaration hk hw' (by rwa [← List.map_append, startsWith_map]) ht.relocate
  | definition hk hw hu ht ih =>
    have hw' := hw.relocate (g := g)
    have hne := List.append_ne_nil_of_left_ne_nil hu.expr_ne_nil
    rw [Piece.relocate, Statement.relocate, Span.relocate, ← stopOf_map g (hne _)]
    simp only [List.map_append, List.map_cons] at hw' ih ⊢
    exact .definition hk hw' ih ht.relocate
  | finish hr ht =>
    rw [Piece.relocate, Statement.relocate, Span.relocate, ← stopOf_map g (List.cons_ne_nil _ _)]
    refine .finish ?_ ht.relocate
    simpa only [List.map_eq_nil_iff, startsWith_map] using hr
  | result hu ht ih =>
    have hne := List.append_ne_nil_of_left_ne_nil hu.expr_ne_nil
    rw [Piece.relocate, Statement.relocate, Span.relocate, ← stopOf_map g (hne _)]
    simp only [List.map_append, List.map_cons] at ih ⊢
    exact .result ih ht.relocate
  | evaluation hu ht ih =>
    have hne := List.append_ne_nil_of_left_ne_nil hu.expr_ne_nil
    rw [Piece.relocate, Statement.relocate, Span.relocate, ← stopOf_map g (hne _),
      ← startOf_map g hu.expr_ne_nil]
    simp only [List.map_append] at ih ⊢
    exact .evaluation ih ht.relocate
  | noStatement => exact .noStatement
  | statement _ _ ihu ihw =>
    simp only [List.map_append, Piece.relocate, relocateStatements_eq_map] at ihu ihw ⊢
    exact .statement ihu ihw

/-! ### Whole texts -/

variable (g) in
/-- Tokens that are moved are the program that they were, moved. -/
theorem program_map {ts : List Lexeme} {ss : List (Statement Unit)} (h : program ts = .ok ss) :
    program (ts.map (Lexeme.relocate g)) = .ok (relocateStatements id g ss) :=
  program_eq_ok_iff.2 (program_eq_ok_iff.1 h).relocate

variable (g) in
/-- Tokens that are moved are the expression that they were, moved. -/
theorem wholeExpression_map {ts : List Lexeme} {e : Expr Unit} (h : wholeExpression ts = .ok e) :
    wholeExpression (ts.map (Lexeme.relocate g)) = .ok (e.relocate id g) := by
  obtain ⟨u, t, rfl, ht, hu⟩ := wholeExpression_eq_ok_iff.1 h
  exact wholeExpression_eq_ok_iff.2 ⟨_, _, List.map_append, ht.relocate, hu.relocate⟩

/-- What leaves the tokens of a program where they are leaves the program where it is. -/
theorem program_fixed {ts : List Lexeme} {ss : List (Statement Unit)} (h : program ts = .ok ss)
    (hts : ts.map (Lexeme.relocate g) = ts) : relocateStatements id g ss = ss := by
  have hmap := program_map g h
  rw [hts, h] at hmap
  exact (Except.ok.inj hmap).symm

/-- What leaves the tokens of an expression where they are leaves the expression where it is. -/
theorem wholeExpression_fixed {ts : List Lexeme} {e : Expr Unit} (h : wholeExpression ts = .ok e)
    (hts : ts.map (Lexeme.relocate g) = ts) : e.relocate id g = e := by
  have hmap := wholeExpression_map g h
  rw [hts, h] at hmap
  exact (Except.ok.inj hmap).symm

end Grammar

end Aggregation
