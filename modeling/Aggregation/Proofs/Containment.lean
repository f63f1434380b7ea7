import Mathlib.Data.List.Nodup
import Aggregation.Proofs.Nesting
import Aggregation.Proofs.Progress

/-! Nodes that are known by where they stand.

A node reaches from a token to a token (`NodeOf.placed`). Between a node and the expressions right inside
it stand the statements of a body and the entries of an object, which hold the expressions and stand in a
row themselves (`Grammar.Derives.arranged`). No expression fills the node that it is inside of: the text
of either is read as one tree only, and the outer one has more nodes (`NodeOf.span_ne_of_child`). So no two
nodes of a text stand at the same place. -/
namespace Aggregation

variable {ν μ : Type}

/-! ### Statements and entries -/

/-- What stands between a node and the expressions inside it: a statement, or an entry of an object. -/
structure Clause (ν : Type) where
  span : Span
  exprs : List (Expr ν)

def Statement.clause : Statement ν → Clause ν
  | .declaration span _ init => ⟨span, init.toList⟩
  | .result span value => ⟨span, value.toList⟩
  | .expression span value => ⟨span, [value]⟩

def Property.clause : Property ν → Clause ν
  | .field span _ value | .shorthand span _ value => ⟨span, [value]⟩
  | .computed span key value => ⟨span, [key, value]⟩

/-- The statements of a body, or the entries of an object. -/
def Expr.clauses : Expr ν → List (Clause ν)
  | .function _ _ _ body => body.map Statement.clause
  | .object _ ps => ps.map Property.clause
  | _ => []

/-- The clauses stand in a row, and so do the expressions in each. -/
structure Arranged (start stop : Nat) (ps : List (Clause ν)) : Prop where
  clauses : InRow Clause.span start stop ps
  exprs : ∀ p ∈ ps, InRow Expr.span p.span.start p.span.stop p.exprs

namespace Arranged

variable {start stop : Nat} {ps qs : List (Clause ν)}

theorem nil (h : start ≤ stop) : Arranged start stop ([] : List (Clause ν)) :=
  ⟨h, by simp⟩

theorem append {between : Nat} (hp : Arranged start between ps) (hq : Arranged between stop qs) :
    Arranged start stop (ps ++ qs) := by
  refine ⟨hp.clauses.append hq.clauses, fun p h => ?_⟩
  rcases List.mem_append.1 h with h | h
  · exact hp.exprs p h
  · exact hq.exprs p h

end Arranged

namespace Grammar

theorem exists_start_eq {u : List Lexeme} (h : u ≠ []) : ∃ x ∈ u, startOf u = x.span.start := by
  obtain ⟨x, w, rfl⟩ := List.exists_cons_of_ne_nil h
  exact ⟨x, List.mem_cons_self, rfl⟩

theorem exists_stop_eq {u : List Lexeme} (h : u ≠ []) : ∃ x ∈ u, stopOf u = x.span.stop := by
  refine ⟨u.getLast h, List.getLast_mem h, ?_⟩
  rw [stopOf, List.getLast?_eq_some_getLast h]
  rfl

namespace Derives

variable {p : Phrase} {u r : List Lexeme} {start stop : Nat}

/-- The span of a statement is that of its tokens. -/
theorem span_statement {s : Statement Unit} (h : Derives p u (.statement s) r) :
    s.clause.span = ⟨startOf u, stopOf u⟩ := by
  cases h with
  | declaration | finish => rfl
  | definition _ _ hu =>
    have hne := List.append_ne_nil_of_left_ne_nil hu.expr_ne_nil
    simp [Statement.clause, startOf, stopOf_cons _ (hne _)]
  | result hu =>
    rw [List.cons_append, stopOf_cons _ (by simp [hu.expr_ne_nil])]
    rfl
  | evaluation hu =>
    rw [startOf_append hu.expr_ne_nil]
    rfl

/-- The span of an entry is that of its tokens. -/
theorem span_entry {v : Property Unit} (h : Derives p u (.entry v) r) :
    v.clause.span = ⟨startOf u, stopOf u⟩ := by
  cases h with
  | shorthand => rfl
  | field _ hu =>
    rw [stopOf_cons_cons, stopOf_cons _ hu.expr_ne_nil]
    rfl
  | computed _ hw =>
    rw [stopOf_append_cons, stopOf_cons_cons, stopOf_cons _ hw.expr_ne_nil]
    rfl

/-- A clause stands where its tokens do. -/
theorem arranged_singleton {q : Clause Unit} (hspan : q.span = ⟨startOf u, stopOf u⟩) (hne : u ≠ [])
    (hexprs : ∀ {a b}, InRow Lexeme.span a b u → InRow Expr.span a b q.exprs)
    (hu : InRow Lexeme.span start stop u) : Arranged start stop [q] := by
  obtain ⟨hrow, hstart, hlt, hstop⟩ := inRow_tokens hu hne
  refine ⟨?_, ?_⟩
  · rw [InRow, hspan]
    exact ⟨hstart, hlt, hstop⟩
  · rw [List.forall_mem_singleton, hspan]
    exact hexprs hrow

theorem arranged_statement {s : Statement Unit} (h : Derives p u (.statement s) r)
    (hu : InRow Lexeme.span start stop u) : Arranged start stop [s.clause] := by
  refine arranged_singleton h.span_statement (h.ne_nil (by cases h <;> rfl)) (fun ha => ?_) hu
  have hexprs := h.inRow_statement ha
  cases s with
  | declaration | result | expression => exact hexprs

theorem arranged_entry {v : Property Unit} (h : Derives p u (.entry v) r)
    (hu : InRow Lexeme.span start stop u) : Arranged start stop [v.clause] := by
  refine arranged_singleton h.span_entry (h.ne_nil (by cases h <;> rfl)) (fun ha => ?_) hu
  have hexprs := h.inRow_entry ha
  cases v with
  | field | shorthand | computed => exact hexprs

theorem arranged_block {ss : List (Statement Unit)} (h : Derives p u (.statements ss) r)
    (hu : InRow Lexeme.span start stop u) : Arranged start stop (ss.map Statement.clause) := by
  generalize hv : Piece.statements ss = v at h
  induction h generalizing ss start with
  | noStatement =>
    cases hv
    exact .nil hu
  | statement h _ _ ih =>
    cases hv
    obtain ⟨between, hfirst, hrest⟩ := hu.split
    exact (h.arranged_statement hfirst).append (ih hrest rfl)
  | _ => cases hv

theorem arranged_entries {vs : List (Property Unit)} (h : Derives p u (.entries vs) r)
    (hu : InRow Lexeme.span start stop u) : Arranged start stop (vs.map Property.clause) := by
  generalize hv : Piece.entries vs = v at h
  induction h generalizing vs start with
  | noEntry =>
    cases hv
    exact .nil hu
  | lastEntry h =>
    cases hv
    exact h.arranged_entry hu
  | entry h _ _ ih =>
    cases hv
    obtain ⟨between, hfirst, hrest⟩ := hu.split
    exact (h.arranged_entry hfirst).append (ih hrest.tail rfl)
  | _ => cases hv

/-- The statements or entries of an expression stand in a row among its tokens. -/
theorem arranged {e : Expr Unit} (h : Derives p u (.expr e) r) (hu : InRow Lexeme.span start stop u) :
    Arranged start stop e.clauses := by
  generalize hv : Piece.expr e = v at h
  induction h generalizing e start stop with
  | plain _ _ ih | condition _ _ ih | settled _ _ ih | first _ ih | tighter _ _ ih
  | tightest _ _ ih | operand _ ih | suffixed _ _ ih | start _ ih => exact ih hu hv
  | arrow _ h =>
    cases hv
    exact h.arranged_block hu.left.right.tail.tail
  | function _ _ _ h =>
    cases hv
    exact h.arranged_block hu.left.right.tail
  | object h =>
    cases hv
    exact h.arranged_entries hu.left.tail
  | lambda | choice | join | not | negate | property | element | call | paren | negative | name
  | literal =>
    cases hv
    exact .nil hu.le
  | _ => cases hv

end Derives

end Grammar

/-! ### Labels -/

def Clause.relocate (f : ν → μ) (g : Nat → Nat) (p : Clause ν) : Clause μ :=
  ⟨p.span.relocate g, p.exprs.map (Expr.relocate f g)⟩

section

variable (f : ν → μ) (g : Nat → Nat)

theorem Statement.clause_relocate (s : Statement ν) :
    (s.relocate f g).clause = s.clause.relocate f g := by
  match s with
  | .declaration _ _ none | .declaration _ _ (some _) | .result _ none | .result _ (some _)
  | .expression _ _ => rfl

theorem Property.clause_relocate (p : Property ν) : (p.relocate f g).clause = p.clause.relocate f g := by
  cases p <;> rfl

theorem clauses_relocateStatements (ss : List (Statement ν)) :
    (relocateStatements f g ss).map Statement.clause =
      (ss.map Statement.clause).map (Clause.relocate f g) := by
  rw [relocateStatements_eq_map, List.map_map, List.map_map]
  exact List.map_congr_left fun s _ => s.clause_relocate f g

theorem Expr.clauses_relocate (e : Expr ν) :
    (e.relocate f g).clauses = e.clauses.map (Clause.relocate f g) := by
  cases e with
  | function m style ps ss => rw [relocate, clauses, clauses_relocateStatements, clauses]
  | object m ps =>
    rw [relocate, clauses, relocateProperties_eq_map, clauses, List.map_map, List.map_map]
    exact List.map_congr_left fun p _ => p.clause_relocate f g
  | _ => rfl

end

/-- The labels of expressions do not matter for where the clauses stand. -/
theorem Arranged.of_unlabelled {start stop : Nat} {ps : List (Clause ν)}
    (h : Arranged start stop (ps.map (Clause.relocate (fun _ => ()) id))) : Arranged start stop ps := by
  refine ⟨(InRow.map_iff (f := Clause.relocate _ _) fun p _ => rfl).1 h.clauses, fun p hp => ?_⟩
  exact InRow.unlabelled_iff.1 (h.exprs _ (List.mem_map_of_mem hp))

/-! ### Nodes of a text -/

/-- The node reaches from the start of a token to the end of one, and holds what is inside it in its
order: the expressions, and the statements or entries with theirs. -/
structure Expr.Placed (cs : List Char) (ts : List Lexeme) (e : Expr ν) : Prop extends e.Nested where
  first : ∃ x ∈ ts, x.span.start = e.span.start
  last : ∃ x ∈ ts, x.span.stop = e.span.stop
  start : IsBoundary cs e.span.start
  stop : IsBoundary cs e.span.stop
  clauses : Arranged e.span.start e.span.stop e.clauses

/-- Every node of what a text is read as stands at its tokens. -/
theorem NodeOf.placed {source : String} {x : Expr Nat} (h : NodeOf source x) :
    ∃ ts, tokenize source = .ok ts ∧ x.Placed source.toList ts := by
  obtain ⟨ts, hts, q, w, s, hw, hd⟩ := h.holds
  have hspan := hd.span_labelled
  obtain ⟨before, after, hsource, hstart, hstop, -⟩ := h.text
  obtain ⟨y, hy, hfirst⟩ := Grammar.exists_start_eq hd.expr_ne_nil
  obtain ⟨z, hz, hlast⟩ := Grammar.exists_stop_eq hd.expr_ne_nil
  refine ⟨ts, tokenize_eq_ok_iff.2 hts, h.nested, ⟨y, hw.subset hy, ?_⟩, ⟨z, hw.subset hz, ?_⟩,
    ⟨before, _, hsource, hstart⟩, ⟨before ++ x.span.slice source.toList, after, ?_, ?_⟩, ?_⟩
  · rw [hspan, hfirst]
  · rw [hspan, hlast]
  · rw [List.append_assoc, ← hsource]
  · rw [byteLength_append, hstop]
  · obtain ⟨us, vs, rfl⟩ := hw
    obtain ⟨hrow, -⟩ := Grammar.inRow_tokens hts.inRow.left.right hd.expr_ne_nil
    have hclauses := hd.arranged hrow
    rw [Expr.unlabelled, Expr.clauses_relocate] at hclauses
    rw [hspan]
    exact hclauses.of_unlabelled

/-- Statements of a program stand in a row. -/
theorem arranged_parseProgram {source : String} {ss : List (Statement Nat)}
    (h : parseProgram source = .ok ss) :
    Arranged 0 (byteLength source.toList) (ss.map Statement.clause) := by
  obtain ⟨ss, hread, rfl⟩ := exists_of_map_eq_ok h
  obtain ⟨ts, hts, hread⟩ := readWith_eq_ok_iff.1 hread
  have hclauses := (Grammar.program_eq_ok_iff.1 hread).arranged_block hts.inRow
  rw [← relabels_numberStatements ss 0, clauses_relocateStatements, Nat.zero_add] at hclauses
  exact hclauses.of_unlabelled

/-- No expression fills the node that it is right inside of: of what a text is read as there is only
one, and the outer node has more nodes. -/
theorem NodeOf.span_ne_of_child {source : String} {x c : Expr Nat} (h : NodeOf source x)
    (hc : c ∈ x.children) : c.span ≠ x.span := by
  intro hspan
  obtain ⟨ts, hts, hx⟩ := h.holds
  obtain ⟨us, hus, hc'⟩ := (h.of_mem (Expr.mem_nodes_of_child hc c.mem_nodes_self)).holds
  obtain ⟨e, he, hex⟩ := hx.spells hts
  obtain ⟨d, hd, hdc⟩ := hc'.spells hus
  have hsame : e = d := by
    rw [hspan] at hd
    exact Except.ok.inj (he.symm.trans hd)
  have hlength (n : Expr Nat) : n.unlabelled.nodes.length = n.nodes.length := by
    rw [Expr.unlabelled, Expr.nodes_relocate, List.length_map]
  have hlt := Expr.length_nodes_lt hc
  rw [← hlength, ← hlength, ← hex, ← hdc, hsame, hspan] at hlt
  exact Nat.lt_irrefl _ hlt

namespace Expr

/-- In a row of expressions no two nodes stand at the same place, if this is so in each of them. -/
theorem nodup_spans_row {start stop : Nat} {es : List (Expr ν)} (hrow : InRow span start stop es)
    (hnested : ∀ e ∈ es, ∀ n ∈ e.nodes, n.Nested) (hes : ∀ e ∈ es, (e.nodes.map span).Nodup) :
    ((es.flatMap nodes).map span).Nodup := by
  rw [List.map_flatMap, List.nodup_flatMap]
  refine ⟨hes, hrow.pairwise.imp_of_mem fun {a b} ha hb hab => ?_⟩
  show List.Disjoint (a.nodes.map span) (b.nodes.map span)
  rw [List.disjoint_left]
  intro s hs hs'
  obtain ⟨x, hx, rfl⟩ := List.mem_map.1 hs
  obtain ⟨y, hy, hxy⟩ := List.mem_map.1 hs'
  have hinner := span_of_mem_nodes (hnested a ha) hx
  have houter := span_of_mem_nodes (hnested b hb) hy
  have hlt := (hnested a ha x hx).span_lt
  rw [hxy] at houter
  omega

/-- Where no expression fills the node that it is right inside of, no two nodes stand at the same
place. -/
theorem nodup_spans {e : Expr ν} (hnested : ∀ n ∈ e.nodes, n.Nested)
    (hne : ∀ n ∈ e.nodes, ∀ c ∈ n.children, c.span ≠ n.span) : (e.nodes.map span).Nodup := by
  induction e using children_induction with
  | node e ih =>
    have hself := hnested e e.mem_nodes_self
    have hinner (c : Expr ν) (hc : c ∈ e.children) : ∀ n ∈ c.nodes, n.Nested :=
      fun n hn => hnested n (mem_nodes_of_child hc hn)
    rw [nodes_eq, List.map_append, List.nodup_append']
    refine ⟨nodup_spans_row hself.children hinner fun c hc => ?_, List.nodup_singleton _, ?_⟩
    · exact ih c hc (hinner c hc) fun n hn => hne n (mem_nodes_of_child hc hn)
    · -- A node further in that fills the node would make the expression around it do so.
      rw [List.map_singleton, List.disjoint_singleton]
      intro h
      obtain ⟨x, hx, hspan⟩ := List.mem_map.1 h
      obtain ⟨c, hc, hx⟩ := List.mem_flatMap.1 hx
      have hcx := span_of_mem_nodes (hinner c hc) hx
      have hec := hself.children.bounds hc
      refine hne e e.mem_nodes_self c hc ?_
      rw [hspan] at hcx
      rw [Span.mk.injEq]
      exact ⟨by omega, by omega⟩

end Expr

/-- The nodes of what a text is read as stand at places of their own. -/
theorem NodeOf.nodup_spans {source : String} {x : Expr Nat} (h : NodeOf source x) :
    (x.nodes.map Expr.span).Nodup :=
  Expr.nodup_spans (fun _ hn => (h.of_mem hn).nested) fun _ hn _ hc => (h.of_mem hn).span_ne_of_child hc

/-- The places of the nodes of a text are like the tree. Each node stands at its tokens and around what is
inside it, the statements of a program stand in a row, and no two nodes stand at the same place. -/
theorem spans_nest (source : String) :
    (∀ x, NodeOf source x → ∃ ts, tokenize source = .ok ts ∧ x.Placed source.toList ts) ∧
      (∀ e, parseExpression source = .ok e → (e.nodes.map Expr.span).Nodup) ∧
      ∀ ss, parseProgram source = .ok ss →
        Arranged 0 (byteLength source.toList) (ss.map Statement.clause) ∧
          ((nodesStatements ss).map Expr.span).Nodup := by
  refine ⟨fun x hx => hx.placed, fun e he => ?_, fun ss hss => ⟨arranged_parseProgram hss, ?_⟩⟩
  · exact (NodeOf.expression he e.mem_nodes_self).nodup_spans
  · have hnode (e : Expr Nat) (he : e ∈ ss.filterMap Statement.value?) : NodeOf source e := by
      refine .program hss ?_
      rw [nodesStatements_eq]
      exact List.mem_flatMap.2 ⟨e, he, e.mem_nodes_self⟩
    rw [nodesStatements_eq]
    exact Expr.nodup_spans_row (inRow_parseProgram hss)
      (fun e he n hn => ((hnode e he).of_mem hn).nested) fun e he => (hnode e he).nodup_spans

/-- An object in the body of a function, a comment and characters of two bytes. -/
theorem spans_nest_program :
    let source := "let f = x => \x7b return \x7b[x]: 'é', x\x7d; \x7d /* ü */ f(-1)"
    let places : List Span :=
      [⟨24, 25⟩, ⟨28, 32⟩, ⟨34, 35⟩, ⟨22, 36⟩, ⟨8, 39⟩, ⟨49, 50⟩, ⟨51, 53⟩, ⟨49, 54⟩]
    ∃ ss, parseProgram source = .ok ss ∧ (nodesStatements ss).map Expr.span = places ∧
      ss.map (·.clause.span) = [⟨0, 39⟩, ⟨49, 54⟩] ∧ places.Nodup ∧
      Arranged 0 54 (ss.map Statement.clause) ∧ ∀ x ∈ nodesStatements ss, ∃ ts,
        tokenize source = .ok ts ∧ x.Placed source.toList ts := by
  intro source places
  have hplaces : ((parseProgram source).toOption.map fun ss =>
      ((nodesStatements ss).map Expr.span, ss.map (·.clause.span))) =
        some (places, [⟨0, 39⟩, ⟨49, 54⟩]) := by
    decide +kernel
  have hlength : byteLength source.toList = 54 := by decide +kernel
  obtain ⟨hnodes, -, hprogram⟩ := spans_nest source
  cases hss : parseProgram source with
  | error e =>
    rw [hss] at hplaces
    cases hplaces
  | ok ss =>
    rw [hss] at hplaces
    obtain ⟨hspans, hstatements⟩ := Prod.mk.inj (Option.some.inj hplaces)
    obtain ⟨harranged, hnodup⟩ := hprogram ss hss
    exact ⟨ss, rfl, hspans, hstatements, hspans ▸ hnodup, hlength ▸ harranged,
      fun x hx => hnodes x (.program hss hx)⟩

end Aggregation
