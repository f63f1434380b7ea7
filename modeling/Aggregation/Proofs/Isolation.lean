import Aggregation.Proofs.Loosening
import Aggregation.Proofs.Truncation
import Aggregation.Typing.Oracle

/-! Expressions read by themselves.

The span of an expression reaches from the first of its tokens to the last (`Derives.span_eq`), and
the text between these is cut into the tokens of the expression and no others. By themselves they
denote the expression that they denoted among others, so the text of a node is read as that node
(`Spells`). -/
namespace Aggregation

namespace Grammar

variable {p : Phrase} {u r : List Lexeme} {e : Expr Unit}

/-- The span of an expression is that of its tokens. -/
theorem Derives.span_eq (h : Derives p u (.expr e) r) : e.span = ⟨startOf u, stopOf u⟩ := by
  generalize hv : Piece.expr e = v at h
  induction h generalizing e with
  | plain _ _ ih | condition _ _ ih | settled _ _ ih | first _ ih | tighter _ _ ih
  | tightest _ _ ih | operand _ ih | suffixed _ _ ih | start _ ih => exact ih hv
  | lambda hu _ h =>
    cases hv
    obtain ⟨x, u, rfl, -⟩ := hu.begins
    rw [stopOf_append_cons, stopOf_cons _ h.expr_ne_nil]
    rfl
  | arrow hu =>
    cases hv
    obtain ⟨x, u, rfl, -⟩ := hu.begins
    rw [stopOf_append_cons]
    rfl
  | @choice _ c _ _ _ _ w _ _ hc _ hn ihc =>
    cases hv
    show Span.mk c.span.start (stopOf w) = _
    rw [ihc rfl, stopOf_append_cons, stopOf_cons _ hn.expr_ne_nil, List.append_assoc,
      startOf_append hc.expr_ne_nil]
  | @join _ _ a _ _ w _ _ _ ha hb iha =>
    cases hv
    show Span.mk a.span.start (stopOf w) = _
    rw [iha rfl, stopOf_append_cons, stopOf_cons _ hb.expr_ne_nil, startOf_append ha.expr_ne_nil]
  | not h | negate _ h =>
    cases hv
    rw [stopOf_cons _ h.expr_ne_nil]
    rfl
  | @property _ o _ _ q _ h ih =>
    cases hv
    show Span.mk o.span.start q.stop = _
    rw [ih rfl, stopOf_append_cons, startOf_append h.expr_ne_nil]
    rfl
  | @element _ o _ _ _ q _ h _ ih | @call _ o _ _ _ q _ h _ ih =>
    cases hv
    show Span.mk o.span.start q.stop = _
    rw [ih rfl, stopOf_append_cons, List.append_assoc, startOf_append h.expr_ne_nil]
    rfl
  | negative | name | literal =>
    cases hv
    rfl
  | paren | object | function =>
    cases hv
    rw [stopOf_append_cons]
    rfl
  | _ => cases hv

/-- The labels of an expression do not matter for its span. -/
theorem Derives.span_labelled {n : Expr Nat} (h : Derives p u (.expr n.unlabelled) r) :
    n.span = ⟨startOf u, stopOf u⟩ := by
  have hspan := h.span_eq
  rwa [Expr.unlabelled, Expr.span_relocate] at hspan

end Grammar

/-- The text, read by itself, is the expression, but for the numbers of the nodes and for the place
where the expression stands. -/
def Spells (text : String) (n : Expr Nat) : Prop :=
  ∃ e, parseExpression text = .ok e ∧
    e.relocate (fun _ => ()) (· + n.span.start) = n.unlabelled

/-- What tokens of a text hold is spelled by the text of its span. -/
theorem Grammar.Holds.spells {source : String} {ts : List Lexeme} {n : Expr Nat}
    (h : Holds ts n.unlabelled) (hts : Lexes 0 source.toList ts) :
    Spells (String.ofList (n.span.slice source.toList)) n := by
  obtain ⟨q, w, s, hw, hd⟩ := h
  have hspan := hd.span_labelled
  have hslice := hts.slice hw hd.expr_ne_nil
  rw [← hspan] at hslice
  have hbare : Lexes 0 (n.span.slice source.toList) (w.map (Lexeme.relocate (· - startOf w))) := by
    simpa using hslice.unshift (Nat.le_refl _)
  have hwhole : wholeExpression w = .ok n.unlabelled :=
    wholeExpression_eq_ok_iff.2 ⟨w, [], (List.append_nil w).symm, .none rfl, hd.isolate⟩
  have hread := wholeExpression_map (· - startOf w) hwhole
  refine ⟨_, parseExpression_eq_ok_iff.2 ⟨_, _, ?_, hread, rfl⟩, ?_⟩
  · rwa [String.toList_ofList]
  · -- Moving back and forth changes nothing, since all tokens stand behind the first.
    have hfixed : w.map (Lexeme.relocate ((· + startOf w) ∘ (· - startOf w))) = w := by
      refine (List.map_congr_left fun x hx => ?_).trans (List.map_id w)
      obtain ⟨hstart, hstop⟩ := hslice.behind hx
      rw [Lexeme.relocate, Span.relocate, Function.comp_apply, Function.comp_apply,
        Nat.sub_add_cancel hstart, Nat.sub_add_cancel hstop]
      rfl
    have hback := wholeExpression_fixed hwhole hfixed
    rw [Expr.relocate_number, Expr.relocate_relocate, hspan]
    exact hback

/-- Every node of what a text is read as, at any depth, is spelled by the text of its span. So the text
that an error quotes for a node, and the text by which an oracle knows its class, is just the
expression that the node is. -/
theorem spells_of_nodeOf {source : String} {n : Expr Nat} (h : NodeOf source n) :
    let text := String.ofList (n.span.slice source.toList)
    Spells text n ∧ (Snippet.of source.toList n).text = text ∧
      ∀ classes, Oracle.ofTexts source.toList classes n =
        (classes.reverse.lookup text).getD .unknown := by
  obtain ⟨ts, hts, hn⟩ := h.holds
  exact ⟨hn.spells hts, rfl, fun _ => rfl⟩

/-- A negative constant and an arrow in a call, with comments and characters of two bytes. -/
theorem spells_of_nodeOf_arrow :
    let source := "/* é */ f( x /* ü */ => \"é\"[ -1 ] ) ;"
    let texts := ["f", "\"é\"", "-1", "\"é\"[ -1 ]", "x /* ü */ => \"é\"[ -1 ]",
      "f( x /* ü */ => \"é\"[ -1 ] )"]
    ∃ ss, parseProgram source = .ok ss ∧
      (nodesStatements ss).map (fun n => String.ofList (n.span.slice source.toList)) = texts ∧
      ∀ n ∈ nodesStatements ss, Spells (String.ofList (n.span.slice source.toList)) n := by
  intro source texts
  have htexts : ((parseProgram source).toOption.map fun ss => (nodesStatements ss).map
      fun n => String.ofList (n.span.slice source.toList)) = some texts := by
    decide +kernel
  cases hss : parseProgram source with
  | error e =>
    rw [hss] at htexts
    cases htexts
  | ok ss =>
    rw [hss] at htexts
    exact ⟨ss, rfl, Option.some.inj htexts, fun n hn => (spells_of_nodeOf (.program hss hn)).1⟩

end Aggregation
