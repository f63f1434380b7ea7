import Aggregation.Proofs.Isolation

/-! Where the nodes of a tree stand in the text.

The tokens of a text stand in a row (`Lexes.inRow`), and every phrase is made of neighbouring tokens. So
the expressions right inside a node stand in the text of the node, one behind the other
(`NodeOf.nested`). Whatever is collected from a tree by going down from a node to these expressions, in
their order, stands in a row as well, and inside the node. -/
namespace Aggregation

variable {ν μ α β : Type}

/-! ### The expressions right inside a node -/

/-- The expressions of an entry of an object, in the order of the text. -/
def Property.exprs (p : Property ν) : List (Expr ν) :=
  p.key?.toList ++ [p.value]

/-- The expressions right inside a node, in the order of the text. -/
def Expr.children : Expr ν → List (Expr ν)
  | .name _ _ | .literal _ _ => []
  | .paren _ e | .property _ e _ | .unary _ _ e | .lambda _ _ e => [e]
  | .element _ a b | .binary _ _ a b => [a, b]
  | .conditional _ c y n => [c, y, n]
  | .call _ callee args => callee :: args
  | .function _ _ _ body => body.filterMap Statement.value?
  | .object _ ps => ps.flatMap Property.exprs

theorem nodesAll_eq (es : List (Expr ν)) : nodesAll es = es.flatMap Expr.nodes := by
  induction es with
  | nil => rfl
  | cons e es ih => rw [nodesAll, ih, List.flatMap_cons]

theorem nodesProperties_eq (ps : List (Property ν)) :
    nodesProperties ps = (ps.flatMap Property.exprs).flatMap Expr.nodes := by
  induction ps with
  | nil => rfl
  | cons p ps ih =>
    cases p <;>
      simp [nodesProperties, ih, Property.exprs, Property.key?, Property.value]

theorem nodesStatements_eq (ss : List (Statement ν)) :
    nodesStatements ss = (ss.filterMap Statement.value?).flatMap Expr.nodes := by
  induction ss with
  | nil => rfl
  | cons s ss ih =>
    match s with
    | .declaration _ _ none | .declaration _ _ (some _) | .result _ none | .result _ (some _)
    | .expression _ _ => simp [nodesStatements, ih, Statement.value?, List.filterMap_cons]

namespace Expr

/-- The nodes of an expression are those of the expressions right inside it, and itself. -/
theorem nodes_eq (e : Expr ν) : e.nodes = e.children.flatMap nodes ++ [e] := by
  cases e with
  | call m callee args => rw [nodes, nodesAll_eq, children, List.flatMap_cons]
  | function m style ps ss => rw [nodes, nodesStatements_eq, children]
  | object m ps => rw [nodes, nodesProperties_eq, children]
  | _ => simp [nodes, children]

theorem mem_nodes_iff {e x : Expr ν} : x ∈ e.nodes ↔ (∃ c ∈ e.children, x ∈ c.nodes) ∨ x = e := by
  rw [nodes_eq, List.mem_append, List.mem_flatMap, List.mem_singleton]

theorem mem_nodes_of_child {e c x : Expr ν} (hc : c ∈ e.children) (hx : x ∈ c.nodes) :
    x ∈ e.nodes :=
  mem_nodes_iff.2 (.inl ⟨c, hc, hx⟩)

theorem length_nodes_le {e x : Expr ν} (h : x ∈ e.nodes) : x.nodes.length ≤ e.nodes.length :=
  (e.closed_nodes x h).length_le

/-- An expression right inside a node has fewer nodes. -/
theorem length_nodes_lt {e c : Expr ν} (h : c ∈ e.children) : c.nodes.length < e.nodes.length := by
  have hsub : c.nodes.Sublist (e.children.flatMap nodes) :=
    List.sublist_flatten_of_mem (List.mem_map_of_mem h)
  rw [nodes_eq e, List.length_append]
  exact Nat.lt_succ_of_le hsub.length_le

/-- What holds of a node as soon as it holds of the expressions right inside it, holds of all. -/
@[elab_as_elim]
theorem children_induction {motive : Expr ν → Prop}
    (node : ∀ e : Expr ν, (∀ c ∈ e.children, motive c) → motive e) (e : Expr ν) : motive e :=
  node e fun c _ => children_induction node c
termination_by e.nodes.length
decreasing_by exact length_nodes_lt ‹_›

end Expr

/-! ### Rows -/

/-- Things stand in a row between two places: none is empty, and each begins no earlier than the one
before it ends. -/
def InRow (place : α → Span) (start stop : Nat) : List α → Prop
  | [] => start ≤ stop
  | x :: xs => start ≤ (place x).start ∧ (place x).start < (place x).stop ∧
      InRow place (place x).stop stop xs

namespace InRow

variable {place : α → Span} {place' : β → Span} {start stop : Nat} {xs ys : List α}

theorem le (h : InRow place start stop xs) : start ≤ stop := by
  induction xs generalizing start with
  | nil => exact h
  | cons x xs ih =>
    obtain ⟨hstart, hlt, hxs⟩ := h
    have hstop := ih hxs
    omega

theorem mono {start' stop' : Nat} (h : InRow place start stop xs) (hstart : start' ≤ start)
    (hstop : stop ≤ stop') : InRow place start' stop' xs := by
  induction xs generalizing start start' with
  | nil => exact Nat.le_trans hstart (Nat.le_trans h hstop)
  | cons x xs ih =>
    obtain ⟨hfirst, hlt, hxs⟩ := h
    exact ⟨Nat.le_trans hstart hfirst, hlt, ih hxs (Nat.le_refl _)⟩

theorem append {between : Nat} (hx : InRow place start between xs)
    (hy : InRow place between stop ys) : InRow place start stop (xs ++ ys) := by
  induction xs generalizing start with
  | nil => exact hy.mono hx (Nat.le_refl _)
  | cons x xs ih =>
    obtain ⟨hfirst, hlt, hxs⟩ := hx
    exact ⟨hfirst, hlt, ih hxs⟩

/-- A row can be cut anywhere. -/
theorem split (h : InRow place start stop (xs ++ ys)) :
    ∃ between, InRow place start between xs ∧ InRow place between stop ys := by
  induction xs generalizing start with
  | nil => exact ⟨start, Nat.le_refl _, h⟩
  | cons x xs ih =>
    obtain ⟨hfirst, hlt, hxs⟩ := h
    obtain ⟨between, hxs, hys⟩ := ih hxs
    exact ⟨between, ⟨hfirst, hlt, hxs⟩, hys⟩

theorem left (h : InRow place start stop (xs ++ ys)) : InRow place start stop xs := by
  obtain ⟨between, hxs, hys⟩ := h.split
  exact hxs.mono (Nat.le_refl _) hys.le

theorem right (h : InRow place start stop (xs ++ ys)) : InRow place start stop ys := by
  obtain ⟨between, hxs, hys⟩ := h.split
  exact hys.mono hxs.le (Nat.le_refl _)

theorem tail {x : α} (h : InRow place start stop (x :: xs)) : InRow place start stop xs := by
  obtain ⟨hfirst, hlt, hxs⟩ := h
  exact hxs.mono (Nat.le_trans hfirst (Nat.le_of_lt hlt)) (Nat.le_refl _)

/-- What stands in the row stands between the two places. -/
theorem bounds {x : α} (h : InRow place start stop xs) (hx : x ∈ xs) :
    start ≤ (place x).start ∧ (place x).start < (place x).stop ∧ (place x).stop ≤ stop := by
  obtain ⟨ys, zs, rfl⟩ := List.append_of_mem hx
  obtain ⟨hfirst, hlt, hrest⟩ := h.right
  exact ⟨hfirst, hlt, hrest.le⟩

/-- Of two things in a row the first ends before the second begins. -/
theorem pairwise (h : InRow place start stop xs) :
    xs.Pairwise fun x y => (place x).stop ≤ (place y).start := by
  induction xs generalizing start with
  | nil => exact .nil
  | cons x xs ih =>
    obtain ⟨-, -, hxs⟩ := h
    exact .cons (fun y hy => (hxs.bounds hy).1) (ih hxs)

/-- Rows in the things of a row make up one row. -/
theorem flatMap {f : α → List β} (h : InRow place start stop xs)
    (hf : ∀ x ∈ xs, InRow place' (place x).start (place x).stop (f x)) :
    InRow place' start stop (xs.flatMap f) := by
  induction xs generalizing start with
  | nil => exact h
  | cons x xs ih =>
    obtain ⟨hfirst, -, hxs⟩ := h
    have hx := (hf x List.mem_cons_self).mono hfirst (Nat.le_refl _)
    exact hx.append (ih hxs fun y hy => hf y (List.mem_cons_of_mem x hy))

theorem map_iff {f : β → α} {zs : List β} (hf : ∀ z ∈ zs, place (f z) = place' z) :
    InRow place start stop (zs.map f) ↔ InRow place' start stop zs := by
  induction zs generalizing start with
  | nil => exact Iff.rfl
  | cons z zs ih =>
    rw [List.map_cons, InRow, InRow, hf z List.mem_cons_self,
      ih fun y hy => hf y (List.mem_cons_of_mem z hy)]

end InRow

/-! ### Tokens -/

/-- The tokens of a text stand in a row. -/
theorem Lexes.inRow {offset : Nat} {cs : List Char} {ts : List Lexeme} (h : Lexes offset cs ts) :
    InRow Lexeme.span offset (offset + byteLength cs) ts := by
  induction h with
  | done hgap => exact Nat.le_add_right _ _
  | @token offset cs gap c ds t taken rest p ts hgap hscan hstart hstop _ ih =>
    have hlength := byteLength_eq hgap hscan
    have htaken : taken ≠ [] := by
      have hne := @Token.taken_scan_ne_nil c ds t (by rw [hscan])
      rwa [hscan] at hne
    refine ⟨?_, ?_, ih.mono (Nat.le_refl _) ?_⟩
    · exact hstart ▸ Nat.le_add_right _ _
    · exact hstop ▸ Nat.lt_add_of_pos_right (byteLength_pos htaken)
    · omega

namespace Grammar

/-- A row of tokens reaches from the start of the first to the end of the last. -/
theorem inRow_tokens {start stop : Nat} {u : List Lexeme} (h : InRow Lexeme.span start stop u)
    (hne : u ≠ []) : InRow Lexeme.span (startOf u) (stopOf u) u ∧ start ≤ startOf u ∧
      startOf u < stopOf u ∧ stopOf u ≤ stop := by
  induction u generalizing start with
  | nil => exact absurd rfl hne
  | cons x w ih =>
    obtain ⟨hfirst, hlt, hw⟩ := h
    by_cases hne : w = []
    · subst hne
      exact ⟨⟨Nat.le_refl _, hlt, Nat.le_refl _⟩, hfirst, hlt, hw⟩
    · obtain ⟨hrow, hbehind, -, hstop⟩ := ih hw hne
      rw [stopOf_cons x hne]
      have hrest := hrow.mono hbehind (Nat.le_refl _)
      exact ⟨⟨Nat.le_refl _, hlt, hrest⟩, hfirst, Nat.lt_of_lt_of_le hlt hrest.le, hstop⟩

namespace Derives

variable {p : Phrase} {u r : List Lexeme} {e : Expr Unit} {start stop : Nat}

/-- An expression stands where its tokens do. -/
theorem inRow_expr (h : Derives p u (.expr e) r) (hu : InRow Lexeme.span start stop u) :
    InRow Expr.span start stop [e] := by
  obtain ⟨-, hstart, hlt, hstop⟩ := inRow_tokens hu h.expr_ne_nil
  rw [InRow, h.span_eq]
  exact ⟨hstart, hlt, hstop⟩

theorem inRow_arguments {es : List (Expr Unit)} (h : Derives p u (.exprs es) r)
    (hu : InRow Lexeme.span start stop u) : InRow Expr.span start stop es := by
  generalize hv : Piece.exprs es = v at h
  induction h generalizing es start with
  | noArgument =>
    cases hv
    exact hu
  | lastArgument h =>
    cases hv
    exact h.inRow_expr hu
  | argument h _ _ ih =>
    cases hv
    obtain ⟨between, hfirst, hrest⟩ := hu.split
    exact (h.inRow_expr hfirst).append (ih hrest.tail rfl)
  | _ => cases hv

theorem inRow_entry {v : Property Unit} (h : Derives p u (.entry v) r)
    (hu : InRow Lexeme.span start stop u) : InRow Expr.span start stop v.exprs := by
  cases h with
  | shorthand => exact hu
  | field hx h => exact h.inRow_expr hu.tail.tail
  | computed hk h =>
    obtain ⟨between, hkey, hvalue⟩ := hu.split
    exact (hk.inRow_expr hkey.tail).append (h.inRow_expr hvalue.tail.tail)

theorem inRow_entries {vs : List (Property Unit)} (h : Derives p u (.entries vs) r)
    (hu : InRow Lexeme.span start stop u) :
    InRow Expr.span start stop (vs.flatMap Property.exprs) := by
  generalize hv : Piece.entries vs = v at h
  induction h generalizing vs start with
  | noEntry =>
    cases hv
    exact hu
  | lastEntry h =>
    cases hv
    rw [List.flatMap_singleton]
    exact h.inRow_entry hu
  | entry h _ _ ih =>
    cases hv
    obtain ⟨between, hfirst, hrest⟩ := hu.split
    exact (h.inRow_entry hfirst).append (ih hrest.tail rfl)
  | _ => cases hv

theorem inRow_statement {s : Statement Unit} (h : Derives p u (.statement s) r)
    (hu : InRow Lexeme.span start stop u) : InRow Expr.span start stop s.value?.toList := by
  cases h with
  | declaration | finish => exact hu.le
  | definition _ _ h _ => exact h.inRow_expr hu.left.right.tail
  | result h _ => exact h.inRow_expr hu.left.tail
  | evaluation h _ => exact h.inRow_expr hu.left

theorem inRow_block {ss : List (Statement Unit)} (h : Derives p u (.statements ss) r)
    (hu : InRow Lexeme.span start stop u) :
    InRow Expr.span start stop (ss.filterMap Statement.value?) := by
  generalize hv : Piece.statements ss = v at h
  induction h generalizing ss start with
  | noStatement =>
    cases hv
    exact hu
  | @statement u s w ss r h _ _ ih =>
    cases hv
    obtain ⟨between, hfirst, hrest⟩ := hu.split
    have hrow := (h.inRow_statement hfirst).append (ih hrest rfl)
    rw [List.filterMap_cons]
    cases hs : s.value? with
    | none =>
      rw [hs] at hrow
      exact hrow
    | some e =>
      rw [hs] at hrow
      exact hrow
  | _ => cases hv

/-- The expressions right inside an expression stand in a row among its tokens. -/
theorem inRow_children (h : Derives p u (.expr e) r) (hu : InRow Lexeme.span start stop u) :
    InRow Expr.span start stop e.children := by
  generalize hv : Piece.expr e = v at h
  induction h generalizing e start stop with
  | plain _ _ ih | condition _ _ ih | settled _ _ ih | first _ ih | tighter _ _ ih
  | tightest _ _ ih | operand _ ih | suffixed _ _ ih | start _ ih => exact ih hu hv
  | lambda _ _ h =>
    cases hv
    exact h.inRow_expr hu.right.tail
  | arrow _ h =>
    cases hv
    exact h.inRow_block hu.left.right.tail.tail
  | choice hc hy hn =>
    cases hv
    obtain ⟨b, hu, hw⟩ := hu.split
    obtain ⟨a, hu, hv⟩ := hu.split
    exact (hc.inRow_expr hu).append ((hy.inRow_expr hv.tail).append (hn.inRow_expr hw.tail))
  | join _ ha hb =>
    cases hv
    obtain ⟨a, hu, hw⟩ := hu.split
    exact (ha.inRow_expr hu).append (hb.inRow_expr hw.tail)
  | not h | negate _ h =>
    cases hv
    exact h.inRow_expr hu.tail
  | property h =>
    cases hv
    exact h.inRow_expr hu.left
  | element h hi =>
    cases hv
    obtain ⟨a, hu, hw⟩ := hu.left.split
    exact (h.inRow_expr hu).append (hi.inRow_expr hw.tail)
  | call h hes =>
    cases hv
    obtain ⟨a, hu, hw⟩ := hu.left.split
    exact (h.inRow_expr hu).append (hes.inRow_arguments hw.tail)
  | paren h =>
    cases hv
    exact h.inRow_expr hu.left.tail
  | object h =>
    cases hv
    exact h.inRow_entries hu.left.tail
  | function _ _ _ h =>
    cases hv
    exact h.inRow_block hu.left.right.tail
  | negative | name | literal =>
    cases hv
    exact hu.le
  | _ => cases hv

end Derives

end Grammar

/-! ### Trees from texts -/

section Relocate

variable (f : ν → μ) (g : Nat → Nat)

theorem Property.exprs_relocate (p : Property ν) :
    (p.relocate f g).exprs = p.exprs.map (Expr.relocate f g) := by
  cases p <;> rfl

theorem Statement.value?_relocate (s : Statement ν) :
    (s.relocate f g).value? = s.value?.map (Expr.relocate f g) := by
  cases s <;> rfl

/-- The expressions of statements that were moved are those of the statements, moved. -/
theorem values_relocateStatements (ss : List (Statement ν)) :
    (relocateStatements f g ss).filterMap Statement.value? =
      (ss.filterMap Statement.value?).map (Expr.relocate f g) := by
  rw [relocateStatements_eq_map, List.filterMap_map, List.map_filterMap]
  exact List.filterMap_congr fun s _ => s.value?_relocate f g

theorem Expr.children_relocate (e : Expr ν) :
    (e.relocate f g).children = e.children.map (Expr.relocate f g) := by
  cases e with
  | call m callee args => rw [relocate, children, relocateAll_eq_map, children, List.map_cons]
  | function m style ps ss => rw [relocate, children, values_relocateStatements, children]
  | object m ps =>
    rw [relocate, children, relocateProperties_eq_map, children, List.flatMap_map, List.map_flatMap]
    exact List.flatMap_congr fun p _ => p.exprs_relocate f g
  | _ => rfl

end Relocate

/-- The labels of expressions do not matter for where they stand. -/
theorem InRow.unlabelled_iff {start stop : Nat} {es : List (Expr ν)} :
    InRow Expr.span start stop (es.map Expr.unlabelled) ↔ InRow Expr.span start stop es :=
  InRow.map_iff fun e _ => e.span_relocate

/-- The text of the node is not empty, and the expressions right inside it stand there in a row. -/
structure Expr.Nested (e : Expr ν) : Prop where
  span_lt : e.span.start < e.span.stop
  children : InRow Expr.span e.span.start e.span.stop e.children

/-- A node inside a node of a text is a node of the text. -/
theorem NodeOf.of_mem {source : String} {e x : Expr Nat} (h : NodeOf source e) (hx : x ∈ e.nodes) :
    NodeOf source x := by
  cases h with
  | expression h he => exact .expression h ((Expr.closed_nodes _ e he).subset hx)
  | program h he => exact .program h ((closed_nodesStatements _ e he).subset hx)

/-- Every node of what a text is read as holds the nodes inside it in their order. -/
theorem NodeOf.nested {source : String} {x : Expr Nat} (h : NodeOf source x) : x.Nested := by
  obtain ⟨ts, hts, q, w, s, hw, hd⟩ := h.holds
  obtain ⟨us, vs, rfl⟩ := hw
  obtain ⟨hrow, -, hlt, -⟩ := Grammar.inRow_tokens hts.inRow.left.right hd.expr_ne_nil
  have hspan := hd.span_labelled
  have hchildren := hd.inRow_children hrow
  rw [Expr.unlabelled, Expr.children_relocate] at hchildren
  refine ⟨?_, ?_⟩
  · rw [hspan]
    exact hlt
  · rw [hspan]
    exact InRow.unlabelled_iff.1 hchildren

/-- The text of a node is part of the text, and not empty. -/
theorem NodeOf.text {source : String} {n : Expr Nat} (h : NodeOf source n) :
    ∃ before after, source.toList = before ++ (n.span.slice source.toList ++ after) ∧
      byteLength before = n.span.start ∧
      byteLength before + byteLength (n.span.slice source.toList) = n.span.stop ∧
      n.span.slice source.toList ≠ [] := by
  obtain ⟨ts, hts, q, w, s, hw, hd⟩ := h.holds
  have hspan := hd.span_labelled
  obtain ⟨before, inside, after, hsource, hstart, hstop, -⟩ := hts.cut hw hd.expr_ne_nil
  have hslice : n.span.slice source.toList = inside := by
    rw [hspan, ← hstop, ← hstart, hsource, Span.slice_append]
  have hne : inside ≠ [] := by
    rintro rfl
    have hlt := h.nested.span_lt
    rw [hspan, ← hstart, ← hstop] at hlt
    exact Nat.lt_irrefl _ hlt
  rw [hslice, hspan]
  exact ⟨before, after, hsource, hstart, hstop, hne⟩

/-- The expressions of the statements of a program stand in a row. -/
theorem inRow_parseProgram {source : String} {ss : List (Statement Nat)}
    (h : parseProgram source = .ok ss) :
    InRow Expr.span 0 (byteLength source.toList) (ss.filterMap Statement.value?) := by
  obtain ⟨ss, hread, rfl⟩ := exists_of_map_eq_ok h
  obtain ⟨ts, hts, hread⟩ := readWith_eq_ok_iff.1 hread
  have hrow := (Grammar.program_eq_ok_iff.1 hread).inRow_block hts.inRow
  rw [← relabels_numberStatements ss 0, values_relocateStatements, Nat.zero_add] at hrow
  exact InRow.unlabelled_iff.1 hrow

/-- A node stands in the text of every node that it is inside of. -/
theorem Expr.span_of_mem_nodes {e x : Expr ν} (h : ∀ n ∈ e.nodes, n.Nested) (hx : x ∈ e.nodes) :
    e.span.start ≤ x.span.start ∧ x.span.stop ≤ e.span.stop := by
  induction e using Expr.children_induction with
  | node e ih =>
    rcases mem_nodes_iff.1 hx with ⟨c, hc, hx⟩ | rfl
    · obtain ⟨hstart, -, hstop⟩ := (h e e.mem_nodes_self).children.bounds hc
      have hinner := ih c hc (fun n hn => h n (mem_nodes_of_child hc hn)) hx
      omega
    · exact ⟨Nat.le_refl _, Nat.le_refl _⟩

end Aggregation
