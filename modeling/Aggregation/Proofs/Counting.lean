import Aggregation.Proofs.Nodes

/-! Numbers given out while reading.

The rules of the grammar are read with a counter here: where a rule makes a node, the node takes the next
number at once. Operators and suffixes group to the left, so their nodes are made in the course of a loop,
each around the one made before.

The reader that counts reads what the one without labels does, with the same faults, and its trees are
those of the other numbered afterwards (`Counting.parseExpression_eq`, `Counting.parseProgram_eq`). So no
number is given to a node that is dropped later, and the counter ends at the number of nodes. Together
with what is known of numbering afterwards this gives the order of the numbers in a tree
(`inOrder_of_parse`). -/
namespace Aggregation

namespace Numbered

variable {n n' k : Nat} {es : List (Expr Nat)}

theorem length_eq (h : Numbered n n' es k) : k = es.length := by
  have hlength := congrArg List.length h.1
  rw [labelsOf, List.length_map, List.length_range'] at hlength
  exact hlength.symm

theorem eq_length (h : Numbered 0 n' es k) : n' = es.length := by
  rw [h.2, Nat.zero_add, h.length_eq]

end Numbered

namespace Counting

/-- Reading with a counter. -/
abbrev Counter := StateT Nat (Except ParseFault)

/-- A node takes the next number. -/
instance : Grammar.NodeMaker Counter Nat :=
  ⟨fun make start stop => modifyGet fun n => (make ⟨n, ⟨start, stop⟩⟩, n + 1)⟩

/-! ### The same reading -/

def numberProperty (p : Property Unit) : StateM Nat (Property Nat) :=
  match p with
  | .field span key value => return .field span key (← value.number)
  | .shorthand span key value => return .shorthand span key (← value.number)
  | .computed span key value => return .computed span (← key.number) (← value.number)

def numberStatement (st : Statement Unit) : StateM Nat (Statement Nat) :=
  match st with
  | .declaration span name none => return .declaration span name none
  | .declaration span name (some e) => return .declaration span name (some (← e.number))
  | .result span none => return .result span none
  | .result span (some e) => return .result span (some (← e.number))
  | .expression span e => return .expression span (← e.number)

theorem span_number (e : Expr Unit) (n : Nat) : (e.number.run n).1.span = e.span := by
  cases e <;> rfl

/-- A value, the same with numbers from `n` on, and the number after these. -/
inductive Numbers {α β : Type} (f : α → StateM Nat β) (n : Nat) (v : α) : β → Nat → Prop
  | intro : Numbers f n v ((f v).run n).1 ((f v).run n).2

theorem Numbers.run_eq {α β : Type} {f : α → StateM Nat β} {n c : Nat} {v : α} {w : β}
    (h : Numbers f n v w c) : (f v).run n = (w, c) := by
  cases h
  rfl

/-- Statements that lack their span, without and with numbers. -/
def NumbersMade (n : Nat) (make : Span → Statement Unit) (make' : Span → Statement Nat) (c : Nat) :
    Prop :=
  ∀ span, Numbers numberStatement n (make span) (make' span) c

theorem Numbers.properties_cons {n c d : Nat} {p : Property Unit} {p' : Property Nat}
    {ps : List (Property Unit)} {ps' : List (Property Nat)} (hp : Numbers numberProperty n p p' c)
    (hps : Numbers numberProperties c ps ps' d) :
    Numbers numberProperties n (p :: ps) (p' :: ps') d := by
  cases hp
  cases hps
  cases p <;> exact .intro

theorem Numbers.statements_cons {n c d : Nat} {st : Statement Unit} {st' : Statement Nat}
    {ss : List (Statement Unit)} {ss' : List (Statement Nat)}
    (hst : Numbers numberStatement n st st' c) (hss : Numbers numberStatements c ss ss' d) :
    Numbers numberStatements n (st :: ss) (st' :: ss') d := by
  cases hst
  cases hss
  obtain ⟨_, _, _ | _⟩ | ⟨_, _ | _⟩ | ⟨_, _⟩ := st <;> exact .intro

/-- The reader that counts reads what the other does: the same fault, or values related by `Q` from the
same tokens. The last argument of `Q` is what the counter is then. -/
inductive Keeps {α β : Type} {k : Nat} (Q : α → β → Nat → Prop) :
    Parse α k → Except ParseFault (Read β k × Nat) → Prop
  | ok {v w c stop r} {h : r.length < k} :
      Q v w c → Keeps Q (.ok ⟨v, stop, r, h⟩) (.ok (⟨w, stop, r, h⟩, c))
  | error {f} : Keeps Q (.error f) (.error f)

namespace Keeps

variable {α β γ δ : Type} {k m n : Nat} {Q : α → β → Nat → Prop} {R : γ → δ → Nat → Prop}

/-- Rules one after the other, the second with what the counter is behind the first. -/
theorem bind {x : Parse α k} {y : Counter (Read β k)} {f : Read α k → Parse γ m}
    {g : Read β k → Counter (Read δ m)} (hx : Keeps Q x (y.run n))
    (hf : ∀ v w c stop r h, Q v w c →
      Keeps R (f ⟨v, stop, r, h⟩) ((g ⟨w, stop, r, h⟩).run c)) :
    Keeps R (x >>= f) ((y >>= g).run n) := by
  rw [StateT.run_bind]
  generalize y.run n = y at hx
  cases hx with
  | ok h => exact hf _ _ _ _ _ _ h
  | error => exact .error

/-- A rule that makes no nodes leaves the counter alone. -/
theorem bind_lift {x : Parse α k} {f : Read α k → Parse γ m} {g : Read α k → Counter (Read δ m)}
    (hf : ∀ v stop r h, Keeps R (f ⟨v, stop, r, h⟩) ((g ⟨v, stop, r, h⟩).run n)) :
    Keeps R (liftM x >>= f) ((liftM x >>= g).run n) := by
  cases x with
  | ok r => exact hf _ _ _ _
  | error e => exact .error

/-- A node that is made takes one number. -/
theorem bind_node {make : Mark Unit → Expr Unit} {make' : Mark Nat → Expr Nat} {start stop : Nat}
    {f : Expr Unit → Parse γ m} {g : Expr Nat → Counter (Read δ m)}
    (h : Keeps R (f (make (Grammar.mark start stop)))
      ((g (make' ⟨n, ⟨start, stop⟩⟩)).run (n + 1))) :
    Keeps R (Grammar.node make start stop >>= f) ((Grammar.node make' start stop >>= g).run n) :=
  h

/-- A rule at the beginning of a whole text. -/
theorem run_bind_eq {x : Parse α k} {y : Counter (Read β k)} {f : Read α k → Except ParseFault γ}
    {g : Read β k → Counter δ} {number : γ → δ × Nat} (hx : Keeps Q x (y.run n))
    (hf : ∀ v w c stop r h, Q v w c →
      (g ⟨w, stop, r, h⟩).run c = (f ⟨v, stop, r, h⟩).map number) :
    (y >>= g).run n = (x >>= f).map number := by
  rw [StateT.run_bind]
  generalize y.run n = y at hx
  cases hx with
  | ok h => exact hf _ _ _ _ _ _ h
  | error => rfl

end Keeps

/-- The reader that counts keeps to the other where fewer than `m` tokens are left. -/
structure KeepsBelow (m : Nat) : Prop where
  expression : ∀ {ts} n, ts.length < m → Keeps (Numbers Expr.number n)
    (Grammar.expression ts) (StateT.run (Grammar.expression ts) n)
  operand : ∀ {l ts} n, ts.length < m → Keeps (Numbers Expr.number n)
    (Grammar.operand l ts) (StateT.run (Grammar.operand l ts) n)
  unary : ∀ {ts} n, ts.length < m → Keeps (Numbers Expr.number n)
    (Grammar.unary ts) (StateT.run (Grammar.unary ts) n)
  arguments : ∀ {ts} n, ts.length < m → Keeps (Numbers numberAll n)
    (Grammar.arguments ts) (StateT.run (Grammar.arguments ts) n)
  properties : ∀ {ts} n, ts.length < m → Keeps (Numbers numberProperties n)
    (Grammar.properties ts) (StateT.run (Grammar.properties ts) n)
  block : ∀ {ts} n, ts.length < m → Keeps (Numbers numberStatements n)
    (Grammar.block ts) (StateT.run (Grammar.block ts) n)

namespace KeepsBelow

/-! One rule after the other. A loop that has read `e` so far is at the number behind those of `e`,
and numbers the larger expression from where `e` began. -/

variable {m n : Nat} {ts : List Lexeme}

theorem suffixes_step (ih : KeepsBelow m) {ts : List Lexeme} {e : Expr Unit} {stop : Nat}
    (hm : ts.length ≤ m) : Keeps (Numbers Expr.number n) (Grammar.suffixes e stop ts)
      (StateT.run (Grammar.suffixes (e.number.run n).1 stop ts) (e.number.run n).2) := by
  rw [Grammar.suffixes.eq_def]
  split
  · next p r =>
    rw [Grammar.suffixes, span_number]
    refine .bind_lift ?_
    intro name stop r₁ h₁
    have hm : r₁.length ≤ m := by grind
    -- The new node has the next number, which is the one that numbering it afterwards ends with.
    refine .bind_node (.bind (ih.suffixes_step (e := .property _ e name) hm) ?_)
    intro _ _ _ _ _ _ he
    exact .ok he
  · next p r =>
    rw [Grammar.suffixes, span_number]
    refine .bind (ih.expression _ hm) ?_
    intro i _ _ _ r₁ h₁ hi
    cases hi
    refine .bind_lift ?_
    intro _ stop r₂ h₂
    have hm : r₂.length ≤ m := by grind
    refine .bind_node (.bind (ih.suffixes_step (e := .element _ e i) hm) ?_)
    intro _ _ _ _ _ _ he
    exact .ok he
  · next p r =>
    rw [Grammar.suffixes, span_number]
    refine .bind (ih.arguments _ hm) ?_
    intro es _ _ stop r₁ h₁ hes
    cases hes
    have hm : r₁.length ≤ m := by grind
    refine .bind_node (.bind (ih.suffixes_step (e := .call _ e es) hm) ?_)
    intro _ _ _ _ _ _ he
    exact .ok he
  · rw [Grammar.suffixes]
    · exact .ok Numbers.intro
    -- No suffix begins here: this is what the equation for the last case asks for.
    all_goals grind
termination_by ts.length
decreasing_by all_goals grind

theorem fieldValue_step (ih : KeepsBelow m) (hm : ts.length ≤ m) :
    Keeps (Numbers Expr.number n) (Grammar.fieldValue ts)
      (StateT.run (Grammar.fieldValue ts) n) := by
  rw [Grammar.fieldValue, Grammar.fieldValue]
  refine .bind_lift ?_
  intro _ _ r h
  refine .bind (ih.expression _ (Nat.lt_of_lt_of_le h hm)) ?_
  intro _ _ _ _ _ _ he
  exact .ok he

theorem property_step (ih : KeepsBelow m) (hm : ts.length ≤ m) :
    Keeps (Numbers numberProperty n) (Grammar.property ts)
      (StateT.run (Grammar.property ts) n) := by
  rw [Grammar.property.eq_def]
  split
  · next name s r =>
    rw [Grammar.property]
    split
    · exact .bind_node (.ok Numbers.intro)
    · refine .bind (ih.fieldValue_step (Nat.le_of_lt hm)) ?_
      intro e _ _ stop r' _ he
      cases he
      exact .ok Numbers.intro
  · rw [Grammar.property]
    refine .bind (ih.fieldValue_step (Nat.le_of_lt hm)) ?_
    intro e _ _ stop r' _ he
    cases he
    exact .ok Numbers.intro
  · rw [Grammar.property]
    refine .bind (ih.fieldValue_step (Nat.le_of_lt hm)) ?_
    intro e _ _ stop r' _ he
    cases he
    exact .ok Numbers.intro
  · rw [Grammar.property]
    refine .bind (ih.expression _ hm) ?_
    intro key _ _ _ r₁ h₁ hk
    cases hk
    refine .bind_lift ?_
    intro _ _ r₂ h₂
    have hm : r₂.length ≤ m := by grind
    refine .bind (ih.fieldValue_step hm) ?_
    intro e _ _ stop r₃ _ he
    cases he
    exact .ok Numbers.intro
  · rw [Grammar.property]
    · exact .error
    all_goals assumption

theorem primary_step (ih : KeepsBelow m) (hm : ts.length ≤ m) :
    Keeps (Numbers Expr.number n) (Grammar.primary ts) (StateT.run (Grammar.primary ts) n) := by
  rw [Grammar.primary.eq_def]
  split
  · rw [Grammar.primary]
    refine .bind (ih.expression _ hm) ?_
    intro e _ _ _ r₁ _ he
    cases he
    refine .bind_lift ?_
    intro _ stop r₂ _
    exact .bind_node (.ok Numbers.intro)
  · rw [Grammar.primary]
    refine .bind (ih.properties _ hm) ?_
    intro ps _ _ stop r₁ _ hps
    cases hps
    exact .bind_node (.ok Numbers.intro)
  · next s r =>
    rw [Grammar.primary]
    have h₁ := (Grammar.skipName r).shorter
    refine .bind_lift ?_
    intro _ _ r₂ h₂
    refine .bind_lift ?_
    intro ps _ r₃ h₃
    refine .bind_lift ?_
    intro _ _ r₄ h₄
    refine .bind_lift ?_
    intro _ _ r₅ h₅
    have hm : r₅.length < m := by grind
    refine .bind (ih.block _ hm) ?_
    intro ss _ _ stop r₆ _ hss
    cases hss
    exact .bind_node (.ok Numbers.intro)
  · rw [Grammar.primary]
    exact .bind_node (.ok Numbers.intro)
  · next x r _ _ _ _ =>
    rw [Grammar.primary]
    · cases Grammar.literal? x.token with
      | some v => exact .bind_node (.ok Numbers.intro)
      | none => exact .error
    all_goals assumption
  · rw [Grammar.primary]
    exact .error

theorem suffixed_step (ih : KeepsBelow m) (hm : ts.length ≤ m) :
    Keeps (Numbers Expr.number n) (Grammar.suffixed ts) (StateT.run (Grammar.suffixed ts) n) := by
  rw [Grammar.suffixed, Grammar.suffixed]
  refine .bind (ih.primary_step hm) ?_
  intro e _ _ stop r h he
  cases he
  refine .bind (ih.suffixes_step (Nat.le_of_lt (Nat.lt_of_lt_of_le h hm))) ?_
  intro _ _ _ _ _ _ he
  exact .ok he

theorem unary_step (ih : KeepsBelow m) (hm : ts.length ≤ m) :
    Keeps (Numbers Expr.number n) (Grammar.unary ts) (StateT.run (Grammar.unary ts) n) := by
  rw [Grammar.unary.eq_def]
  split
  · rw [Grammar.unary]
    refine .bind (ih.unary _ hm) ?_
    intro e _ _ stop r' _ he
    cases he
    exact .bind_node (.ok Numbers.intro)
  · next s r =>
    rw [Grammar.unary]
    cases Grammar.negative? r with
    | some v => exact .bind_node (.ok Numbers.intro)
    | none =>
      refine .bind (ih.unary _ hm) ?_
      intro e _ _ stop r' _ he
      cases he
      exact .bind_node (.ok Numbers.intro)
  · rw [Grammar.unary]
    · exact ih.suffixed_step hm
    all_goals assumption

theorem binaryTail_step (ih : KeepsBelow m) {ts : List Lexeme} {l : Level} {e : Expr Unit}
    {stop : Nat} (hm : ts.length ≤ m) :
    Keeps (Numbers Expr.number n) (Grammar.binaryTail l e stop ts)
      (StateT.run (Grammar.binaryTail l (e.number.run n).1 stop ts) (e.number.run n).2) := by
  rw [Grammar.binaryTail.eq_def]
  split
  · rw [Grammar.binaryTail]
    exact .ok Numbers.intro
  · next x r =>
    rw [Grammar.binaryTail, span_number]
    cases l.operator? x.token with
    | none => exact .ok Numbers.intro
    | some op =>
      refine .bind (ih.operand _ hm) ?_
      intro right _ _ stop r₁ h₁ hright
      cases hright
      have hm : r₁.length ≤ m := by grind
      refine .bind_node (.bind (ih.binaryTail_step (e := .binary _ op e right) hm) ?_)
      intro _ _ _ _ _ _ he
      exact .ok he
termination_by ts.length
decreasing_by all_goals grind

mutual

theorem binary_step (ih : KeepsBelow m) {l : Level} (hm : ts.length ≤ m) :
    Keeps (Numbers Expr.number n) (Grammar.binary l ts) (StateT.run (Grammar.binary l ts) n) := by
  rw [Grammar.binary, Grammar.binary]
  refine .bind (ih.operand_step hm) ?_
  intro e _ _ stop r h he
  cases he
  refine .bind (ih.binaryTail_step (Nat.le_of_lt (Nat.lt_of_lt_of_le h hm))) ?_
  intro _ _ _ _ _ _ he
  exact .ok he
termination_by 2 * l.rank + 1

theorem operand_step (ih : KeepsBelow m) {l : Level} (hm : ts.length ≤ m) :
    Keeps (Numbers Expr.number n) (Grammar.operand l ts) (StateT.run (Grammar.operand l ts) n) := by
  rw [Grammar.operand, Grammar.operand]
  split
  · next k hl =>
    have := Level.rank_tighter hl
    exact ih.binary_step hm
  · exact ih.unary_step hm
termination_by 2 * l.rank

end

theorem conditional_step (ih : KeepsBelow m) (hm : ts.length ≤ m) :
    Keeps (Numbers Expr.number n) (Grammar.conditional ts)
      (StateT.run (Grammar.conditional ts) n) := by
  rw [Grammar.conditional, Grammar.conditional]
  refine .bind (ih.binary_step hm) ?_
  intro c _ _ stop r h hc
  cases hc
  dsimp only
  rw [span_number]
  split
  · next p r h =>
    refine .bind (ih.expression _ (Nat.lt_of_succ_lt (Nat.lt_of_lt_of_le h hm))) ?_
    intro yes _ _ _ r₁ h₁ hyes
    cases hyes
    refine .bind_lift ?_
    intro _ _ r₂ h₂
    have hm : r₂.length < m := by grind
    refine .bind (ih.expression _ hm) ?_
    intro no _ _ stop r₃ _ hno
    cases hno
    exact .bind_node (.ok Numbers.intro)
  · exact .ok Numbers.intro

theorem arrowFunction_step (ih : KeepsBelow m) (hm : ts.length ≤ m) :
    Keeps (Numbers Expr.number n) (Grammar.arrowFunction ts)
      (StateT.run (Grammar.arrowFunction ts) n) := by
  rw [Grammar.arrowFunction, Grammar.arrowFunction]
  refine .bind_lift ?_
  intro ps _ r h
  refine .bind_lift ?_
  intro _ _ r₁ h₁
  dsimp only
  split
  · next p r₂ h₁ =>
    have hm : r₂.length < m := by grind
    refine .bind (ih.block _ hm) ?_
    intro body _ _ stop r₃ _ hbody
    cases hbody
    exact .bind_node (.ok Numbers.intro)
  · have hm : r₁.length < m := by grind
    refine .bind (ih.expression _ hm) ?_
    intro body _ _ stop r₂ _ hbody
    cases hbody
    exact .bind_node (.ok Numbers.intro)

theorem expression_step (ih : KeepsBelow m) (hm : ts.length ≤ m) :
    Keeps (Numbers Expr.number n) (Grammar.expression ts)
      (StateT.run (Grammar.expression ts) n) := by
  rw [Grammar.expression, Grammar.expression]
  split
  · exact ih.arrowFunction_step hm
  · exact ih.conditional_step hm

theorem arguments_step (ih : KeepsBelow m) (hm : ts.length ≤ m) :
    Keeps (Numbers numberAll n) (Grammar.arguments ts) (StateT.run (Grammar.arguments ts) n) := by
  rw [Grammar.arguments.eq_def]
  split
  · rw [Grammar.arguments]
    exact .ok Numbers.intro
  · rw [Grammar.arguments]
    · refine .bind (ih.expression_step hm) ?_
      intro e _ _ _ r h he
      cases he
      refine .bind_lift ?_
      intro _ _ r₁ h₁
      have hm : r₁.length < m := by grind
      refine .bind (ih.arguments _ hm) ?_
      intro es _ _ stop r₂ _ hes
      cases hes
      exact .ok Numbers.intro
    all_goals assumption

theorem properties_step (ih : KeepsBelow m) (hm : ts.length ≤ m) :
    Keeps (Numbers numberProperties n) (Grammar.properties ts)
      (StateT.run (Grammar.properties ts) n) := by
  rw [Grammar.properties.eq_def]
  split
  · rw [Grammar.properties]
    exact .ok Numbers.intro
  · rw [Grammar.properties]
    · refine .bind (ih.property_step hm) ?_
      intro p _ _ _ r h hp
      refine .bind_lift ?_
      intro _ _ r₁ h₁
      have hm : r₁.length < m := by grind
      refine .bind (ih.properties _ hm) ?_
      intro ps _ _ stop r₂ _ hps
      exact .ok (hp.properties_cons hps)
    all_goals assumption

theorem declaration_step (ih : KeepsBelow m) (hm : ts.length ≤ m) :
    Keeps (NumbersMade n) (Grammar.declaration ts) (StateT.run (Grammar.declaration ts) n) := by
  rw [Grammar.declaration, Grammar.declaration]
  refine .bind_lift ?_
  intro name _ r h
  refine .bind_lift ?_
  intro _ stop r₁ h₁
  dsimp only
  split
  · next p r₂ h₁ =>
    have hm : r₂.length < m := by grind
    refine .bind (ih.expression _ hm) ?_
    intro e _ _ stop r₃ _ he
    cases he
    exact .ok fun _ => Numbers.intro
  · exact .ok fun _ => Numbers.intro

theorem plainStatement_step (ih : KeepsBelow m) (hm : ts.length ≤ m) :
    Keeps (NumbersMade n) (Grammar.plainStatement ts)
      (StateT.run (Grammar.plainStatement ts) n) := by
  rw [Grammar.plainStatement.eq_def]
  split
  · rw [Grammar.plainStatement]
    refine .bind (ih.declaration_step (Nat.le_of_lt hm)) ?_
    intro _ _ _ _ _ _ hmake
    exact .ok hmake
  · rw [Grammar.plainStatement]
    refine .bind (ih.declaration_step (Nat.le_of_lt hm)) ?_
    intro _ _ _ _ _ _ hmake
    exact .ok hmake
  · rw [Grammar.plainStatement]
    refine .bind (ih.declaration_step (Nat.le_of_lt hm)) ?_
    intro _ _ _ _ _ _ hmake
    exact .ok hmake
  · rw [Grammar.plainStatement]
    split
    · exact .ok fun _ => Numbers.intro
    · refine .bind (ih.expression _ hm) ?_
      intro e _ _ stop r' _ he
      cases he
      exact .ok fun _ => Numbers.intro
  · rw [Grammar.plainStatement]
    · refine .bind (ih.expression_step hm) ?_
      intro e _ _ stop r _ he
      cases he
      exact .ok fun _ => Numbers.intro
    all_goals assumption

theorem statement_step (ih : KeepsBelow m) (hm : ts.length ≤ m) :
    Keeps (Numbers numberStatement n) (Grammar.statement ts)
      (StateT.run (Grammar.statement ts) n) := by
  rw [Grammar.statement, Grammar.statement]
  refine .bind (ih.plainStatement_step hm) ?_
  intro make _ _ stop r _ hmake
  exact .ok (hmake _)

theorem block_step (ih : KeepsBelow m) (hm : ts.length ≤ m) :
    Keeps (Numbers numberStatements n) (Grammar.block ts) (StateT.run (Grammar.block ts) n) := by
  rw [Grammar.block.eq_def]
  split
  · rw [Grammar.block]
    exact .error
  · rw [Grammar.block]
    exact .ok Numbers.intro
  · rw [Grammar.block]
    · refine .bind (ih.statement_step hm) ?_
      intro st _ _ _ r h hst
      refine .bind (ih.block _ (Nat.lt_of_lt_of_le h hm)) ?_
      intro ss _ _ stop r' _ hss
      exact .ok (hst.statements_cons hss)
    all_goals assumption

end KeepsBelow

/-- The reader that counts keeps to the other, however many tokens are left. -/
theorem keepsBelow (m : Nat) : KeepsBelow m := by
  induction m with
  | zero => exact ⟨nofun, nofun, nofun, nofun, nofun, nofun⟩
  | succ m ih =>
    exact {
      expression := fun _ hm => ih.expression_step (Nat.le_of_lt_succ hm)
      operand := fun _ hm => ih.operand_step (Nat.le_of_lt_succ hm)
      unary := fun _ hm => ih.unary_step (Nat.le_of_lt_succ hm)
      arguments := fun _ hm => ih.arguments_step (Nat.le_of_lt_succ hm)
      properties := fun _ hm => ih.properties_step (Nat.le_of_lt_succ hm)
      block := fun _ hm => ih.block_step (Nat.le_of_lt_succ hm) }

/-! ### Whole texts -/

theorem run_wholeExpression (ts : List Lexeme) (n : Nat) :
    StateT.run (Grammar.wholeExpression ts) n =
      (Grammar.wholeExpression ts).map fun e : Expr Unit => e.number.run n := by
  refine ((keepsBelow _).expression_step (Nat.le_refl _)).run_bind_eq ?_
  intro e _ _ stop r _ he
  cases he
  dsimp only
  cases Grammar.finish (optional .semicolon stop r).rest with
  | error f => rfl
  | ok _ => rfl

theorem run_program (ts : List Lexeme) (n : Nat) :
    StateT.run (Grammar.program ts) n =
      (Grammar.program ts).map fun ss => (numberStatements ss).run n := by
  rw [Grammar.program.eq_def (m := Except ParseFault)]
  split
  · rw [Grammar.program]
    rfl
  · rw [Grammar.program]
    · refine ((keepsBelow _).statement_step (Nat.le_refl _)).run_bind_eq ?_
      intro st st' c _ r h hst
      dsimp only
      rw [StateT.run_bind, run_program r c]
      cases Grammar.program r with
      | error f => rfl
      | ok ss => exact congrArg Except.ok (hst.statements_cons .intro).run_eq.symm
    all_goals assumption
termination_by ts.length

/-- The expression that a text is, and how many numbers were given out. -/
def parseExpression (source : String) : Except ParseError (Expr Nat × Nat) :=
  readWith (fun ts => StateT.run (Grammar.wholeExpression ts) 0) source

/-- The program that a text is, and how many numbers were given out. -/
def parseProgram (source : String) : Except ParseError (List (Statement Nat) × Nat) :=
  readWith (fun ts => StateT.run (Grammar.program ts) 0) source

theorem readWith_map {α β : Type} {f : List Lexeme → Except ParseFault α} {g : α → β}
    (source : String) : readWith (fun ts => (f ts).map g) source = (readWith f source).map g := by
  unfold readWith
  cases tokenize source with
  | error e => rfl
  | ok ts =>
    dsimp only
    cases f ts with
    | error e => rfl
    | ok a => rfl

/-- Numbers that are given out while reading are those that are given afterwards, and there are as many
of them as there are nodes. -/
theorem parseExpression_eq (source : String) : parseExpression source =
    (Aggregation.parseExpression source).map fun e => (e, e.nodes.length) := by
  have hrun : (fun ts => StateT.run (Grammar.wholeExpression ts) 0) =
      fun ts => (Grammar.wholeExpression ts).map fun e : Expr Unit => e.number.run 0 :=
    funext fun ts => run_wholeExpression ts 0
  rw [parseExpression, hrun, readWith_map, Aggregation.parseExpression]
  cases readWith Grammar.wholeExpression source with
  | error f => rfl
  | ok t => exact congrArg Except.ok (Prod.ext rfl (t.labels_number 0).eq_length)

theorem parseProgram_eq (source : String) : parseProgram source =
    (Aggregation.parseProgram source).map fun ss => (ss, (nodesStatements ss).length) := by
  have hrun : (fun ts => StateT.run (Grammar.program ts) 0) =
      fun ts => (Grammar.program ts).map fun ss => (numberStatements ss).run 0 :=
    funext fun ts => run_program ts 0
  rw [parseProgram, hrun, readWith_map, Aggregation.parseProgram]
  cases readWith Grammar.program source with
  | error f => rfl
  | ok ts => exact congrArg Except.ok (Prod.ext rfl (labels_numberStatements ts 0).eq_length)

end Counting

/-! ### Numbers in order -/

/-- The nodes inside a node. -/
def Expr.innerNodes {ν : Type} (e : Expr ν) : List (Expr ν) :=
  e.nodes.dropLast

theorem Expr.nodes_eq_append {ν : Type} (e : Expr ν) : e.nodes = e.innerNodes ++ [e] := by
  cases e <;> simp [nodes, innerNodes]

/-- Nodes with the numbers from zero on in their order, each above the numbers of the nodes inside
it. -/
structure InOrder (es : List (Expr Nat)) : Prop where
  labels : labelsOf es = List.range es.length
  distinct : (labelsOf es).Nodup
  above : ∀ a ∈ es, ∀ b ∈ a.innerNodes, b.mark.label < a.mark.label

theorem inOrder_of_numbered {n count : Nat} {es : List (Expr Nat)} (h : Numbered 0 n es count)
    (hclosed : Closed es) : InOrder es := by
  have hlabels : labelsOf es = List.range es.length := by
    rw [List.range_eq_range', h.1, ← h.length_eq]
  refine ⟨hlabels, hlabels ▸ List.nodup_range, fun a ha b hb => ?_⟩
  have hgrowing : (labelsOf a.nodes).Pairwise (· < ·) := by
    refine List.Pairwise.sublist ((hclosed a ha).map _) ?_
    rw [← labelsOf, hlabels]
    exact List.pairwise_lt_range
  rw [a.nodes_eq_append, labelsOf_append, List.pairwise_append] at hgrowing
  exact hgrowing.2.2 _ (List.mem_map_of_mem hb) _ (List.mem_singleton.2 rfl)

/-- A whole tree has the last number. -/
theorem InOrder.label_root {e : Expr Nat} (h : InOrder e.nodes) :
    e.mark.label + 1 = e.nodes.length := by
  have hlabels := h.labels
  rw [e.nodes_eq_append, List.length_append, List.length_singleton, List.range_succ,
    labelsOf_append, labelsOf_singleton] at hlabels
  have hroot := List.singleton_inj.1 (List.append_inj_right' hlabels rfl)
  rw [hroot, e.nodes_eq_append, List.length_append, List.length_singleton]

/-- The nodes of a tree that is read from a text are numbered from zero on, in the order in which they
stand in it: parts from left to right, and each node behind its parts. So the numbers are distinct, a
node has a larger one than all nodes inside it, and a whole expression has the last. They are the
numbers that a reader gives out when it makes the nodes, and none of these is lost. -/
theorem inOrder_of_parse (source : String) :
    (∀ e, parseExpression source = .ok e →
      InOrder e.nodes ∧ e.mark.label + 1 = e.nodes.length ∧
        Counting.parseExpression source = .ok (e, e.nodes.length)) ∧
    ∀ ss, parseProgram source = .ok ss →
      InOrder (nodesStatements ss) ∧
        Counting.parseProgram source = .ok (ss, (nodesStatements ss).length) := by
  refine ⟨fun e he => ?_, fun ss hss => ?_⟩
  · have hcounted := Counting.parseExpression_eq source
    rw [he] at hcounted
    obtain ⟨t, -, rfl⟩ := exists_of_map_eq_ok he
    have horder := inOrder_of_numbered (t.labels_number 0) (Expr.closed_nodes _)
    exact ⟨horder, horder.label_root, hcounted⟩
  · have hcounted := Counting.parseProgram_eq source
    rw [hss] at hcounted
    obtain ⟨ts, -, rfl⟩ := exists_of_map_eq_ok hss
    exact ⟨inOrder_of_numbered (labels_numberStatements ts 0) (closed_nodesStatements _), hcounted⟩

/-- A short form of an entry, a computed key, an arrow and operators that group to the left, and
statements with a block among them. -/
theorem inOrder_of_parse_entries :
    let source := "f(\x7ba, [k + 1]: -1\x7d).b * 2 - g(x => x[0], !y)"
    let block := "const t = -a; (function (x) \x7b return x.b; \x7d)(t, t)"
    (∃ e, parseExpression source = .ok e ∧ e.nodes.length = 20 ∧ InOrder e.nodes ∧
      e.mark.label = 19 ∧ Counting.parseExpression source = .ok (e, 20)) ∧
    ∃ ss, parseProgram block = .ok ss ∧ (nodesStatements ss).length = 9 ∧
      InOrder (nodesStatements ss) ∧ Counting.parseProgram block = .ok (ss, 9) := by
  intro source block
  have hsource : ((parseExpression source).toOption.map fun e => e.nodes.length) = some 20 := by
    decide +kernel
  have hblock : ((parseProgram block).toOption.map fun ss => (nodesStatements ss).length) =
      some 9 := by
    decide +kernel
  constructor
  · cases he : parseExpression source with
    | error f =>
      rw [he] at hsource
      cases hsource
    | ok e =>
      rw [he] at hsource
      have hlength : e.nodes.length = 20 := Option.some.inj hsource
      obtain ⟨horder, hroot, hcounted⟩ := (inOrder_of_parse source).1 e he
      rw [hlength] at hroot hcounted
      exact ⟨e, rfl, hlength, horder, Nat.succ.inj hroot, hcounted⟩
  · cases hss : parseProgram block with
    | error f =>
      rw [hss] at hblock
      cases hblock
    | ok ss =>
      rw [hss] at hblock
      have hlength : (nodesStatements ss).length = 9 := Option.some.inj hblock
      obtain ⟨horder, hcounted⟩ := (inOrder_of_parse block).2 ss hss
      rw [hlength] at hcounted
      exact ⟨ss, rfl, hlength, horder, hcounted⟩

end Aggregation
