import Aggregation.Proofs.Formatting
import Aggregation.Proofs.Loosening
import Aggregation.Proofs.Wrapping

/-! Expressions written out.

`Expr.tokens` writes a tree as the tokens that the grammar has for it. A tree whose parts hold together
as `Expr.Fits` asks for needs no parentheses but its own: the tokens are read as the tree again, in
whatever layout they stand (`Expr.stands`). Each kind of node stands where its tier may stand if its
parts do, which is said once per kind of node; the tree follows by induction. -/
namespace Aggregation

variable {ν : Type}

/-! ### Tokens of a tree -/

/-- What a tree leaves to the one who writes it: whether a single parameter stands without parentheses,
and whether a comma stands behind the last item of a list. -/
structure Style where
  bareParam : Bool
  lastComma : Bool
deriving DecidableEq, Repr

/-- The token of a constant without its sign. -/
def Literal.magnitude : Literal → Token
  | .integer n => .integer n.natAbs
  | .float x => .float (if x.isNegative then -x else x)
  | .string s => .string s
  | .boolean b => .boolean b
  | .null => .null

def Literal.tokens (c : Literal) : List Token :=
  if c.isNegative then [.symbol .minus, c.magnitude] else [c.magnitude]

def FieldName.token : FieldName → Token
  | .bare s => .name s
  | .quoted s => .string s

namespace Style

/-- Items with commas between them. -/
def listed (style : Style) : List (List Token) → List Token
  | [] => []
  | [ts] => if style.lastComma then ts ++ [.symbol .comma] else ts
  | ts :: tss => ts ++ .symbol .comma :: style.listed tss

/-- Parameters in parentheses. -/
def group (style : Style) (ps : List Param) : List Token :=
  .symbol .leftParen :: style.listed (ps.map fun p => [.name p.name]) ++ [.symbol .rightParen]

/-- The parameters of an arrow function. -/
def params (style : Style) : List Param → List Token
  | [p] => if style.bareParam then [.name p.name] else style.group [p]
  | ps => style.group ps

end Style

mutual

/-- The tokens of an expression. Only expressions without blocks of statements are written. -/
def Expr.tokens (style : Style) : Expr ν → List Token
  | .name _ s => [.name s]
  | .literal _ c => c.tokens
  | .paren _ e => .symbol .leftParen :: e.tokens style ++ [.symbol .rightParen]
  | .property _ e n => e.tokens style ++ [.symbol .dot, .name n]
  | .element _ e i =>
    e.tokens style ++ .symbol .leftBracket :: i.tokens style ++ [.symbol .rightBracket]
  | .binary _ op a b => a.tokens style ++ .symbol op.symbol :: b.tokens style
  | .unary _ op e => .symbol op.symbol :: e.tokens style
  | .conditional _ c y n =>
    c.tokens style ++ .symbol .question :: y.tokens style ++ .symbol .colon :: n.tokens style
  | .call _ e es =>
    e.tokens style ++ .symbol .leftParen :: style.listed (tokensAll style es) ++
      [.symbol .rightParen]
  | .lambda _ ps e => style.params ps ++ .symbol .arrow :: e.tokens style
  | .function _ _ _ _ => []
  | .object _ ps =>
    .symbol .leftBrace :: style.listed (tokensProperties style ps) ++ [.symbol .rightBrace]

def tokensAll (style : Style) : List (Expr ν) → List (List Token)
  | [] => []
  | e :: es => e.tokens style :: tokensAll style es

/-- The tokens of each entry of an object. -/
def tokensProperties (style : Style) : List (Property ν) → List (List Token)
  | [] => []
  | .field _ k e :: ps =>
    (k.token :: .symbol .colon :: e.tokens style) :: tokensProperties style ps
  | .shorthand _ k _ :: ps => [.name k] :: tokensProperties style ps
  | .computed _ k e :: ps =>
    (.symbol .leftBracket :: k.tokens style ++
      .symbol .rightBracket :: .symbol .colon :: e.tokens style) :: tokensProperties style ps

end

def Property.tokens (style : Style) : Property ν → List Token
  | .field _ k e => k.token :: .symbol .colon :: e.tokens style
  | .shorthand _ k _ => [.name k]
  | .computed _ k e =>
    .symbol .leftBracket :: k.tokens style ++ .symbol .rightBracket :: .symbol .colon :: e.tokens style

theorem tokensAll_eq_map (style : Style) (es : List (Expr ν)) :
    tokensAll style es = es.map (Expr.tokens style) := by
  induction es with
  | nil => rfl
  | cons e es ih => rw [tokensAll, ih, List.map_cons]

theorem tokensProperties_eq_map (style : Style) (ps : List (Property ν)) :
    tokensProperties style ps = ps.map (Property.tokens style) := by
  induction ps with
  | nil => rfl
  | cons p ps ih => cases p <;> rw [tokensProperties, ih, List.map_cons, Property.tokens]

/-! ### Trees that are written -/

/-- Whether the constant is a number without a minus sign. -/
def Literal.isNonNegative : Literal → Bool
  | .integer n => decide (0 ≤ n)
  | .float x => !x.isNegative
  | _ => false

/-- Whether the expression is a number without a minus sign. -/
def Expr.isNonNegative : Expr ν → Bool
  | .literal _ c => c.isNonNegative
  | _ => false

/-- The entry is of a form that the grammar has: a name that is both key and value is one name. -/
def Property.Plain : Property ν → Prop
  | .field _ (.bare s) _ => isIdentifier s = true
  | .shorthand _ k e => e.name? = some k
  | _ => True

/-- The node is of a form that the grammar has. Functions are arrow functions of expressions, without
annotations, and their bodies do not begin as a block does. -/
def Expr.Plain (style : Style) : Expr ν → Prop
  | .name _ s | .property _ _ s => isIdentifier s = true
  | .unary _ op e => op = .negate → e.isNonNegative = false
  | .lambda _ ps e => (∀ p ∈ ps, isIdentifier p.name = true ∧ p.type? = none) ∧
      (e.tokens style).head? ≠ some (.symbol .leftBrace)
  | .function _ _ _ _ => False
  | .object _ ps => ∀ p ∈ ps, p.Plain
  | _ => True

/-- The nodes of the tree hold together as they are written, and are of forms that the grammar has. -/
def Expr.Written (style : Style) (e : Expr ν) : Prop :=
  ∀ n ∈ e.nodes, n.Fits ∧ n.Plain style

instance : (e : Expr ν) → Decidable e.Fits
  | .property _ e _ | .element _ e _ | .call _ e _ => inferInstanceAs (Decidable (.suffixed ≤ e.tier))
  | .binary _ op a b =>
    inferInstanceAs (Decidable (.binary op.level ≤ a.tier ∧ .binary op.level < b.tier))
  | .unary _ op e =>
    inferInstanceAs (Decidable (.unary ≤ e.tier ∧ (op = .negate → e.isPositive = false)))
  | .conditional _ c _ _ => inferInstanceAs (Decidable (.binary .or ≤ c.tier))
  | .name .. | .literal .. | .paren .. | .lambda .. | .function .. | .object .. => .isTrue trivial

instance : (p : Property ν) → Decidable p.Plain
  | .field _ (.bare s) _ => inferInstanceAs (Decidable (isIdentifier s = true))
  | .shorthand _ k e => inferInstanceAs (Decidable (e.name? = some k))
  | .field _ (.quoted _) _ | .computed .. => .isTrue trivial

instance (style : Style) : (e : Expr ν) → Decidable (e.Plain style)
  | .name _ s | .property _ _ s => inferInstanceAs (Decidable (isIdentifier s = true))
  | .unary _ op e => inferInstanceAs (Decidable (op = .negate → e.isNonNegative = false))
  | .lambda _ ps e =>
    inferInstanceAs (Decidable ((∀ p ∈ ps, isIdentifier p.name = true ∧ p.type? = none) ∧
      (e.tokens style).head? ≠ some (.symbol .leftBrace)))
  | .function .. => .isFalse id
  | .object _ ps => inferInstanceAs (Decidable (∀ p ∈ ps, p.Plain))
  | .literal .. | .paren .. | .element .. | .binary .. | .conditional .. | .call .. => .isTrue trivial

instance (style : Style) (e : Expr ν) : Decidable (e.Written style) :=
  inferInstanceAs (Decidable (∀ n ∈ e.nodes, n.Fits ∧ n.Plain style))

/-- The tree without labels and places. -/
def Expr.shape (e : Expr ν) : Expr Unit := e.relocate (fun _ => ()) nowhere

/-! ### Tokens without places -/

/-- The tokens, all at the start. -/
def laid (ts : List Token) : List Lexeme := ts.map fun t => ⟨t, ⟨0, 0⟩⟩

@[simp] theorem laid_nil : laid [] = [] := rfl

@[simp] theorem laid_cons (t : Token) (ts : List Token) : laid (t :: ts) = ⟨t, ⟨0, 0⟩⟩ :: laid ts := rfl

@[simp] theorem laid_append (ts us : List Token) : laid (ts ++ us) = laid ts ++ laid us :=
  List.map_append

theorem startOf_laid (ts : List Token) : startOf (laid ts) = 0 := by
  cases ts <;> rfl

@[simp] theorem Expr.span_shape (e : Expr ν) : e.shape.span = ⟨0, 0⟩ := by
  rw [shape, span_relocate]
  rfl

/-! ### Where an expression stands -/

/-- How far the token behind an expression of a tier may reach. -/
def Tier.bound : Tier → Nat
  | .loose => Tier.loose.rank
  | .binary l => (Tier.binary l).rank + 1
  | .unary => Tier.unary.rank
  | .suffixed | .primary => Tier.suffixed.rank + 1

namespace Tier

theorem rank_le_bound (t : Tier) : t.rank ≤ t.bound := by
  cases t <;> simp [bound, rank]

theorem lt_bound {t : Tier} {l : Level} (h : .binary l ≤ t) : (Tier.binary l).rank < t.bound := by
  have hrank : (Tier.binary l).rank ≤ t.rank := h
  cases t with
  | binary l' => exact Nat.lt_succ_of_le hrank
  | loose => cases l <;> exact absurd hrank (by decide)
  | unary | suffixed | primary => cases l <;> decide

theorem eq_or_lt_of_binary_le {t : Tier} {l : Level} (h : .binary l ≤ t) :
    t = .binary l ∨ .binary l < t := by
  rcases Nat.eq_or_lt_of_le (h : (Tier.binary l).rank ≤ t.rank) with heq | hlt
  · left
    cases t with
    | binary l' => cases l <;> cases l' <;> first | rfl | cases heq
    | loose | unary | suffixed | primary => cases l <;> cases heq
  · exact .inr hlt

theorem eq_of_suffixed_le {t : Tier} (h : .suffixed ≤ t) : t = .suffixed ∨ t = .primary := by
  cases t with
  | suffixed => exact .inl rfl
  | primary => exact .inr rfl
  | loose | unary => exact absurd h (by decide)
  | binary l => cases l <;> exact absurd h (by decide)

theorem not_unary_le_binary (l : Level) : ¬ .unary ≤ Tier.binary l := by
  cases l <;> decide

end Tier

theorem Token.reach_le (t : Token) : t.reach ≤ Tier.suffixed.rank + 1 := by
  cases t with
  | symbol s => cases s <;> decide
  | _ => exact Nat.zero_le _

namespace Grammar

@[simp] theorem stopOf_laid (ts : List Token) : stopOf (laid ts) = 0 := by
  induction ts with
  | nil => rfl
  | cons t ts ih =>
    cases ts with
    | nil => rfl
    | cons u us => exact ih

/-- A symbol that is no operator and takes nothing to its left ends any phrase. -/
theorem Stops.symbol {s : Symbol} (h : (Token.symbol s).reach = 0) (k : Nat) (p : Span)
    (r : List Lexeme) : Stops k (⟨.symbol s, p⟩ :: r) :=
  .cons (h ▸ Nat.zero_le k) r

theorem Stops.any (r : List Lexeme) : Stops (Tier.suffixed.rank + 1) r :=
  fun x _ => x.token.reach_le

/-- The tokens of the expression are read as it, as long as no token follows that goes on with it. -/
def Stands (style : Style) (e : Expr ν) : Prop :=
  ∀ r, Stops e.tier.bound r →
    Derives (.ofTier e.tier) (laid (e.tokens style)) (.expr e.shape) r

namespace Stands

variable {style : Style} {e : Expr ν} {r : List Lexeme}

theorem ofRank (h : Stands style e) {k : Nat} (hk : k ≤ e.tier.rank) (hr : Stops k r) :
    Derives (.ofRank k) (laid (e.tokens style)) (.expr e.shape) r :=
  (h r (hr.mono (Nat.le_trans hk e.tier.rank_le_bound))).settle hk hr

theorem expression (h : Stands style e) (hr : Stops 0 r) :
    Derives .expression (laid (e.tokens style)) (.expr e.shape) r :=
  h.ofRank (Nat.zero_le _) hr

theorem joined (h : Stands style e) {l : Level} (hl : .binary l ≤ e.tier)
    (hr : Stops ((Tier.binary l).rank + 1) r) :
    Derives (.joined l) (laid (e.tokens style)) (.expr e.shape) r := by
  rcases Tier.eq_or_lt_of_binary_le hl with heq | hlt
  · have hread := h r (hr.mono (Tier.lt_bound hl))
    rwa [heq] at hread
  · exact .first (h.ofRank hlt hr).operand_of_ofRank

theorem chain (h : Stands style e) (hs : .suffixed ≤ e.tier) (r : List Lexeme) :
    Derives .chain (laid (e.tokens style)) (.expr e.shape) r := by
  have hread := h r
  rcases Tier.eq_of_suffixed_le hs with heq | heq
  · rw [heq] at hread
    exact hread (.any r)
  · rw [heq] at hread
    exact .start (hread (.any r))

end Stands

/-! ### Kinds of nodes -/

section Kinds

variable {style : Style} {e a b c y n i : Expr ν}

theorem literal?_magnitude {v : Literal} (h : v.isNegative = false) :
    literal? v.magnitude = some v := by
  cases v with
  | integer k =>
    have hk : ¬ k < 0 := of_decide_eq_false h
    exact congrArg (some ∘ Literal.integer) (by omega)
  | float x =>
    have hx : x.isNegative = false := h
    simp [Literal.magnitude, literal?, hx]
  | _ => rfl

theorem negated?_magnitude {v : Literal} (h : v.isNegative = true) :
    negated? v.magnitude = some v := by
  cases v with
  | integer k =>
    have hk : k < 0 := of_decide_eq_true h
    exact congrArg (some ∘ Literal.integer) (by omega)
  | float x =>
    have hx : x.isNegative = true := h
    simp [Literal.magnitude, negated?, hx, Binary64.neg_neg]
  | _ => cases h

theorem stands_name (m : Mark ν) (s : String) : Stands style (.name m s) :=
  fun _ _ => .name

theorem stands_literal (m : Mark ν) (v : Literal) : Stands style (.literal m v) := by
  intro r hr
  cases hv : v.isNegative with
  | true =>
    have htier : (Expr.literal m v).tier = .unary := if_pos hv
    have htokens : (Expr.literal m v).tokens style = [.symbol .minus, v.magnitude] := if_pos hv
    rw [htier] at hr ⊢
    rw [htokens]
    exact .negative (negated?_magnitude hv) (hr.startsSuffix (by decide))
  | false =>
    have htier : (Expr.literal m v).tier = .primary := if_neg (by simp [hv])
    have htokens : (Expr.literal m v).tokens style = [v.magnitude] := if_neg (by simp [hv])
    rw [htier, htokens]
    exact .literal (literal?_magnitude hv)

theorem stands_paren (m : Mark ν) (he : Stands style e) : Stands style (.paren m e) := by
  intro r _
  show Derives _ (laid (.symbol .leftParen :: e.tokens style ++ [.symbol .rightParen])) _ r
  rw [laid_append, laid_cons]
  exact .paren (he.expression (.symbol rfl 0 _ r))

theorem stands_property (m : Mark ν) (he : Stands style e) (hs : .suffixed ≤ e.tier) (x : String) :
    Stands style (.property m e x) := by
  intro r _
  have hobject := he.chain hs (⟨.symbol .dot, ⟨0, 0⟩⟩ :: ⟨.name x, ⟨0, 0⟩⟩ :: r)
  have hread := Derives.property hobject
  rw [Expr.span_shape] at hread
  show Derives _ (laid (e.tokens style ++ [.symbol .dot, .name x])) _ r
  rw [laid_append]
  exact hread

theorem stands_element (m : Mark ν) (he : Stands style e) (hi : Stands style i)
    (hs : .suffixed ≤ e.tier) : Stands style (.element m e i) := by
  intro r _
  have hindex := hi.expression (.symbol (s := .rightBracket) rfl 0 ⟨0, 0⟩ r)
  have hobject := he.chain hs (⟨.symbol .leftBracket, ⟨0, 0⟩⟩ :: laid (i.tokens style) ++
    ⟨.symbol .rightBracket, ⟨0, 0⟩⟩ :: r)
  have hread := Derives.element hobject hindex
  rw [Expr.span_shape] at hread
  show Derives _ (laid (e.tokens style ++ .symbol .leftBracket :: i.tokens style ++
    [.symbol .rightBracket])) _ r
  rw [laid_append, laid_append, laid_cons]
  exact hread

theorem operator?_symbol (op : BinaryOp) : op.level.operator? (.symbol op.symbol) = some op := by
  cases op <;> rfl

theorem stands_binary (m : Mark ν) {op : BinaryOp} (ha : Stands style a) (hb : Stands style b)
    (hl : .binary op.level ≤ a.tier) (hr : .binary op.level < b.tier) :
    Stands style (.binary m op a b) := by
  intro r hstop
  have hright := (hb.ofRank (k := (Tier.binary op.level).rank + 1) hr hstop).operand_of_ofRank
  have hleft := ha.joined hl
    (.cons (x := ⟨.symbol op.symbol, ⟨0, 0⟩⟩) (Nat.le_of_eq (Stops.reach_symbol op))
      (laid (b.tokens style) ++ r))
  have hread := Derives.join (operator?_symbol op) hleft hright
  rw [Expr.span_shape, stopOf_laid] at hread
  show Derives _ (laid (a.tokens style ++ .symbol op.symbol :: b.tokens style)) _ r
  rw [laid_append, laid_cons]
  exact hread

theorem stands_conditional (m : Mark ν) (hc : Stands style c) (hy : Stands style y)
    (hn : Stands style n) (ht : .binary .or ≤ c.tier) : Stands style (.conditional m c y n) := by
  intro r hr
  replace hr : Stops 0 r := hr
  have hno := hn.expression hr
  have hyes := hy.expression (.symbol (s := .colon) rfl 0 ⟨0, 0⟩ (laid (n.tokens style) ++ r))
  have hcondition := hc.ofRank (k := (Tier.binary .or).rank) ht
    (.cons (x := ⟨.symbol .question, ⟨0, 0⟩⟩) (by decide)
      (laid (y.tokens style) ++ ⟨.symbol .colon, ⟨0, 0⟩⟩ :: laid (n.tokens style) ++ r))
  have hread := Derives.choice hcondition hyes hno
  rw [Expr.span_shape, stopOf_laid] at hread
  show Derives _ (laid (c.tokens style ++ .symbol .question :: y.tokens style ++
    .symbol .colon :: n.tokens style)) _ r
  rw [laid_append, laid_append, laid_cons, laid_cons]
  exact .plain (hread.atArrow_eq_false (by simp) (hr.startsWith (by decide))) hread

theorem negated?_of_not_number {v : Literal} (hneg : v.isNegative = false)
    (hv : v.isNonNegative = false) : negated? v.magnitude = none := by
  cases v with
  | integer k =>
    have hk : ¬ k < 0 := of_decide_eq_false hneg
    exact absurd (Int.not_lt.1 hk) (of_decide_eq_false hv)
  | float x =>
    have hx : x.isNegative = false := hneg
    rw [Literal.isNonNegative, hx] at hv
    cases hv
  | _ => rfl

/-- A minus sign before an expression that is no number is not part of a constant. -/
theorem negative?_tokens (e : Expr ν) (hw : e.Written style) (ht : .unary ≤ e.tier) (r : List Lexeme)
    (hr : e.isNonNegative = true → startsSuffix r = true) :
    negative? (laid (e.tokens style) ++ r) = none := by
  have hfits := (hw e e.mem_nodes_self).1
  -- What is read from or called begins as its first part does, with a suffix behind that part.
  match e with
  | .property m o x =>
    show negative? (laid (o.tokens style ++ _) ++ r) = none
    rw [laid_append, List.append_assoc]
    exact negative?_tokens o (fun n hn => hw n (by simp [Expr.nodes, hn]))
      (Nat.le_trans (by decide) hfits) _ fun _ => rfl
  | .element m o i =>
    show negative? (laid (o.tokens style ++ _ ++ _) ++ r) = none
    rw [laid_append, laid_append, List.append_assoc, List.append_assoc]
    exact negative?_tokens o (fun n hn => hw n (by simp [Expr.nodes, hn]))
      (Nat.le_trans (by decide) hfits) _ fun _ => rfl
  | .call m o es =>
    show negative? (laid (o.tokens style ++ _ ++ _) ++ r) = none
    rw [laid_append, laid_append, List.append_assoc, List.append_assoc]
    exact negative?_tokens o (fun n hn => hw n (by simp [Expr.nodes, hn]))
      (Nat.le_trans (by decide) hfits) _ fun _ => rfl
  | .literal m v =>
    cases hv : v.isNegative with
    | true =>
      have htokens : (Expr.literal m v).tokens style = [.symbol .minus, v.magnitude] := if_pos hv
      rw [htokens]
      exact Derives.negative?_eq_none_iff.2 (.inr rfl)
    | false =>
      have htokens : (Expr.literal m v).tokens style = [v.magnitude] := if_neg (by simp [hv])
      rw [htokens]
      refine Derives.negative?_eq_none_iff.2 ?_
      cases hn : v.isNonNegative with
      | true => exact .inl (hr hn)
      | false => exact .inr (negated?_of_not_number hv hn)
  | .unary m op o => cases op <;> exact Derives.negative?_eq_none_iff.2 (.inr rfl)
  | .name .. | .paren .. | .object .. => exact Derives.negative?_eq_none_iff.2 (.inr rfl)
  | .binary m op a b => exact absurd ht (Tier.not_unary_le_binary op.level)
  | .conditional .. | .lambda .. => exact absurd ht (show ¬ Tier.unary ≤ .loose by decide)
  | .function m st ps ss => exact (hw _ (Expr.mem_nodes_self _)).2.elim

theorem stands_unary (m : Mark ν) {op : UnaryOp} (he : Stands style e) (hw : e.Written style)
    (ht : .unary ≤ e.tier) (hn : op = .negate → e.isNonNegative = false) :
    Stands style (.unary m op e) := by
  intro r hr
  have hoperand := he.ofRank (k := Tier.unary.rank) ht hr
  cases op with
  | not =>
    have hread := Derives.not (p := ⟨0, 0⟩) hoperand
    rw [stopOf_laid] at hread
    exact hread
  | negate =>
    have hnumber := negative?_tokens e hw ht r (by simp [hn rfl])
    have hread := Derives.negate (p := ⟨0, 0⟩) hnumber hoperand
    rw [stopOf_laid] at hread
    exact hread

/-- What holds of no item, of a last item, and of an item with a comma before others, holds of items
with commas between them. -/
theorem listed_rec {α : Type} {item : α → List Token} {P : α → Prop}
    {D : List Lexeme → List α → Prop} (nil : D [] []) (last : ∀ x, P x → D (laid (item x)) [x])
    (more : ∀ x w xs, P x → D w xs →
      D (laid (item x) ++ ⟨.symbol .comma, ⟨0, 0⟩⟩ :: w) (x :: xs))
    {xs : List α} (h : ∀ x ∈ xs, P x) : D (laid (style.listed (xs.map item))) xs := by
  induction xs with
  | nil => exact nil
  | cons x xs ih =>
    obtain ⟨hx, hxs⟩ := List.forall_mem_cons.1 h
    cases xs with
    | nil =>
      rw [List.map_singleton, Style.listed]
      split
      · rw [laid_append]
        exact more x [] [] hx nil
      · exact last x hx
    | cons x' xs =>
      rw [List.map_cons, List.map_cons, Style.listed, laid_append, laid_cons]
      · exact more x _ _ hx (ih hxs)
      · simp

theorem derives_arguments {es : List (Expr ν)} (h : ∀ e ∈ es, Stands style e) {r : List Lexeme}
    (hr : Stops 0 r) :
    Derives .arguments (laid (style.listed (tokensAll style es)))
      (.exprs (relocateAll (fun _ => ()) nowhere es)) r := by
  rw [tokensAll_eq_map, relocateAll_eq_map]
  refine listed_rec (P := Stands style)
    (D := fun u es => Derives .arguments u (.exprs (es.map Expr.shape)) r) .noArgument ?_ ?_ h
  · intro e he
    exact .lastArgument (he.expression hr)
  · intro e w es he hw
    exact .argument (he.expression (.symbol rfl 0 _ _)) hw

theorem stands_call (m : Mark ν) (he : Stands style e) (hs : .suffixed ≤ e.tier)
    {es : List (Expr ν)} (hes : ∀ e ∈ es, Stands style e) : Stands style (.call m e es) := by
  intro r _
  have harguments := derives_arguments hes (.symbol (s := .rightParen) rfl 0 ⟨0, 0⟩ r)
  have hcallee := he.chain hs (⟨.symbol .leftParen, ⟨0, 0⟩⟩ ::
    laid (style.listed (tokensAll style es)) ++ ⟨.symbol .rightParen, ⟨0, 0⟩⟩ :: r)
  have hread := Derives.call hcallee harguments
  rw [Expr.span_shape] at hread
  show Derives _ (laid (e.tokens style ++ .symbol .leftParen :: style.listed (tokensAll style es) ++
    [.symbol .rightParen])) _ r
  rw [laid_append, laid_append, laid_cons]
  exact hread

/-- The tokens of the entry of an object are read as it, before a comma or the end of the object. -/
def StandsEntry (style : Style) (p : Property ν) : Prop :=
  ∀ r, Stops 0 r →
    Derives .property (laid (p.tokens style)) (.entry (p.relocate (fun _ => ()) nowhere)) r

theorem fieldKey?_token (k : FieldName) : fieldKey? k.token = some k := by
  cases k <;> rfl

theorem standsEntry_field (s : Span) (k : FieldName) (he : Stands style e) :
    StandsEntry style (.field s k e) := by
  intro r hr
  have hread := Derives.field (x := ⟨k.token, ⟨0, 0⟩⟩) (p := ⟨0, 0⟩) (fieldKey?_token k)
    (he.expression hr)
  rw [stopOf_laid] at hread
  exact hread

theorem standsEntry_shorthand (s : Span) {k : String} (he : e.name? = some k) :
    StandsEntry style (.shorthand s k e) := by
  intro r _
  cases e with
  | name m x =>
    obtain rfl := Option.some.inj he
    exact .shorthand
  | _ => cases he

theorem standsEntry_computed (s : Span) (hi : Stands style i) (he : Stands style e) :
    StandsEntry style (.computed s i e) := by
  intro r hr
  have hkey := hi.expression (.symbol (s := .rightBracket) rfl 0 ⟨0, 0⟩
    (⟨.symbol .colon, ⟨0, 0⟩⟩ :: laid (e.tokens style) ++ r))
  have hread : Derives .property (⟨.symbol .leftBracket, ⟨0, 0⟩⟩ :: _ ++ _) _ r :=
    .computed hkey (he.expression hr)
  rw [stopOf_laid] at hread
  show Derives _ (laid (.symbol .leftBracket :: i.tokens style ++
    .symbol .rightBracket :: .symbol .colon :: e.tokens style)) _ r
  rw [laid_append, laid_cons]
  exact hread

theorem stands_object (m : Mark ν) {ps : List (Property ν)} (h : ∀ p ∈ ps, StandsEntry style p) :
    Stands style (.object m ps) := by
  intro r _
  have hentries : Derives .properties (laid (style.listed (ps.map (Property.tokens style))))
      (.entries (ps.map (Property.relocate (fun _ => ()) nowhere)))
      (⟨.symbol .rightBrace, ⟨0, 0⟩⟩ :: r) := by
    refine listed_rec (P := StandsEntry style)
      (D := fun u ps => Derives .properties u
        (.entries (ps.map (Property.relocate (fun _ => ()) nowhere))) _) .noEntry ?_ ?_ h
    · intro p hp
      exact .lastEntry (hp _ (.symbol rfl 0 _ r))
    · intro p w ps hp hw
      exact .entry (hp _ (.symbol rfl 0 _ _)) hw
  rw [← tokensProperties_eq_map, ← relocateProperties_eq_map] at hentries
  show Derives _ (laid (.symbol .leftBrace :: style.listed (tokensProperties style ps) ++
    [.symbol .rightBrace])) _ r
  rw [laid_append, laid_cons]
  exact .object hentries

theorem heads_group (style : Style) {ps : List Param} (h : ∀ p ∈ ps, p.type? = none)
    (r : List Lexeme) : Heads (laid (style.group ps)) (ps.map (Param.relocate nowhere)) r := by
  have hparam {p : Param} (hp : p.type? = none) : p.relocate nowhere = ⟨p.name, ⟨0, 0⟩, none⟩ := by
    rw [← hp]
    rfl
  rw [Style.group, laid_append, laid_cons]
  refine .group ?_
  refine listed_rec (P := fun p : Param => p.type? = none)
    (D := fun u ps => Declares u (ps.map (Param.relocate nowhere)) _) .none ?_ ?_ h
  · intro p hp
    rw [List.map_singleton, hparam hp]
    exact .last (.none rfl)
  · intro p w ps hp hw
    rw [List.map_cons, hparam hp]
    exact .more (.none rfl) hw

theorem heads_params (style : Style) {ps : List Param} (h : ∀ p ∈ ps, p.type? = none)
    (r : List Lexeme) : Heads (laid (style.params ps)) (ps.map (Param.relocate nowhere)) r := by
  match ps with
  | [⟨x, s, type?⟩] =>
    rw [Style.params]
    split
    · obtain rfl : type? = none := h _ (List.mem_singleton_self _)
      exact .name
    · exact heads_group style h r
  | [] | _ :: _ :: _ => exact heads_group style h r

theorem stands_lambda (m : Mark ν) {ps : List Param} (hps : ∀ p ∈ ps, p.type? = none)
    (he : Stands style e) (hb : (e.tokens style).head? ≠ some (.symbol .leftBrace)) :
    Stands style (.lambda m ps e) := by
  intro r hr
  have hbody : startsWith .leftBrace (laid (e.tokens style)) = false := by
    cases htokens : e.tokens style with
    | nil => rfl
    | cons t ts =>
      rw [htokens] at hb
      simpa using hb
  have hread := Derives.lambda (heads_params style hps
    (⟨.symbol .arrow, ⟨0, 0⟩⟩ :: laid (e.tokens style) ++ r)) hbody (he.expression hr)
  rw [stopOf_laid, startOf_laid] at hread
  show Derives _ (laid (style.params ps ++ .symbol .arrow :: e.tokens style)) _ r
  rw [laid_append, laid_cons]
  exact hread

end Kinds

end Grammar

/-! ### Trees -/

section Trees

open Grammar

variable {style : Style}

mutual

/-- The tokens of a tree that is written as its parts hold together are read as the tree. -/
theorem Expr.stands (e : Expr ν) (h : e.Written style) : Stands style e := by
  match e, h with
  | .name m s, _ => exact stands_name m s
  | .literal m v, _ => exact stands_literal m v
  | .paren m e, h =>
    obtain ⟨he, -⟩ := List.forall_mem_append.1 h
    exact stands_paren m (e.stands he)
  | .property m e x, h =>
    obtain ⟨he, hself⟩ := List.forall_mem_append.1 h
    exact stands_property m (e.stands he) (List.forall_mem_singleton.1 hself).1 x
  | .element m e i, h =>
    obtain ⟨hparts, hself⟩ := List.forall_mem_append.1 h
    obtain ⟨he, hi⟩ := List.forall_mem_append.1 hparts
    exact stands_element m (e.stands he) (i.stands hi) (List.forall_mem_singleton.1 hself).1
  | .binary m op a b, h =>
    obtain ⟨hparts, hself⟩ := List.forall_mem_append.1 h
    obtain ⟨ha, hb⟩ := List.forall_mem_append.1 hparts
    obtain ⟨⟨hleft, hright⟩, -⟩ := List.forall_mem_singleton.1 hself
    exact stands_binary m (a.stands ha) (b.stands hb) hleft hright
  | .unary m op e, h =>
    obtain ⟨he, hself⟩ := List.forall_mem_append.1 h
    obtain ⟨⟨htier, -⟩, hnumber⟩ := List.forall_mem_singleton.1 hself
    exact stands_unary m (e.stands he) he htier hnumber
  | .conditional m c y n, h =>
    obtain ⟨hparts, hself⟩ := List.forall_mem_append.1 h
    obtain ⟨hparts, hn⟩ := List.forall_mem_append.1 hparts
    obtain ⟨hc, hy⟩ := List.forall_mem_append.1 hparts
    exact stands_conditional m (c.stands hc) (y.stands hy) (n.stands hn)
      (List.forall_mem_singleton.1 hself).1
  | .call m e es, h =>
    obtain ⟨hparts, hself⟩ := List.forall_mem_append.1 h
    obtain ⟨he, hes⟩ := List.forall_mem_append.1 hparts
    exact stands_call m (e.stands he) (List.forall_mem_singleton.1 hself).1 (standsAll es hes)
  | .lambda m ps e, h =>
    obtain ⟨he, hself⟩ := List.forall_mem_append.1 h
    obtain ⟨-, hps, hbody⟩ := List.forall_mem_singleton.1 hself
    exact stands_lambda m (fun p hp => (hps p hp).2) (e.stands he) hbody
  | .function m st ps ss, h => exact (h _ (Expr.mem_nodes_self _)).2.elim
  | .object m ps, h =>
    obtain ⟨hparts, hself⟩ := List.forall_mem_append.1 h
    exact stands_object m (standsEntries ps hparts (List.forall_mem_singleton.1 hself).2)

theorem standsAll (es : List (Expr ν)) (h : ∀ n ∈ nodesAll es, n.Fits ∧ n.Plain style) :
    ∀ e ∈ es, Stands style e := by
  match es, h with
  | [], _ => simp
  | e :: es, h =>
    obtain ⟨he, hes⟩ := List.forall_mem_append.1 h
    exact List.forall_mem_cons.2 ⟨e.stands he, standsAll es hes⟩

theorem standsEntries (ps : List (Property ν))
    (h : ∀ n ∈ nodesProperties ps, n.Fits ∧ n.Plain style) (hps : ∀ p ∈ ps, p.Plain) :
    ∀ p ∈ ps, StandsEntry style p := by
  match ps, h, hps with
  | [], _, _ => simp
  | .field s k e :: ps, h, hps =>
    obtain ⟨he, hrest⟩ := List.forall_mem_append.1 h
    exact List.forall_mem_cons.2 ⟨standsEntry_field s k (e.stands he),
      standsEntries ps hrest (List.forall_mem_cons.1 hps).2⟩
  | .shorthand s k e :: ps, h, hps =>
    obtain ⟨-, hrest⟩ := List.forall_mem_append.1 h
    obtain ⟨hname, hps⟩ := List.forall_mem_cons.1 hps
    exact List.forall_mem_cons.2 ⟨standsEntry_shorthand s hname, standsEntries ps hrest hps⟩
  | .computed s k e :: ps, h, hps =>
    obtain ⟨hparts, hrest⟩ := List.forall_mem_append.1 h
    obtain ⟨hk, he⟩ := List.forall_mem_append.1 hparts
    exact List.forall_mem_cons.2 ⟨standsEntry_computed s (k.stands hk) (e.stands he),
      standsEntries ps hrest (List.forall_mem_cons.1 hps).2⟩

end

end Trees

end Aggregation
