import Aggregation.Proofs.Lexing
import Aggregation.Proofs.Parts

/-! How tightly the parts of a tree hold together.

The `Tier` of an expression says what may be written around it without parentheses. Operators take
their operands from their own tier or a tighter one and group to the left, what is read from or called
takes a suffix, and a minus sign before a number is part of the constant (`Expr.Fits`). No rule of the
grammar gives a tree that breaks this (`Derives.fits`): each gives expressions of its own tier or of a
tighter one (`Derives.floor_le`). -/
namespace Aggregation

variable {ν μ : Type}

/-! ### Tiers -/

/-- How tightly an expression holds together, from the loosest to the tightest. -/
inductive Tier
  | loose
  | binary (l : Level)
  | unary
  | suffixed
  | primary
deriving DecidableEq, Repr

namespace Tier

/-- The place of a tier among all. -/
def rank : Tier → Nat
  | loose => 0
  | binary l => 6 - l.rank
  | unary => 7
  | suffixed => 8
  | primary => 9

instance : LE Tier := ⟨fun a b => a.rank ≤ b.rank⟩

instance : LT Tier := ⟨fun a b => a.rank < b.rank⟩

instance (a b : Tier) : Decidable (a ≤ b) := inferInstanceAs (Decidable (a.rank ≤ b.rank))

instance (a b : Tier) : Decidable (a < b) := inferInstanceAs (Decidable (a.rank < b.rank))

end Tier

def BinaryOp.level : BinaryOp → Level
  | or => .or
  | and => .and
  | strictEq | strictNe | looseEq | looseNe => .equality
  | lt | gt | le | ge => .relational
  | add | subtract => .additive
  | multiply | divide | modulo => .multiplicative

theorem Level.level_of_operator? {l : Level} {t : Token} {op : BinaryOp}
    (h : l.operator? t = some op) : op.level = l := by
  have hmem := List.mem_of_find?_eq_some h
  cases l <;> simp [operators] at hmem <;> rcases hmem with rfl | rfl | rfl | rfl <;> rfl

/-- Whether the constant is a number with a minus sign. -/
def Literal.isNegative : Literal → Bool
  | .integer n => decide (n < 0)
  | .float x => x.isNegative
  | _ => false

/-- Whether the constant is a number that changes behind a minus sign and has none itself. -/
def Literal.isPositive : Literal → Bool
  | .integer n => decide (0 < n)
  | .float x => !x.isNegative
  | _ => false

namespace Expr

/-- How tightly the expression holds together. -/
def tier : Expr ν → Tier
  | name .. | paren .. | object .. | function _ .word _ _ => .primary
  | literal _ c => if c.isNegative then .unary else .primary
  | property .. | element .. | call .. => .suffixed
  | unary .. => .unary
  | binary _ op _ _ => .binary op.level
  | conditional .. | lambda .. | function _ .arrow _ _ => .loose

/-- Whether the expression is a constant that is a positive number. -/
def isPositive : Expr ν → Bool
  | literal _ c => c.isPositive
  | _ => false

/-- The parts of the node hold together as its operator asks for, and a minus sign before a number
is not an operator. -/
def Fits : Expr ν → Prop
  | property _ e _ | element _ e _ | call _ e _ => .suffixed ≤ e.tier
  | binary _ op a b => .binary op.level ≤ a.tier ∧ .binary op.level < b.tier
  | unary _ op e => .unary ≤ e.tier ∧ (op = .negate → e.isPositive = false)
  | conditional _ c _ _ => .binary .or ≤ c.tier
  | _ => True

theorem tier_relocate (f : ν → μ) (g : Nat → Nat) (e : Expr ν) : (e.relocate f g).tier = e.tier := by
  cases e with
  | function m style ps ss => cases style <;> rfl
  | _ => rfl

theorem isPositive_relocate (f : ν → μ) (g : Nat → Nat) (e : Expr ν) :
    (e.relocate f g).isPositive = e.isPositive := by
  cases e <;> rfl

theorem fits_relocate {f : ν → μ} {g : Nat → Nat} {e : Expr ν} :
    (e.relocate f g).Fits ↔ e.Fits := by
  cases e <;> simp only [relocate, Fits, tier_relocate, isPositive_relocate]

end Expr

/-! ### Numbers that digits denote -/

/-- Whether the token, if it is a number, is one that digits denote: no number with a minus sign, no
NaN, and no integer out of range. -/
def Token.isReadable : Token → Bool
  | .integer n => n < Number.integerBound
  | .float x => !x.isNegative && !x.isNaN
  | _ => true

theorem Token.isReadable_float {x : Binary64} :
    (Token.float x).isReadable = true ↔ x.isNegative = false ∧ x.isNaN = false := by
  simp [isReadable]

namespace Binary64

theorem bits_ofRatio_le (num den : Nat) :
    (ofRatio num den).bits.toNat ≤ infinity.bits.toNat := by
  unfold ofRatio
  split
  · decide
  · simp only
    split
    · next h =>
      simp only [Nat.toUInt64, UInt64.toNat_ofNat']
      exact Nat.le_trans (Nat.mod_le _ _) (Nat.le_of_lt h)
    · exact Nat.le_refl _

theorem bits_ofDecimal_le (m : Nat) (e : Int) :
    (ofDecimal m e).bits.toNat ≤ infinity.bits.toNat := by
  unfold ofDecimal
  simp only
  split
  · decide
  · split
    · exact Nat.le_refl _
    · exact bits_ofRatio_le _ _

/-- The patterns up to that of infinity are those of the numbers without a sign. -/
theorem isReadable_of_le {x : Binary64} (h : x.bits.toNat ≤ infinity.bits.toNat) :
    (Token.float x).isReadable = true := by
  have hinfinity : infinity.bits.toNat = 2047 * 2 ^ 52 := by decide
  refine Token.isReadable_float.2 ⟨?_, ?_⟩
  · rw [isNegative, decide_eq_false_iff_not, Nat.one_shiftLeft]
    omega
  · rw [isNaN, Bool.and_eq_false_iff, exponentField, fractionField, Nat.shiftRight_eq_div_pow,
      Nat.one_shiftLeft]
    simp only [beq_eq_false_iff_ne, bne_eq_false_iff_eq]
    omega

theorem isNegative_eq_testBit (x : Binary64) : x.isNegative = x.bits.toNat.testBit 63 := by
  have hlt := x.bits.toNat_lt
  rw [isNegative, Nat.testBit_eq_decide_div_mod_eq]
  simp only [decide_eq_decide, Nat.one_shiftLeft]
  omega

theorem isNegative_neg (x : Binary64) : (-x).isNegative = !x.isNegative := by
  rw [isNegative_eq_testBit, isNegative_eq_testBit]
  show (x.bits ^^^ 0x8000000000000000).toNat.testBit 63 = _
  rw [UInt64.toNat_xor, Nat.testBit_xor]
  show (_ ^^ true) = _
  rw [Bool.xor_true]

end Binary64

namespace Token

theorem isReadable_of_scanNumber {cs : List Char} {t : Token} (h : (scanNumber cs).result = .ok t) :
    t.isReadable = true := by
  unfold scanNumber at h
  simp only at h
  split at h
  · cases h
  · split at h
    · next t' ht =>
      obtain rfl := Except.ok.inj h
      unfold Number.token? at ht
      split at ht
      · next hdigits =>
        obtain rfl := Option.some.inj ht
        exact (Bool.and_eq_true_iff.1 hdigits).2
      · obtain ⟨x, hx, rfl⟩ := Option.map_eq_some_iff.1 ht
        obtain ⟨e, -, rfl⟩ := Option.map_eq_some_iff.1 hx
        exact Binary64.isReadable_of_le (Binary64.bits_ofDecimal_le _ _)
    · cases h

theorem isReadable_ofWord (w : String) : (ofWord w).isReadable = true := by
  unfold ofWord
  split
  · rfl
  · repeat' split
    all_goals rfl

/-- The lexer reads only numbers that digits denote. -/
theorem isReadable_of_scan {c : Char} {cs : List Char} {t : Token}
    (h : (scan c cs).result = .ok t) : t.isReadable = true := by
  unfold scan at h
  split at h
  · cases h
  · split at h
    · obtain rfl := Except.ok.inj h
      rfl
    · split at h
      · simp only [scanString] at h
        split at h
        · obtain rfl := Except.ok.inj h
          rfl
        · cases h
        · cases h
      · split at h
        · exact isReadable_of_scanNumber h
        · split at h
          · obtain rfl := Except.ok.inj h
            exact isReadable_ofWord _
          · cases h

end Token

/-- The numbers in a text are those that digits denote. -/
theorem Lexes.isReadable {offset : Nat} {cs : List Char} {ts : List Lexeme} (h : Lexes offset cs ts) :
    ∀ x ∈ ts, x.token.isReadable = true := by
  induction h with
  | done => simp
  | token _ hscan _ _ _ ih =>
    exact List.forall_mem_cons.2 ⟨Token.isReadable_of_scan (by rw [hscan]), ih⟩

namespace Grammar

theorem isNegative_of_literal? {t : Token} {c : Literal} (h : literal? t = some c)
    (ht : t.isReadable = true) : c.isNegative = false := by
  cases t <;> simp only [literal?, Option.some.injEq, reduceCtorEq] at h <;> subst h
  · simp [Literal.isNegative]
  · exact (Token.isReadable_float.1 ht).1
  all_goals rfl

theorem isPositive_of_negated? {t : Token} {c : Literal} (h : negated? t = some c)
    (ht : t.isReadable = true) : c.isPositive = false := by
  cases t <;> simp only [negated?, Option.some.injEq, reduceCtorEq] at h <;> subst h
  · simp [Literal.isPositive]
  · simp [Literal.isPositive, Binary64.isNegative_neg, (Token.isReadable_float.1 ht).1]

/-- Only numbers are positive, and behind a minus sign they are constants. -/
theorem isPositive_of_not_negated? {t : Token} {c : Literal} (h : literal? t = some c)
    (ht : negated? t = none) : c.isPositive = false := by
  cases t <;> simp only [literal?, negated?, Option.some.injEq, reduceCtorEq] at h ht <;> subst h <;> rfl

/-! ### What the rules of the grammar give -/

/-- The loosest tier of what the phrase can denote. -/
def Phrase.floor : Phrase → Nat
  | .binary l | .joined l => (Tier.binary l).rank
  | .operand l => (Tier.binary l).rank + 1
  | .unary => Tier.unary.rank
  | .suffixed | .chain => Tier.suffixed.rank
  | .primary => Tier.primary.rank
  | _ => Tier.loose.rank

def Piece.nodes : Piece → List (Expr Unit)
  | .expr e => e.nodes
  | .exprs es => nodesAll es
  | .entry p => nodesProperties [p]
  | .entries ps => nodesProperties ps
  | .statement s => nodesStatements [s]
  | .statements ss => nodesStatements ss

theorem nodesProperties_cons (p : Property ν) (ps : List (Property ν)) :
    nodesProperties (p :: ps) = nodesProperties [p] ++ nodesProperties ps := by
  cases p <;> simp only [nodesProperties, List.append_nil]

theorem nodesStatements_cons (s : Statement ν) (ss : List (Statement ν)) :
    nodesStatements (s :: ss) = nodesStatements [s] ++ nodesStatements ss := by
  match s with
  | .declaration _ _ none | .declaration _ _ (some _) | .result _ none | .result _ (some _)
  | .expression _ _ => simp only [nodesStatements, List.append_nil, List.nil_append]

/-- The expression is denoted by a phrase among the tokens. -/
def Holds (u : List Lexeme) (x : Expr Unit) : Prop :=
  ∃ q w s, w <:+: u ∧ Derives q w (.expr x) s

/-- What stands in front of two pieces is among the tokens. -/
theorem infix_front (u v w : List Lexeme) : u <:+: u ++ v ++ w :=
  ⟨[], v ++ w, by simp⟩

/-- What stands between a token and the rest is among the tokens. -/
theorem infix_between (u : List Lexeme) (x : Lexeme) (w t : List Lexeme) : w <:+: u ++ x :: w ++ t :=
  ⟨u ++ [x], t, by simp⟩

/-- What stands behind a token is among the tokens. -/
theorem infix_behind (u : List Lexeme) (x : Lexeme) (w : List Lexeme) : w <:+: u ++ x :: w :=
  ⟨u ++ [x], [], by simp⟩

theorem Holds.mono {u w : List Lexeme} {xs : List (Expr Unit)} (h : ∀ x ∈ xs, Holds w x)
    (hw : w <:+: u) : ∀ x ∈ xs, Holds u x := by
  intro x hx
  obtain ⟨q, w', s, hinfix, hd⟩ := h x hx
  exact ⟨q, w', s, hinfix.trans hw, hd⟩

namespace Derives

variable {p : Phrase} {u r : List Lexeme} {v : Piece} {e : Expr Unit}

/-- What tokens denote is held by them if its parts are. -/
theorem holds_concat {xs : List (Expr Unit)} (h : Derives p u (.expr e) r)
    (hxs : ∀ x ∈ xs, Holds u x) : ∀ x ∈ xs ++ [e], Holds u x :=
  List.forall_mem_append.2 ⟨hxs, List.forall_mem_singleton.2 ⟨p, u, r, List.infix_rfl, h⟩⟩

/-- Every expression in what a phrase denotes is denoted by a phrase in it. -/
theorem holds (h : Derives p u v r) : ∀ x ∈ v.nodes, Holds u x := by
  induction h with
  | plain _ _ ih | condition _ _ ih | settled _ _ ih | first _ ih | tighter _ _ ih
  | tightest _ _ ih | operand _ ih | suffixed _ _ ih | start _ ih | lastEntry _ ih => exact ih
  | lambda hu hb h ih =>
    exact (lambda hu hb h).holds_concat (Holds.mono ih (infix_behind _ _ _))
  | arrow hu h ih =>
    refine (arrow hu h).holds_concat (Holds.mono ih ?_)
    exact (List.suffix_cons _ _).isInfix.trans (infix_between _ _ _ _)
  | choice hu hv hw ihu ihv ihw =>
    refine (choice hu hv hw).holds_concat
      (List.forall_mem_append.2 ⟨List.forall_mem_append.2 ⟨?_, ?_⟩, ?_⟩)
    · exact Holds.mono ihu (infix_front _ _ _)
    · exact Holds.mono ihv (infix_between _ _ _ _)
    · exact Holds.mono ihw (infix_behind _ _ _)
  | join hx hu hw ihu ihw =>
    refine (join hx hu hw).holds_concat (List.forall_mem_append.2 ⟨?_, ?_⟩)
    · exact Holds.mono ihu (List.prefix_append _ _).isInfix
    · exact Holds.mono ihw (infix_behind _ _ _)
  | not h ih => exact (not h).holds_concat (Holds.mono ih (List.suffix_cons _ _).isInfix)
  | negate hn h ih => exact (negate hn h).holds_concat (Holds.mono ih (List.suffix_cons _ _).isInfix)
  | negative hx hr => exact (negative hx hr).holds_concat (List.forall_mem_nil _)
  | @name n q r => exact (name (n := n) (p := q) (r := r)).holds_concat (List.forall_mem_nil _)
  | @literal _ _ r hx => exact (literal (r := r) hx).holds_concat (List.forall_mem_nil _)
  | property h ih =>
    exact (property h).holds_concat (Holds.mono ih (List.prefix_append _ _).isInfix)
  | element h hi ih ihi =>
    refine (element h hi).holds_concat (List.forall_mem_append.2 ⟨?_, ?_⟩)
    · exact Holds.mono ih (infix_front _ _ _)
    · exact Holds.mono ihi (infix_between _ _ _ _)
  | call h hes ih ihes =>
    refine (call h hes).holds_concat (List.forall_mem_append.2 ⟨?_, ?_⟩)
    · exact Holds.mono ih (infix_front _ _ _)
    · exact Holds.mono ihes (infix_between _ _ _ _)
  | paren h ih => exact (paren h).holds_concat (Holds.mono ih (infix_between [] _ _ _))
  | object h ih => exact (object h).holds_concat (Holds.mono ih (infix_between [] _ _ _))
  | function hk hu hw h ih =>
    exact (function hk hu hw h).holds_concat (Holds.mono ih (infix_between _ _ _ _))
  | noArgument | noEntry | noStatement | declaration | finish => exact List.forall_mem_nil _
  | lastArgument _ ih => exact List.forall_mem_append.2 ⟨ih, List.forall_mem_nil _⟩
  | argument _ _ ih ihs =>
    refine List.forall_mem_append.2 ⟨?_, ?_⟩
    · exact Holds.mono ih (List.prefix_append _ _).isInfix
    · exact Holds.mono ihs (infix_behind _ _ _)
  | entry _ _ ih ihs =>
    rw [Piece.nodes, nodesProperties_cons]
    refine List.forall_mem_append.2 ⟨?_, ?_⟩
    · exact Holds.mono ih (List.prefix_append _ _).isInfix
    · exact Holds.mono ihs (infix_behind _ _ _)
  | @shorthand n q r => exact (name (n := n) (p := q) (r := r)).holds_concat (List.forall_mem_nil _)
  | field _ _ ih =>
    refine List.forall_mem_append.2 ⟨Holds.mono ih ?_, List.forall_mem_nil _⟩
    exact infix_behind [_] _ _
  | computed _ _ ihk ih =>
    refine List.forall_mem_append.2 ⟨List.forall_mem_append.2 ⟨?_, ?_⟩, List.forall_mem_nil _⟩
    · exact Holds.mono ihk (infix_between [] _ _ _)
    · exact Holds.mono ih ((List.suffix_cons _ _).isInfix.trans (infix_behind _ _ _))
  | definition _ _ _ _ ih =>
    refine List.forall_mem_append.2 ⟨Holds.mono ih ?_, List.forall_mem_nil _⟩
    exact infix_between _ _ _ _
  | result _ _ ih =>
    refine List.forall_mem_append.2 ⟨Holds.mono ih ?_, List.forall_mem_nil _⟩
    exact infix_between [] _ _ _
  | evaluation _ _ ih =>
    exact List.forall_mem_append.2
      ⟨Holds.mono ih (List.prefix_append _ _).isInfix, List.forall_mem_nil _⟩
  | statement _ _ ih ihs =>
    rw [Piece.nodes, nodesStatements_cons]
    refine List.forall_mem_append.2 ⟨?_, ?_⟩
    · exact Holds.mono ih (List.prefix_append _ _).isInfix
    · exact Holds.mono ihs (List.suffix_append _ _).isInfix

/-- A phrase denotes expressions of its own tier or of a tighter one. -/
theorem floor_le (h : Derives p u (.expr e) r) (hu : ∀ x ∈ u, x.token.isReadable = true) :
    p.floor ≤ e.tier.rank := by
  generalize hv : Piece.expr e = v at h
  induction h generalizing e with
  | lambda | arrow | plain | choice | condition => exact Nat.zero_le _
  | settled _ _ ih => exact ih hu hv
  | first _ ih => exact Nat.le_of_succ_le (ih hu hv)
  | join hx =>
    cases hv
    rw [Expr.tier, Level.level_of_operator? hx]
    exact Nat.le_refl _
  | @tighter l m _ _ _ hl _ ih =>
    have hfloor : (Phrase.operand l).floor = (Phrase.binary m).floor := by
      cases l <;> cases hl <;> rfl
    rw [hfloor]
    exact ih hu hv
  | @tightest l _ _ _ hl _ ih =>
    have hfloor : (Phrase.operand l).floor = Phrase.unary.floor := by
      cases l <;> first | rfl | cases hl
    rw [hfloor]
    exact ih hu hv
  | not | negate =>
    cases hv
    exact Nat.le_refl _
  | negative =>
    cases hv
    rw [Expr.tier]
    split <;> decide
  | operand _ ih =>
    exact Nat.le_of_succ_le (ih hu hv)
  | suffixed _ _ ih => exact ih hu hv
  | start _ ih => exact Nat.le_of_succ_le (ih hu hv)
  | property | element | call =>
    cases hv
    exact Nat.le_refl _
  | name | paren | object | function =>
    cases hv
    exact Nat.le_refl _
  | literal hx =>
    cases hv
    rw [Expr.tier, isNegative_of_literal? hx (hu _ (List.mem_singleton_self _))]
    exact Nat.le_refl _
  | _ => cases hv

/-- A constant is read from a token, or from a minus sign and a token. -/
theorem literal_cases {m : Mark Unit} {c : Literal} (h : Derives .unary u (.expr (.literal m c)) r) :
    (∃ x, u = [x] ∧ literal? x.token = some c) ∨
      ∃ q x, u = [⟨.symbol .minus, q⟩, x] ∧ negated? x.token = some c := by
  cases h with
  | negative hx => exact .inr ⟨_, _, rfl, hx⟩
  | operand h =>
    cases h with
    | suffixed h =>
      cases h with
      | start h =>
        cases h with
        | literal hx => exact .inl ⟨_, rfl, hx⟩

/-- A minus sign that is an operator does not stand before a number. -/
theorem isPositive_of_negative? (h : Derives .unary u (.expr e) r)
    (hn : negative? (u ++ r) = none) (hu : ∀ x ∈ u, x.token.isReadable = true) :
    e.isPositive = false := by
  match e with
  | .literal m c =>
    have hstop := h.unary_stops
    rcases h.literal_cases with ⟨x, rfl, hx⟩ | ⟨q, x, rfl, hx⟩
    · have hnumber : negated? x.token = none := by
        simpa [hstop] using negative?_eq_none_iff.1 hn
      exact isPositive_of_not_negated? hx hnumber
    · exact isPositive_of_negated? hx (hu x (by simp))
  | .name .. | .paren .. | .property .. | .element .. | .binary .. | .unary .. | .conditional ..
  | .call .. | .lambda .. | .function .. | .object .. => rfl

/-- The parts of what a phrase denotes hold together as its operator asks for. -/
theorem fits (h : Derives p u (.expr e) r) (hu : ∀ x ∈ u, x.token.isReadable = true) : e.Fits := by
  generalize hv : Piece.expr e = v at h
  induction h generalizing e with
  | plain _ _ ih | condition _ _ ih | settled _ _ ih | first _ ih | tighter _ _ ih
  | tightest _ _ ih | operand _ ih | suffixed _ _ ih | start _ ih => exact ih hu hv
  | lambda | arrow | negative | name | literal | paren | object | function =>
    cases hv
    trivial
  | choice hc =>
    cases hv
    simp only [List.forall_mem_append] at hu
    exact hc.floor_le hu.1.1
  | join hx ha hb =>
    cases hv
    simp only [List.forall_mem_append, List.forall_mem_cons] at hu
    rw [Expr.Fits, Level.level_of_operator? hx]
    exact ⟨ha.floor_le hu.1, hb.floor_le hu.2.2⟩
  | not h =>
    cases hv
    exact ⟨h.floor_le (List.forall_mem_cons.1 hu).2, fun hop => by cases hop⟩
  | negate hn h =>
    cases hv
    have hu := (List.forall_mem_cons.1 hu).2
    exact ⟨h.floor_le hu, fun _ => h.isPositive_of_negative? hn hu⟩
  | property h =>
    cases hv
    exact h.floor_le (List.forall_mem_append.1 hu).1
  | element h | call h =>
    cases hv
    simp only [List.forall_mem_append] at hu
    exact h.floor_le hu.1.1
  | _ => cases hv

end Derives

theorem Holds.fits {u : List Lexeme} {x : Expr Unit} (h : Holds u x)
    (hu : ∀ y ∈ u, y.token.isReadable = true) : x.Fits := by
  obtain ⟨q, w, s, hw, h⟩ := h
  exact h.fits fun y hy => hu y (hw.subset hy)

end Grammar

/-! ### What texts are read as -/

theorem parseExpression_eq_ok_iff {source : String} {e : Expr Nat} :
    parseExpression source = .ok e ↔ ∃ ts t, Lexes 0 source.toList ts ∧
      Grammar.wholeExpression ts = .ok t ∧ (t.number.run 0).1 = e := by
  constructor
  · intro h
    obtain ⟨t, hread, rfl⟩ := exists_of_map_eq_ok h
    obtain ⟨ts, hts, hread⟩ := readWith_eq_ok_iff.1 hread
    exact ⟨ts, t, hts, hread, rfl⟩
  · rintro ⟨ts, t, hts, hread, rfl⟩
    rw [parseExpression, readWith_eq_ok_iff.2 ⟨ts, hts, hread⟩]
    rfl

/-- The expression is a node, at any depth, of what the text is read as. -/
inductive NodeOf (source : String) (x : Expr Nat) : Prop
  | expression {e} (h : parseExpression source = .ok e) (hx : x ∈ e.nodes)
  | program {ss} (h : parseProgram source = .ok ss) (hx : x ∈ nodesStatements ss)

/-- A node of a text is denoted by a phrase among the tokens of the text. -/
theorem NodeOf.holds {source : String} {x : Expr Nat} (h : NodeOf source x) :
    ∃ ts, Lexes 0 source.toList ts ∧ Grammar.Holds ts x.unlabelled := by
  cases h with
  | expression h hx =>
    obtain ⟨ts, e, hts, hread, rfl⟩ := parseExpression_eq_ok_iff.1 h
    obtain ⟨u, t, rfl, -, hu⟩ := Grammar.wholeExpression_eq_ok_iff.1 hread
    have hholds := Grammar.Holds.mono hu.holds (List.prefix_append u t).isInfix
    exact ⟨u ++ t, hts, hholds _ (Expr.unlabelled_mem_nodes hx)⟩
  | program h hx =>
    obtain ⟨ss, hread, rfl⟩ := exists_of_map_eq_ok h
    obtain ⟨ts, hts, hread⟩ := readWith_eq_ok_iff.1 hread
    have hblock := Grammar.program_eq_ok_iff.1 hread
    exact ⟨ts, hts, hblock.holds _ (unlabelled_mem_nodesStatements hx)⟩

/-- Whatever a text is read as, the parts of every node in it, at any depth, hold together as the
operator of the node asks for. Operands are of the tier of their operator or tighter, the right one
strictly tighter; what a prefix operator stands before is no bare operation, choice or arrow; what is
read from or called is no bare prefix expression or negative constant either; a condition is no bare
choice or arrow; and no minus sign is an operator before a positive number. -/
theorem fits_of_nodeOf {source : String} {x : Expr Nat} (h : NodeOf source x) : x.Fits := by
  obtain ⟨ts, hts, hx⟩ := h.holds
  exact Expr.fits_relocate.1 (hx.fits hts.isReadable)

/-- Prefix operators, negative constants and choices among operands, in the body of a function. -/
theorem fits_of_nodeOf_function :
    let source :=
      "const f = function (a) \x7b return a ? -1 : -a.b * (1 - 2) - -3 < x[y ? 1 : 2] \x7d;" ++
        " f(\x7b k: !a || - -2 && b, [-0.5]: (x => x)(1).y \x7d)"
    ∃ ss, parseProgram source = .ok ss ∧ (nodesStatements ss).length = 38 ∧
      ∀ x ∈ nodesStatements ss, x.Fits := by
  intro source
  have hcount :
      ((parseProgram source).toOption.map fun ss => (nodesStatements ss).length) = some 38 := by
    decide +kernel
  cases hss : parseProgram source with
  | error e =>
    rw [hss] at hcount
    cases hcount
  | ok ss =>
    rw [hss] at hcount
    exact ⟨ss, rfl, Option.some.inj hcount, fun x hx => fits_of_nodeOf (.program hss hx)⟩

end Aggregation
