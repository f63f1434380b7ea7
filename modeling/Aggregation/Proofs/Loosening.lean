import Aggregation.Proofs.Precedence

/-! Tight expressions where looser ones may stand.

The phrases for expressions of a tier or of a tighter one form a ladder (`Phrase.ofRank`). A phrase
climbs it step by step as long as the token behind it does not go on with the phrase
(`Derives.loosen`). How far a token lets a phrase climb is its `Token.reach`. -/
namespace Aggregation

/-- The rank below which a phrase goes on if the token follows it: that of what the token takes to
its left, and one more. -/
def Token.reach : Token → Nat
  | .symbol .dot | .symbol .leftBracket | .symbol .leftParen => Tier.suffixed.rank + 1
  | .symbol .star | .symbol .slash | .symbol .percent => (Tier.binary .multiplicative).rank + 1
  | .symbol .plus | .symbol .minus => (Tier.binary .additive).rank + 1
  | .symbol .lt | .symbol .gt | .symbol .le | .symbol .ge => (Tier.binary .relational).rank + 1
  | .symbol .strictEq | .symbol .strictNe | .symbol .looseEq | .symbol .looseNe =>
    (Tier.binary .equality).rank + 1
  | .symbol .and => (Tier.binary .and).rank + 1
  | .symbol .or => (Tier.binary .or).rank + 1
  | .symbol .question | .symbol .arrow => Tier.loose.rank + 1
  | _ => 0

namespace Grammar

/-- The tokens do not go on with a phrase for expressions of a rank. -/
def Stops (k : Nat) (r : List Lexeme) : Prop :=
  ∀ x ∈ r.head?, x.token.reach ≤ k

/-- The phrase for expressions of a tier of the rank, or of a tighter one. -/
def Phrase.ofRank : Nat → Phrase
  | 0 => .expression
  | 1 => .binary .or
  | 2 => .binary .and
  | 3 => .binary .equality
  | 4 => .binary .relational
  | 5 => .binary .additive
  | 6 => .binary .multiplicative
  | 7 => .unary
  | 8 => .suffixed
  | _ => .primary

theorem Phrase.ofRank_binary (l : Level) : ofRank (Tier.binary l).rank = .binary l := by
  cases l <;> rfl

namespace Stops

variable {k : Nat} {r : List Lexeme}

theorem nil (k : Nat) : Stops k [] := by
  intro x hx
  cases hx

theorem cons {x : Lexeme} (h : x.token.reach ≤ k) (r : List Lexeme) : Stops k (x :: r) := by
  intro y hy
  obtain rfl := Option.some.inj hy
  exact h

theorem mono {k' : Nat} (h : Stops k r) (hk : k ≤ k') : Stops k' r :=
  fun x hx => Nat.le_trans (h x hx) hk

/-- The tokens do not begin with a symbol of a longer reach. -/
theorem startsWith (h : Stops k r) {s : Symbol} (hs : k < (Token.symbol s).reach) :
    startsWith s r = false := by
  refine Bool.eq_false_iff.2 fun hstart => ?_
  obtain ⟨p, r, rfl⟩ := startsWith_iff.1 hstart
  exact Nat.not_lt.2 (h _ rfl) hs

theorem startsSuffix (h : Stops k r) (hk : k ≤ Tier.suffixed.rank) : startsSuffix r = false := by
  have hsymbol : ∀ s, (Token.symbol s).reach = Tier.suffixed.rank + 1 →
      Aggregation.startsWith s r = false := fun s hs => h.startsWith (by omega)
  rw [Grammar.startsSuffix, hsymbol .dot rfl, hsymbol .leftBracket rfl, hsymbol .leftParen rfl]
  rfl

theorem reach_symbol (op : BinaryOp) :
    (Token.symbol op.symbol).reach = (Tier.binary op.level).rank + 1 := by
  cases op <;> rfl

theorem startsOperator (h : Stops k r) {l : Level} (hk : k ≤ (Tier.binary l).rank) :
    startsOperator l r = false := by
  match r with
  | [] => rfl
  | x :: r =>
    refine Bool.eq_false_iff.2 fun hx => ?_
    obtain ⟨op, hop⟩ := Option.isSome_iff_exists.1 (hx : (l.operator? x.token).isSome = true)
    have htoken : x.token = .symbol op.symbol := by simpa using List.find?_some hop
    have hreach := h x rfl
    rw [htoken, reach_symbol, Level.level_of_operator? hop] at hreach
    omega

end Stops

namespace Derives

variable {p : Phrase} {u r : List Lexeme} {e : Expr Unit}

theorem atArrow_of_literal? {x : Lexeme} {c : Literal} (h : literal? x.token = some c) :
    atArrow (x :: r) = false := by
  obtain ⟨t, q⟩ := x
  cases t <;> first | rfl | cases h

/-- A phrase that is no arrow function does not look like one, if no arrow follows it. -/
theorem atArrow_eq_false (h : Derives p u (.expr e) r) (hp : p ≠ .expression)
    (hr : startsWith .arrow r = false) : atArrow (u ++ r) = false := by
  generalize hv : Piece.expr e = v at h
  induction h generalizing e with
  | lambda | arrow | plain => exact absurd rfl hp
  | condition _ _ ih | settled _ _ ih | first _ ih | tighter _ _ ih | tightest _ _ ih | operand _ ih
  | suffixed _ _ ih | start _ ih => exact ih (by simp) hr hv
  -- What follows the first part of these is no arrow.
  | choice _ _ _ ih | property _ ih | element _ _ ih | call _ _ ih =>
    simpa using ih (by simp) rfl rfl
  | @join l _ _ x op w _ r hx _ _ ih =>
    have htoken : x.token = .symbol op.symbol := by simpa using List.find?_some hx
    have harrow : startsWith .arrow (x :: w ++ r) = false := by
      rw [List.cons_append, startsWith_cons, htoken]
      cases op <;> rfl
    simpa using ih (by simp) harrow rfl
  | name => exact hr
  | literal hx => exact atArrow_of_literal? hx
  | @paren _ u _ q r hu =>
    rw [List.append_assoc]
    exact (hu.balanced.arrowAfter_close (y := ⟨.symbol .rightParen, q⟩) rfl r).trans hr
  | not | negate | negative | object | function => rfl
  | _ => cases hv

/-- An operand of a level is of the next rank. -/
theorem operand_of_ofRank {l : Level}
    (h : Derives (.ofRank ((Tier.binary l).rank + 1)) u (.expr e) r) :
    Derives (.operand l) u (.expr e) r := by
  cases l with
  | multiplicative => exact .tightest rfl h
  | or | and | equality | relational | additive => exact .tighter rfl h

theorem ofRank_of_operand {l : Level} (h : Derives (.operand l) u (.expr e) r) :
    Derives (.ofRank ((Tier.binary l).rank + 1)) u (.expr e) r := by
  cases h with
  | tighter hl h => cases l <;> cases hl <;> exact h
  | tightest hl h => cases l <;> first | exact h | cases hl

/-- A phrase is one of the next looser rank, unless the token behind it is one to go on with. -/
theorem loosen_step {k : Nat} (h : Derives (.ofRank (k + 1)) u (.expr e) r) (hr : Stops k r) :
    Derives (.ofRank k) u (.expr e) r := by
  have hbinary (l : Level) (h : Derives (.ofRank ((Tier.binary l).rank + 1)) u (.expr e) r)
      (hr : Stops (Tier.binary l).rank r) : Derives (.binary l) u (.expr e) r :=
    .settled (.first h.operand_of_ofRank) (hr.startsOperator (Nat.le_refl _))
  match k with
  | 0 =>
    have harrow := h.atArrow_eq_false (by simp [Phrase.ofRank]) (hr.startsWith (by decide))
    exact .plain harrow (.condition h (hr.startsWith (by decide)))
  | 1 => exact hbinary .or h hr
  | 2 => exact hbinary .and h hr
  | 3 => exact hbinary .equality h hr
  | 4 => exact hbinary .relational h hr
  | 5 => exact hbinary .additive h hr
  | 6 => exact hbinary .multiplicative h hr
  | 7 => exact .operand h
  | 8 => exact .suffixed (.start h) (hr.startsSuffix (Nat.le_refl _))
  | k + 9 => exact h

/-- A phrase is one of every looser rank that the token behind it is not one to go on with. -/
theorem loosen {j k : Nat} (h : Derives (.ofRank j) u (.expr e) r) (hk : k ≤ j) (hr : Stops k r) :
    Derives (.ofRank k) u (.expr e) r := by
  induction hk with
  | refl => exact h
  | step hk ih => exact ih (h.loosen_step (hr.mono hk))

end Derives

/-- The phrase of just the expressions of a tier, which may still go on. -/
def Phrase.ofTier : Tier → Phrase
  | .loose => .expression
  | .binary l => .joined l
  | .unary => .unary
  | .suffixed => .chain
  | .primary => .primary

namespace Derives

variable {p : Phrase} {u r : List Lexeme} {e : Expr Unit}

/-- An expression of a tier is a phrase of every rank up to it that nothing goes on with. -/
theorem settle {t : Tier} {k : Nat} (h : Derives (.ofTier t) u (.expr e) r) (hk : k ≤ t.rank)
    (hr : Stops k r) : Derives (.ofRank k) u (.expr e) r := by
  refine loosen (j := t.rank) ?_ hk hr
  have hr := hr.mono hk
  cases t with
  | loose | unary | primary => exact h
  | binary l =>
    rw [Phrase.ofRank_binary]
    exact .settled h (hr.startsOperator (Nat.le_refl _))
  | suffixed => exact .suffixed h (hr.startsSuffix (Nat.le_refl _))

/-- What a phrase denotes is the expression that its tokens are by themselves. -/
theorem isolate (h : Derives p u (.expr e) r) : Derives .expression u (.expr e) [] := by
  have h := h.follows (.nil r)
  have hnil (k : Nat) := Stops.nil k
  cases p with
  | expression => exact h
  | conditional => exact .plain (h.atArrow_eq_false (by simp) rfl) h
  | binary l =>
    rw [← Phrase.ofRank_binary] at h
    exact h.loosen (Nat.zero_le _) (hnil 0)
  | joined l => exact h.settle (t := .binary l) (Nat.zero_le _) (hnil 0)
  | operand l => exact h.ofRank_of_operand.loosen (Nat.zero_le _) (hnil 0)
  | unary => exact h.settle (t := .unary) (Nat.zero_le _) (hnil 0)
  | suffixed => exact h.loosen (j := 8) (Nat.zero_le _) (hnil 0)
  | chain => exact h.settle (t := .suffixed) (Nat.zero_le _) (hnil 0)
  | primary => exact h.settle (t := .primary) (Nat.zero_le _) (hnil 0)
  | arguments | properties | property | statement | block => nomatch h

end Derives

end Grammar

end Aggregation
