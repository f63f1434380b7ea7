import Aggregation.Token.Basic

/-! Operators and how tightly they bind.

Binary operators fall into six levels. Each level takes the next tighter one as its operands and
groups to the left, and the tightest takes prefix operators and what stands below them. -/
namespace Aggregation

inductive BinaryOp
  | strictEq | strictNe | looseEq | looseNe
  | lt | gt | le | ge
  | add | subtract | multiply | divide | modulo
  | and | or
deriving DecidableEq, Repr

namespace BinaryOp

def symbol : BinaryOp → Symbol
  | strictEq => .strictEq
  | strictNe => .strictNe
  | looseEq => .looseEq
  | looseNe => .looseNe
  | lt => .lt
  | gt => .gt
  | le => .le
  | ge => .ge
  | add => .plus
  | subtract => .minus
  | multiply => .star
  | divide => .slash
  | modulo => .percent
  | and => .and
  | or => .or

def text (op : BinaryOp) : String :=
  op.symbol.text

/-- The operators on numbers. -/
def isArithmetic (op : BinaryOp) : Bool :=
  op ∈ [add, subtract, multiply, divide, modulo]

/-- The operators that compare. -/
def isComparison (op : BinaryOp) : Bool :=
  op ∈ [strictEq, strictNe, looseEq, looseNe, lt, gt, le, ge]

end BinaryOp

/-- The operators that stand before their operand. -/
inductive UnaryOp
  | not
  | negate
deriving DecidableEq, Repr

def UnaryOp.symbol : UnaryOp → Symbol
  | .not => .not
  | .negate => .minus

/-- The levels of binary operators, from the loosest to the tightest. -/
inductive Level
  | or | and | equality | relational | additive | multiplicative
deriving DecidableEq, Repr

namespace Level

def operators : Level → List BinaryOp
  | or => [.or]
  | and => [.and]
  | equality => [.strictEq, .strictNe, .looseEq, .looseNe]
  | relational => [.lt, .gt, .le, .ge]
  | additive => [.add, .subtract]
  | multiplicative => [.multiply, .divide, .modulo]

/-- The operator of the level that the token writes. -/
def operator? (l : Level) (t : Token) : Option BinaryOp :=
  l.operators.find? (t == .symbol ·.symbol)

/-- The level of the operands, unless those are prefix expressions. -/
def tighter : Level → Option Level
  | or => some and
  | and => some equality
  | equality => some relational
  | relational => some additive
  | additive => some multiplicative
  | multiplicative => none

/-- The number of levels that bind tighter. -/
def rank : Level → Nat
  | or => 5
  | and => 4
  | equality => 3
  | relational => 2
  | additive => 1
  | multiplicative => 0

theorem rank_tighter {l m : Level} (h : l.tighter = some m) : m.rank < l.rank := by
  cases l <;> simp [tighter] at h <;> subst h <;> decide

theorem rank_le (l : Level) : l.rank ≤ 5 := by
  cases l <;> decide

end Level

end Aggregation
