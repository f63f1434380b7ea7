import Aggregation.Number.Binary64

/-! Decimal text of numbers of double precision.

`shortest` finds the decimal with the fewest digits that reads back as a given number, and among
those the nearest to it. It looks at decimal grids from coarse to fine: on each grid it tests the two
neighbours of the number, and the first grid with a neighbour inside the interval of reals that round
to the number decides. Where two neighbours are equally near, a `Layout` says which one is taken, and
it also says how the digits are set out. -/
namespace Aggregation

/-- The decimal `digits · 10^exponent`. -/
structure Decimal where
  digits : Nat
  exponent : Int
deriving DecidableEq, Repr

/-- Which of two equally near decimals is taken. -/
inductive Tie
  | up
  | even
deriving DecidableEq, Repr

namespace Decimal

/-- The reals that round to `s · 2^q`, in quarters of a unit in the last place: the number itself is
`4 · s`, and the reals from `low` to `high` round to it, the ends included where `closed`. -/
structure Interval where
  low : Nat
  high : Nat
  closed : Bool

/-- Below a power of two the numbers lie twice as close, except among the smallest. The ends belong
to the even significand. -/
def interval (s : Nat) (q : Int) : Interval where
  low := if s = 1 <<< 52 ∧ -1074 < q then 4 * s - 1 else 4 * s - 2
  high := 4 * s + 2
  closed := s % 2 == 0

/-- The multiple of `10^g` that is taken for `s · 2^q`, if one of its two neighbours on that grid
rounds to it. -/
def onGrid (tie : Tie) (s : Nat) (q g : Int) : Option Nat :=
  -- Both sides are scaled by the denominators of `2^(q-2)` and of `10^g`.
  let unit := Nat.pow 10 (-g).toNat <<< (q - 2).toNat
  let step := Nat.pow 10 g.toNat <<< (2 - q).toNat
  let i := interval s q
  let value := 4 * s * unit
  let below := value / step
  let rest := value % step
  let hit (c : Nat) : Bool :=
    if i.closed then decide (i.low * unit ≤ c * step ∧ c * step ≤ i.high * unit)
    else decide (i.low * unit < c * step ∧ c * step < i.high * unit)
  match hit below, hit (below + 1) with
  | false, false => none
  | true, false => some below
  | false, true => some (below + 1)
  | true, true =>
    if 2 * rest < step then some below
    else if step < 2 * rest then some (below + 1)
    else match tie with
      | .up => some (below + 1)
      | .even => some (below + below % 2)

/-- The first of `n` grids from `10^g` downwards that has a decimal for `s · 2^q`. -/
def search (tie : Tie) (s : Nat) (q : Int) : Nat → Int → Decimal
  | 0, g => ⟨0, g⟩
  | n + 1, g =>
    match onGrid tie s q g with
    | some c => ⟨c, g⟩
    | none => search tie s q n (g - 1)

/-- The shortest decimal that reads back as the positive number `s · 2^q`. The search starts above
the leading digit, whose place is estimated from the binary length, and seventeen digits always
suffice. -/
def shortest (tie : Tie) (s : Nat) (q : Int) : Decimal :=
  search tie s q 22 (((s.log2 : Int) + q) * 30103 / 100000 + 2)

end Decimal

/-! ### Setting out the digits -/

/-- How a number is written: which exponents of the leading digit are written positionally, whether
a whole number shows a fraction, and where ties go. -/
structure Layout where
  least : Option Int
  most : Option Int
  fraction : Bool
  tie : Tie

namespace Layout

/-- Whether a leading digit at `10^e` is written positionally. -/
def positional (l : Layout) (e : Int) : Bool :=
  l.least.all (decide <| · ≤ e) && l.most.all (decide <| e ≤ ·)

/-- Digits without an exponent; the point stands behind the first `n` of them. -/
def fixed (l : Layout) (ds : List Char) (n : Int) : List Char :=
  if n ≤ 0 then '0' :: '.' :: (List.replicate (-n).toNat '0' ++ ds)
  else
    let whole := ds.take n.toNat ++ List.replicate (n.toNat - ds.length) '0'
    match ds.drop n.toNat with
    | [] => if l.fraction then whole ++ ['.', '0'] else whole
    | part => whole ++ '.' :: part

/-- The leading digit, the others as a fraction, and the signed exponent `e` of the leading one. -/
def scientific (ds : List Char) (e : Int) : List Char :=
  let mantissa := match ds with
    | [] => []
    | [d] => [d]
    | d :: part => d :: '.' :: part
  mantissa ++ 'e' :: (if e < 0 then '-' else '+') :: Nat.toDigits 10 e.natAbs

/-- The text of a positive decimal. -/
def decimal (l : Layout) (d : Decimal) : List Char :=
  let ds := Nat.toDigits 10 d.digits
  let e := d.exponent + ds.length - 1
  if l.positional e then l.fixed ds (e + 1) else scientific ds e

/-- The text of a number. -/
def number (l : Layout) (x : Binary64) : String :=
  let sign := if x.isNegative then ['-'] else []
  let magnitude :=
    if x.isNaN then "NaN".toList
    else if !x.isFinite then "inf".toList
    else if x.significand = 0 then l.fixed ['0'] 1
    else l.decimal (Decimal.shortest l.tie x.significand x.exponent)
  String.ofList (if x.isNaN then magnitude else sign ++ magnitude)

end Layout

end Aggregation
