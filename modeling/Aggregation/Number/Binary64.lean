/-! Double-precision numbers, given by their bits.

A `Binary64` is the 64-bit pattern of a number in the binary interchange format: a sign bit, eleven
bits of exponent and fifty-two of fraction. Equality is equality of patterns, so the two zeros
differ. `ofDecimal` reads a decimal `m · 10^e` as the nearest such number, a tie going to the even
significand, and everything is done in exact arithmetic on natural numbers. -/
namespace Aggregation

/-- A number of double precision. -/
structure Binary64 where
  bits : UInt64
deriving DecidableEq, Repr

/-- The quotient rounded to the nearest natural number, a tie going to the even one. -/
def roundDiv (n d : Nat) : Nat :=
  let q := n / d
  let r := n % d
  if 2 * r < d then q
  else if d < 2 * r then q + 1
  else q + q % 2

namespace Binary64

/-! ### The fields -/

/-- Whether the sign bit is set. -/
def isNegative (x : Binary64) : Bool :=
  decide (1 <<< 63 ≤ x.bits.toNat)

/-- The biased exponent. -/
def exponentField (x : Binary64) : Nat :=
  (x.bits.toNat >>> 52) % 2048

/-- The bits of the significand that are stored. -/
def fractionField (x : Binary64) : Nat :=
  x.bits.toNat % (1 <<< 52)

/-- Neither infinite nor a NaN. -/
def isFinite (x : Binary64) : Bool :=
  x.exponentField != 2047

/-- Neither finite nor infinite. -/
def isNaN (x : Binary64) : Bool :=
  x.exponentField == 2047 && x.fractionField != 0

/-- The integer `s` of a finite number `± s · 2^q`. -/
def significand (x : Binary64) : Nat :=
  if x.exponentField = 0 then x.fractionField else (1 <<< 52) + x.fractionField

/-- The exponent `q` of a finite number `± s · 2^q`. -/
def exponent (x : Binary64) : Int :=
  if x.exponentField = 0 then -1074 else (x.exponentField : Int) - 1075

def neg (x : Binary64) : Binary64 :=
  ⟨x.bits ^^^ 0x8000000000000000⟩

instance : Neg Binary64 := ⟨neg⟩

/-- Changing the sign twice changes nothing. -/
theorem neg_neg (x : Binary64) : - -x = x := by
  show neg (neg x) = x
  simp only [neg, UInt64.xor_assoc, UInt64.xor_self, UInt64.xor_zero]

/-! ### Reading decimals -/

def zero : Binary64 := ⟨0⟩

def infinity : Binary64 := ⟨0x7FF0000000000000⟩

/-- The exponent that brings `num / den` to a significand of 53 bits, or the least exponent there is
if the number is too small for that. -/
def scale (num den : Nat) : Int :=
  let l : Int := (num.log2 : Int) - den.log2
  let reaches := den <<< l.toNat ≤ num <<< (-l).toNat
  max (if reaches then l - 52 else l - 53) (-1074)

/-- The number nearest to `num / den`. A significand that is rounded up to 54 bits carries into the
exponent, and past the largest finite number the result is infinite. -/
def ofRatio (num den : Nat) : Binary64 :=
  if num = 0 then zero
  else
    let q := scale num den
    let s := roundDiv (num <<< (-q).toNat) (den <<< q.toNat)
    let pattern := ((q + 1074).toNat <<< 52) + s
    if pattern < infinity.bits.toNat then ⟨pattern.toUInt64⟩ else infinity

/-- The number nearest to `m · 10^e`. An exponent far out of range is settled by the count of digits,
so that no huge power is computed for it. -/
def ofDecimal (m : Nat) (e : Int) : Binary64 :=
  let magnitude : Int := (Nat.toDigits 10 m).length + e
  if m = 0 || magnitude < -330 then zero
  else if 310 < magnitude then infinity
  else ofRatio (m * Nat.pow 10 e.toNat) (Nat.pow 10 (-e).toNat)

example : ofDecimal 1 0 = ⟨0x3FF0000000000000⟩ := by decide +kernel

example : ofDecimal 1 (-1) = ⟨0x3FB999999999999A⟩ := by decide +kernel

example : ofDecimal 5 (-324) = ⟨1⟩ := by decide +kernel

example : ofDecimal 17976931348623159 292 = infinity := by decide +kernel

end Binary64

end Aggregation
