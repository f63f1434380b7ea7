import Aggregation.Proofs.Truncation
import Mathlib.Tactic.NormNum
import Mathlib.Tactic.Ring

/-! Numbers read back as what they were written for.

A natural number is written in decimal digits. A finite number of double precision is `s · 2^q`, and
since `2^-k = 5^k · 10^-k` it is also a whole number times a power of ten, which can be written out
digit by digit (`Binary64.numeral`). Reading rounds to the nearest number of double precision; what is
exactly one comes back unrounded (`Binary64.ofDecimal_mantissa`). -/
namespace Aggregation

/-! ### Rounding what needs none -/

theorem roundDiv_mul (s : Nat) {d : Nat} (hd : 0 < d) : roundDiv (s * d) d = s := by
  unfold roundDiv
  simp only [Nat.mul_mod_left, Nat.mul_zero, hd, if_true]
  exact Nat.mul_div_cancel s hd

theorem log2_mul_two_pow {n : Nat} (hn : n ≠ 0) (j : Nat) : (n * 2 ^ j).log2 = n.log2 + j := by
  have hpos : 0 < 2 ^ j := Nat.two_pow_pos j
  rw [Nat.log2_eq_iff (Nat.mul_ne_zero hn hpos.ne'), Nat.pow_add, Nat.add_right_comm, Nat.pow_add]
  exact ⟨Nat.mul_le_mul_right _ (Nat.log2_self_le hn),
    Nat.mul_lt_mul_of_pos_right Nat.lt_log2_self hpos⟩

/-- The logarithm of a product is the sum of those of its factors, or one more. -/
theorem log2_mul_cases {m n : Nat} (hm : m ≠ 0) (hn : n ≠ 0) :
    m.log2 + n.log2 ≤ (m * n).log2 ∧ (m * n).log2 ≤ m.log2 + n.log2 + 1 := by
  have hmn : m * n ≠ 0 := Nat.mul_ne_zero hm hn
  constructor
  · rw [Nat.le_log2 hmn, Nat.pow_add]
    exact Nat.mul_le_mul (Nat.log2_self_le hm) (Nat.log2_self_le hn)
  · have hlt : m * n < 2 ^ (m.log2 + 1) * 2 ^ (n.log2 + 1) :=
      Nat.mul_lt_mul'' Nat.lt_log2_self Nat.lt_log2_self
    rw [← Nat.pow_add, ← Nat.log2_lt hmn] at hlt
    omega

theorem lt_of_five_pow_lt {k len c : Nat} (h : 5 ^ k < 10 ^ len) (hk : 2 ^ k ≤ 10 ^ c) :
    k < len + c := by
  rw [← Nat.pow_lt_pow_iff_right (a := 10) (by decide)]
  calc 10 ^ k = 5 ^ k * 2 ^ k := Nat.mul_pow 5 2 k
    _ < 10 ^ len * 10 ^ c := Nat.mul_lt_mul_of_lt_of_le h hk (Nat.pow_pos (by decide))
    _ = 10 ^ (len + c) := (Nat.pow_add ..).symm

theorem mul_pow_lt {s j a b : Nat} (hs : s < 10 ^ a) (hj : 2 ^ j ≤ 10 ^ b) (k : Nat) :
    s * 5 ^ k * 2 ^ j < 10 ^ (k + (a + b)) := by
  calc s * 5 ^ k * 2 ^ j = s * 2 ^ j * 5 ^ k := Nat.mul_right_comm ..
    _ < 10 ^ a * 10 ^ b * 10 ^ k := by
        refine Nat.mul_lt_mul_of_lt_of_le ?_ (Nat.pow_le_pow_left (by decide) k)
          (Nat.pow_pos (by decide))
        exact Nat.mul_lt_mul_of_lt_of_le hs hj (Nat.pow_pos (by decide))
    _ = 10 ^ (k + (a + b)) := by rw [Nat.pow_add, Nat.pow_add, Nat.mul_comm]

namespace Binary64

/-- The quotient of `s · p · 2^j` and `p · 2^k` is brought to 53 bits as `s · 2^(j - k)` is, whatever
the common factor is. -/
theorem scale_eq {s p : Nat} (hs : s ≠ 0) (hp : p ≠ 0) (j k : Nat) :
    scale (s * p * 2 ^ j) (p * 2 ^ k) = max ((s.log2 : Int) + j - k - 52) (-1074) := by
  have hsp : s * p ≠ 0 := Nat.mul_ne_zero hs hp
  obtain ⟨hlow, hhigh⟩ := log2_mul_cases hs hp
  unfold scale
  simp only [log2_mul_two_pow hsp, log2_mul_two_pow hp, Nat.shiftLeft_eq]
  generalize hl : (((s * p).log2 + j : Nat) : Int) - ((p.log2 + k : Nat) : Int) = l
  obtain ⟨d, hd⟩ : ∃ d, (s * p).log2 = p.log2 + d := Nat.exists_eq_add_of_le (by omega)
  have hreaches : p * 2 ^ k * 2 ^ l.toNat ≤ s * p * 2 ^ j * 2 ^ (-l).toNat ↔ d ≤ s.log2 := by
    have hexp : k + l.toNat = d + (j + (-l).toNat) := by omega
    rw [Nat.mul_assoc p, ← Nat.pow_add, hexp, Nat.pow_add, Nat.mul_left_comm, Nat.mul_assoc (s * p),
      ← Nat.pow_add, Nat.mul_assoc s, Nat.mul_le_mul_right_iff, Nat.le_log2 hs]
    exact Nat.mul_pos (Nat.pos_of_ne_zero hp) (Nat.two_pow_pos _)
  simp only [hreaches]
  split <;> omega

section Finite

variable {x : Binary64}

theorem bits_eq (hneg : x.isNegative = false) :
    x.bits.toNat = x.exponentField * 2 ^ 52 + x.fractionField := by
  have hlt : ¬ 2 ^ 63 ≤ x.bits.toNat := of_decide_eq_false hneg
  unfold exponentField fractionField
  rw [Nat.shiftRight_eq_div_pow, Nat.shiftLeft_eq]
  omega

/-- The bits of a number are its significand, with the exponent on top. -/
theorem pattern_eq (hneg : x.isNegative = false) :
    (x.exponent + 1074).toNat * 2 ^ 52 + x.significand = x.bits.toNat := by
  rw [bits_eq hneg, exponent, significand, Nat.shiftLeft_eq]
  split <;> omega

theorem significand_lt (x : Binary64) : x.significand < 2 ^ 53 := by
  have hfraction : x.fractionField < 1 <<< 52 := Nat.mod_lt _ (by decide)
  unfold significand
  rw [Nat.shiftLeft_eq] at *
  split <;> omega

/-- The exponent of a number brings it to 53 bits, or is the least that there is. -/
theorem exponent_eq (hs : x.significand ≠ 0) :
    max ((x.significand.log2 : Int) + x.exponent - 52) (-1074) = x.exponent := by
  have hfraction : x.fractionField < 2 ^ 52 := Nat.mod_lt _ (by decide)
  have hlt := significand_lt x
  rw [← Nat.log2_lt hs] at hlt
  have hlog (h : x.exponentField ≠ 0) : 52 ≤ x.significand.log2 := by
    rw [Nat.le_log2 hs, significand, if_neg h, Nat.shiftLeft_eq]
    omega
  have hlog' (h : x.exponentField = 0) : x.significand.log2 < 52 := by
    rw [Nat.log2_lt hs, significand, if_pos h]
    exact hfraction
  unfold exponent
  split
  · next hfield =>
    have hsmall := hlog' hfield
    omega
  · next hfield =>
    have hlarge := hlog hfield
    omega

theorem exponent_le (x : Binary64) : x.exponent ≤ 972 := by
  have hfield : x.exponentField < 2048 := Nat.mod_lt _ (by decide)
  unfold exponent
  split <;> omega

theorem neg_le_exponent (x : Binary64) : -1074 ≤ x.exponent := by
  unfold exponent
  split <;> omega

theorem bits_le_infinity (hneg : x.isNegative = false) (hnan : x.isNaN = false) :
    x.bits.toNat ≤ infinity.bits.toNat := by
  have hfield : x.exponentField < 2048 := Nat.mod_lt _ (by decide)
  have hfraction : x.fractionField < 2 ^ 52 := Nat.mod_lt _ (by decide)
  have hzero : x.exponentField = 2047 → x.fractionField = 0 := by simpa [isNaN] using hnan
  have hinfinity : infinity.bits.toNat = 2047 * 2 ^ 52 := by decide
  rw [bits_eq hneg, hinfinity]
  omega

/-- A quotient that is exactly a number of double precision is read as that number. Infinity counts as
the power of two behind the largest finite number. -/
theorem ofRatio_eq (hneg : x.isNegative = false) (hnan : x.isNaN = false)
    (hs : x.significand ≠ 0) {p : Nat} (hp : p ≠ 0) {j k : Nat} (hq : (j : Int) - k = x.exponent) :
    ofRatio (x.significand * p * 2 ^ j) (p * 2 ^ k) = x := by
  have hscale : scale (x.significand * p * 2 ^ j) (p * 2 ^ k) = x.exponent := by
    rw [scale_eq hs hp, Int.add_sub_assoc, hq, exponent_eq hs]
  have hnum : x.significand * p * 2 ^ j ≠ 0 :=
    Nat.mul_ne_zero (Nat.mul_ne_zero hs hp) (Nat.two_pow_pos j).ne'
  have hround : roundDiv (x.significand * p * 2 ^ j * 2 ^ (-x.exponent).toNat)
      (p * 2 ^ k * 2 ^ x.exponent.toNat) = x.significand := by
    have hexp : j + (-x.exponent).toNat = k + x.exponent.toNat := by omega
    rw [Nat.mul_assoc (x.significand * p), Nat.mul_assoc p, ← Nat.pow_add, ← Nat.pow_add, hexp,
      Nat.mul_assoc]
    exact roundDiv_mul _ (Nat.mul_pos (Nat.pos_of_ne_zero hp) (Nat.two_pow_pos _))
  unfold ofRatio
  simp only [hscale, hnum, Nat.shiftLeft_eq, hround, pattern_eq hneg, if_false]
  split
  · exact congrArg Binary64.mk UInt64.ofNat_toNat
  · next hlt =>
    have hbits := Nat.le_antisymm (bits_le_infinity hneg hnan) (Nat.not_lt.1 hlt)
    exact congrArg Binary64.mk (UInt64.toNat_inj.1 hbits).symm

/-- The whole number that a number without its sign is, but for a power of ten. -/
def mantissa (x : Binary64) : Nat :=
  x.significand * 5 ^ (-x.exponent).toNat * 2 ^ x.exponent.toNat

/-- A number that is written out is not so small that it counts as zero. -/
theorem le_length_mantissa (hs : x.significand ≠ 0) :
    (-x.exponent).toNat ≤ (Nat.toDigits 10 x.mantissa).length + 330 := by
  have hk : (-x.exponent).toNat ≤ 1074 := by
    have hexponent := neg_le_exponent x
    omega
  have htwo : 2 ^ (-x.exponent).toNat ≤ 10 ^ 331 :=
    Nat.le_trans (Nat.pow_le_pow_right (by decide) hk) (by decide +kernel)
  generalize hlength : (Nat.toDigits 10 x.mantissa).length = len
  have hlt : x.mantissa < 10 ^ len := by
    rw [← Nat.length_toDigits_le_iff (by decide) (hlength ▸ Nat.length_toDigits_pos), hlength]
  have hle : 5 ^ (-x.exponent).toNat ≤ x.mantissa := by
    rw [mantissa, Nat.mul_right_comm]
    exact Nat.le_mul_of_pos_left _ (Nat.mul_pos (Nat.pos_of_ne_zero hs) (Nat.two_pow_pos _))
  exact Nat.le_of_lt_succ (lt_of_five_pow_lt (Nat.lt_of_le_of_lt hle hlt) htwo)

/-- A number that is written out is not so large that it is not looked at. -/
theorem length_mantissa_le (x : Binary64) :
    (Nat.toDigits 10 x.mantissa).length ≤ (-x.exponent).toNat + 310 := by
  have hj : x.exponent.toNat ≤ 972 := by
    have hexponent := exponent_le x
    omega
  have htwo : 2 ^ x.exponent.toNat ≤ 10 ^ 293 :=
    Nat.le_trans (Nat.pow_le_pow_right (by decide) hj) (by decide +kernel)
  have hsignificand : x.significand < 10 ^ 17 :=
    Nat.lt_trans (significand_lt x) (by decide)
  rw [Nat.length_toDigits_le_iff (by decide) (by omega)]
  exact mul_pow_lt hsignificand htwo _

/-- A number comes back from its exact decimal. -/
theorem ofDecimal_mantissa (hneg : x.isNegative = false) (hnan : x.isNaN = false) :
    ofDecimal x.mantissa (-((-x.exponent).toNat : Int)) = x := by
  unfold ofDecimal
  by_cases hs : x.significand = 0
  · have hzero : x.mantissa = 0 := by rw [mantissa, hs, Nat.zero_mul, Nat.zero_mul]
    have hbits : x.bits.toNat = 0 := by
      have hpattern := pattern_eq hneg
      have hfield : x.exponentField = 0 := by
        by_contra hfield
        rw [significand, if_neg hfield] at hs
        omega
      rw [exponent, if_pos hfield, hs] at hpattern
      exact hpattern.symm
    simp only [hzero, decide_true, Bool.true_or, if_true]
    exact congrArg Binary64.mk (UInt64.toNat_inj.1 hbits).symm
  · have hmantissa : x.mantissa ≠ 0 := by
      rw [mantissa]
      exact Nat.mul_ne_zero (Nat.mul_ne_zero hs (by positivity)) (by positivity)
    have hlow := le_length_mantissa hs
    have hhigh := length_mantissa_le x
    have hsmall :
        ¬ ((Nat.toDigits 10 x.mantissa).length : Int) + -((-x.exponent).toNat : Int) < -330 := by
      omega
    have hlarge :
        ¬ 310 < ((Nat.toDigits 10 x.mantissa).length : Int) + -((-x.exponent).toNat : Int) := by
      omega
    have hden : Nat.pow 10 (-x.exponent).toNat = 5 ^ (-x.exponent).toNat * 2 ^ (-x.exponent).toNat :=
      Nat.mul_pow 5 2 _
    have hratio := ofRatio_eq hneg hnan hs (p := 5 ^ (-x.exponent).toNat) (by positivity)
      (j := x.exponent.toNat) (k := (-x.exponent).toNat) (by omega)
    simp only [hmantissa, hsmall, hlarge, decide_false, Bool.or_self, if_false, Int.neg_neg,
      Int.toNat_natCast, Int.toNat_neg_natCast, hden, Bool.false_eq_true]
    rw [show Nat.pow 10 0 = 1 from rfl, Nat.mul_one]
    exact hratio

end Finite

end Binary64

/-! ### Numerals -/

namespace Number

theorem ofDigits_toDigits (n : Nat) : ofDigits (Nat.toDigits 10 n) = n := by
  rw [ofDigits, ← Nat.ofDigitChars_eq_foldl, Nat.ofDigitChars_ten_toDigits]

theorem isDigit_toDigits (n : Nat) : ∀ d ∈ Nat.toDigits 10 n, d.isDigit = true :=
  fun _ hd => Nat.isDigit_of_mem_toDigits (by decide) (by decide) hd

/-- Digits are taken whole. -/
theorem run_digits (whole : Bool) {ds : List Char} (h : ∀ d ∈ ds, d.isDigit = true)
    (cs : List Char) : run whole (ds ++ cs) = (run whole cs).push ds := by
  induction ds with
  | nil => rfl
  | cons d ds ih =>
    obtain ⟨hd, hds⟩ := List.forall_mem_cons.1 h
    rw [List.cons_append, run.eq_def]
    simp only [hd, if_true, ih hds]
    rfl

theorem token?_toDigits {n : Nat} (h : n < integerBound) :
    token? (Nat.toDigits 10 n) = some (.integer n) := by
  rw [token?, List.all_eq_true.2 (isDigit_toDigits n), ofDigits_toDigits, decide_eq_true h]
  rfl

/-- The decimal `m · 10^-k`, written with an exponent. -/
def scientific (m k : Nat) : List Char :=
  Nat.toDigits 10 m ++ 'e' :: '-' :: Nat.toDigits 10 k

theorem run_toDigits (whole : Bool) (n : Nat) :
    run whole (Nat.toDigits 10 n) = ⟨Nat.toDigits 10 n, []⟩ := by
  have hrun := run_digits whole (isDigit_toDigits n) []
  rw [List.append_nil] at hrun
  rw [hrun]
  simp [run, Cut.push, Cut.none]

theorem run_scientific (m k : Nat) : run true (scientific m k) = ⟨scientific m k, []⟩ := by
  rw [scientific, run_digits true (isDigit_toDigits m), run, run_toDigits]
  simp [Cut.push]

theorem exponent?_toDigits (k : Nat) :
    exponent? ('e' :: '-' :: Nat.toDigits 10 k) = some (-(k : Int)) := by
  have hall := List.all_eq_true.2 (isDigit_toDigits k)
  simp [exponent?, hall, ofDigits_toDigits]

theorem token?_scientific (m k : Nat) :
    token? (scientific m k) = some (.float (Binary64.ofDecimal m (-k))) := by
  have hletter : (scientific m k).all Char.isDigit = false := by simp [scientific]
  have hwhole : (scientific m k).takeWhile Char.isDigit = Nat.toDigits 10 m := by
    rw [scientific, List.takeWhile_append_of_pos (isDigit_toDigits m)]
    simp
  have hrest : (scientific m k).dropWhile Char.isDigit = 'e' :: '-' :: Nat.toDigits 10 k := by
    rw [scientific, List.dropWhile_append_of_pos (isDigit_toDigits m)]
    simp
  rw [token?, hletter, decimal?, hwhole, hrest]
  simp [exponent?_toDigits, ofDigits_toDigits]

end Number

/-- The exact decimal of a number. -/
def Binary64.numeral (x : Binary64) : List Char :=
  Number.scientific x.mantissa (-x.exponent).toNat

theorem Number.token?_numeral {x : Binary64} (hneg : x.isNegative = false)
    (hnan : x.isNaN = false) : token? x.numeral = some (.float x) := by
  rw [Binary64.numeral, token?_scientific, Binary64.ofDecimal_mantissa hneg hnan]

end Aggregation
