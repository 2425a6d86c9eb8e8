import Mathlib.Data.Rat.Defs
import SimpleCDatabase.Foundations.CString

/-!
# Non-negative doubles

The numbers of the type `double` that are zero or positive and normal, as rational numbers:
rounding to the nearest one with ties to even, the bits of its representation, and its decimal
form with a fixed number of places. Infinities, negative and subnormal numbers are left out.

## Main definitions

* `Double.round`: the double nearest to a rational number.
* `Double.bits`, `Double.ofBits`: the bits of a double in the 64-bit interchange format.
* `Double.fixed`: the conversion `%.nf` of `printf`.

## Main results

* `Double.zero_notMem_fixed`: the conversion is a text.
-/

namespace Double

open CString

/-- The quotient `a / b` rounded to an integer, ties to even. -/
def roundDiv (a b : ℕ) : ℕ :=
  if 2 * (a % b) < b ∨ 2 * (a % b) = b ∧ a / b % 2 = 0 then a / b else a / b + 1

/-- The exponent of the leading binary digit of `q > 0`. -/
def exponent (q : ℚ) : ℤ :=
  let e : ℤ := (q.num.natAbs.log2 : ℤ) - q.den.log2
  if q.num.natAbs * 2 ^ (-e).toNat < q.den * 2 ^ e.toNat then e - 1 else e

/-- The 53-bit significand of `q > 0`; it is `2 ^ 53` when the rounding carries. -/
def significand (q : ℚ) : ℕ :=
  let shift := 52 - exponent q
  roundDiv (q.num.natAbs * 2 ^ shift.toNat) (q.den * 2 ^ (-shift).toNat)

/-- The double nearest to `q ≥ 0`. -/
def round (q : ℚ) : ℚ := if q = 0 then 0 else significand q * 2 ^ (exponent q - 52)

/-- The bits of the double nearest to `q ≥ 0`. A carry of the significand goes into the
exponent. -/
def bits (q : ℚ) : UInt64 :=
  if q = 0 then 0 else UInt64.ofNat ((exponent q + 1022).toNat * 2 ^ 52 + significand q)

/-- The positive double with the given bits. -/
def ofBits (b : UInt64) : ℚ :=
  let field : ℕ := b.toNat / 2 ^ 52 % 2 ^ 11
  let fraction : ℕ := b.toNat % 2 ^ 52
  if field = 0 then (fraction : ℚ) * 2 ^ (-1074 : ℤ)
  else ((2 ^ 52 + fraction : ℕ) : ℚ) * 2 ^ ((field : ℤ) - 1075)

example : bits 1 = 0x3FF0000000000000 := by decide

/-- The conversion `%.nf` of a number `q ≥ 0`. -/
def fixed (n : ℕ) (q : ℚ) : List UInt8 :=
  let scaled := roundDiv (q.num.natAbs * 10 ^ n) q.den
  let places := decimal (scaled % 10 ^ n)
  decimal (scaled / 10 ^ n) ++ 46 :: (List.replicate (n - places.length) 48 ++ places)

/-- The conversion has no `NUL` among its bytes. -/
theorem zero_notMem_fixed (n : ℕ) (q : ℚ) : 0 ∉ fixed n q := by
  have hdigit {c : UInt8} (hc : isdigit c = true) : c ≠ 0 := by
    rintro rfl
    exact absurd hc (by decide)
  have hdecimal (m : ℕ) : 0 ∉ decimal m := fun h => hdigit (isdigit_of_mem_decimal h) rfl
  have hzeros (m : ℕ) : 0 ∉ List.replicate m (48 : UInt8) := fun h =>
    absurd (List.eq_of_mem_replicate h) (by decide)
  simp only [fixed, List.mem_append, List.mem_cons, not_or]
  exact ⟨hdecimal _, by decide, hzeros _, hdecimal _⟩

end Double
