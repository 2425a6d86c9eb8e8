import Mathlib.Data.Nat.Size
import Mathlib.Data.Nat.Bitwise

/-!
# Rounding up to a power of two

The usual rounding of `n` smears the bits of `n - 1`: a word is or-ed with itself shifted right
by 1, 2, 4, … places, each step doubling the number of ones below the top bit. The numbers are
natural numbers here, the width of a word enters only through a bound on the top bit.

## Main definitions

* `PowerOfTwo.Smeared r m x`: `x` has the top bit of `m` and ones on the `r` highest places.

## Main results

* `PowerOfTwo.Smeared.double`: one step of the cascade.
* `PowerOfTwo.Smeared.eq_of_size_le`: a fully smeared number is `2 ^ size m - 1`.
* `PowerOfTwo.le_two_pow_size_pred`, `PowerOfTwo.two_pow_size_pred_lt`: the rounded number is the
  least power of two not below `n`.
* `PowerOfTwo.and_pred_eq_mod`: masking by a power of two less one is the remainder.
-/

namespace PowerOfTwo

/-- `x` has no bit above the top bit of `m`, and its `r` highest places up to there are ones. -/
def Smeared (r m x : ℕ) : Prop :=
  ∀ i, (m.size ≤ i → x.testBit i = false) ∧ (i < m.size → m.size ≤ i + r → x.testBit i = true)

theorem smeared_one (m : ℕ) : Smeared 1 m m := by
  intro i
  refine ⟨fun hi => Nat.testBit_lt_two_pow (Nat.size_le.mp hi), fun hi hr => ?_⟩
  have hsize : m.size = i + 1 := by omega
  have hlow : 2 ^ i ≤ m := Nat.lt_size.mp hi
  have hhigh : m < 2 ^ (i + 1) := Nat.size_le.mp hsize.le
  rw [Nat.testBit_eq_decide_div_mod_eq, decide_eq_true_eq]
  have hdiv : m / 2 ^ i = 1 :=
    Nat.div_eq_of_lt_le (by omega) (by rw [pow_succ] at hhigh; omega)
  rw [hdiv]

/-- One step of the cascade doubles the number of ones below the top bit. -/
theorem Smeared.double {r m x : ℕ} (h : Smeared r m x) : Smeared (2 * r) m (x ||| x >>> r) := by
  intro i
  rw [Nat.testBit_or, Nat.testBit_shiftRight, Nat.add_comm r i]
  constructor
  · intro hi
    rw [(h i).1 hi, (h (i + r)).1 (by omega), Bool.false_or]
  · intro hi hr
    by_cases hnear : m.size ≤ i + r
    · rw [(h i).2 hi hnear, Bool.true_or]
    · rw [(h (i + r)).2 (by omega) (by omega), Bool.or_true]

/-- Once the ones reach the lowest place, the number is `2 ^ size m - 1`. -/
theorem Smeared.eq_of_size_le {r m x : ℕ} (h : Smeared r m x) (hr : m.size ≤ r) :
    x = 2 ^ m.size - 1 := by
  refine Nat.eq_of_testBit_eq fun i => ?_
  rw [Nat.testBit_two_pow_sub_one]
  by_cases hi : i < m.size
  · rw [(h i).2 hi (by omega), decide_eq_true hi]
  · rw [(h i).1 (by omega), decide_eq_false hi]

/-! ### The least power of two -/

theorem le_two_pow_size_pred (n : ℕ) : n ≤ 2 ^ (n - 1).size := by
  have h := Nat.lt_size_self (n - 1)
  omega

theorem two_pow_size_pred_lt {n : ℕ} (hn : 0 < n) : 2 ^ (n - 1).size < 2 * n := by
  obtain h | h := Nat.eq_zero_or_pos (n - 1).size
  · rw [h, pow_zero]
    omega
  · have hlow : 2 ^ ((n - 1).size - 1) ≤ n - 1 := Nat.lt_size.mp (by omega)
    calc 2 ^ (n - 1).size = 2 * 2 ^ ((n - 1).size - 1) := by rw [← pow_succ', Nat.sub_add_cancel h]
      _ ≤ 2 * (n - 1) := Nat.mul_le_mul_left 2 hlow
      _ < 2 * n := by omega

/-- The size of `n - 1` stays within `k` bits exactly for the numbers up to `2 ^ k`. -/
theorem size_pred_le_iff {n k : ℕ} : (n - 1).size ≤ k ↔ n ≤ 2 ^ k := by
  rw [Nat.size_le]
  have hpos := Nat.two_pow_pos k
  omega

/-! ### Masks -/

/-- Masking by a power of two less one is the remainder. -/
theorem and_pred_eq_mod {n : ℕ} (hn : n.isPowerOfTwo) (h : ℕ) : h &&& (n - 1) = h % n := by
  obtain ⟨k, rfl⟩ := hn
  exact Nat.and_two_pow_sub_one_eq_mod h k

/-- There is no power of two strictly between one and its double. -/
theorem le_of_lt_two_mul {m n : ℕ} (hm : m.isPowerOfTwo) (hn : n.isPowerOfTwo)
    (h : m < 2 * n) : m ≤ n := by
  obtain ⟨i, rfl⟩ := hm
  obtain ⟨j, rfl⟩ := hn
  rw [← pow_succ', Nat.pow_lt_pow_iff_right Nat.one_lt_two] at h
  exact Nat.pow_le_pow_right Nat.two_pos (Nat.le_of_lt_succ h)

theorem isPowerOfTwo_pos {n : ℕ} (hn : n.isPowerOfTwo) : 0 < n := by
  obtain ⟨k, rfl⟩ := hn
  exact Nat.two_pow_pos k

end PowerOfTwo
