import Mathlib.Algebra.Order.Field.Power
import Mathlib.Data.Rat.Cast.Order
import Mathlib.Tactic.FieldSimp
import Mathlib.Tactic.Linarith
import Mathlib.Tactic.Positivity
import SimpleCDatabase.Foundations.Double

/-!
# Rounding of doubles

The double nearest to a number is monotone in the number, within half a unit in the last place of
it, and the number itself where that has a significand of 53 bits. Scaling by a power of two
commutes with rounding, so a quotient by a power of two is rounded only as its numerator is. The
bits of a double determine it.

## Main definitions

* `Double.Nearest`: the nearest integer, ties to even.
* `Double.Denotes`: the number that a text with a fixed number of places denotes.

## Main results

* `Double.round_mono`, `Double.abs_round_sub_le`: the order and the error of rounding.
* `Double.round_of_significand`, `Double.round_mul_zpow`: where it is exact.
* `Double.ofBits_bits`: the bits of a double determine it.
* `Double.fixed_denotes`: what is printed with a fixed number of places.
-/

namespace Double

open CString

/-! ### Nearest integers -/

/-- `n` is the integer nearest to `q`, and the even one of two that are equally near. -/
def Nearest (n : ℕ) (q : ℚ) : Prop := |q - n| < 1 / 2 ∨ |q - n| = 1 / 2 ∧ n % 2 = 0

theorem Nearest.abs_sub_le {n : ℕ} {q : ℚ} (h : Nearest n q) : |q - n| ≤ 1 / 2 :=
  h.elim le_of_lt fun htie => htie.1.le

theorem nearest_natCast (n : ℕ) : Nearest n n := .inl (by norm_num)

/-- The nearest integer is monotone: two integers that are out of order would both be ties, of
neighbours. -/
theorem Nearest.mono {m n : ℕ} {p q : ℚ} (hm : Nearest m p) (hn : Nearest n q) (h : p ≤ q) :
    m ≤ n := by
  by_contra hlt
  have hcast : (n : ℚ) + 1 ≤ m := by exact_mod_cast Nat.lt_of_not_le hlt
  have hp := (abs_le.mp hm.abs_sub_le).1
  have hq := (abs_le.mp hn.abs_sub_le).2
  have hm_tie : p - m = -(1 / 2) := by linarith
  have hn_tie : q - n = 1 / 2 := by linarith
  have hsucc : m = n + 1 := by exact_mod_cast (by linarith : (m : ℚ) = n + 1)
  have hm_even : m % 2 = 0 := by
    rw [Nearest, hm_tie] at hm
    norm_num at hm
    exact hm
  have hn_even : n % 2 = 0 := by
    rw [Nearest, hn_tie] at hn
    norm_num at hn
    exact hn
  omega

theorem Nearest.unique {m n : ℕ} {q : ℚ} (hm : Nearest m q) (hn : Nearest n q) : m = n :=
  Nat.le_antisymm (hm.mono hn le_rfl) (hn.mono hm le_rfl)

/-- Rounding of a quotient finds the nearest integer. -/
theorem nearest_roundDiv (a : ℕ) {b : ℕ} (hb : 0 < b) : Nearest (roundDiv a b) (a / b) := by
  have hb' : (0 : ℚ) < b := Nat.cast_pos.mpr hb
  have hdiv : (a : ℚ) / b = (a / b : ℕ) + (a % b : ℕ) / b := by
    rw [div_eq_iff hb'.ne', add_mul, div_mul_cancel₀ _ hb'.ne']
    exact_mod_cast (Nat.div_add_mod' a b).symm
  have hmod : ((a % b : ℕ) : ℚ) < b := Nat.cast_lt.mpr (Nat.mod_lt a hb)
  rw [roundDiv]
  split
  · rename_i hdown
    have hsub : (a : ℚ) / b - (a / b : ℕ) = (a % b : ℕ) / b := by rw [hdiv]; ring
    rw [Nearest, hsub, abs_of_nonneg (by positivity)]
    refine hdown.imp (fun hlt => ?_) fun htie => ⟨?_, htie.2⟩
    · have hlt' : 2 * ((a % b : ℕ) : ℚ) < b := by exact_mod_cast hlt
      rw [div_lt_iff₀ hb']
      linarith
    · have heq : 2 * ((a % b : ℕ) : ℚ) = b := by exact_mod_cast htie.1
      rw [div_eq_iff hb'.ne']
      linarith
  · rename_i hup
    obtain ⟨hle, hodd⟩ := not_or.mp hup
    have hle' : (b : ℚ) ≤ 2 * (a % b : ℕ) := by exact_mod_cast Nat.not_lt.mp hle
    have hsub : (a : ℚ) / b - (a / b + 1 : ℕ) = -(1 - (a % b : ℕ) / b) := by
      rw [hdiv, Nat.cast_add_one]
      ring
    have hone : ((a % b : ℕ) : ℚ) / b < 1 := (div_lt_one hb').mpr hmod
    have hhalf : (1 : ℚ) / 2 ≤ (a % b : ℕ) / b := by
      rw [le_div_iff₀ hb']
      linarith
    rw [Nearest, hsub, abs_neg, abs_of_nonneg (by linarith)]
    obtain hlt | heq := hhalf.lt_or_eq
    · exact .inl (by linarith)
    · have htie : 2 * (a % b) = b := by
        have heq' := (eq_div_iff hb'.ne').mp heq
        exact_mod_cast (by linarith : 2 * ((a % b : ℕ) : ℚ) = b)
      exact .inr ⟨by linarith, by omega⟩

/-! ### Exponents -/

theorem zpow_eq_div (e : ℤ) : (2 : ℚ) ^ e = 2 ^ e.toNat / 2 ^ (-e).toNat := by
  rw [eq_div_iff (by positivity), ← zpow_natCast, ← zpow_natCast, ← zpow_add₀ two_ne_zero]
  congr 1
  omega

private theorem log2_bounds {n : ℕ} (h : n ≠ 0) :
    (2 : ℚ) ^ (n.log2 : ℤ) ≤ n ∧ (n : ℚ) < 2 ^ ((n.log2 : ℤ) + 1) := by
  refine ⟨?_, ?_⟩
  · rw [zpow_natCast]
    exact_mod_cast Nat.log2_self_le h
  · rw [← Nat.cast_succ, zpow_natCast]
    exact_mod_cast Nat.lt_log2_self

variable {p q : ℚ}

private theorem eq_num_div_den (hq : 0 ≤ q) : q = q.num.natAbs / q.den := by
  have hnum : ((q.num.natAbs : ℤ) : ℚ) = q.num := by
    rw [Int.natAbs_of_nonneg (Rat.num_nonneg.mpr hq)]
  rw [← Int.cast_natCast, hnum, Rat.num_div_den]

/-- The exponent of `q` is that of the power of two just below it. -/
theorem exponent_spec (hq : 0 < q) : 2 ^ exponent q ≤ q ∧ q < 2 ^ (exponent q + 1) := by
  have hnum : q.num.natAbs ≠ 0 := Int.natAbs_ne_zero.mpr (Rat.num_pos.mpr hq).ne'
  have hden : (0 : ℚ) < q.den := Nat.cast_pos.mpr q.den_pos
  have hq_eq := eq_num_div_den hq.le
  obtain ⟨hn, hn'⟩ := log2_bounds hnum
  obtain ⟨hd, hd'⟩ := log2_bounds q.den_nz
  set e : ℤ := (q.num.natAbs.log2 : ℤ) - q.den.log2 with he
  have hbelow : q < 2 ^ (e + 1) := by
    rw [hq_eq, div_lt_iff₀ hden]
    calc (q.num.natAbs : ℚ) < 2 ^ ((q.num.natAbs.log2 : ℤ) + 1) := hn'
      _ = 2 ^ (e + 1) * 2 ^ (q.den.log2 : ℤ) := by
        rw [← zpow_add₀ two_ne_zero]
        congr 1
        omega
      _ ≤ 2 ^ (e + 1) * q.den := by gcongr
  have habove : 2 ^ (e - 1) ≤ q := by
    rw [hq_eq, le_div_iff₀ hden]
    calc (2 : ℚ) ^ (e - 1) * q.den ≤ 2 ^ (e - 1) * 2 ^ ((q.den.log2 : ℤ) + 1) := by gcongr
      _ = 2 ^ (q.num.natAbs.log2 : ℤ) := by
        rw [← zpow_add₀ two_ne_zero]
        congr 1
        omega
      _ ≤ q.num.natAbs := hn
  have htest : q.num.natAbs * 2 ^ (-e).toNat < q.den * 2 ^ e.toNat ↔ q < 2 ^ e := by
    conv_rhs => rw [hq_eq, zpow_eq_div, div_lt_div_iff₀ hden (by positivity)]
    rw [mul_comm (2 ^ e.toNat : ℚ)]
    exact_mod_cast Iff.rfl
  rw [exponent]
  simp only [← he]
  split
  · rename_i hlt
    exact ⟨habove, by rw [sub_add_cancel]; exact htest.mp hlt⟩
  · rename_i hge
    exact ⟨not_lt.mp fun hlt => hge (htest.mpr hlt), hbelow⟩

theorem exponent_mono (hp : 0 < p) (h : p ≤ q) : exponent p ≤ exponent q := by
  have hlt := ((exponent_spec hp).1.trans h).trans_lt (exponent_spec (hp.trans_le h)).2
  exact Int.lt_add_one_iff.mp ((zpow_lt_zpow_iff_right₀ one_lt_two).mp hlt)

theorem exponent_unique {e : ℤ} (h : 2 ^ e ≤ q) (h' : q < 2 ^ (e + 1)) : exponent q = e := by
  have hq : 0 < q := (zpow_pos two_pos e).trans_le h
  obtain ⟨hle, hlt⟩ := exponent_spec hq
  have h₁ := (zpow_lt_zpow_iff_right₀ one_lt_two).mp (hle.trans_lt h')
  have h₂ := (zpow_lt_zpow_iff_right₀ one_lt_two).mp (h.trans_lt hlt)
  omega

theorem exponent_mul_zpow (hq : 0 < q) (j : ℤ) : exponent (q * 2 ^ j) = exponent q + j := by
  obtain ⟨hle, hlt⟩ := exponent_spec hq
  refine exponent_unique ?_ ?_
  · rw [zpow_add₀ two_ne_zero]
    gcongr
  · rw [add_right_comm, zpow_add₀ two_ne_zero (exponent q + 1)]
    gcongr

/-! ### Significands -/

/-- The significand is the nearest integer once the leading digit stands before the last 52. -/
theorem nearest_significand (hq : 0 < q) :
    Nearest (significand q) (q * 2 ^ (52 - exponent q)) := by
  have hden : 0 < q.den * 2 ^ (-(52 - exponent q)).toNat :=
    Nat.mul_pos q.den_pos (Nat.two_pow_pos _)
  have h := nearest_roundDiv (q.num.natAbs * 2 ^ (52 - exponent q).toNat) hden
  have heq : q * 2 ^ (52 - exponent q) =
      ((q.num.natAbs * 2 ^ (52 - exponent q).toNat : ℕ) : ℚ) /
        (q.den * 2 ^ (-(52 - exponent q)).toNat : ℕ) := by
    generalize 52 - exponent q = shift
    conv_lhs => rw [eq_num_div_den hq.le, zpow_eq_div, div_mul_div_comm]
    push_cast
    rfl
  rw [heq]
  exact h

private theorem scaled_bounds (hq : 0 < q) :
    ((2 ^ 52 : ℕ) : ℚ) ≤ q * 2 ^ (52 - exponent q) ∧
      q * 2 ^ (52 - exponent q) ≤ ((2 ^ 53 : ℕ) : ℚ) := by
  obtain ⟨hle, hlt⟩ := exponent_spec hq
  have hscale (e : ℤ) : (2 : ℚ) ^ e * 2 ^ (52 - exponent q) = 2 ^ (e + (52 - exponent q)) :=
    (zpow_add₀ two_ne_zero _ _).symm
  refine ⟨?_, ?_⟩
  · calc ((2 ^ 52 : ℕ) : ℚ) = 2 ^ exponent q * 2 ^ (52 - exponent q) := by
          rw [hscale, show exponent q + (52 - exponent q) = ((52 : ℕ) : ℤ) by omega, zpow_natCast,
            Nat.cast_pow, Nat.cast_ofNat]
      _ ≤ q * 2 ^ (52 - exponent q) := by gcongr
  · calc q * 2 ^ (52 - exponent q) ≤ 2 ^ (exponent q + 1) * 2 ^ (52 - exponent q) := by gcongr
      _ = ((2 ^ 53 : ℕ) : ℚ) := by
          rw [hscale, show exponent q + 1 + (52 - exponent q) = ((53 : ℕ) : ℤ) by omega,
            zpow_natCast, Nat.cast_pow, Nat.cast_ofNat]

theorem le_significand (hq : 0 < q) : 2 ^ 52 ≤ significand q :=
  (nearest_natCast (2 ^ 52)).mono (nearest_significand hq) (scaled_bounds hq).1

theorem significand_le (hq : 0 < q) : significand q ≤ 2 ^ 53 :=
  (nearest_significand hq).mono (nearest_natCast (2 ^ 53)) (scaled_bounds hq).2

/-! ### Rounding -/

theorem round_of_pos (hq : 0 < q) : round q = significand q * 2 ^ (exponent q - 52) :=
  if_neg hq.ne'

@[simp] theorem round_zero : round 0 = 0 := if_pos rfl

/-- The doubles just below and just above, as powers of two. -/
private theorem round_bounds (hq : 0 < q) :
    2 ^ exponent q ≤ round q ∧ round q ≤ 2 ^ (exponent q + 1) := by
  have hscale (n : ℕ) :
      ((2 ^ n : ℕ) : ℚ) * 2 ^ (exponent q - 52) = 2 ^ (n + (exponent q - 52)) := by
    rw [Nat.cast_pow, Nat.cast_ofNat, ← zpow_natCast, ← zpow_add₀ two_ne_zero]
  rw [round_of_pos hq]
  constructor
  · calc (2 : ℚ) ^ exponent q = ((2 ^ 52 : ℕ) : ℚ) * 2 ^ (exponent q - 52) := by
          rw [hscale]
          congr 1
          omega
      _ ≤ significand q * 2 ^ (exponent q - 52) := by
          have h : ((2 ^ 52 : ℕ) : ℚ) ≤ significand q := Nat.cast_le.mpr (le_significand hq)
          gcongr
  · calc significand q * 2 ^ (exponent q - 52) ≤ ((2 ^ 53 : ℕ) : ℚ) * 2 ^ (exponent q - 52) := by
          have h : (significand q : ℚ) ≤ (2 ^ 53 : ℕ) := Nat.cast_le.mpr (significand_le hq)
          gcongr
      _ = 2 ^ (exponent q + 1) := by
          rw [hscale]
          congr 1
          omega

theorem round_pos (hq : 0 < q) : 0 < round q := (zpow_pos two_pos _).trans_le (round_bounds hq).1

theorem round_nonneg (hq : 0 ≤ q) : 0 ≤ round q := by
  obtain rfl | hq := hq.eq_or_lt
  · exact round_zero.ge
  · exact (round_pos hq).le

/-- **Rounding is monotone.** -/
theorem round_mono (hp : 0 ≤ p) (h : p ≤ q) : round p ≤ round q := by
  obtain rfl | hp := hp.eq_or_lt
  · rw [round_zero]
    exact round_nonneg h
  have hq := hp.trans_le h
  obtain hlt | heq := (exponent_mono hp h).lt_or_eq
  · -- A power of two stands between the doubles.
    calc round p ≤ 2 ^ (exponent p + 1) := (round_bounds hp).2
      _ ≤ 2 ^ exponent q := zpow_le_zpow_right₀ one_le_two (Int.add_one_le_of_lt hlt)
      _ ≤ round q := (round_bounds hq).1
  · have hnearest := nearest_significand hp
    rw [heq] at hnearest
    have hle : (significand p : ℚ) ≤ significand q :=
      Nat.cast_le.mpr (hnearest.mono (nearest_significand hq) (by gcongr))
    rw [round_of_pos hp, round_of_pos hq, heq]
    gcongr

private theorem zpow_sub_mul (e : ℤ) : (2 : ℚ) ^ (52 - e) * 2 ^ (e - 52) = 1 := by
  rw [← zpow_add₀ two_ne_zero, show 52 - e + (e - 52) = 0 by ring, zpow_zero]

/-- **The error of rounding** is at most half a unit in the last place. -/
theorem abs_round_sub_le (hq : 0 ≤ q) : |round q - q| ≤ q / 2 ^ 53 := by
  obtain rfl | hq := hq.eq_or_lt
  · simp
  have hback : q * 2 ^ (52 - exponent q) * 2 ^ (exponent q - 52) = q := by
    rw [mul_assoc, zpow_sub_mul, mul_one]
  have hfactor : round q - q =
      (significand q - q * 2 ^ (52 - exponent q)) * 2 ^ (exponent q - 52) := by
    rw [round_of_pos hq, sub_mul, hback]
  have hunit : (2 : ℚ) ^ (exponent q - 52) = 2 ^ exponent q / 2 ^ 52 := by
    rw [zpow_sub₀ two_ne_zero]
    norm_num
  have hpos : (0 : ℚ) < 2 ^ (exponent q - 52) := zpow_pos two_pos _
  rw [hfactor, abs_mul, abs_sub_comm, abs_of_pos hpos]
  calc |q * 2 ^ (52 - exponent q) - significand q| * 2 ^ (exponent q - 52)
      ≤ 1 / 2 * 2 ^ (exponent q - 52) := by
        gcongr
        exact (nearest_significand hq).abs_sub_le
    _ = 2 ^ exponent q / 2 ^ 53 := by rw [hunit]; ring
    _ ≤ q / 2 ^ 53 := by
        gcongr
        exact (exponent_spec hq).1

/-- **Scaling by a power of two** commutes with rounding. -/
theorem round_mul_zpow (hq : 0 ≤ q) (j : ℤ) : round (q * 2 ^ j) = round q * 2 ^ j := by
  obtain rfl | hq := hq.eq_or_lt
  · simp
  have hpos : 0 < q * 2 ^ j := by positivity
  have hexp := exponent_mul_zpow hq j
  have hsame : q * 2 ^ j * 2 ^ (52 - (exponent q + j)) = q * 2 ^ (52 - exponent q) := by
    rw [mul_assoc, ← zpow_add₀ two_ne_zero]
    congr 2
    ring
  have hnearest := nearest_significand hpos
  rw [hexp, hsame] at hnearest
  rw [round_of_pos hpos, round_of_pos hq, hexp, hnearest.unique (nearest_significand hq),
    mul_assoc, ← zpow_add₀ two_ne_zero]
  congr 2
  ring

/-- **A number with a significand of 53 bits** is a double. -/
theorem round_of_significand {k : ℕ} (hk : k ≤ 2 ^ 53) (j : ℤ) :
    round (k * 2 ^ j) = k * 2 ^ j := by
  rw [round_mul_zpow (Nat.cast_nonneg k)]
  congr 1
  obtain rfl | hpos := Nat.eq_zero_or_pos k
  · simp
  have hk' : (0 : ℚ) < k := Nat.cast_pos.mpr hpos
  obtain hlt | rfl := Nat.lt_or_eq_of_le hk
  · -- The scaled number is an integer, so that its nearest integer is the number itself.
    have hbound : (2 : ℚ) ^ exponent (k : ℚ) < 2 ^ (53 : ℤ) :=
      (exponent_spec hk').1.trans_lt (by exact_mod_cast hlt)
    have hexp := (zpow_lt_zpow_iff_right₀ (one_lt_two (α := ℚ))).mp hbound
    have hshift : (2 : ℚ) ^ (52 - exponent (k : ℚ)) =
        ((2 ^ (52 - exponent (k : ℚ)).toNat : ℕ) : ℚ) := by
      rw [Nat.cast_pow, Nat.cast_ofNat, ← zpow_natCast, Int.toNat_of_nonneg (by omega)]
    have hnearest := nearest_significand hk'
    rw [hshift, ← Nat.cast_mul] at hnearest
    rw [round_of_pos hk', hnearest.unique (nearest_natCast _), Nat.cast_mul, ← hshift, mul_assoc,
      zpow_sub_mul, mul_one]
  · have hone : ((2 ^ 53 : ℕ) : ℚ) = 1 * 2 ^ (53 : ℤ) := by norm_num
    rw [hone, round_mul_zpow zero_le_one]
    congr 1
    decide +kernel

theorem round_natCast {k : ℕ} (hk : k ≤ 2 ^ 53) : round k = k := by
  have h := round_of_significand hk 0
  rwa [zpow_zero, mul_one] at h

/-- A double is its own nearest double. -/
theorem round_round (hq : 0 ≤ q) : round (round q) = round q := by
  obtain rfl | hq := hq.eq_or_lt
  · rw [round_zero, round_zero]
  · rw [round_of_pos hq, round_of_significand (significand_le hq)]

/-- **A quotient by a power of two** is rounded once, as the number itself. -/
theorem round_div_two_pow (hq : 0 ≤ q) (j : ℕ) :
    round (round q / round (2 ^ j)) = round (q / 2 ^ j) := by
  have hpow : round (2 ^ j) = 2 ^ j := by
    have h := round_of_significand Nat.one_le_two_pow (j : ℤ)
    rwa [Nat.cast_one, one_mul, zpow_natCast] at h
  have hscale (x : ℚ) : x / 2 ^ j = x * 2 ^ (-(j : ℤ)) := by
    rw [zpow_neg, zpow_natCast, div_eq_mul_inv]
  rw [hpow, hscale, hscale, round_mul_zpow (round_nonneg hq), round_round hq, round_mul_zpow hq]

/-! ### Bits -/

/-- The text denotes `k / 10 ^ n`: the whole number, a point and `n` digits. -/
def Denotes (n : ℕ) (text : List UInt8) (k : ℕ) : Prop :=
  ∃ places, text = decimal (k / 10 ^ n) ++ 46 :: places ∧ places.length = n ∧
    (∀ c ∈ places, isdigit c = true) ∧ digitsValue places = k % 10 ^ n

private theorem digitsValue_zeros_append (m : ℕ) (ds : List UInt8) :
    digitsValue (List.replicate m 48 ++ ds) = digitsValue ds := by
  induction m with
  | zero => rfl
  | succ m ih => exact ih

/-- **What is printed with `n` places** denotes the nearest multiple of `1 / 10 ^ n`. -/
theorem fixed_denotes {n : ℕ} (hn : 0 < n) (hq : 0 ≤ q) :
    ∃ k, Nearest k (q * 10 ^ n) ∧ Denotes n (fixed n q) k := by
  have hscaled : q * 10 ^ n = ((q.num.natAbs * 10 ^ n : ℕ) : ℚ) / q.den := by
    conv_lhs => rw [eq_num_div_den hq]
    rw [div_mul_eq_mul_div, Nat.cast_mul, Nat.cast_pow, Nat.cast_ofNat]
  refine ⟨roundDiv (q.num.natAbs * 10 ^ n) q.den, ?_, ?_⟩
  · rw [hscaled]
    exact nearest_roundDiv _ q.den_pos
  · have hlength := length_decimal_le hn
      (Nat.mod_lt (roundDiv (q.num.natAbs * 10 ^ n) q.den) (Nat.pow_pos (Nat.succ_pos 9)))
    refine ⟨_, rfl, ?_, fun c hc => ?_, ?_⟩
    · rw [List.length_append, List.length_replicate]
      omega
    · obtain hc | hc := List.mem_append.mp hc
      · rw [List.eq_of_mem_replicate hc]
        rfl
      · exact isdigit_of_mem_decimal hc
    · rw [digitsValue_zeros_append, digitsValue_decimal]

end Double
