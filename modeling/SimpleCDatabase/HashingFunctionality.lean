import SimpleCDatabase.Foundations.CString
import SimpleCDatabase.Foundations.PowerOfTwo

/-!
# Hashing and rounding of sizes

The hash of a key (`hashing_functionality.c`) and the rounding of a size to a power of two
(`bitwise_functionality.c`) on 64-bit words, with the facts that the indexing scheme of the
table rests on.

## Main definitions

* `hash`, `nextPowerOf2`.
* `roundCapacity`: the rounding that `table_create` and `table_resize` share.

## Main results

* `toNat_nextPowerOf2`: the cascade of shifts on a word, in terms of the size of `n - 1`.
* `nextPowerOf2_least`: up to `2 ^ 63` the rounding is the least power of two not below the number.
* `roundCapacity_spec`: up to `2 ^ 63` the rounded capacity is the least power of two not below
  the request; `roundCapacity_eq_zero`: beyond, it wraps to zero.
* `toNat_and_pred`: masking a hash by a power of two less one is the remainder.

## References

* `src/hashing_functionality.c`, `src/bitwise_functionality.c`.
-/

namespace SimpleCDatabase

open CString PowerOfTwo

/-- The loop of `hash`. -/
def hashLoop (h : UInt64) : List UInt8 → UInt64
  | [] => h
  | c :: str => if c = 0 then h else hashLoop ((h <<< 5) + h + c.toUInt64) str

/-- Source: `hashing_functionality.c`, `hash`. -/
def hash (str : List UInt8) : UInt64 := hashLoop 5381 str

/-- Source: `bitwise_functionality.c`, `next_power_of_2` in the x86_64 build. -/
def nextPowerOf2 (n : UInt64) : UInt64 :=
  if n = 0 then 1
  else
    let n := n - 1
    let n := n ||| (n >>> 1)
    let n := n ||| (n >>> 2)
    let n := n ||| (n >>> 4)
    let n := n ||| (n >>> 8)
    let n := n ||| (n >>> 16)
    let n := n ||| (n >>> 32)
    n + 1

/-- The rounding of a requested capacity under `ENABLE_ONLY_POWER_2_SIZE`.

Source: `hashtable.c`, `table_create` and `table_resize`. -/
def roundCapacity (capacity : UInt64) : UInt64 :=
  if capacity &&& (capacity - 1) ≠ 0 then nextPowerOf2 capacity else capacity

private theorem hashLoop_cstr (h : UInt64) (str : List UInt8) :
    hashLoop h (cstr str) = hashLoop h str := by
  induction str generalizing h with
  | nil => rfl
  | cons c str ih =>
    by_cases hc : c = 0
    · simp [hashLoop, cstr, hc]
    · simpa [hashLoop, cstr, hc] using ih _

/-- The hash reads the string, up to its NUL. -/
theorem hash_cstr (str : List UInt8) : hash (cstr str) = hash str := hashLoop_cstr _ str

/-! ### The cascade of shifts -/

private theorem toNat_shiftRight_or (x k : UInt64) (hk : k.toNat < 64) :
    (x ||| x >>> k).toNat = x.toNat ||| x.toNat >>> k.toNat := by
  rw [UInt64.toNat_or, UInt64.toNat_shiftRight, Nat.mod_eq_of_lt hk]

private theorem Smeared.word {r m : ℕ} {x : UInt64} (h : Smeared r m x.toNat) (k : UInt64)
    (hk : k.toNat = r) (hr : r < 64) : Smeared (2 * r) m (x ||| x >>> k).toNat := by
  rw [toNat_shiftRight_or x k (hk ▸ hr), hk]
  exact h.double

/-- The number computed by the cascade, before the increment, is `2 ^ size (n - 1) - 1`. -/
theorem toNat_nextPowerOf2 {n : UInt64} (hn : n ≠ 0) :
    (nextPowerOf2 n).toNat = 2 ^ (n.toNat - 1).size % 2 ^ 64 := by
  have hpred : (n - 1).toNat = n.toNat - 1 := by
    refine UInt64.toNat_sub_of_le n 1 ?_
    rw [UInt64.le_iff_toNat_le]
    have h0 : n.toNat ≠ 0 := fun h => hn (UInt64.toNat_inj.mp h)
    change 1 ≤ n.toNat
    omega
  have h1 : Smeared 1 (n.toNat - 1) (n - 1).toNat := hpred ▸ smeared_one _
  have h2 := Smeared.word h1 1 rfl (by decide)
  have h4 := Smeared.word h2 2 rfl (by decide)
  have h8 := Smeared.word h4 4 rfl (by decide)
  have h16 := Smeared.word h8 8 rfl (by decide)
  have h32 := Smeared.word h16 16 rfl (by decide)
  have h64 := Smeared.word h32 32 rfl (by decide)
  have hsize : (n.toNat - 1).size ≤ 64 := by
    rw [size_pred_le_iff]
    exact n.toNat_lt.le
  have hall := h64.eq_of_size_le hsize
  have hpos := Nat.two_pow_pos (n.toNat - 1).size
  simp only [nextPowerOf2, if_neg hn, UInt64.toNat_add, hall]
  change (2 ^ (n.toNat - 1).size - 1 + 1) % 2 ^ 64 = _
  rw [Nat.sub_add_cancel hpos]

/-! ### Rounded capacities -/

theorem toNat_and_pred {n : UInt64} (hn : n.toNat.isPowerOfTwo) (h : UInt64) :
    (h &&& (n - 1)).toNat = h.toNat % n.toNat := by
  have hpos := isPowerOfTwo_pos hn
  have hone : (1 : UInt64) ≤ n := by
    rw [UInt64.le_iff_toNat_le]
    exact hpos
  rw [UInt64.toNat_and, UInt64.toNat_sub_of_le n 1 hone]
  exact and_pred_eq_mod hn _

private theorem and_pred_eq_zero_iff {n : UInt64} (hn : n ≠ 0) :
    n &&& (n - 1) = 0 ↔ n.toNat.isPowerOfTwo := by
  have h0 : n.toNat ≠ 0 := fun h => hn (UInt64.toNat_inj.mp h)
  have hone : (1 : UInt64) ≤ n := by
    rw [UInt64.le_iff_toNat_le]
    exact Nat.one_le_iff_ne_zero.mpr h0
  rw [← Nat.and_sub_one_eq_zero_iff_isPowerOfTwo h0, ← UInt64.toNat_inj, UInt64.toNat_and,
    UInt64.toNat_sub_of_le n 1 hone]
  rfl

/-- Up to `2 ^ 63` the increment after the cascade does not wrap. -/
theorem toNat_nextPowerOf2_of_le {n : UInt64} (hpos : n ≠ 0) (hmax : n.toNat ≤ 2 ^ 63) :
    (nextPowerOf2 n).toNat = 2 ^ (n.toNat - 1).size := by
  have hsize : (n.toNat - 1).size ≤ 63 := size_pred_le_iff.mpr hmax
  have hlt : 2 ^ (n.toNat - 1).size < 2 ^ 64 := Nat.pow_lt_pow_right (by decide) (by omega)
  rw [toNat_nextPowerOf2 hpos, Nat.mod_eq_of_lt hlt]

/-- **Rounding to a power of two**: from `1` to `2 ^ 63` the result is the least power of two not
below `n`, and `n` itself exactly when `n` is a power of two, which is what the callers test. -/
theorem nextPowerOf2_least {n : UInt64} (hpos : 1 ≤ n.toNat) (hmax : n.toNat ≤ 2 ^ 63) :
    (nextPowerOf2 n).toNat.isPowerOfTwo ∧
      n.toNat ≤ (nextPowerOf2 n).toNat ∧
      (nextPowerOf2 n).toNat < 2 * n.toNat ∧
      (∀ m : ℕ, m.isPowerOfTwo → n.toNat ≤ m → (nextPowerOf2 n).toNat ≤ m) ∧
      (nextPowerOf2 n = n ↔ n.toNat.isPowerOfTwo) ∧
      (nextPowerOf2 n ≠ n ↔ n &&& (n - 1) ≠ 0) := by
  have hn : n ≠ 0 := by
    rintro rfl
    exact absurd hpos (by decide)
  have hval := toNat_nextPowerOf2_of_le hn hmax
  have hleast : ∀ m : ℕ, m.isPowerOfTwo → n.toNat ≤ m → (nextPowerOf2 n).toNat ≤ m := by
    rintro m ⟨k, rfl⟩ hm
    rw [hval]
    exact Nat.pow_le_pow_right (by decide) (size_pred_le_iff.mpr hm)
  have hle : n.toNat ≤ (nextPowerOf2 n).toNat := hval ▸ le_two_pow_size_pred _
  have hfix : nextPowerOf2 n = n ↔ n.toNat.isPowerOfTwo := by
    rw [← UInt64.toNat_inj]
    exact ⟨fun h => h ▸ ⟨_, hval⟩, fun h => le_antisymm (hleast _ h le_rfl) hle⟩
  exact ⟨⟨_, hval⟩, hle, hval ▸ two_pow_size_pred_lt hpos, hleast, hfix,
    not_congr (hfix.trans (and_pred_eq_zero_iff hn).symm)⟩

/-- Five is rounded to a power of two between five and ten, and changed. -/
theorem nextPowerOf2_five :
    (nextPowerOf2 5).toNat.isPowerOfTwo ∧ 5 ≤ (nextPowerOf2 5).toNat ∧
      (nextPowerOf2 5).toNat < 10 ∧ nextPowerOf2 5 ≠ 5 := by
  have h := nextPowerOf2_least (n := 5) (by decide) (by decide)
  exact ⟨h.1, h.2.1, h.2.2.1, h.2.2.2.2.2.mpr (by decide)⟩

/-- Up to `2 ^ 63` the rounded capacity is the least power of two not below the request. -/
theorem roundCapacity_spec {capacity : UInt64} (hpos : capacity ≠ 0)
    (hmax : capacity.toNat ≤ 2 ^ 63) :
    (roundCapacity capacity).toNat.isPowerOfTwo ∧
      capacity.toNat ≤ (roundCapacity capacity).toNat ∧
      (roundCapacity capacity).toNat < 2 * capacity.toNat := by
  have h0 : 0 < capacity.toNat :=
    Nat.pos_of_ne_zero fun h => hpos (UInt64.toNat_inj.mp h)
  rw [roundCapacity]
  split
  · rw [toNat_nextPowerOf2_of_le hpos hmax]
    exact ⟨⟨_, rfl⟩, le_two_pow_size_pred _, two_pow_size_pred_lt h0⟩
  · exact ⟨(and_pred_eq_zero_iff hpos).mp (not_not.mp ‹_›), le_rfl, by omega⟩

/-- Beyond `2 ^ 63` the increment after the cascade wraps to zero. -/
theorem roundCapacity_eq_zero {capacity : UInt64} (hmin : 2 ^ 63 < capacity.toNat) :
    roundCapacity capacity = 0 := by
  have hpos : capacity ≠ 0 := by
    rintro rfl
    exact absurd hmin (by decide)
  have hsize : (capacity.toNat - 1).size = 64 := by
    have hle : (capacity.toNat - 1).size ≤ 64 := size_pred_le_iff.mpr capacity.toNat_lt.le
    have hlt : ¬(capacity.toNat - 1).size ≤ 63 := fun h => by
      have := size_pred_le_iff.mp h
      omega
    omega
  -- A number strictly between 2^63 and 2^64 is no power of two, so the rounding is reached.
  have hnot : ¬capacity.toNat.isPowerOfTwo := by
    rintro ⟨k, hk⟩
    rw [hk] at hmin
    have hk63 : 63 < k := (Nat.pow_lt_pow_iff_right (by decide)).mp hmin
    have hk64 : 2 ^ 64 ≤ 2 ^ k := Nat.pow_le_pow_right (by decide) hk63
    have hlt := capacity.toNat_lt
    omega
  rw [roundCapacity, if_pos fun h => hnot ((and_pred_eq_zero_iff hpos).mp h),
    ← UInt64.toNat_inj, toNat_nextPowerOf2 hpos, hsize]
  rfl

end SimpleCDatabase
