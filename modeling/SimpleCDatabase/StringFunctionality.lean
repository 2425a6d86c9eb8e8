import SimpleCDatabase.Foundations.CString
import SimpleCDatabase.Foundations.Traced

/-!
# String functions

The functions of `string_functionality.c` that the database uses. A `const unsigned char*`
argument is the list of the bytes it points to (`CString`), so the guards against `NULL` strings
have no counterpart. A conversion with an `error_flag` returns the flag as its second component.

## Main definitions

* `KEY_MAX_LEN`, `ustrncmp`, `ustrncpy`, `ustrlen`, `isKeyValid`.
* `longToSizet`, `ssizetToSizet`, `sizetToInt`, `sizetToUint`.
* `ustrncmpReads`: `ustrncmp` with a record of the indices that it inspects.
* `AgreesWithStrncmp`: what `strncmp` promises of the result and of the indices inspected.

## Main results

* `ustrncmp_eq_zero_iff`: comparing a string shorter than the bound decides equality.
* `ustrncmp_agrees_iff`: `ustrncmp` keeps the promise of `strncmp` except when the count runs out.
* `cstr_ustrncpy`, `zero_mem_ustrncpy`: the copy is the string cut to one byte less than the
  bound, and ends with a NUL.

## References

* `src/string_functionality.c`, `src/string_functionality.h`.
-/

namespace SimpleCDatabase

open CString

/-- Size of the array that holds a stored key. -/
def KEY_MAX_LEN : ℕ := 255

/-- The loop of `ustrncmp`, with `n` comparisons left. -/
def ustrncmpLoop : ℕ → List UInt8 → List UInt8 → ℤ
  | 0, s1, s2 => ((s1.headD 0).toNat : ℤ) - (s2.headD 0).toNat
  | n + 1, s1, s2 =>
    if s1.headD 0 = s2.headD 0 then
      if s1.headD 0 = 0 then 0 else ustrncmpLoop n s1.tail s2.tail
    else ((s1.headD 0).toNat : ℤ) - (s2.headD 0).toNat

/-- Comparison of the first `n` bytes. When the count runs out, the bytes at index `n` are
subtracted like a pair of different bytes.

Source: `string_functionality.c`, `ustrncmp`. -/
def ustrncmp (s1 s2 : List UInt8) (n : ℕ) : ℤ := if n = 0 then 0 else ustrncmpLoop n s1 s2

/-- The loop of `ustrncpy`, with room for `m` bytes before the last one. -/
def ustrncpyLoop : ℕ → List UInt8 → List UInt8 → List UInt8
  | _, [], _ => []
  | 0, _ :: dest, _ => 0 :: dest
  | m + 1, _ :: dest, src =>
    if src.headD 0 = 0 then 0 :: dest else src.headD 0 :: ustrncpyLoop m dest src.tail

/-- Copy of at most `n - 1` bytes and a NUL; the rest of `dest` is left as it was.

Source: `string_functionality.c`, `ustrncpy`. -/
def ustrncpy (dest src : List UInt8) (n : ℕ) : List UInt8 :=
  if n = 0 then dest else ustrncpyLoop (n - 1) dest src

/-- Source: `string_functionality.c`, `ustrlen`. -/
def ustrlen : List UInt8 → ℕ
  | [] => 0
  | c :: str => if c = 0 then 0 else ustrlen str + 1

/-- A key is valid when it is not the empty string.

Source: `string_functionality.c`, `is_key_valid`. -/
def isKeyValid (key : List UInt8) : Bool := key.headD 0 != 0

/-- Source: `string_functionality.c`, `long_to_sizet`. -/
def longToSizet (l : ℤ) : ℕ × Bool := if l < 0 then (0, true) else (l.toNat, false)

/-- Source: `string_functionality.c`, `ssizet_to_sizet`. -/
def ssizetToSizet (inputValue : ℤ) : ℕ × Bool :=
  if inputValue < 0 then (0, true) else (inputValue.toNat, false)

/-- Source: `string_functionality.c`, `sizet_to_int`; `INT_MAX` is `2 ^ 31 - 1`. -/
def sizetToInt (s : ℕ) : ℤ × Bool := if s > 2 ^ 31 - 1 then (0, true) else (s, false)

/-- Source: `string_functionality.c`, `sizet_to_uint`; `UINT_MAX` is `2 ^ 32 - 1`. -/
def sizetToUint (s : ℕ) : ℕ × Bool := if s > 2 ^ 32 - 1 then (0, true) else (s, false)

/-! ### Conversions -/

theorem longToSizet_of_nonneg {n : ℤ} (h : 0 ≤ n) : longToSizet n = (n.toNat, false) :=
  if_neg (Int.not_lt.mpr h)

/-- A conversion to `int` that reports no error keeps the number. -/
theorem sizetToInt_of_fits {s : ℕ} (h : (sizetToInt s).2 = false) : (sizetToInt s).1 = s := by
  unfold sizetToInt at h ⊢
  split_ifs at h ⊢
  rfl

/-- A conversion to `unsigned int` that reports no error keeps the number. -/
theorem sizetToUint_of_fits {s : ℕ} (h : (sizetToUint s).2 = false) : (sizetToUint s).1 = s := by
  unfold sizetToUint at h ⊢
  split_ifs at h ⊢
  rfl

/-! ### Strings at a pointer -/

theorem ustrlen_eq (str : List UInt8) : ustrlen str = (cstr str).length := by
  induction str with
  | nil => rfl
  | cons c str ih =>
    by_cases hc : c = 0
    · simp [ustrlen, cstr, hc]
    · simpa [ustrlen, cstr, hc] using ih

theorem ustrlen_le (str : List UInt8) : ustrlen str ≤ str.length :=
  (ustrlen_eq str).trans_le (length_cstr_le str)

theorem isKeyValid_iff (key : List UInt8) : isKeyValid key = true ↔ cstr key ≠ [] := by
  cases key with
  | nil => simp [isKeyValid, cstr]
  | cons c key => by_cases hc : c = 0 <;> simp [isKeyValid, cstr, hc]

/-! ### Comparison and copy -/

private theorem ustrncmpLoop_eq_zero_iff (n : ℕ) (s1 s2 : List UInt8)
    (hlen : (cstr s1).length < n) : ustrncmpLoop n s1 s2 = 0 ↔ cstr s1 = cstr s2 := by
  induction n generalizing s1 s2 with
  | zero => exact absurd hlen (Nat.not_lt_zero _)
  | succ n ih =>
    rw [ustrncmpLoop]
    by_cases heq : s1.headD 0 = s2.headD 0
    · rw [if_pos heq]
      by_cases h0 : s1.headD 0 = 0
      · rw [if_pos h0, (cstr_eq_nil_iff s1).mpr h0, (cstr_eq_nil_iff s2).mpr (heq ▸ h0)]
        exact iff_of_true rfl rfl
      · have h1 := cstr_eq_cons h0
        have h2 := cstr_eq_cons (heq ▸ h0 : s2.headD 0 ≠ 0)
        rw [h1, List.length_cons, Nat.add_lt_add_iff_right] at hlen
        rw [if_neg h0, ih _ _ hlen, h1, h2, heq, List.cons_inj_right]
    · rw [if_neg heq]
      have hnat : (s1.headD 0).toNat ≠ (s2.headD 0).toNat := fun h => heq (UInt8.toNat_inj.mp h)
      refine iff_of_false (by omega) fun hcstr => heq ?_
      -- Equal strings have equal first bytes, the NUL of an empty string included.
      by_cases h0 : s1.headD 0 = 0
      · rw [h0, (cstr_eq_nil_iff s2).mp (hcstr ▸ (cstr_eq_nil_iff s1).mpr h0)]
      · have h2 : s2.headD 0 ≠ 0 := fun h => by
          rw [cstr_eq_cons h0, (cstr_eq_nil_iff s2).mpr h] at hcstr
          exact List.cons_ne_nil _ _ hcstr
        rw [cstr_eq_cons h0, cstr_eq_cons h2] at hcstr
        exact (List.cons.inj hcstr).1

/-- **Comparison decides equality** when the first string ends within the bound. -/
theorem ustrncmp_eq_zero_iff {s1 s2 : List UInt8} {n : ℕ} (hlen : (cstr s1).length < n) :
    ustrncmp s1 s2 n = 0 ↔ cstr s1 = cstr s2 := by
  have hn : n ≠ 0 := by omega
  rw [ustrncmp, if_neg hn, ustrncmpLoop_eq_zero_iff n s1 s2 hlen]

private theorem ustrncmpLoop_swap (n : ℕ) (s1 s2 : List UInt8) :
    ustrncmpLoop n s1 s2 = -ustrncmpLoop n s2 s1 := by
  induction n generalizing s1 s2 with
  | zero => simp only [ustrncmpLoop, neg_sub]
  | succ n ih =>
    rw [ustrncmpLoop, ustrncmpLoop]
    by_cases heq : s1.headD 0 = s2.headD 0
    · rw [if_pos heq, if_pos heq.symm, ← heq]
      by_cases h0 : s1.headD 0 = 0
      · rw [if_pos h0, if_pos h0, neg_zero]
      · rw [if_neg h0, if_neg h0, ih]
    · rw [if_neg heq, if_neg (Ne.symm heq), neg_sub]

/-- Exchanging the strings negates the result. -/
theorem ustrncmp_swap (s1 s2 : List UInt8) (n : ℕ) : ustrncmp s1 s2 n = -ustrncmp s2 s1 n := by
  rw [ustrncmp, ustrncmp]
  split
  · rw [neg_zero]
  · exact ustrncmpLoop_swap n s1 s2

/-- Comparison decides equality when the second string ends within the bound. -/
theorem ustrncmp_eq_zero_iff_of_right {s1 s2 : List UInt8} {n : ℕ}
    (hlen : (cstr s2).length < n) : ustrncmp s1 s2 n = 0 ↔ cstr s1 = cstr s2 := by
  rw [ustrncmp_swap, neg_eq_zero, ustrncmp_eq_zero_iff hlen, eq_comm]

private theorem length_ustrncpyLoop (m : ℕ) (dest src : List UInt8) :
    (ustrncpyLoop m dest src).length = dest.length := by
  induction dest generalizing m src with
  | nil => simp only [ustrncpyLoop]
  | cons d dest ih =>
    cases m with
    | zero => rfl
    | succ m =>
      rw [ustrncpyLoop]
      split
      · rfl
      · simp only [List.length_cons, ih]

@[simp] theorem length_ustrncpy (dest src : List UInt8) (n : ℕ) :
    (ustrncpy dest src n).length = dest.length := by
  rw [ustrncpy]
  split
  · rfl
  · exact length_ustrncpyLoop ..

private theorem cstr_ustrncpyLoop (m : ℕ) (dest src : List UInt8) (hm : m < dest.length) :
    cstr (ustrncpyLoop m dest src) = (cstr src).take m := by
  induction dest generalizing m src with
  | nil => exact absurd hm (Nat.not_lt_zero m)
  | cons d dest ih =>
    cases m with
    | zero => simp [ustrncpyLoop, cstr]
    | succ m =>
      rw [ustrncpyLoop]
      by_cases h0 : src.headD 0 = 0
      · rw [if_pos h0, (cstr_eq_nil_iff src).mpr h0]
        simp [cstr]
      · have hrest := ih m src.tail (Nat.lt_of_succ_lt_succ hm)
        rw [if_neg h0, cstr_eq_cons h0, List.take_succ_cons, ← hrest]
        exact cstr_eq_cons h0

/-- The copy is the string cut to `n - 1` bytes. -/
theorem cstr_ustrncpy {dest : List UInt8} {n : ℕ} (hn : 0 < n) (hd : n ≤ dest.length)
    (src : List UInt8) : cstr (ustrncpy dest src n) = (cstr src).take (n - 1) := by
  rw [ustrncpy, if_neg hn.ne']
  exact cstr_ustrncpyLoop _ _ _ (by omega)

/-- The copy ends with a NUL inside the destination. -/
theorem zero_mem_ustrncpy {dest : List UInt8} {n : ℕ} (hn : 0 < n) (hd : n ≤ dest.length)
    (src : List UInt8) : 0 ∈ ustrncpy dest src n := by
  by_contra h
  have hcopy := cstr_ustrncpy hn hd src
  rw [cstr_of_zero_notMem h] at hcopy
  have hlen := congrArg List.length hcopy
  rw [length_ustrncpy, List.length_take] at hlen
  omega

/-- A NUL inside an array bounds the length of its string. -/
theorem length_cstr_lt {s : List UInt8} (h : 0 ∈ s) : (cstr s).length < s.length := by
  refine Nat.lt_of_le_of_ne (List.takeWhile_sublist _).length_le fun hlen => ?_
  have hs : cstr s = s := (List.takeWhile_sublist _).eq_of_length hlen
  exact zero_notMem_cstr s (hs.symm ▸ h)

/-! ### The indices that a comparison inspects -/

/-- The byte at an index of a string; beyond the end of the list stands its terminator. -/
def byteAt (s : List UInt8) (i : ℕ) : UInt8 := s.getD i 0

theorem headD_eq_byteAt (s : List UInt8) : s.headD 0 = byteAt s 0 := by
  cases s <;> rfl

/-- The loop of `ustrncmp` with both pointers at index `i` and `n` comparisons left. Each index
whose two bytes are inspected is recorded. -/
def ustrncmpReadsLoop (s1 s2 : List UInt8) : ℕ → ℕ → Traced ℕ ℤ
  | 0, i => do
    Traced.emit i
    pure ((byteAt s1 i).toNat - (byteAt s2 i).toNat)
  | n + 1, i => do
    Traced.emit i
    if byteAt s1 i = byteAt s2 i then
      if byteAt s1 i = 0 then pure 0 else ustrncmpReadsLoop s1 s2 n (i + 1)
    else pure ((byteAt s1 i).toNat - (byteAt s2 i).toNat)

/-- `ustrncmp` with a record of the indices that it inspects.

Source: `string_functionality.c`, `ustrncmp`. -/
def ustrncmpReads (s1 s2 : List UInt8) (n : ℕ) : Traced ℕ ℤ :=
  if n = 0 then pure 0 else ustrncmpReadsLoop s1 s2 n 0

private theorem headD_drop (s : List UInt8) (i : ℕ) : (s.drop i).headD 0 = byteAt s i := by
  rw [headD_eq_byteAt, byteAt, byteAt, List.getD_eq_getElem?_getD, List.getD_eq_getElem?_getD,
    List.getElem?_drop, Nat.add_zero]

private theorem run_ustrncmpReadsLoop (s1 s2 : List UInt8) (n i : ℕ) (log : List ℕ) :
    ((ustrncmpReadsLoop s1 s2 n i).run log).1 = ustrncmpLoop n (s1.drop i) (s2.drop i) := by
  induction n generalizing i log with
  | zero =>
    simp only [ustrncmpReadsLoop, ustrncmpLoop, Traced.run_bind, Traced.run_pure, headD_drop]
  | succ n ih =>
    simp only [ustrncmpReadsLoop, ustrncmpLoop, Traced.run_bind, Traced.run_ite, headD_drop]
    split
    · split
      · rfl
      · rw [ih, List.tail_drop, List.tail_drop]
    · rfl

/-- The record does not change the result. -/
theorem run_ustrncmpReads (s1 s2 : List UInt8) (n : ℕ) (log : List ℕ) :
    ((ustrncmpReads s1 s2 n).run log).1 = ustrncmp s1 s2 n := by
  rw [ustrncmpReads, ustrncmp]
  split
  · rfl
  · exact run_ustrncmpReadsLoop s1 s2 n 0 log

/-- The strings have the same bytes before index `i`, and no `NUL`. -/
def SameBefore (s1 s2 : List UInt8) (i : ℕ) : Prop :=
  ∀ j < i, byteAt s1 j = byteAt s2 j ∧ byteAt s1 j ≠ 0

instance (s1 s2 : List UInt8) (i : ℕ) : Decidable (SameBefore s1 s2 i) :=
  inferInstanceAs (Decidable (∀ j < i, _ ∧ _))

theorem SameBefore.succ {s1 s2 : List UInt8} {i : ℕ} (h : SameBefore s1 s2 i)
    (heq : byteAt s1 i = byteAt s2 i) (h0 : byteAt s1 i ≠ 0) : SameBefore s1 s2 (i + 1) := by
  intro j hj
  rcases Nat.lt_succ_iff_lt_or_eq.mp hj with hlt | rfl
  · exact h j hlt
  · exact ⟨heq, h0⟩

/-- The loop stops at an index `k` and has inspected the indices up to it: at the first
difference, at a common `NUL`, or where the count has run out. -/
private theorem ustrncmpReadsLoop_stops {s1 s2 : List UInt8} (n : ℕ) {i : ℕ} (log : List ℕ)
    (hsame : SameBefore s1 s2 i) :
    (ustrncmpReadsLoop s1 s2 n i).Ensures log fun r new =>
      ∃ k, i ≤ k ∧ k ≤ i + n ∧ SameBefore s1 s2 k ∧
        (k < i + n → byteAt s1 k = byteAt s2 k → byteAt s1 k = 0) ∧
        r = (byteAt s1 k).toNat - (byteAt s2 k).toNat ∧ ∀ j, j ∈ new ↔ i ≤ j ∧ j ≤ k := by
  have hself (i j : ℕ) : j ∈ ([] ++ [i] : List ℕ) ↔ i ≤ j ∧ j ≤ i := by
    rw [List.nil_append, List.mem_singleton]
    omega
  induction n generalizing i log with
  | zero =>
    exact ⟨i, le_rfl, le_rfl, hsame, fun h => absurd h (Nat.lt_irrefl i), rfl, hself i⟩
  | succ n ih =>
    refine Traced.ensures_bind.mpr (Traced.ensures_emit.mpr ?_)
    refine Traced.ensures_ite (fun heq => Traced.ensures_ite (fun h0 => ?_) fun h0 => ?_)
      fun hne => ?_
    · refine ⟨i, le_rfl, by omega, hsame, fun _ _ => h0, ?_, hself i⟩
      rw [← heq, sub_self]
      rfl
    · obtain ⟨k, hik, hkn, hk, hstop, hr, hreads⟩ := ih ([i] ++ log) (hsame.succ heq h0)
      refine ⟨k, by omega, by omega, hk, fun h => hstop (by omega), hr, fun j => ?_⟩
      rw [List.mem_append, hreads, List.mem_singleton]
      omega
    · exact ⟨i, le_rfl, by omega, hsame, fun _ heq => absurd heq hne, rfl, hself i⟩

/-- A comparison of at least one byte stops at an index `k`, as its loop does. -/
theorem ustrncmp_stops (s1 s2 : List UInt8) {n : ℕ} (hn : 0 < n) :
    ∃ k ≤ n, SameBefore s1 s2 k ∧ (k < n → byteAt s1 k = byteAt s2 k → byteAt s1 k = 0) ∧
      ustrncmp s1 s2 n = (byteAt s1 k).toNat - (byteAt s2 k).toNat ∧
      ∀ j, j ∈ ((ustrncmpReads s1 s2 n).run []).2 ↔ j ≤ k := by
  have hstart : SameBefore s1 s2 0 := fun j hj => absurd hj (Nat.not_lt_zero j)
  obtain ⟨k, -, hkn, hk, hstop, hr, hreads⟩ := ustrncmpReadsLoop_stops n [] hstart
  rw [Nat.zero_add] at hkn hstop
  refine ⟨k, hkn, hk, hstop, ?_, fun j => ?_⟩
  · rw [← run_ustrncmpReads s1 s2 n [], ustrncmpReads, if_neg hn.ne', hr]
  · rw [ustrncmpReads, if_neg hn.ne', hreads, and_iff_right (Nat.zero_le j)]

/-- What `strncmp` promises for the first `n` bytes: the result is zero exactly when these are
equal, up to a common `NUL`; else it has the sign of the first difference; and no byte at index
`n` or beyond is inspected. -/
structure AgreesWithStrncmp (s1 s2 : List UInt8) (n : ℕ) : Prop where
  zero : ustrncmp s1 s2 n = 0 ↔ ∀ i < n, SameBefore s1 s2 i → byteAt s1 i = byteAt s2 i
  sign : ∀ i < n, SameBefore s1 s2 i → byteAt s1 i ≠ byteAt s2 i →
    (ustrncmp s1 s2 n).sign = ((byteAt s1 i).toNat - (byteAt s2 i).toNat : ℤ).sign
  inside : ∀ i ∈ ((ustrncmpReads s1 s2 n).run []).2, i < n

/-- **`ustrncmp` is `strncmp` except when the count runs out**, that is, when the first `n` bytes
are equal without a `NUL` among them: the bytes at index `n` are then compared as well. -/
theorem ustrncmp_agrees_iff (s1 s2 : List UInt8) (n : ℕ) :
    AgreesWithStrncmp s1 s2 n ↔ n = 0 ∨ ¬SameBefore s1 s2 n := by
  obtain rfl | hn := Nat.eq_zero_or_pos n
  · refine iff_of_true ⟨?_, fun i hi => absurd hi (Nat.not_lt_zero i), ?_⟩ (.inl rfl)
    · exact iff_of_true rfl fun i hi => absurd hi (Nat.not_lt_zero i)
    · exact fun i hi => absurd hi List.not_mem_nil
  rw [or_iff_right hn.ne']
  obtain ⟨k, hkn, hk, hstop, hr, hreads⟩ := ustrncmp_stops s1 s2 hn
  constructor
  · -- When the count runs out, the loop stops at index `n`.
    intro h hsame
    obtain hlt | rfl := Nat.lt_or_eq_of_le hkn
    · exact (hsame k hlt).2 (hstop hlt (hsame k hlt).1)
    · exact absurd (h.inside k ((hreads k).mpr le_rfl)) (Nat.lt_irrefl k)
  · intro hout
    have hlt : k < n := Nat.lt_of_le_of_ne hkn fun h => hout (h ▸ hk)
    -- No index after `k` has equal bytes before it.
    have hle (i : ℕ) (hi : SameBefore s1 s2 i) : i ≤ k :=
      Nat.le_of_not_lt fun h => (hi k h).2 (hstop hlt (hi k h).1)
    have hzero : ustrncmp s1 s2 n = 0 ↔ byteAt s1 k = byteAt s2 k := by
      rw [hr, sub_eq_zero, Nat.cast_inj, UInt8.toNat_inj]
    refine ⟨hzero.trans ⟨fun heq i _ hi => ?_, fun h => h k hlt hk⟩, fun i _ hi hne => ?_,
      fun i hi => ((hreads i).mp hi).trans_lt hlt⟩
    · obtain hik | rfl := Nat.lt_or_eq_of_le (hle i hi)
      · exact (hk i hik).1
      · exact heq
    · obtain hik | rfl := Nat.lt_or_eq_of_le (hle i hi)
      · exact absurd (hk i hik).1 hne
      · rw [hr]

/-- The first bytes of `ab` and `ac` are equal, and yet `ustrncmp` tells them apart. -/
theorem ustrncmp_first_byte :
    ¬∀ (s1 s2 : List UInt8) (n : ℕ), AgreesWithStrncmp s1 s2 n := by
  intro h
  have heq : ustrncmp [97, 98] [97, 99] 1 = 0 := by
    rw [(h [97, 98] [97, 99] 1).zero]
    intro i hi _
    rw [Nat.lt_one_iff.mp hi]
    rfl
  exact absurd heq (by decide)

end SimpleCDatabase
