import Mathlib.Algebra.Order.Group.Int
import Mathlib.Tactic.SplitIfs
import SimpleCDatabase.Foundations.Traced

/-!
# Binary search

The search of the C library, which is given a comparison with the key. The elements need not be
ordered themselves: it is enough that those after an element at or after the key are after it.

## Main definitions

* `bsearch`: the search between two bounds.
* `SortedBy`: the order that it needs.
* `bsearchProbes`: the search with a record of the indices that it compares.

## Main results

* `bsearch_eq_some_iff`: what the search finds in a sorted list.
* `bsearchProbes_ensures`: the record changes nothing, and the search stays between its bounds.
-/

namespace SimpleCDatabase

/-- `bsearch`, on the elements from `lo` to before `hi`; each round halves what is left, so that
`fuel` rounds suffice for `fuel` elements. -/
def bsearch {κ : Type} (compare : κ → ℤ) (base : List κ) : ℕ → ℕ → ℕ → Option ℕ
  | 0, _, _ => none
  | fuel + 1, lo, hi =>
    if lo < hi then
      let idx := (lo + hi) / 2
      match base[idx]? with
      | none => none
      | some element =>
        if compare element < 0 then bsearch compare base fuel lo idx
        else if 0 < compare element then bsearch compare base fuel (idx + 1) hi
        else some idx
    else none

variable {κ : Type} {compare : κ → ℤ} {base : List κ}

/-- The elements come in the order of the comparison with a key: from an element that is not
before the key on, all are after it. -/
def SortedBy (compare : κ → ℤ) (base : List κ) : Prop :=
  base.Pairwise fun a b => compare a ≤ 0 → compare b < 0

theorem SortedBy.compare_neg (h : SortedBy compare base) {i j : ℕ} {a b : κ} (hij : i < j)
    (ha : base[i]? = some a) (hb : base[j]? = some b) (hle : compare a ≤ 0) : compare b < 0 := by
  obtain ⟨hi, rfl⟩ := List.getElem?_eq_some_iff.mp ha
  obtain ⟨hj, rfl⟩ := List.getElem?_eq_some_iff.mp hb
  exact List.pairwise_iff_getElem.mp h i j hi hj hij hle

theorem SortedBy.compare_neg_of_le (h : SortedBy compare base) {i j : ℕ} {a b : κ}
    (hij : i ≤ j) (ha : base[i]? = some a) (hb : base[j]? = some b) (hneg : compare a < 0) :
    compare b < 0 := by
  obtain hlt | rfl := Nat.lt_or_eq_of_le hij
  · exact h.compare_neg hlt ha hb hneg.le
  · rwa [← Option.some_inj.mp (ha.symm.trans hb)]

theorem SortedBy.compare_nonpos_of_le (h : SortedBy compare base) {i j : ℕ} {a b : κ}
    (hij : i ≤ j) (ha : base[i]? = some a) (hb : base[j]? = some b) (hle : compare a ≤ 0) :
    compare b ≤ 0 := by
  obtain hlt | rfl := Nat.lt_or_eq_of_le hij
  · exact (h.compare_neg hlt ha hb hle).le
  · rwa [← Option.some_inj.mp (ha.symm.trans hb)]

/-- **Binary search** finds, between `lo` and `hi`, the element that compares equal. -/
theorem bsearch_eq_some_iff (hsorted : SortedBy compare base) {fuel lo hi : ℕ}
    (hfuel : hi - lo ≤ fuel) (hhi : hi ≤ base.length) {i : ℕ} :
    bsearch compare base fuel lo hi = some i ↔
      lo ≤ i ∧ i < hi ∧ ∃ element, base[i]? = some element ∧ compare element = 0 := by
  induction fuel generalizing lo hi with
  | zero =>
    rw [bsearch]
    refine iff_of_false (Option.some_ne_none i).symm ?_
    rintro ⟨hlo, hlt, -⟩
    omega
  | succ fuel ih =>
    rw [bsearch]
    by_cases hlt : lo < hi
    swap
    · rw [if_neg hlt]
      refine iff_of_false (Option.some_ne_none i).symm ?_
      rintro ⟨hlo, hi', -⟩
      omega
    obtain ⟨idx, hidx⟩ : ∃ idx, idx = (lo + hi) / 2 := ⟨_, rfl⟩
    obtain ⟨element, hmid⟩ : ∃ element, base[idx]? = some element :=
      ⟨_, List.getElem?_eq_getElem (by omega)⟩
    simp only [if_pos hlt, ← hidx, hmid]
    split_ifs with hneg hpos
    · -- The key is before the middle element, and so before all that follow.
      rw [ih (by omega) (by omega)]
      refine and_congr_right fun hlo => ⟨fun ⟨h, hfound⟩ => ⟨by omega, hfound⟩, ?_⟩
      rintro ⟨-, b, hb, hzero⟩
      refine ⟨Nat.lt_of_not_le fun hle => ?_, b, hb, hzero⟩
      have hafter := hsorted.compare_neg_of_le hle hmid hb hneg
      omega
    · -- The key is after the middle element, and so after all that precede.
      rw [ih (by omega) hhi]
      refine ⟨fun ⟨h, hfound⟩ => ⟨by omega, hfound⟩, ?_⟩
      rintro ⟨hlo, hi', b, hb, hzero⟩
      refine ⟨Nat.succ_le_of_lt (Nat.lt_of_not_le fun hle => ?_), hi', b, hb, hzero⟩
      have hafter := hsorted.compare_nonpos_of_le hle hb hmid hzero.le
      omega
    · have hzero : compare element = 0 := by omega
      rw [Option.some_inj]
      refine ⟨?_, ?_⟩
      · rintro rfl
        exact ⟨by omega, by omega, element, hmid, hzero⟩
      · rintro ⟨-, -, b, hb, hb0⟩
        rcases Nat.lt_trichotomy idx i with hi' | hi' | hi'
        · exact absurd (hsorted.compare_neg hi' hmid hb hzero.le) hb0.not_lt
        · exact hi'
        · exact absurd (hsorted.compare_neg hi' hb hmid hb0.le) hzero.not_lt

/-- The binary search with a record of the indices of the elements that it compares. -/
def bsearchProbes (compare : κ → ℤ) (base : List κ) : ℕ → ℕ → ℕ → Traced ℕ (Option ℕ)
  | 0, _, _ => pure none
  | fuel + 1, lo, hi =>
    if lo < hi then
      let idx := (lo + hi) / 2
      match base[idx]? with
      | none => pure none
      | some element => do
        Traced.emit idx
        if compare element < 0 then bsearchProbes compare base fuel lo idx
        else if 0 < compare element then bsearchProbes compare base fuel (idx + 1) hi
        else pure (some idx)
    else pure none

/-- The record does not change the result, and the search stays between its bounds. -/
theorem bsearchProbes_ensures (compare : κ → ℤ) (base : List κ) (fuel lo hi : ℕ) (log : List ℕ) :
    (bsearchProbes compare base fuel lo hi).Ensures log fun r new =>
      r = bsearch compare base fuel lo hi ∧ ∀ i ∈ new, lo ≤ i ∧ i < hi := by
  induction fuel generalizing lo hi log with
  | zero => exact ⟨rfl, fun i hi => absurd hi List.not_mem_nil⟩
  | succ fuel ih =>
    have hstop (r : Option ℕ) : (pure r : Traced ℕ (Option ℕ)).Ensures log fun r' new =>
        r' = r ∧ ∀ i ∈ new, lo ≤ i ∧ i < hi := ⟨rfl, fun i hi => absurd hi List.not_mem_nil⟩
    rw [bsearchProbes, bsearch]
    split_ifs with hlt
    swap
    · exact hstop none
    obtain ⟨idx, hidx⟩ : ∃ idx, idx = (lo + hi) / 2 := ⟨_, rfl⟩
    simp only [← hidx]
    cases base[idx]? with
    | none => exact hstop none
    | some element =>
      refine Traced.ensures_bind.mpr (Traced.ensures_emit.mpr ?_)
      have hmid : lo ≤ idx ∧ idx < hi := by omega
      dsimp only
      split_ifs with hneg hpos
      · refine (ih lo idx _).mono fun r new ⟨hr, hnew⟩ => ⟨hr, fun i hi => ?_⟩
        rcases List.mem_append.mp hi with hi | hi
        · exact ⟨(hnew i hi).1, (hnew i hi).2.trans hmid.2⟩
        · rwa [List.mem_singleton.mp hi]
      · refine (ih (idx + 1) hi _).mono fun r new ⟨hr, hnew⟩ => ⟨hr, fun i hi => ?_⟩
        rcases List.mem_append.mp hi with hi | hi
        · exact ⟨hmid.1.trans (Nat.le_of_succ_le (hnew i hi).1), (hnew i hi).2⟩
        · rwa [List.mem_singleton.mp hi]
      · refine ⟨rfl, fun i hi => ?_⟩
        rwa [List.mem_singleton.mp hi]

/-- Elements beyond the upper bound do not matter. -/
theorem bsearch_map_append {ι : Type} (f : κ → ι) (compare : ι → ℤ) (base : List κ) (tail : List ι)
    (fuel lo : ℕ) {hi : ℕ} (hhi : hi ≤ base.length) :
    bsearch compare (base.map f ++ tail) fuel lo hi = bsearch (compare ∘ f) base fuel lo hi := by
  induction fuel generalizing lo hi with
  | zero => rfl
  | succ fuel ih =>
    rw [bsearch, bsearch]
    by_cases hlt : lo < hi
    · obtain ⟨idx, hidx⟩ : ∃ idx, idx = (lo + hi) / 2 := ⟨_, rfl⟩
      obtain ⟨element, hmid⟩ : ∃ element, base[idx]? = some element :=
        ⟨_, List.getElem?_eq_getElem (by omega)⟩
      have hmid' : (base.map f ++ tail)[idx]? = some (f element) := by
        rw [List.getElem?_append_left (by rw [List.length_map]; omega), List.getElem?_map, hmid]
        rfl
      simp only [← hidx, hmid, hmid', Function.comp_apply]
      rw [ih lo (by omega), ih (idx + 1) hhi]
    · rw [if_neg hlt, if_neg hlt]

end SimpleCDatabase
