import Mathlib.Algebra.BigOperators.Group.Finset.Basic
import Mathlib.Algebra.Order.BigOperators.Group.Finset
import Mathlib.Algebra.BigOperators.Fin
import Mathlib.Data.Multiset.Filter

/-!
# Arrays of buckets and their contents

A bucket is an array of `w` cells, some of which are in use. What a bucket, or an array of
buckets, holds is the multiset of its cells in use; this forgets where a cell lies, so that a
reorganisation of the array which loses and duplicates nothing leaves it unchanged. When every
cell has a home bucket and lies there, the contents determine what each bucket holds.

## Main definitions

* `Buckets.occupant`, `Buckets.held`, `Buckets.contents`: what a cell, a bucket, an array of
  buckets holds.
* `Buckets.Placed`: every cell in use lies in its home bucket.

## Main results

* `Buckets.held_update`, `Buckets.contents_update`: the exchange law of one cell.
* `Buckets.card_held_le`, `Buckets.card_held_eq_iff`: a bucket holds at most `w` cells, and
  exactly `w` when all of them are in use.
* `Buckets.filter_contents`: the cells with home `i` are those that bucket `i` holds.
-/

namespace Buckets

variable {κ : Type} (used : κ → Bool) {w : ℕ}

/-- What one cell holds: itself when it is in use. -/
def occupant (c : κ) : Multiset κ := if used c then {c} else 0

/-- The cells in use of a bucket. -/
def held (b : Fin w → κ) : Multiset κ := ∑ j, occupant used (b j)

/-- The cells in use of the first `n` buckets. -/
def contents (bs : ℕ → Fin w → κ) (n : ℕ) : Multiset κ := ∑ i ∈ Finset.range n, held used (bs i)

variable {used}

theorem occupant_of_used {c : κ} (h : used c = true) : occupant used c = {c} := if_pos h

theorem occupant_of_unused {c : κ} (h : used c = false) : occupant used c = 0 := by
  simp [occupant, h]

theorem mem_occupant {c d : κ} : d ∈ occupant used c ↔ d = c ∧ used c = true := by
  cases h : used c <;> simp [occupant, h]

theorem mem_held {b : Fin w → κ} {c : κ} : c ∈ held used b ↔ ∃ j, b j = c ∧ used c = true := by
  simp only [held, Multiset.mem_sum, Finset.mem_univ, true_and, mem_occupant]
  constructor
  · rintro ⟨j, rfl, hj⟩
    exact ⟨j, rfl, hj⟩
  · rintro ⟨j, rfl, hj⟩
    exact ⟨j, rfl, hj⟩

theorem mem_contents {bs : ℕ → Fin w → κ} {n : ℕ} {c : κ} :
    c ∈ contents used bs n ↔ ∃ i < n, c ∈ held used (bs i) := by
  simp only [contents, Multiset.mem_sum, Finset.mem_range]

theorem contents_eq_zero {bs : ℕ → Fin w → κ} {n : ℕ}
    (h : ∀ i < n, ∀ j, used (bs i j) = false) : contents used bs n = 0 :=
  Finset.sum_eq_zero fun i hi => Finset.sum_eq_zero fun j _ =>
    occupant_of_unused (h i (Finset.mem_range.mp hi) j)

/-! ### Replacing a cell -/

private theorem sum_update_add {ι β : Type} [DecidableEq ι] {s : Finset ι} {i : ι} (hi : i ∈ s)
    (f : ι → β) (g : β → Multiset κ) (b : β) :
    ∑ k ∈ s, g (Function.update f i b k) + g (f i) = ∑ k ∈ s, g (f k) + g b := by
  have hcomp : (fun k => g (Function.update f i b k)) =
      Function.update (fun k => g (f k)) i (g b) := Function.comp_update g f i b
  rw [hcomp, Finset.sum_update_of_mem hi, Finset.sdiff_singleton_eq_erase,
    ← Finset.sum_erase_add s (fun k => g (f k)) hi, add_assoc, add_comm (g b)]

variable (used)

/-- Replacing a cell of a bucket exchanges its old occupant for the new one. -/
theorem held_update (b : Fin w → κ) (j : Fin w) (c : κ) :
    held used (Function.update b j c) + occupant used (b j) = held used b + occupant used c :=
  sum_update_add (Finset.mem_univ j) b (occupant used) c

/-- Replacing a bucket of an array exchanges what it holds. -/
theorem contents_update (bs : ℕ → Fin w → κ) {n i : ℕ} (hi : i < n) (b : Fin w → κ) :
    contents used (Function.update bs i b) n + held used (bs i) =
      contents used bs n + held used b :=
  sum_update_add (Finset.mem_range.mpr hi) bs (held used) b

/-- Replacing one cell of an array exchanges its old occupant for the new one. -/
theorem contents_update_cell (bs : ℕ → Fin w → κ) {n i : ℕ} (hi : i < n) (j : Fin w) (c : κ) :
    contents used (Function.update bs i (Function.update (bs i) j c)) n +
        occupant used (bs i j) = contents used bs n + occupant used c := by
  have harray := contents_update used bs hi (Function.update (bs i) j c)
  have hbucket := held_update used (bs i) j c
  refine add_right_cancel (b := held used (bs i)) ?_
  calc contents used (Function.update bs i (Function.update (bs i) j c)) n +
          occupant used (bs i j) + held used (bs i)
      = contents used bs n + (held used (Function.update (bs i) j c) +
          occupant used (bs i j)) := by rw [add_right_comm, harray, add_assoc]
    _ = contents used bs n + occupant used c + held used (bs i) := by
      rw [hbucket, add_assoc, add_comm (held used (bs i))]

variable {used}

/-! ### Counting -/

theorem card_occupant (c : κ) : (occupant used c).card = if used c then 1 else 0 := by
  cases h : used c <;> simp [occupant, h]

theorem card_held (b : Fin w → κ) :
    (held used b).card = (Finset.univ.filter fun j => used (b j) = true).card := by
  rw [held, Multiset.card_sum, Finset.card_filter]
  exact Finset.sum_congr rfl fun j _ => card_occupant (b j)

theorem card_held_le (b : Fin w → κ) : (held used b).card ≤ w := by
  rw [card_held]
  exact (Finset.card_filter_le _ _).trans_eq (Finset.card_fin w)

/-- A bucket holds `w` cells exactly when all of them are in use. -/
theorem card_held_eq_iff (b : Fin w → κ) :
    (held used b).card = w ↔ ∀ j, used (b j) = true := by
  have hcard : (Finset.univ : Finset (Fin w)).card = w := Finset.card_fin w
  rw [card_held]
  constructor
  · intro h j
    have hall := Finset.eq_of_subset_of_card_le (Finset.filter_subset (fun j => used (b j) = true)
      Finset.univ) (by rw [h, hcard])
    have hj : j ∈ Finset.univ.filter fun j => used (b j) = true := by
      rw [hall]
      exact Finset.mem_univ j
    exact (Finset.mem_filter.mp hj).2
  · intro h
    rw [Finset.filter_true_of_mem fun j _ => h j, hcard]

theorem card_contents (bs : ℕ → Fin w → κ) (n : ℕ) :
    (contents used bs n).card = ∑ i ∈ Finset.range n, (held used (bs i)).card := by
  rw [contents, Multiset.card_sum]

theorem card_contents_le (bs : ℕ → Fin w → κ) (n : ℕ) :
    (contents used bs n).card ≤ n * w := by
  rw [card_contents]
  calc ∑ i ∈ Finset.range n, (held used (bs i)).card
      ≤ ∑ _i ∈ Finset.range n, w := Finset.sum_le_sum fun i _ => card_held_le (bs i)
    _ = n * w := by rw [Finset.sum_const, Finset.card_range, smul_eq_mul]

/-! ### Home buckets -/

/-- Every cell in use of the first `n` buckets lies in its home bucket. -/
def Placed (used : κ → Bool) (home : κ → ℕ) (bs : ℕ → Fin w → κ) (n : ℕ) : Prop :=
  ∀ i < n, ∀ c ∈ held used (bs i), home c = i

private theorem filter_sum {ι : Type} (p : κ → Prop) [DecidablePred p] (s : Finset ι)
    (f : ι → Multiset κ) : (∑ k ∈ s, f k).filter p = ∑ k ∈ s, (f k).filter p := by
  classical
  induction s using Finset.induction_on with
  | empty => simp
  | insert k s hk ih => rw [Finset.sum_insert hk, Finset.sum_insert hk, Multiset.filter_add, ih]

/-- In a placed array, the cells with home `i` are those that bucket `i` holds. -/
theorem filter_contents {home : κ → ℕ} {bs : ℕ → Fin w → κ} {n i : ℕ}
    (hbs : Placed used home bs n) (hi : i < n) :
    (contents used bs n).filter (fun c => home c = i) = held used (bs i) := by
  have hbucket : ∀ k ∈ Finset.range n,
      (held used (bs k)).filter (fun c => home c = i) = if k = i then held used (bs i) else 0 := by
    intro k hk
    have hhome := hbs k (Finset.mem_range.mp hk)
    split_ifs with hki
    · subst hki
      exact Multiset.filter_eq_self.mpr hhome
    · exact Multiset.filter_eq_nil.mpr fun c hc h => hki ((hhome c hc).symm.trans h)
  rw [contents, filter_sum, Finset.sum_congr rfl hbucket, Finset.sum_ite_eq',
    if_pos (Finset.mem_range.mpr hi)]

/-- A cell replaced by one with the same home, or by one not in use, leaves the array placed. -/
theorem Placed.update_cell {home : κ → ℕ} {bs : ℕ → Fin w → κ} {n i : ℕ}
    (hbs : Placed used home bs n) (j : Fin w) {c : κ} (hc : used c = true → home c = i) :
    Placed used home (Function.update bs i (Function.update (bs i) j c)) n := by
  intro k hk d hd
  by_cases hki : k = i
  · subst hki
    obtain ⟨m, hm, hused⟩ := mem_held.mp (Function.update_self k _ bs ▸ hd)
    by_cases hmj : m = j
    · subst hmj
      rw [Function.update_self] at hm
      exact hm ▸ hc (hm ▸ hused)
    · rw [Function.update_of_ne hmj] at hm
      exact hbs k hk d (mem_held.mpr ⟨m, hm, hused⟩)
  · exact hbs k hk d (Function.update_of_ne hki _ bs ▸ hd)

end Buckets
