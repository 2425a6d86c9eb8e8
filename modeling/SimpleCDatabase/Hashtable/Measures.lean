import SimpleCDatabase.Hashtable.Sizes

/-!
# What the monitoring operations measure

The memory of a table is summed up under all read locks, in `size_t`; the number of buckets with
an entry is counted under one lock after another. Both are compared with the same quantities of
the contents of the table, as natural numbers.

## Main definitions

* `ReadLocksGranted`: the environment grants the read locks of all buckets.
* `Hashtable.memoryUse`, `Hashtable.occupiedBuckets`: the quantities that are measured.

## Main results

* `tableMemoryUsage_toNat`: the memory, modulo `2 ^ 64`.
* `tableOccupiedBucketCounter_value`: the fraction of buckets with an entry.

## References

* `src/hashtable.c`, `table_memory_usage` and `table_occupied_bucket_counter`.
-/

namespace SimpleCDatabase

open Buckets Hashtable

variable {α : Type}

/-! ### Quantities -/

namespace Hashtable

variable (t : Hashtable α)

/-- The bytes of a table: its record, its buckets, its locks and the values that it stores. -/
def memoryUse (valueSizer : α → ℕ) : ℕ :=
  SIZEOF_HASHTABLE + t.bucketsCount.toNat * SIZEOF_BUCKET + t.lockCount.toNat * SIZEOF_RWLOCK +
    (t.values.map fun b => valueSizer b.val).sum

/-- The number of buckets with a slot in use. -/
def occupiedBuckets : ℕ :=
  (List.range t.bucketsCount.toNat).countP fun i => decide (∃ j, (t.buckets i j).inUse = true)

end Hashtable

/-! ### The memory of a table -/

section Memory

variable {env : Env (Event α)} {log : List (Event α)} {t : Hashtable α}

/-- The environment grants the read locks below `n`, one after another. -/
def ReadLocksGranted (env : Env (Event α)) (log : List (Event α)) (n : ℕ) : Prop :=
  ∀ i < n, env.lock (acquiredLog .rdlock (List.range i) log) i = true

instance (env : Env (Event α)) (log : List (Event α)) (n : ℕ) :
    Decidable (ReadLocksGranted env log n) :=
  inferInstanceAs (Decidable (∀ i < n, _))

/-- The read locks are acquired exactly when all of them are granted. -/
theorem lockAll_rdlock (env : Env (Event α)) (log : List (Event α)) (n : ℕ) :
    ((lockAll (rdlock env) [] (List.range n)).run log).1 = decide (ReadLocksGranted env log n) := by
  by_cases h : ReadLocksGranted env log n
  · have hall : (lockAll (rdlock env) [] (List.range n)).run log = (true, _) :=
      lockAll_range_granted .rdlock h
    rw [hall, decide_eq_true h]
  · obtain ⟨i, hi, hdenied⟩ : ∃ i, i < n ∧
        env.lock (acquiredLog .rdlock (List.range i) log) i = false := by
      simpa [ReadLocksGranted] using h
    rw [decide_eq_false h]
    exact lockAll_range_denied .rdlock hi hdenied

/-- The loop over the values adds up their sizes, in `size_t`. -/
theorem sumValueSizes_value (t : Hashtable α) (valueSizer : α → ℕ) (totalSize : UInt64)
    (l : List (ℕ × Fin BUCKET_CAPACITY)) (log : List (Event α)) :
    ((sumValueSizes t valueSizer totalSize l).run log).1 =
      totalSize + UInt64.ofNat
        ((valuesOf (gathered t l)).map fun b => valueSizer b.val).sum := by
  induction l generalizing totalSize log with
  | nil =>
    simp [sumValueSizes]
  | cons p l ih =>
    simp only [sumValueSizes, readSlot, Traced.run_bind, Traced.run_emit, Traced.run_pure]
    cases hused : (t.buckets p.1 p.2).inUse with
    | false =>
      rw [gathered_cons, occupant_of_unused hused, zero_add]
      exact ih totalSize _
    | true =>
      rw [gathered_cons, occupant_of_used hused, valuesOf_add, valuesOf_singleton]
      cases hvalue : (t.buckets p.1 p.2).value with
      | none =>
        rw [Option.toList_none, Multiset.coe_nil, zero_add]
        exact ih totalSize _
      | some b =>
        have hsum : (Multiset.map (fun b => valueSizer b.val) (([b] : Multiset (Block α)) +
            valuesOf (gathered t l))).sum =
              valueSizer b.val + ((valuesOf (gathered t l)).map fun b => valueSizer b.val).sum := by
          simp
        rw [Option.toList_some, hsum, UInt64.ofNat_add, ← UInt64.add_assoc]
        exact ih _ _

/-- **The memory of a table** is measured modulo `2 ^ 64`, when all read locks are granted. -/
theorem tableMemoryUsage_toNat (env : Env (Event α)) (t : Hashtable α) (valueSizer : α → ℕ)
    (log : List (Event α)) :
    ((tableMemoryUsage env t (some valueSizer)).run log).1.toNat =
      if ReadLocksGranted env log t.bucketsCount.toNat then t.memoryUse valueSizer % 2 ^ 64
      else 2 ^ 64 - 1 := by
  have hlocks := lockAll_rdlock env log t.bucketsCount.toNat
  simp only [tableMemoryUsage, Traced.run_bind, hlocks]
  by_cases h : ReadLocksGranted env log t.bucketsCount.toNat
  · simp only [h, decide_true, if_true, Traced.run_bind, Traced.run_pure, sumValueSizes_value,
      gathered_allSlots]
    have hfixed : UInt64.ofNat SIZEOF_HASHTABLE + t.bucketsCount * UInt64.ofNat SIZEOF_BUCKET +
        t.lockCount * UInt64.ofNat SIZEOF_RWLOCK + UInt64.ofNat
          ((valuesOf (contents Slot.inUse t.buckets t.bucketsCount.toNat)).map
            fun b => valueSizer b.val).sum = UInt64.ofNat (t.memoryUse valueSizer) := by
      rw [memoryUse, UInt64.ofNat_add, UInt64.ofNat_add, UInt64.ofNat_add, UInt64.ofNat_mul,
        UInt64.ofNat_mul, UInt64.ofNat_toNat, UInt64.ofNat_toNat]
      rfl
    rw [hfixed, UInt64.toNat_ofNat']
  · simp only [h, decide_false, if_false, Bool.false_eq_true, Traced.run_pure]
    rfl

end Memory

/-! ### Occupied buckets -/

section Occupied

variable (env : Env (Event α)) (t : Hashtable α)

theorem bucketOccupied_value (i : ℕ) (l : List (Fin BUCKET_CAPACITY)) (log : List (Event α)) :
    ((bucketOccupied t i l).run log).1 = l.any fun j => (t.buckets i j).inUse := by
  induction l generalizing log with
  | nil => rfl
  | cons j l ih =>
    simp only [bucketOccupied, readSlot, Traced.run_bind, Traced.run_emit, Traced.run_pure,
      List.any_cons]
    cases (t.buckets i j).inUse with
    | true => rfl
    | false => exact ih _

/-- The loop over the buckets counts those with an entry, if every lock is granted. -/
theorem countOccupied_value (henv : ∀ log i, env.lock log i = true) (occupied : ℕ) (l : List ℕ)
    (log : List (Event α)) :
    ((countOccupied env t occupied l).run log).1 =
      occupied + l.countP fun i => decide (∃ j, (t.buckets i j).inUse = true) := by
  induction l generalizing occupied log with
  | nil => rfl
  | cons i l ih =>
    have hany : (slotIndices.any fun j => (t.buckets i j).inUse) =
        decide (∃ j, (t.buckets i j).inUse = true) := by
      rw [Bool.eq_iff_iff, List.any_eq_true, decide_eq_true_iff]
      exact ⟨fun ⟨j, _, hj⟩ => ⟨j, hj⟩, fun ⟨j, hj⟩ => ⟨j, mem_slotIndices j, hj⟩⟩
    have hlock : (rdlock env i).run log = (true, [.rdlock i true]) := by
      simp only [rdlock, Traced.run_answer, henv]
    simp only [countOccupied, Traced.run_bind, hlock, if_true, bucketOccupied_value, hany, ih,
      List.countP_cons]
    split <;> omega

/-- **The fraction of occupied buckets**, as a `double`, if every lock is granted. -/
theorem tableOccupiedBucketCounter_value (henv : ∀ log i, env.lock log i = true)
    (hbuckets : t.bucketsCount ≠ 0) (log : List (Event α)) :
    ((tableOccupiedBucketCounter env t).run log).1 =
      doubleDiv t.occupiedBuckets t.bucketsCount.toNat := by
  simp only [tableOccupiedBucketCounter, if_neg hbuckets, Traced.run_bind, Traced.run_pure,
    countOccupied_value env t henv, zero_add]
  rfl

end Occupied

end SimpleCDatabase
