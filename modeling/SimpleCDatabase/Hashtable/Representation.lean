import SimpleCDatabase.Hashtable.LockBounds

/-!
# The representation over whole runs

The counter of a table counts its entries, each entry lies in the bucket of its key, and its key is
terminated, in every state that a run of calls reaches. The operations alone see to that; but a call
that locks memory behind the array of locks may overwrite a slot, and the law is not kept then.

## Main definitions

* `Hashtable.Represented`: the law.
* `TableCall.Defined`: the calls that find what they use in the arrays of the table.
* `RunReaches`: the tables that a run of such calls reaches.

## Main results

* `runTable_representation`: the law is kept, with no lock outside the array, exactly in the runs
  whose calls find their locks.

## References

* `src/hashtable.c`, the operations that write.
-/

namespace SimpleCDatabase

open Buckets Hashtable

variable {α : Type}

/-- The law of a table: the element counter is the number of slots in use, and at most the number of
slots; a slot in use lies in the bucket of its masked hash, and its key has a `NUL` among its
bytes. -/
structure Hashtable.Represented (t : Hashtable α) : Prop where
  count : t.elemCount.toNat = t.inUseCount
  count_le : t.elemCount.toNat ≤ 8 * t.bucketsCount.toNat
  placed : ∀ i < t.bucketsCount.toNat, ∀ j, (t.buckets i j).inUse = true →
    ((t.buckets i j).hash &&& (t.bucketsCount - 1)).toNat = i
  terminated : ∀ i < t.bucketsCount.toNat, ∀ j, (t.buckets i j).inUse = true →
    0 ∈ (t.buckets i j).key.1 ∧ (t.buckets i j).key.1.length = KEY_MAX_LEN

theorem Hashtable.WellFormed.represented {t : Hashtable α} (ht : t.WellFormed) :
    t.Represented where
  count := ht.count.trans t.card_entries
  count_le := ht.elemCount_le
  placed i hi j hused := ht.placed i hi _ (mem_held.mpr ⟨j, rfl, hused⟩)
  terminated i hi j hused := ⟨ht.terminated _ (mem_contents.mpr
    ⟨i, hi, mem_held.mpr ⟨j, rfl, hused⟩⟩), (t.buckets i j).key.2⟩

/-- The calls that look into the bucket of a key. -/
def TableCall.Keyed : TableCall α → Prop
  | .set .. | .add .. | .replace .. | .delete .. | .get .. | .exist .. => True
  | .clear .. | .resize .. | .memoryUsage .. | .occupiedBucketCounter => False

instance : DecidablePred (TableCall.Keyed : TableCall α → Prop)
  | .set .. | .add .. | .replace .. | .delete .. | .get .. | .exist .. => .isTrue trivial
  | .clear .. | .resize .. | .memoryUsage .. | .occupiedBucketCounter => .isFalse id

/-- A call finds its locks, and the bucket of its key, in the arrays of the table. -/
def TableCall.Defined (env : Env (Event α)) (t : Hashtable α) (log : List (Event α))
    (call : TableCall α) : Prop :=
  call.HasLocks env t log ∧ (t.bucketsCount = 0 → ¬call.Keyed)

instance (env : Env (Event α)) (t : Hashtable α) (log : List (Event α)) :
    DecidablePred (TableCall.Defined env t log) := fun _ => inferInstanceAs (Decidable (_ ∧ _))

/-- The table that a run of calls reaches. A call that does not find its locks in the array would
lock the memory behind it, and one on a key of a table without buckets would read outside the array
of buckets, so no further state is reached by either. -/
structure RunReaches (env : Env (Event α)) (n₀ : UInt64) (calls : List (TableCall α))
    (log : List (Event α)) (t : Hashtable α) : Prop where
  run : ((runTable env n₀ calls).run log).1 = some t
  defined : RunGuarded env (TableCall.Defined env) n₀ calls log

/-- **The representation invariant over whole runs.** The law holds in the state that a run reaches,
and no lock outside the array has been used, exactly when every call of the run finds its locks in
the array. -/
theorem runTable_representation (env : Env (Event α)) (n₀ : UInt64) (calls : List (TableCall α))
    (hn₀ : n₀.toNat ≤ 2 ^ 63) (hcalls : ∀ call ∈ calls, call.Bounded)
    (log : List (Event α)) (t : Hashtable α)
    (hrun : ((runTable env n₀ calls).run log).1 = some t) :
    (t.Represented ∧ LocksInside t.lockCount.toNat ((runTable env n₀ calls).run log).2) ↔
      RunGuarded env (fun t log call => call.HasLocks env t log) n₀ calls log := by
  have ht := runTable_wellFormed hn₀ hcalls hrun
  rw [and_iff_right ht.represented]
  exact runTable_locksInside_iff env n₀ calls log t hrun

/-- Two entries move into one bucket and back into two; one of them is deleted. -/
theorem runTable_representation_moved :
    ∃ t : Hashtable ℕ, ((runTable Env.granting 2 [.set [65] (some ⟨0, 7⟩) true,
        .resize 1, .add [66] none, .resize 2, .delete [66] true]).run []).1 = some t ∧
      t.Represented := by
  refine ⟨_, rfl, ((runTable_representation Env.granting 2 _ (by decide)
    (by simp [TableCall.Bounded]) [] _ rfl).mpr ?_).1⟩
  rintro t ⟨⟩
  decide

/-- The key `B` of a table that has grown from one bucket to two is written under a lock outside the
array: the memory behind the array is not the table's to write. -/
theorem grown_table_not_represented :
    ∃ t : Hashtable ℕ, ((runTable Env.granting 1 [.set [65] (some ⟨0, 7⟩) true, .resize 2,
        .set [66] (some ⟨1, 8⟩) true]).run []).1 = some t ∧
      ¬(t.Represented ∧ LocksInside t.lockCount.toNat ((runTable Env.granting 1
        [.set [65] (some ⟨0, 7⟩) true, .resize 2, .set [66] (some ⟨1, 8⟩) true]).run []).2) := by
  refine ⟨_, rfl, fun h => ?_⟩
  exact absurd h.2 (by decide +kernel)

end SimpleCDatabase
