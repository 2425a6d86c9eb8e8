import SimpleCDatabase.Foundations.Monitor
import SimpleCDatabase.Hashtable.Measures

/-!
# The locks that a call uses

A lock is named by its index, and `table_resize` leaves the array of locks as it is. So a table that
has grown has buckets without a lock: an operation on one of them locks and unlocks the memory
behind the array, which C leaves undefined. In the model such a lock is an event and changes
nothing. A result about a table is therefore one about the program only as long as every lock that
is used lies in the array. This module says when it does, for one call and for a run.

## Main definitions

* `LocksInside`: the locks used in a stretch of events are among the first `n`.
* `TableCall.HasLocks`: the calls that find the locks they use in the array of the table.

## Main results

* `TableCall.run_within`: a call uses the locks of the table only, when there is one for each
  bucket.
* `TableCall.locksInside_iff`: the locks that a call uses lie in the array exactly when it finds
  them there.
* `runTable_locksInside_iff`: the same for a run.

## References

* `src/hashtable.c`, the operations.
-/

namespace SimpleCDatabase

open Traced Hashtable

variable {α β : Type}

/-- The lock that an event takes, or tries to take, or releases. -/
def Event.usedLock : Event α → Option ℕ
  | .wrlock i _ => some i
  | .rdlock i _ => some i
  | .unlock i => some i
  | _ => none

/-- The locks used in a stretch of events are among the first `n`. -/
def LocksInside (n : ℕ) (new : List (Event α)) : Prop := ∀ e ∈ new, ∀ i ∈ e.usedLock, i < n

instance (n : ℕ) : DecidablePred (LocksInside n : List (Event α) → Prop) := fun new =>
  inferInstanceAs (Decidable (∀ e ∈ new, ∀ i ∈ e.usedLock, i < n))

theorem locksInside_append {n : ℕ} {later earlier : List (Event α)} :
    LocksInside n (later ++ earlier) ↔ LocksInside n later ∧ LocksInside n earlier :=
  List.forall_mem_append

/-- An event that is about no lock. -/
def Event.Lockless : Event α → Prop
  | .malloc .. => True
  | .create _ => True
  | .destroy _ => True
  | .access _ => True
  | _ => False

/-- An event that uses the first `n` locks only, and neither initialises nor destroys one. -/
def Event.Within (n : ℕ) : Event α → Prop
  | .wrlock i _ => i < n
  | .rdlock i _ => i < n
  | .unlock i => i < n
  | .lockInit .. => False
  | .lockDestroy .. => False
  | _ => True

theorem Event.Lockless.within {e : Event α} (h : e.Lockless) (n : ℕ) : e.Within n := by
  cases e with
  | malloc | create | destroy | access => exact trivial
  | _ => exact h.elim

theorem Event.Within.usedLock_lt {n : ℕ} {e : Event α} (h : e.Within n) :
    ∀ i ∈ e.usedLock, i < n := by
  cases e with
  | wrlock i ok | rdlock i ok | unlock i => exact fun _ hi => Option.some_inj.mp hi ▸ h
  | _ => exact fun _ hi => nomatch hi

/-- A computation whose events use the first `n` locks only. -/
theorem locksInside_of_only {n : ℕ} {x : Traced (Event α) β} (h : Only (Event.Within n) x)
    (log : List (Event α)) : LocksInside n (x.run log).2 :=
  fun e he => (h log e he).usedLock_lt

theorem locksInside_of_lockless {x : Traced (Event α) β} (h : Only Event.Lockless x) (n : ℕ)
    (log : List (Event α)) : LocksInside n (x.run log).2 :=
  locksInside_of_only (h.mono fun _ he => he.within n) log

/-! ### Operations -/

section Lockless

variable (env : Env (Event α)) (table : Hashtable α) (i : ℕ)

theorem malloc_lockless (size : ℕ) : Only Event.Lockless (malloc env size) :=
  only_answer fun _ => trivial

theorem calloc_lockless (n size : ℕ) : Only Event.Lockless (calloc env n size) :=
  only_ite (fun _ => (only_emit trivial).bind fun _ => only_pure _) fun _ => malloc_lockless env _

theorem memdup_lockless (src : Block α) (len : ℕ) : Only Event.Lockless (memdup env src len) :=
  (malloc_lockless env len).bind fun _ =>
    only_ite (fun _ => (only_answer fun _ => trivial).bind fun _ => only_pure _)
      fun _ => only_pure _

theorem callDestroyer_lockless (valueDestroyer : Bool) (value : Option (Block α)) :
    Only Event.Lockless (callDestroyer valueDestroyer value) := by
  cases value with
  | none => exact only_pure ()
  | some b => exact only_ite (fun _ => only_emit trivial) fun _ => only_pure ()

theorem readSlot_lockless (j : Fin BUCKET_CAPACITY) : Only Event.Lockless (readSlot table i j) :=
  (only_emit trivial).bind fun _ => only_pure _

theorem writeSlot_lockless (j : Fin BUCKET_CAPACITY) (slot : Slot α) :
    Only Event.Lockless (writeSlot table i j slot) :=
  (only_emit trivial).bind fun _ => only_pure _

theorem findSlot_lockless (hashFull : UInt64) (key : List UInt8)
    (l : List (Fin BUCKET_CAPACITY)) : Only Event.Lockless (findSlot table i hashFull key l) := by
  induction l with
  | nil => exact only_pure none
  | cons j l ih =>
    exact (readSlot_lockless table i j).bind fun _ =>
      only_ite (fun _ => only_pure (some j)) fun _ => ih

theorem findSlotOrEmpty_lockless (hashFull : UInt64) (key : List UInt8)
    (firstEmpty : Option (Fin BUCKET_CAPACITY)) (l : List (Fin BUCKET_CAPACITY)) :
    Only Event.Lockless (findSlotOrEmpty table i hashFull key firstEmpty l) := by
  induction l generalizing firstEmpty with
  | nil => exact only_pure (none, firstEmpty)
  | cons j l ih =>
    exact (readSlot_lockless table i j).bind fun _ =>
      only_ite (fun _ => only_pure (some j, firstEmpty)) fun _ => ih _

theorem findValue_lockless (hashFull : UInt64) (key : List UInt8) :
    Only Event.Lockless (findValue table i hashFull key) := by
  refine (findSlot_lockless table i hashFull key slotIndices).bind fun found => ?_
  cases found with
  | none => exact only_pure none
  | some j => exact (readSlot_lockless table i j).bind fun slot => only_pure slot.value

theorem insertEntry_lockless (j : Fin BUCKET_CAPACITY) (hashFull : UInt64) (key : List UInt8)
    (value : Option (Block α)) :
    Only Event.Lockless (insertEntry table i j hashFull key value) :=
  (readSlot_lockless table i j).bind fun _ =>
    (writeSlot_lockless table i j _).bind fun _ => only_pure _

theorem clearSlots_lockless (valueDestroyer : Bool) (l : List (ℕ × Fin BUCKET_CAPACITY)) :
    Only Event.Lockless (clearSlots valueDestroyer table l) := by
  induction l generalizing table with
  | nil => exact only_pure table
  | cons p l ih =>
    refine (readSlot_lockless table p.1 p.2).bind fun slot => only_ite (fun _ => ?_) fun _ => ih _
    exact (callDestroyer_lockless valueDestroyer slot.value).bind fun _ =>
      (writeSlot_lockless table p.1 p.2 _).bind ih

theorem destroyValues_lockless (l : List (ℕ × Fin BUCKET_CAPACITY)) :
    Only Event.Lockless (destroyValues table l) := by
  induction l with
  | nil => exact only_pure ()
  | cons p l ih =>
    refine (readSlot_lockless table p.1 p.2).bind fun slot => only_ite (fun _ => ?_) fun _ => ih
    exact (callDestroyer_lockless true slot.value).bind fun _ => ih

theorem rehash_lockless (newCapacity : UInt64) (newBuckets : ℕ → Bucket α)
    (l : List (ℕ × Fin BUCKET_CAPACITY)) :
    Only Event.Lockless (rehash table newCapacity newBuckets l) := by
  induction l generalizing newBuckets with
  | nil => exact only_pure (some newBuckets)
  | cons p l ih =>
    refine (readSlot_lockless table p.1 p.2).bind fun slot => only_ite (fun _ => ?_) fun _ => ih _
    dsimp only
    split
    · exact ih _
    · exact only_pure none

theorem sumValueSizes_lockless (valueSizer : α → ℕ) (totalSize : UInt64)
    (l : List (ℕ × Fin BUCKET_CAPACITY)) :
    Only Event.Lockless (sumValueSizes table valueSizer totalSize l) := by
  induction l generalizing totalSize with
  | nil => exact only_pure totalSize
  | cons p l ih =>
    refine (readSlot_lockless table p.1 p.2).bind fun slot => ?_
    split
    · exact ih _
    · exact ih _

theorem bucketOccupied_lockless (l : List (Fin BUCKET_CAPACITY)) :
    Only Event.Lockless (bucketOccupied table i l) := by
  induction l with
  | nil => exact only_pure false
  | cons j l ih =>
    exact (readSlot_lockless table i j).bind fun _ => only_ite (fun _ => only_pure true) fun _ => ih

end Lockless

section Within

variable {n : ℕ}

/-- A computation that is about no lock, and what follows it. -/
private theorem within_bind {γ : Type} {x : Traced (Event α) β} {f : β → Traced (Event α) γ}
    (hx : Only Event.Lockless x) (hf : ∀ b, Only (Event.Within n) (f b)) :
    Only (Event.Within n) (x >>= f) :=
  (hx.mono fun _ he => he.within n).bind hf

private theorem within_release {i : ℕ} (hi : i < n) :
    Only (Event.Within n) (unlock i : Traced (Event α) Unit) :=
  only_emit (show Event.Within n (.unlock i) from hi)

/-- The release of a lock that ends an operation. -/
private theorem within_unlock {i : ℕ} (hi : i < n) (b : β) :
    Only (Event.Within n) (do unlock i; pure b : Traced (Event α) β) :=
  (within_release hi).bind fun _ => only_pure b

private theorem within_wrlock (env : Env (Event α)) {i : ℕ} (hi : i < n) :
    Only (Event.Within n) (wrlock env i) :=
  only_answer fun _ => hi

private theorem within_rdlock (env : Env (Event α)) {i : ℕ} (hi : i < n) :
    Only (Event.Within n) (rdlock env i) :=
  only_answer fun _ => hi

private theorem within_unlockAll {l : List ℕ} (hl : ∀ i ∈ l, i < n) :
    Only (Event.Within n) (unlockAll l : Traced (Event α) Unit) := by
  induction l with
  | nil => exact only_pure ()
  | cons i l ih =>
    exact (within_release (hl i List.mem_cons_self)).bind fun _ =>
      ih fun k hk => hl k (List.mem_cons_of_mem i hk)

private theorem within_lockAll {acquire : ℕ → Traced (Event α) Bool}
    (hacquire : ∀ i < n, Only (Event.Within n) (acquire i)) {acquired l : List ℕ}
    (hacquired : ∀ i ∈ acquired, i < n) (hl : ∀ i ∈ l, i < n) :
    Only (Event.Within n) (lockAll acquire acquired l) := by
  induction l generalizing acquired with
  | nil => exact only_pure true
  | cons i l ih =>
    have hi := hl i List.mem_cons_self
    refine (hacquire i hi).bind fun _ => only_ite (fun _ => ?_) fun _ => ?_
    · refine ih (fun k hk => ?_) fun k hk => hl k (List.mem_cons_of_mem i hk)
      obtain hk | hk := List.mem_append.mp hk
      · exact hacquired k hk
      · exact List.mem_singleton.mp hk ▸ hi
    · exact (within_unlockAll hacquired).bind fun _ => only_pure false

/-- An operation under the first `m` locks. -/
private theorem within_lockedAll {acquire : ℕ → Traced (Event α) Bool} {m : ℕ} (hm : m ≤ n)
    (hacquire : ∀ i < n, Only (Event.Within n) (acquire i)) {body : Traced (Event α) β} {r : β}
    (hbody : Only (Event.Within n) body) :
    Only (Event.Within n)
      (do if ← lockAll acquire [] (List.range m) then body else pure r) :=
  (within_lockAll hacquire (by simp) fun _ hi => (List.mem_range.mp hi).trans_le hm).bind fun _ =>
    only_ite (fun _ => hbody) fun _ => only_pure r

private theorem within_unlockedAll {m : ℕ} (hm : m ≤ n) (b : β) :
    Only (Event.Within n) (do unlockAll (List.range m); pure b : Traced (Event α) β) :=
  (within_unlockAll fun _ hi => (List.mem_range.mp hi).trans_le hm).bind fun _ => only_pure b

variable (env : Env (Event α)) {t : Hashtable α} {key : List UInt8}
  (hi : t.bucketIndex (hash key) < n)

include hi

theorem tableSet_within (value : Option (Block α)) (d : Bool) :
    Only (Event.Within n) (tableSet env t key value d) := by
  refine only_ite (fun _ => only_pure _) fun _ => (within_wrlock env hi).bind fun _ =>
    only_ite (fun _ => ?_) fun _ => only_pure _
  refine within_bind (findSlotOrEmpty_lockless t _ _ key none slotIndices) fun found => ?_
  obtain ⟨_ | j, firstEmpty⟩ := found
  · cases firstEmpty with
    | none => exact within_unlock hi _
    | some j =>
      exact within_bind (insertEntry_lockless t _ j _ key value) fun _ => within_unlock hi _
  · exact within_bind (readSlot_lockless t _ j) fun slot =>
      within_bind (callDestroyer_lockless d slot.value) fun _ =>
        within_bind (writeSlot_lockless t _ j _) fun _ => within_unlock hi _

theorem tableAdd_within (value : Option (Block α)) :
    Only (Event.Within n) (tableAdd env t key value) := by
  refine (within_wrlock env hi).bind fun _ => only_ite (fun _ => ?_) fun _ => only_pure _
  refine within_bind (findSlotOrEmpty_lockless t _ _ key none slotIndices) fun found => ?_
  obtain ⟨_ | j, firstEmpty⟩ := found
  · cases firstEmpty with
    | none => exact within_unlock hi _
    | some j =>
      exact within_bind (insertEntry_lockless t _ j _ key value) fun _ => within_unlock hi _
  · exact within_unlock hi _

theorem tableReplace_within (value : Option (Block α)) (d : Bool) :
    Only (Event.Within n) (tableReplace env t key value d) := by
  refine (within_wrlock env hi).bind fun _ => only_ite (fun _ => ?_) fun _ => only_pure _
  refine within_bind (findSlot_lockless t _ _ key slotIndices) fun found => ?_
  cases found with
  | none => exact within_unlock hi _
  | some j =>
    exact within_bind (readSlot_lockless t _ j) fun slot =>
      within_bind (callDestroyer_lockless d slot.value) fun _ =>
        within_bind (writeSlot_lockless t _ j _) fun _ => within_unlock hi _

theorem tableDelete_within (d : Bool) :
    Only (Event.Within n) (tableDelete env t key d) := by
  refine (within_wrlock env hi).bind fun _ => only_ite (fun _ => ?_) fun _ => only_pure _
  refine within_bind (findSlot_lockless t _ _ key slotIndices) fun found => ?_
  cases found with
  | none => exact within_unlock hi _
  | some j =>
    exact within_bind (readSlot_lockless t _ j) fun slot =>
      within_bind (callDestroyer_lockless d slot.value) fun _ =>
        within_bind (writeSlot_lockless t _ j _) fun _ => within_unlock hi _

theorem tableGet_within (valueSizer : Option (α → ℕ)) :
    Only (Event.Within n) (tableGet env t key valueSizer) := by
  cases valueSizer with
  | none => exact only_pure none
  | some valueSizer =>
    refine (within_rdlock env hi).bind fun _ => only_ite (fun _ => ?_) fun _ => only_pure _
    refine within_bind (findValue_lockless t _ _ key) fun found => ?_
    cases found with
    | none => exact within_unlock hi _
    | some internalValue =>
      refine only_ite (fun _ => within_unlock hi _) fun _ => ?_
      exact within_bind (memdup_lockless env internalValue _) fun _ => within_unlock hi _

theorem tableExist_within : Only (Event.Within n) (tableExist env t key) :=
  (within_rdlock env hi).bind fun _ => only_ite (fun _ =>
    within_bind (findSlot_lockless t _ _ key slotIndices) fun _ => within_unlock hi _)
    fun _ => only_pure false

end Within

section WithinAll

variable (env : Env (Event α)) (t : Hashtable α)

theorem tableClear_within (d : Bool) :
    Only (Event.Within t.lockCount.toNat) (tableClear env t d) :=
  within_lockedAll le_rfl (fun _ => within_wrlock env) <|
    within_bind (clearSlots_lockless t d _) fun _ => within_unlockedAll le_rfl _

theorem tableResize_within (newCapacity : UInt64) :
    Only (Event.Within t.lockCount.toNat) (tableResize env t newCapacity) := by
  refine only_ite (fun _ => only_pure _) fun _ => only_ite (fun _ => only_pure _) fun _ => ?_
  refine within_lockedAll le_rfl (fun _ => within_wrlock env) ?_
  refine only_ite (fun _ => within_unlockedAll le_rfl _) fun _ => ?_
  refine within_bind (calloc_lockless env _ _) fun _ =>
    only_ite (fun _ => ?_) fun _ => within_unlockedAll le_rfl _
  refine within_bind (rehash_lockless t _ _ _) fun rehashed => ?_
  cases rehashed with
  | none => exact within_unlockedAll le_rfl _
  | some newBuckets => exact within_unlockedAll le_rfl _

variable {t} {n : ℕ} (hn : t.bucketsCount.toNat ≤ n)

include hn

theorem tableMemoryUsage_within (valueSizer : Option (α → ℕ)) :
    Only (Event.Within n) (tableMemoryUsage env t valueSizer) := by
  cases valueSizer with
  | none => exact only_pure _
  | some valueSizer =>
    exact within_lockedAll hn (fun _ => within_rdlock env) <|
      within_bind (sumValueSizes_lockless t valueSizer _ _) fun _ => within_unlockedAll hn _

omit hn in
private theorem within_countOccupied (occupiedBuckets : ℕ) {l : List ℕ} (hl : ∀ i ∈ l, i < n) :
    Only (Event.Within n) (countOccupied env t occupiedBuckets l) := by
  induction l generalizing occupiedBuckets with
  | nil => exact only_pure occupiedBuckets
  | cons i l ih =>
    have hi := hl i List.mem_cons_self
    have hrest := fun occupied => ih occupied fun k hk => hl k (List.mem_cons_of_mem i hk)
    refine (within_rdlock env hi).bind fun _ => only_ite (fun _ => ?_) fun _ => hrest _
    exact within_bind (bucketOccupied_lockless t i slotIndices) fun _ =>
      (within_release hi).bind fun _ => hrest _

theorem tableOccupiedBucketCounter_within :
    Only (Event.Within n) (tableOccupiedBucketCounter env t) :=
  only_ite (fun _ => only_pure _) fun _ =>
    (within_countOccupied env 0 fun _ hi => (List.mem_range.mp hi).trans_le hn).bind fun _ =>
      only_pure _

end WithinAll

/-! ### Locks that are not there -/

section Beyond

variable {env : Env (Event α)} {n : ℕ} {log : List (Event α)}

theorem locksInside_wrlock_iff {i : ℕ} :
    LocksInside n ((wrlock env i).run log).2 ↔ i < n := by
  simp [LocksInside, wrlock, Event.usedLock]

theorem locksInside_rdlock_iff {i : ℕ} :
    LocksInside n ((rdlock env i).run log).2 ↔ i < n := by
  simp [LocksInside, rdlock, Event.usedLock]

/-- What comes first uses no lock beyond, if the whole does not. -/
theorem LocksInside.of_bind {γ : Type} {x : Traced (Event α) β} {f : β → Traced (Event α) γ}
    (h : LocksInside n ((x >>= f).run log).2) : LocksInside n (x.run log).2 :=
  (locksInside_append.mp h).2

/-- The acquisition of the locks below `m`, when one below `n` is refused, stops there. -/
private theorem locksInside_lockAll_denied {acquired l : List ℕ}
    (hacquired : ∀ i ∈ acquired, i < n) {k : ℕ} (hk : k < l.length)
    (hl : ∀ i ∈ l.take (k + 1), i < n)
    (h : env.lock (acquiredLog .rdlock (l.take k) log) l[k] = false) :
    LocksInside n ((lockAll (rdlock env) acquired l).run log).2 := by
  induction l generalizing acquired log k with
  | nil => exact absurd hk (Nat.not_lt_zero k)
  | cons i l ih =>
    have hi : i < n := hl i (by rw [List.take_succ_cons]; exact List.mem_cons_self)
    refine locksInside_append.mpr ⟨?_, locksInside_rdlock_iff.mpr hi⟩
    have hone : ((rdlock env i).run log).1 = env.lock log i := rfl
    rw [hone, run_ite]
    cases hgranted : env.lock log i with
    | false =>
      exact locksInside_of_only ((within_unlockAll hacquired).bind fun _ => only_pure false) _
    | true =>
      obtain _ | k := k
      · exact absurd (hgranted.symm.trans h) Bool.false_ne_true.symm
      rw [List.take_succ_cons, acquiredLog_cons] at h
      have hrun : ((rdlock env i).run log).2 = [.rdlock i true] := by
        rw [rdlock, run_answer, hgranted]
      rw [if_pos rfl, hrun]
      refine ih (fun j hj => ?_) (Nat.lt_of_succ_lt_succ hk) (fun j hj => hl j ?_) h
      · obtain hj | hj := List.mem_append.mp hj
        · exact hacquired j hj
        · exact List.mem_singleton.mp hj ▸ hi
      · rw [List.take_succ_cons]
        exact List.mem_cons_of_mem i hj

/-- The acquisition of a list of locks comes to a lock when those before it are granted. -/
private theorem lt_of_locksInside_lockAll {acquired l : List ℕ} {k : ℕ} (hk : k < l.length)
    (hgranted : ∀ m (hm : m < k), env.lock (acquiredLog .rdlock (l.take m) log) l[m] = true)
    (h : LocksInside n ((lockAll (rdlock env) acquired l).run log).2) : l[k] < n := by
  induction l generalizing acquired log k with
  | nil => exact absurd hk (Nat.not_lt_zero k)
  | cons i l ih =>
    obtain _ | k := k
    · exact locksInside_rdlock_iff.mp h.of_bind
    have hi : env.lock log i = true := hgranted 0 (Nat.zero_lt_succ k)
    have hrun : (rdlock env i).run log = (true, [.rdlock i true]) := by
      rw [rdlock, run_answer, hi]
    have hrest : LocksInside n ((lockAll (rdlock env) (acquired ++ [i]) l).run
        (.rdlock i true :: log)).2 := by
      rw [lockAll, run_bind, hrun] at h
      exact (locksInside_append.mp h).1
    refine ih (Nat.lt_of_succ_lt_succ hk) (fun m hm => ?_) hrest
    have hm' := hgranted (m + 1) (Nat.succ_lt_succ hm)
    rwa [List.take_succ_cons, acquiredLog_cons] at hm'

/-- **The read locks of all buckets** lie in the array when there is one for each bucket, or when
one of them is refused. -/
theorem locksInside_lockAll_iff {m : ℕ} :
    LocksInside n ((lockAll (rdlock env) [] (List.range m)).run log).2 ↔
      m ≤ n ∨ ¬ReadLocksGranted env log n := by
  by_cases hle : m ≤ n
  · refine iff_of_true (locksInside_of_only ?_ log) (.inl hle)
    exact within_lockAll (fun _ => within_rdlock env) (by simp)
      fun _ hi => (List.mem_range.mp hi).trans_le hle
  have hlt := not_le.mp hle
  rw [or_iff_right hle]
  constructor
  · intro h hgranted
    have hk : n < (List.range m).length := by rwa [List.length_range]
    refine absurd (lt_of_locksInside_lockAll hk (fun i hi => ?_) h) ?_
    · rw [List.take_range, Nat.min_eq_left (hi.trans hlt).le, List.getElem_range]
      exact hgranted i hi
    · rw [List.getElem_range]
      exact Nat.lt_irrefl n
  · intro hdenied
    obtain ⟨i, hi, hlock⟩ : ∃ i, i < n ∧
        env.lock (acquiredLog .rdlock (List.range i) log) i = false := by
      simpa [ReadLocksGranted] using hdenied
    have hk : i < (List.range m).length := by
      rw [List.length_range]
      exact hi.trans hlt
    refine locksInside_lockAll_denied (by simp) hk (fun j hj => ?_) ?_
    · rw [List.take_range] at hj
      exact (List.mem_range.mp hj).trans_le ((Nat.min_le_left _ _).trans hi)
    · rw [List.take_range, Nat.min_eq_left (hi.trans hlt).le, List.getElem_range]
      exact hlock

/-- The counter of occupied buckets comes to every bucket. -/
private theorem lt_of_locksInside_countOccupied {t : Hashtable α} {occupied : ℕ} {l : List ℕ}
    (h : LocksInside n ((countOccupied env t occupied l).run log).2) : ∀ i ∈ l, i < n := by
  induction l generalizing occupied log with
  | nil => exact fun i hi => absurd hi List.not_mem_nil
  | cons i l ih =>
    have hi : i < n := locksInside_rdlock_iff.mp h.of_bind
    have hrest : ∃ occupied log', LocksInside n ((countOccupied env t occupied l).run log').2 := by
      have hafter := (locksInside_append.mp h).1
      rw [run_ite] at hafter
      split at hafter
      · exact ⟨_, _, (locksInside_append.mp (locksInside_append.mp hafter).1).1⟩
      · exact ⟨_, _, hafter⟩
    obtain ⟨occupied', log', hrest⟩ := hrest
    intro j hj
    obtain rfl | hj := List.mem_cons.mp hj
    · exact hi
    · exact ih hrest j hj

end Beyond

section Monitoring

variable (env : Env (Event α)) (t : Hashtable α)

/-- The memory of a table is measured under the read locks of its buckets. -/
private theorem tableMemoryUsage_inside_iff (valueSizer : α → ℕ) (log : List (Event α)) :
    LocksInside t.lockCount.toNat ((tableMemoryUsage env t (some valueSizer)).run log).2 ↔
      t.bucketsCount ≤ t.lockCount ∨ ¬ReadLocksGranted env log t.lockCount.toNat := by
  rw [UInt64.le_iff_toNat_le]
  by_cases hle : t.bucketsCount.toNat ≤ t.lockCount.toNat
  · exact iff_of_true (locksInside_of_only (tableMemoryUsage_within env hle (some valueSizer)) log)
      (.inl hle)
  rw [← locksInside_lockAll_iff (m := t.bucketsCount.toNat)]
  refine ⟨fun h => h.of_bind, fun hall => ?_⟩
  -- One of the locks in the array is refused, so the values are not visited.
  obtain ⟨i, hi, hlock⟩ : ∃ i, i < t.lockCount.toNat ∧
      env.lock (acquiredLog .rdlock (List.range i) log) i = false := by
    simpa [ReadLocksGranted] using (locksInside_lockAll_iff.mp hall).resolve_left hle
  have hdenied : ((lockAll (rdlock env) [] (List.range t.bucketsCount.toNat)).run log).1 = false :=
    lockAll_range_denied .rdlock (hi.trans (not_le.mp hle)) hlock
  rw [tableMemoryUsage, run_bind, hdenied]
  exact hall

/-- The buckets with an entry are counted under one read lock after another. -/
private theorem tableOccupiedBucketCounter_inside_iff (log : List (Event α)) :
    LocksInside t.lockCount.toNat ((tableOccupiedBucketCounter env t).run log).2 ↔
      t.bucketsCount ≤ t.lockCount := by
  rw [UInt64.le_iff_toNat_le]
  refine ⟨fun h => ?_, fun hle =>
    locksInside_of_only (tableOccupiedBucketCounter_within env hle) log⟩
  rw [tableOccupiedBucketCounter, run_ite] at h
  split at h
  · rw [‹t.bucketsCount = 0›]
    exact Nat.zero_le _
  · have hall := lt_of_locksInside_countOccupied h.of_bind
    by_contra hlt
    exact Nat.lt_irrefl _ (hall _ (List.mem_range.mpr (not_le.mp hlt)))

end Monitoring

/-! ### Calls -/

/-- The locks that a call uses lie in the array of the table: the one of the bucket of its key, or
those of all buckets. A call that is refused before it comes to a lock uses none. -/
def TableCall.HasLocks (env : Env (Event α)) (t : Hashtable α) (log : List (Event α)) :
    TableCall α → Prop
  | .set key _ _ => KEY_MAX_LEN ≤ ustrlen key ∨ t.keyBucket key < t.lockCount.toNat
  | .add key _ | .replace key _ _ | .delete key _ | .exist key | .get key (some _) =>
    t.keyBucket key < t.lockCount.toNat
  | .memoryUsage (some _) =>
    t.bucketsCount ≤ t.lockCount ∨ ¬ReadLocksGranted env log t.lockCount.toNat
  | .occupiedBucketCounter => t.bucketsCount ≤ t.lockCount
  | .clear _ | .resize _ | .get _ none | .memoryUsage none => True

instance (env : Env (Event α)) (t : Hashtable α) (log : List (Event α)) :
    DecidablePred (TableCall.HasLocks env t log)
  | .set key _ _ => inferInstanceAs (Decidable (_ ∨ t.keyBucket key < t.lockCount.toNat))
  | .add key _ | .replace key _ _ | .delete key _ | .exist key | .get key (some _) =>
    inferInstanceAs (Decidable (t.keyBucket key < t.lockCount.toNat))
  | .memoryUsage (some _) =>
    inferInstanceAs (Decidable (_ ∨ ¬ReadLocksGranted env log t.lockCount.toNat))
  | .occupiedBucketCounter => inferInstanceAs (Decidable (t.bucketsCount ≤ t.lockCount))
  | .clear _ | .resize _ | .get _ none | .memoryUsage none => inferInstanceAs (Decidable True)

section Calls

variable {env : Env (Event α)} {t : Hashtable α} {log : List (Event α)}

/-- The masked index is below the number of buckets, unless there are none. -/
theorem Hashtable.keyBucket_lt (ht : t.bucketsCount ≠ 0) (key : List UInt8) :
    t.keyBucket key < t.bucketsCount.toNat := by
  have hpos : 1 ≤ t.bucketsCount :=
    UInt64.le_iff_toNat_le.mpr (Nat.pos_of_ne_zero fun h => ht (UInt64.toNat_inj.mp h))
  have hpred := UInt64.toNat_sub_of_le _ _ hpos
  rw [keyBucket, bucketIndex, UInt64.toNat_and]
  exact Nat.and_le_right.trans_lt
    (hpred ▸ Nat.sub_lt (UInt64.le_iff_toNat_le.mp hpos) Nat.zero_lt_one)

/-- A table with a lock for each bucket has the locks of every call. -/
theorem TableCall.hasLocks_of_le (ht : t.bucketsCount ≠ 0) (hlocks : t.bucketsCount ≤ t.lockCount)
    (call : TableCall α) : call.HasLocks env t log := by
  have hkey (key : List UInt8) : t.keyBucket key < t.lockCount.toNat :=
    (keyBucket_lt ht key).trans_le (UInt64.le_iff_toNat_le.mp hlocks)
  cases call with
  | set key _ _ => exact .inr (hkey key)
  | add key _ | replace key _ _ | delete key _ | exist key => exact hkey key
  | get key valueSizer =>
    cases valueSizer with
    | none => trivial
    | some valueSizer => exact hkey key
  | memoryUsage valueSizer =>
    cases valueSizer with
    | none => trivial
    | some valueSizer => exact .inl hlocks
  | occupiedBucketCounter => exact hlocks
  | clear _ | resize _ => trivial

/-- The events of a call are those of its operation. -/
private theorem locksInside_operation_iff {γ : Type} {n : ℕ} {x : Traced (Event α) γ}
    {f : γ → Hashtable α} :
    LocksInside n ((x >>= fun r => pure (f r)).run log).2 ↔ LocksInside n (x.run log).2 := by
  rw [run_bind, run_pure, List.nil_append]

/-- An operation under the lock of a bucket. -/
private theorem locksInside_keyed_iff {γ : Type} {n i : ℕ} {x : Traced (Event α) γ}
    (hlock : LocksInside n (x.run log).2 → i < n) (hwithin : i < n → Only (Event.Within n) x) :
    LocksInside n (x.run log).2 ↔ i < n :=
  ⟨hlock, fun hi => locksInside_of_only (hwithin hi) log⟩

/-- **The locks that a call uses lie in the array** exactly when it finds them there. -/
theorem TableCall.locksInside_iff (env : Env (Event α)) (t : Hashtable α) (log : List (Event α))
    (call : TableCall α) :
    LocksInside t.lockCount.toNat ((call.run env t).run log).2 ↔ call.HasLocks env t log := by
  cases call with
  | set key value d =>
    refine locksInside_operation_iff.trans ?_
    rw [tableSet, run_ite, HasLocks]
    split
    · exact iff_of_true (locksInside_of_only (only_pure _) log) (.inl ‹_›)
    · refine (locksInside_keyed_iff (i := t.keyBucket key)
        (fun h => locksInside_wrlock_iff.mp h.of_bind) fun hi => ?_).trans (or_iff_right ‹_›).symm
      have hset := tableSet_within env hi value d
      rwa [tableSet, if_neg ‹_›] at hset
  | add key value =>
    exact locksInside_operation_iff.trans (locksInside_keyed_iff
      (fun h => locksInside_wrlock_iff.mp h.of_bind) fun hi => tableAdd_within env hi value)
  | replace key value d =>
    exact locksInside_operation_iff.trans (locksInside_keyed_iff
      (fun h => locksInside_wrlock_iff.mp h.of_bind) fun hi => tableReplace_within env hi value d)
  | delete key d =>
    exact locksInside_operation_iff.trans (locksInside_keyed_iff
      (fun h => locksInside_wrlock_iff.mp h.of_bind) fun hi => tableDelete_within env hi d)
  | exist key =>
    exact locksInside_operation_iff.trans (locksInside_keyed_iff
      (fun h => locksInside_rdlock_iff.mp h.of_bind) fun hi => tableExist_within env hi)
  | get key valueSizer =>
    cases valueSizer with
    | none =>
      have hpure : Only (Event.Within t.lockCount.toNat) (tableGet env t key none) := only_pure none
      exact iff_of_true (locksInside_of_only (hpure.bind fun _ => only_pure _) log) trivial
    | some valueSizer =>
      exact locksInside_operation_iff.trans (locksInside_keyed_iff
        (fun h => locksInside_rdlock_iff.mp h.of_bind)
        fun hi => tableGet_within env hi (some valueSizer))
  | clear d =>
    exact iff_of_true (locksInside_of_only ((tableClear_within env t d).bind fun _ => only_pure _)
      log) trivial
  | resize N =>
    exact iff_of_true (locksInside_of_only ((tableResize_within env t N).bind fun _ => only_pure _)
      log) trivial
  | memoryUsage valueSizer =>
    cases valueSizer with
    | none =>
      have hpure : Only (Event.Within t.lockCount.toNat) (tableMemoryUsage env t none) :=
        only_pure _
      exact iff_of_true (locksInside_of_only (hpure.bind fun _ => only_pure _) log) trivial
    | some valueSizer =>
      refine locksInside_operation_iff.trans ?_
      exact tableMemoryUsage_inside_iff env t valueSizer log
  | occupiedBucketCounter =>
    exact locksInside_operation_iff.trans (tableOccupiedBucketCounter_inside_iff env t log)

end Calls

/-- **A call uses the locks of the table only**, when there is one for each bucket. -/
theorem TableCall.run_within (call : TableCall α) (env : Env (Event α)) {t : Hashtable α}
    (ht : t.WellFormed) (hlocks : t.bucketsCount ≤ t.lockCount) :
    Only (Event.Within t.lockCount.toNat) (call.run env t) := by
  have hn : t.bucketsCount.toNat ≤ t.lockCount.toNat := UInt64.le_iff_toNat_le.mp hlocks
  have hkey (key : List UInt8) : t.bucketIndex (hash key) < t.lockCount.toNat :=
    (ht.keyBucket_lt key).trans_le hn
  have hpure {γ : Type} {x : Traced (Event α) γ} {f : γ → Hashtable α}
      (hx : Only (Event.Within t.lockCount.toNat) x) :
      Only (Event.Within t.lockCount.toNat) (x >>= fun r => pure (f r)) :=
    hx.bind fun _ => only_pure _
  cases call with
  | set key value d => exact hpure (tableSet_within env (hkey key) value d)
  | add key value => exact hpure (tableAdd_within env (hkey key) value)
  | replace key value d => exact hpure (tableReplace_within env (hkey key) value d)
  | delete key d => exact hpure (tableDelete_within env (hkey key) d)
  | clear d => exact hpure (tableClear_within env t d)
  | resize newCapacity => exact hpure (tableResize_within env t newCapacity)
  | get key valueSizer => exact hpure (tableGet_within env (hkey key) valueSizer)
  | exist key => exact hpure (tableExist_within env (hkey key))
  | memoryUsage valueSizer => exact hpure (tableMemoryUsage_within env hn valueSizer)
  | occupiedBucketCounter => exact hpure (tableOccupiedBucketCounter_within env hn)

/-! ### Runs -/

/-- A call keeps the number of locks. -/
theorem TableCall.run_lockCount (env : Env (Event α)) (t : Hashtable α) (log : List (Event α))
    (call : TableCall α) : ((call.run env t).run log).1.lockCount = t.lockCount := by
  obtain ⟨code, ds, cs, hout, -⟩ := call.run_spec env t log
  exact hout.counts.1

/-- An event that uses no lock, though it may initialise or destroy one. -/
def Event.Unused (e : Event α) : Prop := e.usedLock = none

private theorem destroyLocks_unused (l : List ℕ) :
    Only Event.Unused (destroyLocks l : Traced (Event α) Bool) := by
  induction l with
  | nil => exact only_pure true
  | cons i l ih =>
    have hone : Only Event.Unused (rwlockDestroy i : Traced (Event α) Bool) :=
      only_answer fun _ => rfl
    exact hone.bind fun _ => only_ite (fun _ => ih) fun _ => only_pure _

private theorem initLocks_unused (env : Env (Event α)) (initialised l : List ℕ) :
    Only Event.Unused (initLocks env initialised l) := by
  induction l generalizing initialised with
  | nil => exact only_pure true
  | cons i l ih =>
    have hone : Only Event.Unused (rwlockInit env i) := only_answer fun _ => rfl
    exact hone.bind fun _ => only_ite (fun _ => ih _) fun _ =>
      (destroyLocks_unused _).bind fun _ => only_pure _

/-- The creation of a table uses none of its locks. -/
theorem tableCreate_unused (env : Env (Event α)) (initialCapacity : UInt64) :
    Only Event.Unused (tableCreate env initialCapacity) := by
  have hlockless (e : Event α) (he : e.Lockless) : e.Unused := by
    cases e with
    | malloc | create | destroy | access => rfl
    | _ => exact he.elim
  refine only_ite (fun _ => only_pure _) fun _ => ?_
  refine ((malloc_lockless env _).mono hlockless).bind fun _ =>
    only_ite (fun _ => ?_) fun _ => only_pure _
  refine ((calloc_lockless env _ _).mono hlockless).bind fun _ =>
    only_ite (fun _ => ?_) fun _ => only_pure _
  refine ((malloc_lockless env _).mono hlockless).bind fun _ =>
    only_ite (fun _ => ?_) fun _ => only_pure _
  exact (initLocks_unused env _ _).bind fun _ =>
    only_ite (fun _ => only_pure _) fun _ => only_pure _

theorem locksInside_tableCreate (env : Env (Event α)) (initialCapacity : UInt64) (n : ℕ)
    (log : List (Event α)) : LocksInside n ((tableCreate env initialCapacity).run log).2 := by
  intro e he i hi
  have hunused : e.usedLock = none := tableCreate_unused env initialCapacity log e he
  rw [hunused] at hi
  exact absurd hi (Option.not_mem_none i)

/-- The calls of a run keep the number of locks. -/
theorem runAll_lockCount (env : Env (Event α)) (t : Hashtable α) (log : List (Event α))
    (calls : List (TableCall α)) :
    ((runAll (fun t call => TableCall.run env t call) t calls).run log).1.lockCount =
      t.lockCount :=
  runAll_invariant _ (fun u _ => u.lockCount = t.lockCount) calls
    (fun call _ u log hu => (call.run_lockCount env u log).trans hu) t log rfl

/-- The locks that calls on a table use lie in its array exactly when each call finds them there. -/
theorem runAll_locksInside_iff (env : Env (Event α)) (t : Hashtable α) (log : List (Event α))
    (calls : List (TableCall α)) :
    LocksInside t.lockCount.toNat
        ((runAll (fun t call => TableCall.run env t call) t calls).run log).2 ↔
      Guarded (fun t call => TableCall.run env t call)
        (fun t log call => call.HasLocks env t log) t log calls :=
  (runAll_events_iff _ _ t log calls).trans <|
    guarded_congr _ (fun u => u.lockCount = t.lockCount)
      (fun u log call hu => (call.run_lockCount env u log).trans hu)
      (fun u log call hu => hu ▸ call.locksInside_iff env u log) rfl log calls

/-- **The locks that a run uses lie in the array** of its table exactly when each of its calls finds
them there. -/
theorem runTable_locksInside_iff (env : Env (Event α)) (n₀ : UInt64) (calls : List (TableCall α))
    (log : List (Event α)) (t : Hashtable α)
    (hrun : ((runTable env n₀ calls).run log).1 = some t) :
    LocksInside t.lockCount.toNat ((runTable env n₀ calls).run log).2 ↔
      RunGuarded env (fun t log call => call.HasLocks env t log) n₀ calls log := by
  obtain ⟨t₀, hcreated, rfl, hevents⟩ := runTable_run hrun
  have hguard : RunGuarded env (fun t log call => call.HasLocks env t log) n₀ calls log ↔
      Guarded (fun t call => TableCall.run env t call) (fun t log call => call.HasLocks env t log)
        t₀ (((tableCreate env n₀).run log).2 ++ log) calls :=
    ⟨fun h => h t₀ hcreated, fun h _ ht => Option.some_inj.mp (hcreated.symm.trans ht) ▸ h⟩
  rw [hevents, locksInside_append, and_iff_left (locksInside_tableCreate env n₀ _ log),
    runAll_lockCount, hguard]
  exact runAll_locksInside_iff env t₀ _ calls

/-- A run whose resizes stay within the locks finds all its locks. -/
theorem RunGuarded.hasLocks {env : Env (Event α)} {n₀ : UInt64} {calls : List (TableCall α)}
    {log : List (Event α)} (hn₀ : n₀.toNat ≤ 2 ^ 63) (h : RunGuarded env
      (fun t log call => call.Bounded ∧ call.WithinLocks env t log) n₀ calls log) :
    RunGuarded env (fun t log call => call.HasLocks env t log) n₀ calls log := by
  intro t ht
  obtain ⟨hpos, rfl, hbytes⟩ := (tableCreate_spec env n₀ log).2 t ht
  refine Guarded.imp (fun t => t.WellFormed ∧ t.bucketsCount ≤ t.lockCount) ?_ ?_ ?_ (h _ ht)
  · rintro t log call ⟨hbounded, hcall⟩ ⟨hwf, hle⟩
    obtain ⟨code, ds, cs, hout, -⟩ := call.run_spec env t log
    exact ⟨hout.wellFormed hbounded hwf, call.run_withinLocks hcall hle⟩
  · exact fun t log call _ ⟨hwf, hle⟩ => call.hasLocks_of_le hwf.bucketsCount_ne_zero hle
  · exact ⟨wellFormed_fresh (roundCapacity_spec hpos hn₀).1 hbytes, UInt64.le_refl _⟩

end SimpleCDatabase
