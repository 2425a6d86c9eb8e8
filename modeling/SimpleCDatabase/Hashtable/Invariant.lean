import SimpleCDatabase.Hashtable.Lifecycle

/-!
# The representation invariant

The invariant of a table: the number of buckets is a power of two, every entry lies in the
bucket of its masked hash, every stored key is terminated, and the element counter counts the
slots in use. It holds of a created table and every outcome of a call preserves it, as long as
no request exceeds `2 ^ 63`.

## Main definitions

* `Hashtable.WellFormed`: the invariant.
* `TableCall.Bounded`: a resize request is at most `2 ^ 63`.
* `Hashtable.Homed`: the part of it that concerns the placement of entries, and allows a table
  without buckets.

## Main results

* `Outcome.wellFormed`: a bounded call preserves the invariant.
* `runTable_homed`: the placement of entries along all runs.
* `runTable_wellFormed`: the invariant along runs.
-/

namespace SimpleCDatabase

open Buckets Hashtable PowerOfTwo

variable {α : Type}

/-- The bucket in which a slot belongs. -/
def Hashtable.home (t : Hashtable α) (slot : Slot α) : ℕ := t.bucketIndex slot.hash

/-- **The representation invariant.** -/
structure Hashtable.WellFormed (t : Hashtable α) : Prop where
  pow : t.bucketsCount.toNat.isPowerOfTwo
  bytes : t.bucketsCount.toNat * SIZEOF_BUCKET < 2 ^ 64
  placed : Placed Slot.inUse t.home t.buckets t.bucketsCount.toNat
  terminated : ∀ slot ∈ t.entries, 0 ∈ slot.key.1
  count : t.elemCount.toNat = t.entries.card

/-- A call that does not ask for more than `2 ^ 63` buckets. -/
def TableCall.Bounded : TableCall α → Prop
  | .resize N => N.toNat ≤ 2 ^ 63
  | _ => True

theorem KeyArray.zero_mem_copy (dest : KeyArray) (src : List UInt8) :
    0 ∈ (dest.copy src).1 :=
  zero_mem_ustrncpy (by decide) dest.2.ge src

namespace Hashtable

variable {t : Hashtable α}

theorem WellFormed.pos (ht : t.WellFormed) : 0 < t.bucketsCount.toNat := isPowerOfTwo_pos ht.pow

theorem WellFormed.bucketsCount_ne_zero (ht : t.WellFormed) : t.bucketsCount ≠ 0 := by
  intro h
  have hpos := ht.pos
  rw [h] at hpos
  exact Nat.lt_irrefl 0 hpos

/-- The masked index is the remainder. -/
theorem WellFormed.bucketIndex_eq (ht : t.WellFormed) (h : UInt64) :
    t.bucketIndex h = h.toNat % t.bucketsCount.toNat :=
  toNat_and_pred ht.pow h

theorem WellFormed.bucketIndex_lt (ht : t.WellFormed) (h : UInt64) :
    t.bucketIndex h < t.bucketsCount.toNat := by
  rw [ht.bucketIndex_eq]
  exact Nat.mod_lt _ ht.pos

theorem WellFormed.keyBucket_lt (ht : t.WellFormed) (key : List UInt8) :
    t.keyBucket key < t.bucketsCount.toNat :=
  ht.bucketIndex_lt _

/-- The counter is at most the number of slots. -/
theorem WellFormed.elemCount_le (ht : t.WellFormed) :
    t.elemCount.toNat ≤ BUCKET_CAPACITY * t.bucketsCount.toNat := by
  rw [ht.count, Nat.mul_comm]
  exact card_contents_le t.buckets _

theorem WellFormed.elemCount_succ (ht : t.WellFormed) :
    (t.elemCount + 1).toNat = t.elemCount.toNat + 1 := by
  have hle := ht.elemCount_le
  have hbytes := ht.bytes
  rw [BUCKET_CAPACITY] at hle
  rw [SIZEOF_BUCKET] at hbytes
  rw [UInt64.toNat_add, UInt64.toNat_one, Nat.mod_eq_of_lt (by omega)]

/-! ### The fresh table -/

theorem wellFormed_fresh {capacity : UInt64} (hpow : capacity.toNat.isPowerOfTwo)
    (hbytes : capacity.toNat * SIZEOF_BUCKET < 2 ^ 64) :
    (fresh capacity : Hashtable α).WellFormed where
  pow := hpow
  bytes := hbytes
  placed := by
    intro i _ c hc
    obtain ⟨j, rfl, hj⟩ := mem_held.mp hc
    exact absurd hj Bool.false_ne_true
  terminated := by
    rw [entries_fresh]
    exact fun slot h => absurd h (Multiset.notMem_zero slot)
  count := by
    rw [entries_fresh]
    rfl

/-! ### The writes on a slot -/

variable {key : List UInt8} {j : Fin BUCKET_CAPACITY}

theorem WellFormed.overwrite (ht : t.WellFormed) (hfound : t.Found key j)
    (value : Option (Block α)) : (t.overwrite key j value).WellFormed := by
  have hentries := entries_overwrite (ht.keyBucket_lt key) hfound.inUse value
  have hmem := slotAt_mem_entries (ht.keyBucket_lt key) hfound.inUse
  refine ⟨ht.pow, ht.bytes, ?_, ?_, ?_⟩
  · refine ht.placed.update_cell j fun _ => ?_
    exact ht.placed _ (ht.keyBucket_lt key) (t.slotAt key j)
      (mem_held.mpr ⟨j, rfl, hfound.inUse⟩)
  · intro slot hslot
    have h : slot ∈ t.entries + {(t.slotAt key j).withValue value} :=
      hentries ▸ Multiset.mem_add.mpr (.inl hslot)
    rcases Multiset.mem_add.mp h with h | h
    · exact ht.terminated slot h
    · rw [Multiset.mem_singleton.mp h]
      have hkept : 0 ∈ (t.slotAt key j).key.1 := ht.terminated _ hmem
      exact hkept
  · have hcard := congrArg Multiset.card hentries
    rw [Multiset.card_add, Multiset.card_add, Multiset.card_singleton,
      Multiset.card_singleton] at hcard
    exact ht.count.trans (Nat.add_right_cancel hcard).symm

theorem WellFormed.insertAt (ht : t.WellFormed) (hfree : (t.slotAt key j).inUse = false)
    (value : Option (Block α)) : (t.insertAt key j value).WellFormed := by
  have hentries := entries_insertAt (ht.keyBucket_lt key) hfree value
  refine ⟨ht.pow, ht.bytes, ht.placed.update_cell j fun _ => rfl, ?_, ?_⟩
  · intro slot hslot
    rw [hentries] at hslot
    rcases Multiset.mem_add.mp hslot with h | h
    · exact ht.terminated slot h
    · rw [Multiset.mem_singleton.mp h]
      exact KeyArray.zero_mem_copy _ key
  · rw [hentries, Multiset.card_add, Multiset.card_singleton, ← ht.count]
    exact ht.elemCount_succ

theorem WellFormed.removeAt (ht : t.WellFormed) (hfound : t.Found key j) :
    (t.removeAt key j).WellFormed := by
  have hentries := entries_removeAt (ht.keyBucket_lt key) hfound.inUse
  have hcard := congrArg Multiset.card hentries
  rw [Multiset.card_add, Multiset.card_singleton, ← ht.count] at hcard
  refine ⟨ht.pow, ht.bytes, ht.placed.update_cell j fun h => absurd h Bool.false_ne_true, ?_, ?_⟩
  · exact fun slot hslot => ht.terminated slot (hentries ▸ Multiset.mem_add.mpr (.inl hslot))
  · have hone : (1 : UInt64) ≤ t.elemCount := by
      rw [UInt64.le_iff_toNat_le, UInt64.toNat_one]
      omega
    have hpred : (t.elemCount - 1).toNat = t.elemCount.toNat - 1 :=
      UInt64.toNat_sub_of_le _ _ hone
    exact hpred.trans (Nat.sub_eq_of_eq_add hcard.symm)

/-! ### The whole table -/

theorem WellFormed.cleared (ht : t.WellFormed) {buckets : ℕ → Bucket α}
    (hbuckets : ∀ i < t.bucketsCount.toNat, ∀ j, (buckets i j).inUse = false) :
    { t with buckets := buckets, elemCount := 0 }.WellFormed := by
  have hempty : { t with buckets := buckets, elemCount := 0 }.entries = 0 :=
    contents_eq_zero hbuckets
  refine ⟨ht.pow, ht.bytes, ?_, ?_, ?_⟩
  · intro i hi c hc
    obtain ⟨j, rfl, hj⟩ := mem_held.mp hc
    exact absurd hj (Bool.eq_false_iff.mp (hbuckets i hi j))
  · rw [hempty]
    exact fun slot h => absurd h (Multiset.notMem_zero slot)
  · rw [hempty]
    rfl

/-- The formula of the rehash agrees with the mask of the lookups. -/
theorem rehashHome_eq {N : UInt64} (hN : N.toNat.isPowerOfTwo) (slot : Slot α) :
    rehashHome N slot = (slot.hash &&& (N - 1)).toNat := by
  rw [toNat_and_pred hN, rehashHome, UInt64.toNat_mod]

theorem WellFormed.moved (ht : t.WellFormed) {N : UInt64} {buckets : ℕ → Bucket α}
    (hpow : N.toNat.isPowerOfTwo) (hbytes : N.toNat * SIZEOF_BUCKET < 2 ^ 64)
    (hplaced : Placed Slot.inUse (rehashHome N) buckets N.toNat)
    (hcontents : contents Slot.inUse buckets N.toNat = t.entries) :
    { t with buckets := buckets, bucketsCount := N }.WellFormed := by
  have hentries : { t with buckets := buckets, bucketsCount := N }.entries = t.entries :=
    hcontents
  refine ⟨hpow, hbytes, ?_, ?_, ?_⟩
  · exact fun i hi c hc => (rehashHome_eq hpow c).symm.trans (hplaced i hi c hc)
  · rw [hentries]
    exact ht.terminated
  · rw [hentries]
    exact ht.count

end Hashtable

/-! ### Calls and runs -/

/-- **A bounded call preserves the invariant.** -/
theorem Outcome.wellFormed {env : Env (Event α)} {t t' : Hashtable α} {call : TableCall α}
    {code : ℤ} {ds : List (Block α)} (h : Outcome env t call code t' ds)
    (hbounded : call.Bounded) (ht : t.WellFormed) : t'.WellFormed := by
  cases h with
  | refused _ => exact ht
  | read _ => exact ht
  | setFound _ hfound => exact ht.overwrite hfound _
  | setInserted _ _ hfree => exact ht.insertAt hfree _
  | addInserted _ hfree => exact ht.insertAt hfree _
  | replaced hfound => exact ht.overwrite hfound _
  | deleted hfound => exact ht.removeAt hfound
  | cleared hbuckets _ => exact ht.cleared hbuckets
  | sameSize _ _ => exact ht
  | moved hN _ _ hbytes hmoved =>
    have hpow := (roundCapacity_spec hN hbounded).1
    obtain ⟨hplaced, hcontents⟩ := hmoved (isPowerOfTwo_pos hpow)
    exact ht.moved hpow hbytes hplaced hcontents

/-- The invariant holds in every state that a run of bounded calls reaches. -/
theorem runTable_wellFormed {env : Env (Event α)} {n₀ : UInt64} (hn₀ : n₀.toNat ≤ 2 ^ 63)
    {calls : List (TableCall α)} (hcalls : ∀ call ∈ calls, call.Bounded)
    {log : List (Event α)} {t : Hashtable α}
    (hrun : ((runTable env n₀ calls).run log).1 = some t) : t.WellFormed :=
  runTable_invariant WellFormed
    (fun hpos hbytes => wellFormed_fresh (roundCapacity_spec hpos hn₀).1 hbytes)
    (fun call hcall _ _ _ _ hout ht => hout.wellFormed (hcalls call hcall) ht) hrun

/-! ### The placement of entries in any run -/

/-- Entries lie in the bucket of their masked hash, in a power of two of buckets or in none. -/
structure Hashtable.Homed (t : Hashtable α) : Prop where
  pow : t.bucketsCount ≠ 0 → t.bucketsCount.toNat.isPowerOfTwo
  placed : Placed Slot.inUse t.home t.buckets t.bucketsCount.toNat

theorem Hashtable.WellFormed.homed {t : Hashtable α} (ht : t.WellFormed) : t.Homed :=
  ⟨fun _ => ht.pow, ht.placed⟩

/-- A slot that a search of `key` finds belongs in the bucket of `key`. -/
theorem Hashtable.Found.home_eq {t : Hashtable α} {key : List UInt8} {j : Fin BUCKET_CAPACITY}
    (h : t.Found key j) : t.home (t.slotAt key j) = t.keyBucket key := by
  rw [home, h.hash_eq, keyBucket]

private theorem pow_roundCapacity {n : UInt64} (hn : n ≠ 0) (hround : roundCapacity n ≠ 0) :
    (roundCapacity n).toNat.isPowerOfTwo := by
  refine (roundCapacity_spec hn ?_).1
  by_contra hmax
  exact hround (roundCapacity_eq_zero (not_le.mp hmax))

theorem placed_of_unused (home : Slot α → ℕ) {buckets : ℕ → Bucket α} {n : ℕ}
    (h : ∀ i < n, ∀ j, (buckets i j).inUse = false) : Placed Slot.inUse home buckets n := by
  intro i hi c hc
  obtain ⟨j, rfl, hj⟩ := mem_held.mp hc
  exact absurd hj (Bool.eq_false_iff.mp (h i hi j))

/-- Every call keeps the entries in their buckets. -/
theorem Outcome.homed {env : Env (Event α)} {t t' : Hashtable α} {call : TableCall α}
    {code : ℤ} {ds : List (Block α)} (h : Outcome env t call code t' ds) (ht : t.Homed) :
    t'.Homed := by
  cases h with
  | refused _ => exact ht
  | read _ => exact ht
  | setFound _ hfound => exact ⟨ht.pow, ht.placed.update_cell _ fun _ => hfound.home_eq⟩
  | setInserted _ _ _ => exact ⟨ht.pow, ht.placed.update_cell _ fun _ => rfl⟩
  | addInserted _ _ => exact ⟨ht.pow, ht.placed.update_cell _ fun _ => rfl⟩
  | replaced hfound => exact ⟨ht.pow, ht.placed.update_cell _ fun _ => hfound.home_eq⟩
  | deleted _ =>
    exact ⟨ht.pow, ht.placed.update_cell _ fun hused => absurd hused Bool.false_ne_true⟩
  | cleared hbuckets _ => exact ⟨ht.pow, placed_of_unused _ hbuckets⟩
  | sameSize _ _ => exact ht
  | @moved N buckets hN _ _ _ hmoved =>
    refine ⟨pow_roundCapacity hN, fun i hi c hc => ?_⟩
    have hi : i < (roundCapacity N).toNat := hi
    have hpow := pow_roundCapacity hN (UInt64.pos_iff_ne_zero.mp
      (UInt64.lt_iff_toNat_lt.mpr (i.zero_le.trans_lt hi)))
    have hhome := (hmoved (isPowerOfTwo_pos hpow)).1 i hi c hc
    rwa [rehashHome_eq hpow] at hhome

/-- The entries lie in their buckets in every state that a run reaches. -/
theorem runTable_homed {env : Env (Event α)} {n₀ : UInt64} {calls : List (TableCall α)}
    {log : List (Event α)} {t : Hashtable α}
    (hrun : ((runTable env n₀ calls).run log).1 = some t) : t.Homed :=
  runTable_invariant Homed
    (fun hpos _ => ⟨pow_roundCapacity hpos, placed_of_unused _ fun _ _ _ => rfl⟩)
    (fun _ _ _ _ _ _ hout ht => hout.homed ht) hrun

/-- The entries that share a bucket among more buckets shared one before. -/
theorem Hashtable.Homed.filter_rehashHome_le {t : Hashtable α} (ht : t.Homed) {N : UInt64}
    (hN : N.toNat.isPowerOfTwo) (hle : t.bucketsCount ≤ N) (i : ℕ) :
    (t.entries.filter fun slot => rehashHome N slot = i) ≤
      held Slot.inUse (t.buckets (i % t.bucketsCount.toNat)) := by
  by_cases hzero : t.bucketsCount = 0
  · have hempty : t.entries = 0 := contents_eq_zero fun k hk => by
      rw [hzero] at hk
      exact absurd hk (Nat.not_lt_zero k)
    rw [hempty]
    exact Multiset.zero_le _
  · have hpow := ht.pow hzero
    have hdvd : t.bucketsCount.toNat ∣ N.toNat := by
      obtain ⟨a, ha⟩ := hpow
      obtain ⟨b, hb⟩ := hN
      rw [ha, hb]
      refine Nat.pow_dvd_pow 2 ((Nat.pow_le_pow_iff_right Nat.one_lt_two).mp ?_)
      rw [← ha, ← hb]
      exact UInt64.le_iff_toNat_le.mp hle
    have hhome (slot : Slot α) (h : rehashHome N slot = i) :
        t.home slot = i % t.bucketsCount.toNat := by
      rw [home, bucketIndex, toNat_and_pred hpow, ← h, rehashHome, UInt64.toNat_mod,
        Nat.mod_mod_of_dvd _ hdvd]
    calc (t.entries.filter fun slot => rehashHome N slot = i)
        ≤ t.entries.filter fun slot => t.home slot = i % t.bucketsCount.toNat :=
          Multiset.monotone_filter_right _ hhome
      _ = held Slot.inUse (t.buckets (i % t.bucketsCount.toNat)) :=
          filter_contents ht.placed (Nat.mod_lt _ (isPowerOfTwo_pos hpow))

/-- The number of slots in use, over all buckets. -/
def Hashtable.inUseCount (t : Hashtable α) : ℕ :=
  (allSlots t.bucketsCount.toNat).countP fun p => (t.buckets p.1 p.2).inUse

theorem Hashtable.card_entries (t : Hashtable α) : t.entries.card = t.inUseCount := by
  have hlist (l : List (ℕ × Fin BUCKET_CAPACITY)) :
      (gathered t l).card = l.countP fun p => (t.buckets p.1 p.2).inUse := by
    induction l with
    | nil => rfl
    | cons p l ih =>
      rw [gathered_cons, Multiset.card_add, ih, List.countP_cons, card_occupant, Nat.add_comm]
  rw [inUseCount, ← hlist, gathered_allSlots, entries]

end SimpleCDatabase
