import SimpleCDatabase.Hashtable.Representation

/-!
# The rehash loop and the refusals of a resize

`table_resize` moves the entries slot by slot into new buckets and gives up when a destination
bucket is full. Among at least as many buckets as before this does not happen, at no point of
the loop. Among fewer buckets it depends on the stored hashes; but `table_resize` also refuses a
request whose number of buckets is below the number of elements, whether they fit or not.

## Main definitions

* `Hashtable.Overflows`: some destination bucket would receive more entries than it has slots.

## Main results

* `rehash_append`: the loop can be stopped at any point.
* `runTable_rehash_growth`: a growing rehash never finds a full bucket.
* `runTable_resize_refused_iff`: when a resize is refused exactly for entries that do not fit.

## References

* `src/hashtable.c`, `table_resize`.
-/

namespace SimpleCDatabase

open Buckets Hashtable PowerOfTwo

variable {α : Type}

/-! ### Points of the loop -/

/-- The loop over the slots `l ++ l'` is the loop over `l`, and the one over `l'` from the buckets
that it leaves. -/
theorem rehash_append (t : Hashtable α) (N : UInt64) (nb : ℕ → Bucket α)
    (l l' : List (ℕ × Fin BUCKET_CAPACITY)) (log : List (Event α)) :
    ((rehash t N nb (l ++ l')).run log).1 =
      ((rehash t N nb l).run log).1.bind fun nb' =>
        ((rehash t N nb' l').run (((rehash t N nb l).run log).2 ++ log)).1 := by
  induction l generalizing nb log with
  | nil => rfl
  | cons p l ih =>
    obtain ⟨i, j⟩ := p
    simp only [List.cons_append, rehash, readSlot, Traced.run_bind, Traced.run_emit,
      Traced.run_pure, Traced.run_ite, List.nil_append]
    by_cases hused : (t.buckets i j).inUse = true
    · simp only [hused, if_true]
      cases hplace : placeEntry (nb ((t.buckets i j).hash % N).toNat) (t.buckets i j)
          slotIndices with
      | none => rfl
      | some bucket => simpa using ih _ _
    · simpa [hused] using ih nb _

/-- The buckets after a point of the loop hold the entries visited so far, each in its
destination. -/
theorem rehash_point {t : Hashtable α} {N : UInt64} (hN : 0 < N.toNat)
    {l l' : List (ℕ × Fin BUCKET_CAPACITY)} (hsplit : allSlots t.bucketsCount.toNat = l ++ l')
    (hfit : ∀ i, (t.entries.filter fun slot => rehashHome N slot = i).card ≤ BUCKET_CAPACITY)
    (log : List (Event α)) :
    ∃ nb, ((rehash t N (fun _ _ => Slot.zero) l).run log).1 = some nb ∧
      ∀ i < N.toNat,
        held Slot.inUse (nb i) ≤ t.entries.filter fun slot => rehashHome N slot = i := by
  have hvisited : gathered t l ≤ t.entries := by
    rw [entries, ← gathered_allSlots, hsplit, gathered_append]
    exact Multiset.le_add_right _ _
  have hplaced : Placed Slot.inUse (rehashHome N)
      (fun _ (_ : Fin BUCKET_CAPACITY) => (Slot.zero : Slot α)) N.toNat :=
    placed_of_unused _ fun _ _ _ => rfl
  have hzero : contents Slot.inUse (fun _ (_ : Fin BUCKET_CAPACITY) => (Slot.zero : Slot α))
      N.toNat = 0 := contents_eq_zero fun _ _ _ => rfl
  have hspec := rehash_spec t (rehashHome_lt hN) _ l hplaced log
  simp only [Traced.Ensures, hzero, zero_add] at hspec
  cases hr : ((rehash t N (fun _ _ => Slot.zero) l).run log).1 with
  | none =>
    rw [hr] at hspec
    obtain ⟨i, hi⟩ := hspec
    have hcard := Multiset.card_le_card (Multiset.filter_le_filter
      (fun slot => rehashHome N slot = i) hvisited)
    exact absurd (hcard.trans (hfit i)) (not_le.mpr hi)
  | some nb =>
    rw [hr] at hspec
    refine ⟨nb, rfl, fun i hi => ?_⟩
    rw [← filter_contents hspec.1 hi, hspec.2]
    exact Multiset.filter_le_filter _ hvisited

/-- **A growing rehash never finds a full bucket.** At every point of the loop, with the slots `l`
visited and `l'` still to come, the loop goes on from the buckets `nb`, and each of them holds only
entries of one source bucket, at most as many as a bucket has slots. -/
theorem runTable_rehash_growth (env : Env (Event α)) (n₀ : UInt64) (calls : List (TableCall α))
    (log : List (Event α)) (t : Hashtable α) (hreaches : RunReaches env n₀ calls log t)
    (N : UInt64) (hN : N ≠ 0) (hmax : N.toNat ≤ 2 ^ 63) (hgrow : t.bucketsCount ≤ roundCapacity N)
    (l l' : List (ℕ × Fin BUCKET_CAPACITY)) (hsplit : allSlots t.bucketsCount.toNat = l ++ l')
    (log' : List (Event α)) :
    ∃ nb, ((rehash t (roundCapacity N) (fun _ _ => Slot.zero) l).run log').1 = some nb ∧
      ((rehash t (roundCapacity N) (fun _ _ => Slot.zero)
          (allSlots t.bucketsCount.toNat)).run log').1 =
        ((rehash t (roundCapacity N) nb l').run (((rehash t (roundCapacity N)
          (fun _ _ => Slot.zero) l).run log').2 ++ log')).1 ∧
      ∀ i < (roundCapacity N).toNat,
        held Slot.inUse (nb i) ≤ held Slot.inUse (t.buckets (i % t.bucketsCount.toNat)) ∧
          (held Slot.inUse (nb i)).card ≤ BUCKET_CAPACITY := by
  have ht := runTable_homed hreaches.run
  have hpow := (roundCapacity_spec hN hmax).1
  have hsource := ht.filter_rehashHome_le hpow hgrow
  obtain ⟨nb, hnb, hheld⟩ := rehash_point (isPowerOfTwo_pos hpow) hsplit
    (fun i => (Multiset.card_le_card (hsource i)).trans (card_held_le _)) log'
  refine ⟨nb, hnb, ?_, fun i hi => ⟨(hheld i hi).trans (hsource i), card_held_le _⟩⟩
  rw [hsplit, rehash_append, hnb, Option.bind_some]

/-- The whole loop, for a table with two entries that grows from one bucket to two. -/
theorem runTable_rehash_growth_two :
    ∃ t : Hashtable Unit, ((runTable Env.granting 1
        [.set [65] none true, .set [66] none true]).run []).1 = some t ∧
      ∃ nb, ((rehash t (roundCapacity 2) (fun _ _ => Slot.zero)
        (allSlots t.bucketsCount.toNat)).run []).1 = some nb := by
  refine ⟨_, rfl, ?_⟩
  have hdefined : RunGuarded Env.granting (TableCall.Defined Env.granting)
      1 [.set [65] none true, .set [66] none true] ([] : List (Event Unit)) := by
    rintro t ⟨⟩
    decide
  obtain ⟨nb, hnb, -⟩ := runTable_rehash_growth (α := Unit) Env.granting 1
    [.set [65] none true, .set [66] none true] [] _ ⟨rfl, hdefined⟩ 2 (by decide) (by decide)
    (by decide) (allSlots 1) [] rfl []
  exact ⟨nb, hnb⟩

/-! ### The codes of the whole-table operations -/

/-- Some bucket among `N` would receive more of the entries than it has slots. -/
def Hashtable.Overflows (t : Hashtable α) (N : UInt64) : Prop :=
  ∃ i, BUCKET_CAPACITY < (t.entries.filter fun slot => rehashHome N slot = i).card

/-- **Every entry finds a free slot** exactly when no destination bucket overflows. -/
theorem rehash_isSome_iff (t : Hashtable α) (N : UInt64) (log : List (Event α)) :
    (((rehash t N (fun _ _ => Slot.zero) (allSlots t.bucketsCount.toNat)).run log).1).isSome ↔
      ¬t.Overflows N := by
  -- All destinations are 64-bit numbers, also among no buckets.
  have hm (slot : Slot α) : rehashHome N slot < 2 ^ 64 := (slot.hash % N).toNat_lt
  have hplaced : Placed Slot.inUse (rehashHome N)
      (fun _ (_ : Fin BUCKET_CAPACITY) => (Slot.zero : Slot α)) (2 ^ 64) :=
    placed_of_unused _ fun _ _ _ => rfl
  have hzero : contents Slot.inUse (fun _ (_ : Fin BUCKET_CAPACITY) => (Slot.zero : Slot α))
      (2 ^ 64) = 0 := contents_eq_zero fun _ _ _ => rfl
  have hspec := rehash_spec t hm _ (allSlots t.bucketsCount.toNat) hplaced log
  simp only [Traced.Ensures, hzero, gathered_allSlots, zero_add] at hspec
  cases hr : ((rehash t N (fun _ _ => Slot.zero) (allSlots t.bucketsCount.toNat)).run log).1 with
  | none =>
    rw [hr] at hspec
    exact iff_of_false Bool.false_ne_true fun hfit => hfit hspec
  | some nb =>
    rw [hr] at hspec
    obtain ⟨hplaced', hcontents⟩ := hspec
    refine iff_of_true rfl ?_
    rintro ⟨i, hi⟩
    rw [entries, ← hcontents] at hi
    by_cases hlt : i < 2 ^ 64
    · rw [filter_contents hplaced' hlt] at hi
      exact absurd (card_held_le _) (not_le.mpr hi)
    · have hnone : ((contents Slot.inUse nb (2 ^ 64)).filter fun slot => rehashHome N slot = i) =
          0 := Multiset.filter_eq_nil.mpr fun slot _ hslot => hlt (hslot ▸ hm slot)
      rw [hnone] at hi
      exact absurd hi (Nat.not_lt_zero _)

section Codes

variable (env : Env (Event α)) (t : Hashtable α) (log : List (Event α))

private theorem lockAll_value :
    (lockAll (wrlock env) [] (List.range t.lockCount.toNat)).Ensures log fun ok new =>
      (ok = true ↔ ¬LocksDenied env log t.lockCount.toNat) ∧
        (ok = true → new ++ log = lockLog (List.range t.lockCount.toNat) log) := by
  by_cases h : LocksDenied env log t.lockCount.toNat
  · rw [Traced.Ensures, lockAll_of_denied h]
    exact ⟨iff_of_false Bool.false_ne_true (not_not.mpr h), fun h =>
      absurd h Bool.false_ne_true⟩
  · rw [Traced.Ensures, lockAll_of_not_denied h]
    exact ⟨iff_of_true rfl h, fun _ => rfl⟩

/-- A `table_resize` returns zero exactly when the number of buckets stays, or nothing is denied,
the number of elements allows it, and no destination bucket overflows. -/
theorem tableResize_code_iff (N : UInt64) : (tableResize env t N).Ensures log fun r _ =>
    (r.1 = 0 ↔ N ≠ 0 ∧ (roundCapacity N = t.bucketsCount ∨ ¬ResizeDenied env t log N ∧
      t.elemCount ≤ roundCapacity N ∧ ¬t.Overflows (roundCapacity N))) := by
  have hrefused {P : Prop} (h : ¬P) : ((-1 : ℤ) = 0 ↔ P) := iff_of_false (by decide) h
  refine Traced.ensures_ite (fun hzero => hrefused fun h => h.1 hzero) fun hN => ?_
  refine Traced.ensures_ite (fun hsame => iff_of_true rfl ⟨hN, .inl hsame⟩) fun hne => ?_
  refine (lockAll_value env t log).bind ?_
  rintro ok new ⟨hok, hlog⟩
  refine Traced.ensures_ite (fun htrue => ?_) fun hfalse => ?_
  swap
  · refine hrefused ?_
    rintro ⟨-, h | ⟨h, -⟩⟩
    · exact hne h
    · exact hfalse (hok.mpr (not_or.mp h).1)
  refine Traced.ensures_ite (fun hsmall => hrefused ?_) fun hcount => ?_
  · rintro ⟨-, h | ⟨-, h, -⟩⟩
    · exact hne h
    · exact UInt64.not_le.mpr hsmall h
  have hcalloc : (calloc env (roundCapacity N).toNat SIZEOF_BUCKET).Ensures (new ++ log)
      fun ok' _ => (ok' = true ↔ ¬ResizeDenied env t log N) := by
    rw [Traced.Ensures, calloc_value, hlog htrue, Bool.and_eq_true, decide_eq_true_iff,
      ResizeDenied, not_or, not_or, not_le, Bool.not_eq_false]
    exact ⟨fun h => ⟨hok.mp htrue, h⟩, fun h => h.2⟩
  refine hcalloc.bind ?_
  intro ok' new' hok'
  refine Traced.ensures_ite (fun htrue' => ?_) fun hfalse' => hrefused ?_
  swap
  · rintro ⟨-, h | ⟨h, -⟩⟩
    · exact hne h
    · exact hfalse' (hok'.mpr h)
  have hrehash : (rehash t (roundCapacity N) (fun _ _ => Slot.zero)
      (allSlots t.bucketsCount.toNat)).Ensures (new' ++ (new ++ log)) fun r _ =>
        (r.isSome = true ↔ ¬t.Overflows (roundCapacity N)) :=
    rehash_isSome_iff t (roundCapacity N) _
  refine hrehash.bind ?_
  rintro (_ | nb) new'' hr
  · refine hrefused ?_
    rintro ⟨-, h | ⟨-, -, h⟩⟩
    · exact hne h
    · exact Bool.false_ne_true (hr.mpr h)
  · exact iff_of_true rfl ⟨hN, .inr ⟨hok'.mp htrue', UInt64.not_lt.mp hcount, hr.mp rfl⟩⟩

end Codes

/-! ### Refusals -/

/-- The entries fit into the buckets in which they lie. -/
theorem Hashtable.Homed.not_overflows {t : Hashtable α} (ht : t.Homed) {N : UInt64}
    (hN : N.toNat.isPowerOfTwo) (hle : t.bucketsCount ≤ N) : ¬t.Overflows N := by
  rintro ⟨i, hi⟩
  have hsource := Multiset.card_le_card (ht.filter_rehashHome_le hN hle i)
  exact absurd (hsource.trans (card_held_le _)) (not_le.mpr hi)

section Refusals

variable {env : Env (Event α)} {t : Hashtable α} {log : List (Event α)} {N : UInt64}

/-- A resize to fewer buckets than elements is refused. -/
theorem tableResize_of_small (hN : N ≠ 0) (hne : roundCapacity N ≠ t.bucketsCount)
    (hsmall : roundCapacity N < t.elemCount) (h : ¬ResizeDenied env t log N) :
    ((tableResize env t N).run log).1.1 = -1 := by
  obtain ⟨hlocks, -⟩ := not_or.mp h
  rw [tableResize, if_neg hN]
  simp only [if_neg hne, Traced.run_bind, lockAll_of_not_denied hlocks, if_true, if_pos hsmall,
    Traced.run_pure]

/-- The answer of a resize that nothing denies and that the number of elements does not refuse. -/
theorem tableResize_code (hN : N ≠ 0) (hne : roundCapacity N ≠ t.bucketsCount)
    (hcount : t.elemCount ≤ roundCapacity N) (h : ¬ResizeDenied env t log N) :
    (((tableResize env t N).run log).1.1 = -1 ↔ t.Overflows (roundCapacity N)) ∧
      (¬t.Overflows (roundCapacity N) → ((tableResize env t N).run log).1.1 = 0) := by
  obtain ⟨log', hrun⟩ := tableResize_of_granted hN hne hcount h
  have hiff := rehash_isSome_iff t (roundCapacity N) log'
  rw [hrun]
  cases hr : ((rehash t (roundCapacity N) (fun _ _ => Slot.zero)
    (allSlots t.bucketsCount.toNat)).run log').1 with
  | none =>
    rw [hr] at hiff
    have hover : t.Overflows (roundCapacity N) :=
      not_not.mp fun hfit => Bool.false_ne_true (hiff.mpr hfit)
    exact ⟨⟨fun _ => hover, fun _ => rfl⟩, fun hfit => absurd hover hfit⟩
  | some nb =>
    rw [hr] at hiff
    have hfit : ¬t.Overflows (roundCapacity N) := hiff.mp rfl
    exact ⟨iff_of_false (by decide : (0 : ℤ) ≠ -1) hfit, fun _ => rfl⟩

end Refusals

/-- **When a resize is refused exactly for entries that do not fit.** In every table that a run
reaches, for every request up to `2 ^ 63` that nothing denies: the answer is `-1` if some
destination bucket would overflow and `0` otherwise, exactly when the number of buckets stays, or
is not below the number of elements, or some destination bucket would overflow. -/
theorem runTable_resize_refused_iff (env : Env (Event α)) (n₀ : UInt64)
    (calls : List (TableCall α)) (log : List (Event α)) (t : Hashtable α)
    (hreaches : RunReaches env n₀ calls log t) (N : UInt64) (hN : N ≠ 0)
    (hmax : N.toNat ≤ 2 ^ 63) (log' : List (Event α)) (h : ¬ResizeDenied env t log' N) :
    ((((tableResize env t N).run log').1.1 = -1 ↔ t.Overflows (roundCapacity N)) ∧
        (¬t.Overflows (roundCapacity N) → ((tableResize env t N).run log').1.1 = 0)) ↔
      (roundCapacity N = t.bucketsCount ∨ t.elemCount ≤ roundCapacity N ∨
        t.Overflows (roundCapacity N)) := by
  have ht := runTable_homed hreaches.run
  have hpow := (roundCapacity_spec hN hmax).1
  by_cases hsame : roundCapacity N = t.bucketsCount
  · have hcode : ((tableResize env t N).run log').1.1 = 0 := by
      rw [tableResize, if_neg hN]
      simp only [if_pos hsame, Traced.run_pure]
    have hfit := ht.not_overflows hpow (hsame ▸ UInt64.le_refl _)
    rw [hcode]
    exact iff_of_true ⟨iff_of_false (by decide) hfit, fun _ => rfl⟩ (.inl hsame)
  by_cases hcount : t.elemCount ≤ roundCapacity N
  · exact iff_of_true (tableResize_code hN hsame hcount h) (.inr (.inl hcount))
  · have hcode := tableResize_of_small hN hsame (UInt64.not_le.mp hcount) h
    rw [hcode]
    constructor
    · rintro ⟨hiff, -⟩
      exact .inr (.inr (hiff.mp rfl))
    · rintro (heq | hle | hover)
      · exact absurd heq hsame
      · exact absurd hle hcount
      · exact ⟨iff_of_true rfl hover, fun hfit => absurd hover hfit⟩

/-- Two entries in two buckets are refused one bucket, which has room for eight. -/
theorem small_resize_refused :
    ∃ t : Hashtable Unit, ((runTable Env.granting 2
        [.set [65] none true, .set [66] none true]).run []).1 = some t ∧
      ¬ResizeDenied Env.granting t [] 1 ∧ ((tableResize Env.granting t 1).run []).1.1 = -1 ∧
      ¬t.Overflows (roundCapacity 1) := by
  refine ⟨_, rfl, Env.granting_succeeds.not_resizeDenied _ _ (by decide), by decide, ?_⟩
  rintro ⟨i, hi⟩
  have hwf : Hashtable.WellFormed _ := runTable_wellFormed (by decide)
    (by simp [TableCall.Bounded]) (rfl : ((runTable Env.granting 2
      [.set [65] none true, .set [66] none true]).run ([] : List (Event Unit))).1 = some _)
  have hcard := hi.trans_le (Multiset.card_le_card (Multiset.filter_le _ _))
  rw [← hwf.count] at hcard
  exact absurd hcard (by decide)

/-- Two entries in two buckets move into four. -/
theorem runTable_resize_refused_iff_grown :
    ∃ t : Hashtable Unit, ((runTable Env.granting 2
        [.set [65] none true, .set [66] none true]).run []).1 = some t ∧
      (¬t.Overflows (roundCapacity 4) → ((tableResize Env.granting t 4).run []).1.1 = 0) := by
  have hdefined : RunGuarded Env.granting (TableCall.Defined Env.granting)
      2 [.set [65] none true, .set [66] none true] ([] : List (Event Unit)) := by
    rintro t ⟨⟩
    decide
  exact ⟨_, rfl, ((runTable_resize_refused_iff (α := Unit) Env.granting 2
    [.set [65] none true, .set [66] none true] [] _ ⟨rfl, hdefined⟩ 4 (by decide) (by decide) []
      (Env.granting_succeeds.not_resizeDenied _ _ (by decide))).mpr
        (.inr (.inl (by decide)))).2⟩

end SimpleCDatabase
