import SimpleCDatabase.Hashtable.Invariant

/-!
# The sizes of a table under resizing

`table_resize` changes the number of buckets and leaves the array of locks alone, and the
rounding of a request above `2 ^ 63` gives zero. This module says when a resize takes effect, and
which runs keep a lock for every bucket and a usable number of buckets.

## Main definitions

* `ResizeDenied`, `CreateDenied`: the environment refuses a lock or the memory of a resize, or the
  memory of a new table.
* `TableCall.WithinLocks`, `TableCall.KeepsModulus`: the calls that keep a lock for every bucket,
  and a usable number of buckets.

## Main results

* `tableResize_of_denied`, `tableResize_of_granted`: when a resize takes effect.
* `card_filter_rehashHome_le`: a resize to more buckets overflows none of them.
* `runTable_locks`, `tableResize_locks_iff`: a lock for every bucket.
* `runTable_modulus`, `tableResize_modulus_iff`: a usable number of buckets.
-/

namespace SimpleCDatabase

open Buckets Hashtable PowerOfTwo

variable {α : Type}

/-! ### Answers of the environment -/

/-- The transcript after the write locks `l` were acquired. -/
def lockLog (l : List ℕ) (log : List (Event α)) : List (Event α) :=
  (l.map fun i => Event.wrlock i true).reverse ++ log

/-- One of the write locks below `n` is refused. -/
def LocksDenied (env : Env (Event α)) (log : List (Event α)) (n : ℕ) : Prop :=
  ∃ i < n, env.lock (lockLog (List.range i) log) i = false

/-- The environment refuses a lock or the memory of a resize. -/
def ResizeDenied (env : Env (Event α)) (t : Hashtable α) (log : List (Event α))
    (newCapacity : UInt64) : Prop :=
  LocksDenied env log t.lockCount.toNat ∨
    2 ^ 64 ≤ (roundCapacity newCapacity).toNat * SIZEOF_BUCKET ∨
    env.alloc (lockLog (List.range t.lockCount.toNat) log)
      ((roundCapacity newCapacity).toNat * SIZEOF_BUCKET) = false

theorem Env.Succeeds.not_resizeDenied {env : Env (Event α)} (henv : env.Succeeds)
    (t : Hashtable α) (log : List (Event α)) {N : UInt64}
    (hbytes : (roundCapacity N).toNat * SIZEOF_BUCKET < 2 ^ 64) : ¬ResizeDenied env t log N := by
  rintro (⟨i, -, hlock⟩ | hsize | halloc)
  · exact Bool.false_ne_true (hlock.symm.trans (henv.lock _ i))
  · exact absurd hbytes (not_lt.mpr hsize)
  · exact Bool.false_ne_true (halloc.symm.trans (henv.alloc _ _))

section Locks

variable {env : Env (Event α)} {log : List (Event α)} {n : ℕ}

theorem lockAll_of_denied (h : LocksDenied env log n) :
    ((lockAll (wrlock env) [] (List.range n)).run log).1 = false := by
  obtain ⟨i, hi, hdenied⟩ := h
  exact lockAll_range_denied .wrlock hi hdenied

theorem lockAll_of_not_denied (h : ¬LocksDenied env log n) :
    (lockAll (wrlock env) [] (List.range n)).run log =
      (true, ((List.range n).map fun i => Event.wrlock i true).reverse) := by
  refine lockAll_range_granted .wrlock fun k hk => ?_
  by_contra hfalse
  exact h ⟨k, hk, Bool.eq_false_iff.mpr hfalse⟩

end Locks

/-! ### When a resize takes effect -/

section Resize

variable {env : Env (Event α)} {t : Hashtable α} {log : List (Event α)} {N : UInt64}

theorem calloc_value (n size : ℕ) (log : List (Event α)) :
    ((calloc env n size).run log).1 =
      (decide (n * size < 2 ^ 64) && env.alloc log (n * size)) := by
  rw [calloc]
  by_cases h : 2 ^ 64 ≤ n * size
  · rw [if_pos h, decide_eq_false (not_lt.mpr h)]
    rfl
  · rw [if_neg h, decide_eq_true (not_le.mp h)]
    rfl

/-- A resize that is denied leaves the table as it was. -/
theorem tableResize_of_denied (h : ResizeDenied env t log N) :
    ((tableResize env t N).run log).1.2 = t := by
  have hens : (tableResize env t N).Ensures log fun r _ => r.2 = t := by
    refine Traced.ensures_ite (fun _ => rfl) fun _ => ?_
    refine Traced.ensures_ite (fun _ => rfl) fun _ => ?_
    by_cases hlocks : LocksDenied env log t.lockCount.toNat
    · have hfail : (lockAll (wrlock env) [] (List.range t.lockCount.toNat)).Ensures log
          fun ok _ => ok = false := lockAll_of_denied hlocks
      refine hfail.bind ?_
      rintro _ new rfl
      rfl
    · have hall : (lockAll (wrlock env) [] (List.range t.lockCount.toNat)).Ensures log
          fun ok new => ok = true ∧ new ++ log = lockLog (List.range t.lockCount.toNat) log := by
        rw [Traced.Ensures, lockAll_of_not_denied hlocks]
        exact ⟨rfl, rfl⟩
      refine hall.bind ?_
      rintro _ new ⟨rfl, hlog⟩
      refine Traced.ensures_ite (fun _ => ?_) fun htrue => absurd rfl htrue
      refine Traced.ensures_ite (fun _ => rfl) fun _ => ?_
      have hcalloc : (calloc env (roundCapacity N).toNat SIZEOF_BUCKET).Ensures (new ++ log)
          fun ok _ => ok = false := by
        rw [Traced.Ensures, calloc_value, hlog]
        rcases h.resolve_left hlocks with hbytes | halloc
        · rw [decide_eq_false (not_lt.mpr hbytes), Bool.false_and]
        · rw [halloc, Bool.and_false]
      refine hcalloc.bind ?_
      rintro _ new' rfl
      rfl
  exact hens

/-- A resize that is not denied and not refused for the number of elements is decided by the
rehash. -/
theorem tableResize_of_granted (hN : N ≠ 0) (hne : roundCapacity N ≠ t.bucketsCount)
    (hcount : t.elemCount ≤ roundCapacity N) (h : ¬ResizeDenied env t log N) :
    ∃ log', ((tableResize env t N).run log).1 =
      match ((rehash t (roundCapacity N) (fun _ _ => Slot.zero)
        (allSlots t.bucketsCount.toNat)).run log').1 with
      | some buckets => (0, { t with buckets := buckets, bucketsCount := roundCapacity N })
      | none => (-1, t) := by
  obtain ⟨hlocks, hmem⟩ := not_or.mp h
  obtain ⟨hbytes, halloc⟩ := not_or.mp hmem
  refine ⟨((calloc env (roundCapacity N).toNat SIZEOF_BUCKET).run
    (lockLog (List.range t.lockCount.toNat) log)).2 ++
      lockLog (List.range t.lockCount.toNat) log, ?_⟩
  have hcalloc : ((calloc env (roundCapacity N).toNat SIZEOF_BUCKET).run
      (lockLog (List.range t.lockCount.toNat) log)).1 = true := by
    rw [calloc_value, decide_eq_true (not_le.mp hbytes), Bool.true_and]
    exact eq_true_of_ne_false halloc
  rw [tableResize, if_neg hN]
  simp only [if_neg hne, Traced.run_bind, lockAll_of_not_denied hlocks, if_true,
    if_neg (UInt64.not_lt.mpr hcount)]
  rw [← lockLog, hcalloc]
  simp only [if_true, Traced.run_bind]
  generalize ((calloc env (roundCapacity N).toNat SIZEOF_BUCKET).run
    (lockLog (List.range t.lockCount.toNat) log)).2 ++
      lockLog (List.range t.lockCount.toNat) log = log'
  cases ((rehash t (roundCapacity N) (fun _ _ => Slot.zero)
    (allSlots t.bucketsCount.toNat)).run log').1 with
  | none => rfl
  | some buckets => rfl

end Resize

/-- **Growth overflows no bucket.** The entries that share a bucket among more buckets shared one
before. -/
theorem card_filter_rehashHome_le {t : Hashtable α} (ht : t.WellFormed) {N : UInt64}
    (hN : N.toNat.isPowerOfTwo) (hle : t.bucketsCount ≤ N) (i : ℕ) :
    (t.entries.filter fun slot => rehashHome N slot = i).card ≤ BUCKET_CAPACITY :=
  (Multiset.card_le_card (ht.homed.filter_rehashHome_le hN hle i)).trans (card_held_le _)

/-- A resize to more buckets that nothing refuses takes effect. -/
theorem tableResize_of_grow {env : Env (Event α)} {t : Hashtable α} (ht : t.WellFormed)
    {log : List (Event α)} {N : UInt64} (hN : N ≠ 0) (hmax : N.toNat ≤ 2 ^ 63)
    (hgrow : t.bucketsCount < roundCapacity N) (hcount : t.elemCount ≤ roundCapacity N)
    (h : ¬ResizeDenied env t log N) :
    ((tableResize env t N).run log).1.1 = 0 ∧
      ((tableResize env t N).run log).1.2.bucketsCount = roundCapacity N ∧
      ((tableResize env t N).run log).1.2.lockCount = t.lockCount := by
  have hpow := (roundCapacity_spec hN hmax).1
  have hne : roundCapacity N ≠ t.bucketsCount := fun heq =>
    UInt64.lt_irrefl _ (heq ▸ hgrow)
  obtain ⟨log', hrun⟩ := tableResize_of_granted hN hne hcount h
  have hrehash := (rehash_ensures t log' (roundCapacity N)).2
  rw [hrun]
  cases hr : ((rehash t (roundCapacity N) (fun _ _ => Slot.zero)
    (allSlots t.bucketsCount.toNat)).run log').1 with
  | some buckets => exact ⟨rfl, rfl, rfl⟩
  | none =>
    rw [hr] at hrehash
    obtain ⟨i, hi⟩ := hrehash (isPowerOfTwo_pos hpow)
    exact absurd (card_filter_rehashHome_le ht hpow (UInt64.le_of_lt hgrow) i) (not_le.mpr hi)

/-! ### A lock for every bucket -/

/-- The calls that keep a lock for every bucket: a resize stays within the locks, or is refused
for the number of elements, or is denied. -/
def TableCall.WithinLocks (env : Env (Event α)) (t : Hashtable α) (log : List (Event α)) :
    TableCall α → Prop
  | .resize N => roundCapacity N ≤ t.lockCount ∨ roundCapacity N < t.elemCount ∨
      ResizeDenied env t log N
  | _ => True

/-- The counts after a call: the locks are those before, and the number of buckets changes by a
resize only. -/
theorem Outcome.counts {env : Env (Event α)} {t t' : Hashtable α} {call : TableCall α} {code : ℤ}
    {ds : List (Block α)} (h : Outcome env t call code t' ds) :
    t'.lockCount = t.lockCount ∧ (t'.bucketsCount = t.bucketsCount ∨ ∃ N, call = .resize N ∧
      t.elemCount ≤ roundCapacity N ∧ t'.bucketsCount = roundCapacity N) := by
  cases h with
  | moved _ _ hcount _ _ => exact ⟨rfl, .inr ⟨_, rfl, hcount, rfl⟩⟩
  | _ => exact ⟨rfl, .inl rfl⟩

theorem TableCall.run_withinLocks {env : Env (Event α)} {t : Hashtable α}
    {log : List (Event α)} {call : TableCall α} (hcall : call.WithinLocks env t log)
    (ht : t.bucketsCount ≤ t.lockCount) :
    ((call.run env t).run log).1.bucketsCount ≤ ((call.run env t).run log).1.lockCount := by
  obtain ⟨code, ds, cs, hout, -⟩ := call.run_spec env t log
  obtain ⟨hlocks, hsame | ⟨N, rfl, hcount, hbuckets⟩⟩ := hout.counts
  · rw [hlocks, hsame]
    exact ht
  · rcases hcall with h | h | h
    · rw [hlocks, hbuckets]
      exact h
    · exact absurd hcount (UInt64.not_le.mpr h)
    · have hkept : ((TableCall.run env t (.resize N)).run log).1 = t := tableResize_of_denied h
      rw [hkept]
      exact ht

/-- **A lock for every bucket.** In every state that a run reaches whose resizes stay within the
locks or are refused, there are at least as many locks as buckets. -/
theorem runTable_locks (env : Env (Event α)) (n₀ : UInt64) (calls : List (TableCall α))
    (log : List (Event α)) (hn₀ : n₀.toNat ≤ 2 ^ 63)
    (hcalls : RunGuarded env
      (fun t log call => call.Bounded ∧ call.WithinLocks env t log) n₀ calls log)
    (t : Hashtable α) (hrun : ((runTable env n₀ calls).run log).1 = some t) :
    t.bucketsCount ≤ t.lockCount ∧
      (∀ key, (hash key &&& (t.bucketsCount - 1)).toNat < t.lockCount.toNat) ∧
      ∀ i < t.bucketsCount.toNat, i < t.lockCount.toNat := by
  obtain ⟨ht, hle⟩ := runTable_guarded (fun t => t.WellFormed ∧ t.bucketsCount ≤ t.lockCount)
    (fun hpos hbytes => ⟨wellFormed_fresh (roundCapacity_spec hpos hn₀).1 hbytes,
      UInt64.le_refl _⟩)
    (fun t log call hcall ht => by
      obtain ⟨code, ds, cs, hout, -⟩ := call.run_spec env t log
      exact ⟨hout.wellFormed hcall.1 ht.1, call.run_withinLocks hcall.2 ht.2⟩) hcalls hrun
  have hlt {i : ℕ} (hi : i < t.bucketsCount.toNat) : i < t.lockCount.toNat :=
    hi.trans_le (UInt64.le_iff_toNat_le.mp hle)
  exact ⟨hle, fun key => hlt (ht.keyBucket_lt key), fun i hi => hlt hi⟩

/-- The condition on a resize is exact. -/
theorem tableResize_locks_iff {env : Env (Event α)} {t : Hashtable α} (ht : t.WellFormed)
    (hle : t.bucketsCount ≤ t.lockCount) (log : List (Event α)) {N : UInt64}
    (hmax : N.toNat ≤ 2 ^ 63) :
    ((tableResize env t N).run log).1.2.bucketsCount ≤
        ((tableResize env t N).run log).1.2.lockCount ↔
      (TableCall.resize N).WithinLocks env t log := by
  refine ⟨fun hafter => ?_, fun h => TableCall.run_withinLocks h hle⟩
  by_contra hcall
  obtain ⟨hlocks, hrest⟩ := not_or.mp hcall
  obtain ⟨hcount, hdenied⟩ := not_or.mp hrest
  have hN : N ≠ 0 := by
    rintro rfl
    exact hlocks (UInt64.zero_le)
  have hgrow : t.bucketsCount < roundCapacity N :=
    UInt64.lt_of_le_of_lt hle (UInt64.not_le.mp hlocks)
  obtain ⟨-, hbuckets, hkept⟩ :=
    tableResize_of_grow ht hN hmax hgrow (UInt64.not_lt.mp hcount) hdenied
  rw [hbuckets, hkept] at hafter
  exact hlocks hafter

/-- A table created with one bucket and resized to two has two buckets and one lock: the key `B`
is looked up under a lock that does not exist. -/
theorem grown_table_outside_locks :
    ∃ t : Hashtable Unit, ((runTable Env.granting 1 [.resize 2]).run []).1 = some t ∧
      ¬t.bucketsCount ≤ t.lockCount ∧
      ¬(hash [66] &&& (t.bucketsCount - 1)).toNat < t.lockCount.toNat :=
  ⟨_, rfl, by decide, by decide⟩

/-- A table that shrinks and grows back to its first size. -/
theorem runTable_locks_regrown :
    ∃ t : Hashtable Unit,
      ((runTable Env.granting 4 [.set [65] none true, .resize 1, .resize 3]).run []).1 = some t ∧
        t.bucketsCount ≤ t.lockCount := by
  refine ⟨_, rfl, (runTable_locks Env.granting 4
    [.set [65] none true, .resize 1, .resize 3] [] (by decide) ?_ _ rfl).1⟩
  rintro table ⟨⟩
  have hone : (1 : UInt64).toNat ≤ 2 ^ 63 := by decide
  have hthree : (3 : UInt64).toNat ≤ 2 ^ 63 := by decide
  exact ⟨⟨trivial, trivial⟩, ⟨hone, .inl (by decide)⟩, ⟨hthree, .inl (by decide)⟩, trivial⟩

/-! ### A usable number of buckets -/

/-- The calls that keep a usable number of buckets: a resize asks for at most `2 ^ 63`, or finds
entries, or is denied. -/
def TableCall.KeepsModulus (env : Env (Event α)) (t : Hashtable α) (log : List (Event α)) :
    TableCall α → Prop
  | .resize N => N.toNat ≤ 2 ^ 63 ∨ t.elemCount ≠ 0 ∨ ResizeDenied env t log N
  | _ => True

/-- A call that keeps a usable number of buckets preserves the invariant, and a resize that
succeeds has room for the request. -/
theorem TableCall.run_keepsModulus {env : Env (Event α)} {t : Hashtable α}
    {log : List (Event α)} {call : TableCall α} (hcall : call.KeepsModulus env t log)
    (ht : t.WellFormed) : ((call.run env t).run log).1.WellFormed := by
  by_cases hbounded : call.Bounded
  · obtain ⟨code, ds, cs, hout, -⟩ := call.run_spec env t log
    exact hout.wellFormed hbounded ht
  · cases call with
    | resize N =>
      have hzero : roundCapacity N = 0 := roundCapacity_eq_zero (not_le.mp hbounded)
      rcases hcall with h | h | h
      · exact absurd h hbounded
      · obtain ⟨code, ds, cs, hout, -⟩ := (TableCall.resize N).run_spec env t log
        generalize ((TableCall.run env t (.resize N)).run log).1 = t' at hout
        cases hout with
        | refused _ => exact ht
        | read _ => exact ht
        | sameSize _ _ => exact ht
        | moved _ _ hcount _ _ =>
          rw [hzero] at hcount
          exact absurd (UInt64.le_zero_iff.mp hcount) h
      · have hkept : ((TableCall.run env t (.resize N)).run log).1 = t := tableResize_of_denied h
        rw [hkept]
        exact ht
    | _ => exact absurd trivial hbounded

/-- A resize that succeeds where `KeepsModulus` holds has room for the request. -/
theorem tableResize_success {env : Env (Event α)} {t : Hashtable α} (ht : t.WellFormed)
    {log : List (Event α)} {N : UInt64} (hcall : (TableCall.resize N).KeepsModulus env t log)
    (hcode : ((tableResize env t N).run log).1.1 = 0) :
    ((tableResize env t N).run log).1.2.bucketsCount.toNat.isPowerOfTwo ∧
      N ≤ ((tableResize env t N).run log).1.2.bucketsCount := by
  have hwf : ((tableResize env t N).run log).1.2.WellFormed :=
    TableCall.run_keepsModulus hcall ht
  refine ⟨hwf.pow, ?_⟩
  have hround {m : UInt64} (hN : N ≠ 0) (hm : roundCapacity N = m) (hpos : m ≠ 0) :
      N ≤ m := by
    by_cases hmax : N.toNat ≤ 2 ^ 63
    · exact hm ▸ UInt64.le_iff_toNat_le.mpr (roundCapacity_spec hN hmax).2.1
    · rw [roundCapacity_eq_zero (not_le.mp hmax)] at hm
      exact absurd hm.symm hpos
  obtain ⟨ds, hout, -⟩ := tableResize_spec env t N log
  generalize ((tableResize env t N).run log).1 = r at hcode hwf hout
  obtain ⟨code, t'⟩ := r
  cases hout with
  | refused h => exact absurd hcode h.code_ne_zero
  | read h => exact absurd h Bool.false_ne_true
  | sameSize hN h => exact hround hN h ht.bucketsCount_ne_zero
  | moved hN _ _ _ _ => exact hround hN rfl hwf.bucketsCount_ne_zero

/-- The environment refuses the memory of the record, the buckets or the locks of a new table. -/
def CreateDenied (env : Env (Event α)) (log : List (Event α)) (initialCapacity : UInt64) : Prop :=
  let buckets := (roundCapacity initialCapacity).toNat * SIZEOF_BUCKET
  let locks := (roundCapacity initialCapacity * UInt64.ofNat SIZEOF_RWLOCK).toNat
  env.alloc log SIZEOF_HASHTABLE = false ∨
    env.alloc (.malloc SIZEOF_HASHTABLE true :: log) buckets = false ∨
    env.alloc (.malloc buckets true :: .malloc SIZEOF_HASHTABLE true :: log) locks = false

/-- A creation that is denied leaves no table. -/
theorem tableCreate_of_denied {env : Env (Event α)} {log : List (Event α)} {n₀ : UInt64}
    (h : CreateDenied env log n₀) : ((tableCreate env n₀).run log).1 = none := by
  have hmalloc (size : ℕ) (log : List (Event α)) :
      (malloc env size).run log = (env.alloc log size, [.malloc size (env.alloc log size)]) := rfl
  rw [tableCreate]
  by_cases hzero : n₀ = 0
  · rw [if_pos hzero]
    rfl
  rw [if_neg hzero]
  by_cases hbytes : 2 ^ 64 ≤ (roundCapacity n₀).toNat * SIZEOF_BUCKET
  · simp only [Traced.run_bind, hmalloc, Traced.run_ite, calloc, if_pos hbytes]
    cases env.alloc log SIZEOF_HASHTABLE <;> rfl
  simp only [Traced.run_bind, hmalloc, Traced.run_ite, calloc, if_neg hbytes]
  rcases h with h | h | h
  · rw [h]
    rfl
  · cases env.alloc log SIZEOF_HASHTABLE with
    | false => rfl
    | true =>
      simp only [if_true, List.singleton_append, h]
      rfl
  · cases env.alloc log SIZEOF_HASHTABLE with
    | false => rfl
    | true =>
      simp only [if_true, List.singleton_append]
      cases env.alloc (.malloc SIZEOF_HASHTABLE true :: log)
          ((roundCapacity n₀).toNat * SIZEOF_BUCKET) with
      | false => rfl
      | true =>
        simp only [if_true, h]
        rfl

/-- **A usable number of buckets.** In every state that a run reaches whose creation asks for at
most `2 ^ 63` buckets, or is denied, and whose resizes ask for at most `2 ^ 63`, or find entries, or
are denied, the number of buckets is a nonzero power of two and every key has a bucket; creation and
every further resize that succeeds have room for the request. -/
theorem runTable_modulus (env : Env (Event α)) (n₀ : UInt64) (calls : List (TableCall α))
    (log : List (Event α)) (hn₀ : n₀.toNat ≤ 2 ^ 63 ∨ CreateDenied env log n₀)
    (hcalls : RunGuarded env (fun t log call => call.KeepsModulus env t log) n₀ calls log)
    (t : Hashtable α) (hrun : ((runTable env n₀ calls).run log).1 = some t) :
    (t.bucketsCount ≠ 0 ∧ t.bucketsCount.toNat.isPowerOfTwo) ∧
      (∀ key, (hash key &&& (t.bucketsCount - 1)).toNat < t.bucketsCount.toNat) ∧
      (∀ t₀, ((tableCreate env n₀).run log).1 = some t₀ → n₀ ≤ t₀.bucketsCount) ∧
      ∀ N log', (TableCall.resize N).KeepsModulus env t log' →
        ((tableResize env t N).run log').1.1 = 0 →
          ((tableResize env t N).run log').1.2.bucketsCount.toNat.isPowerOfTwo ∧
            N ≤ ((tableResize env t N).run log').1.2.bucketsCount := by
  have hn₀ : n₀.toNat ≤ 2 ^ 63 := by
    refine hn₀.resolve_right fun hdenied => ?_
    rw [runTable, Traced.run_bind, tableCreate_of_denied hdenied] at hrun
    exact absurd hrun.symm (Option.some_ne_none t)
  have ht := runTable_guarded WellFormed
    (fun hpos hbytes => wellFormed_fresh (roundCapacity_spec hpos hn₀).1 hbytes)
    (fun t log call hcall ht => call.run_keepsModulus hcall ht) hcalls hrun
  refine ⟨⟨ht.bucketsCount_ne_zero, ht.pow⟩, ht.keyBucket_lt, fun t₀ ht₀ => ?_,
    fun N log' hcall hcode => tableResize_success ht hcall hcode⟩
  obtain ⟨hpos, rfl, -⟩ := (tableCreate_spec env n₀ log).2 t₀ ht₀
  exact UInt64.le_iff_toNat_le.mpr (roundCapacity_spec hpos hn₀).2.1

/-- A table with an entry refuses a request above `2 ^ 63`. -/
theorem runTable_modulus_oversized :
    ∃ t : Hashtable Unit, ((runTable Env.granting 1
        [.set [65] none true, .resize 9223372036854775809]).run []).1 = some t ∧
      t.bucketsCount ≠ 0 := by
  refine ⟨_, rfl, (runTable_modulus Env.granting 1
    [.set [65] none true, .resize 9223372036854775809] [] (.inl (by decide)) ?_ _ rfl).1.1⟩
  rintro table ⟨⟩
  exact ⟨trivial, .inr (.inl (by decide)), trivial⟩

/-- A rehash that visits no slot in use succeeds. -/
theorem rehash_of_unused {t : Hashtable α} (N : UInt64) (nb : ℕ → Bucket α)
    (l : List (ℕ × Fin BUCKET_CAPACITY)) (hl : ∀ p ∈ l, (t.buckets p.1 p.2).inUse = false)
    (log : List (Event α)) : ((rehash t N nb l).run log).1 = some nb := by
  induction l generalizing log with
  | nil => rfl
  | cons p l ih =>
    have hrest := ih fun q hq => hl q (List.mem_cons_of_mem p hq)
    simp only [rehash, readSlot, Traced.run_bind, Traced.run_emit, Traced.run_pure,
      hl p List.mem_cons_self, Bool.false_eq_true, if_false, hrest]

/-- The condition on a resize is exact. -/
theorem tableResize_modulus_iff {env : Env (Event α)} {t : Hashtable α} (ht : t.WellFormed)
    (log : List (Event α)) (N : UInt64) :
    ((tableResize env t N).run log).1.2.bucketsCount ≠ 0 ↔
      (TableCall.resize N).KeepsModulus env t log := by
  constructor
  · intro hafter
    by_contra hcall
    obtain ⟨hmax, hrest⟩ := not_or.mp hcall
    obtain ⟨hcount, hdenied⟩ := not_or.mp hrest
    have hcount : t.elemCount = 0 := not_not.mp hcount
    have hzero : roundCapacity N = 0 := roundCapacity_eq_zero (not_le.mp hmax)
    have hN : N ≠ 0 := by
      rintro rfl
      exact hmax (Nat.zero_le _)
    have hne : roundCapacity N ≠ t.bucketsCount := fun h =>
      ht.bucketsCount_ne_zero (h.symm.trans hzero)
    obtain ⟨log', hrun⟩ := tableResize_of_granted hN hne (hcount ▸ UInt64.zero_le) hdenied
    have hempty : t.entries = 0 := Multiset.card_eq_zero.mp (by rw [← ht.count, hcount]; rfl)
    have hunused : ∀ p ∈ allSlots t.bucketsCount.toNat, (t.buckets p.1 p.2).inUse = false := by
      intro p hp
      by_contra hused
      have hmem : t.buckets p.1 p.2 ∈ t.entries := mem_contents.mpr ⟨p.1, mem_allSlots.mp hp,
        mem_held.mpr ⟨p.2, rfl, eq_true_of_ne_false hused⟩⟩
      rw [hempty] at hmem
      exact Multiset.notMem_zero _ hmem
    rw [hrun, rehash_of_unused _ _ _ hunused] at hafter
    exact hafter hzero
  · intro hcall
    have hwf : ((tableResize env t N).run log).1.2.WellFormed :=
      TableCall.run_keepsModulus hcall ht
    exact hwf.bucketsCount_ne_zero

/-- A table created with, or an empty table resized to, more than `2 ^ 63` buckets has none. -/
theorem oversized_table_without_buckets :
    (∃ t : Hashtable Unit, ((tableCreate Env.granting 9223372036854775809).run []).1 = some t ∧
      t.bucketsCount = 0) ∧
    ∃ t : Hashtable Unit, ((tableCreate Env.granting 1).run []).1 = some t ∧
      ((tableResize Env.granting t 9223372036854775809).run []).1.1 = 0 ∧
      ((tableResize Env.granting t 9223372036854775809).run []).1.2.bucketsCount = 0 :=
  ⟨⟨_, rfl, by decide⟩, _, rfl, by decide, by decide⟩

end SimpleCDatabase
