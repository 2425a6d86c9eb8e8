import SimpleCDatabase.Hashtable.Contents

/-!
# What a call of a table operation can do

One inversion theorem for all operations: a call returns a code, leaves a table and drops some
value blocks, and these three are related in one of a few ways. The invariants of tables are
derived from it, without a look into the operations.

## Main definitions

* `TableCall`, `TableCall.run`: the calls of the operations on a table.
* `Refusal`: why a call returns a nonzero code.
* `Outcome`: the code, the table and the dropped blocks of a call.

## Main results

* `TableCall.run_spec`: every call has an outcome, destroys the blocks it drops when a destroyer
  is given, and gives back every lock that it takes.
* `tableSet_spec`, `tableAdd_spec`, `tableReplace_spec`, `tableDelete_spec`, `tableClear_spec`,
  `tableResize_spec`: the outcomes of the single operations.
-/

namespace SimpleCDatabase

open Buckets Hashtable

variable {α : Type}

/-- A call of a table operation. -/
inductive TableCall (α : Type) where
  | set (key : List UInt8) (value : Option (Block α)) (valueDestroyer : Bool)
  | add (key : List UInt8) (value : Option (Block α))
  | replace (key : List UInt8) (newValue : Option (Block α)) (valueDestroyer : Bool)
  | delete (key : List UInt8) (valueDestroyer : Bool)
  | clear (valueDestroyer : Bool)
  | resize (newCapacity : UInt64)
  | get (key : List UInt8) (valueSizer : Option (α → ℕ))
  | exist (key : List UInt8)
  | memoryUsage (valueSizer : Option (α → ℕ))
  | occupiedBucketCounter

namespace TableCall

/-- The table after a call. -/
def run (env : Env (Event α)) (table : Hashtable α) :
    TableCall α → Traced (Event α) (Hashtable α)
  | set key value valueDestroyer => do
    let (_, table) ← tableSet env table key value valueDestroyer
    pure table
  | add key value => do
    let (_, table) ← tableAdd env table key value
    pure table
  | replace key newValue valueDestroyer => do
    let (_, table) ← tableReplace env table key newValue valueDestroyer
    pure table
  | delete key valueDestroyer => do
    let (_, table) ← tableDelete env table key valueDestroyer
    pure table
  | clear valueDestroyer => do
    let (_, table) ← tableClear env table valueDestroyer
    pure table
  | resize newCapacity => do
    let (_, table) ← tableResize env table newCapacity
    pure table
  | get key valueSizer => do
    let _ ← tableGet env table key valueSizer
    pure table
  | exist key => do
    let _ ← tableExist env table key
    pure table
  | memoryUsage valueSizer => do
    let _ ← tableMemoryUsage env table valueSizer
    pure table
  | occupiedBucketCounter => do
    let _ ← tableOccupiedBucketCounter env table
    pure table

/-- Whether the call is handed a value destroyer. -/
@[simp] def destroys : TableCall α → Bool
  | set _ _ d => d
  | replace _ _ d => d
  | delete _ d => d
  | clear d => d
  | _ => false

/-- The value that the call is to store. -/
@[simp] def stores : TableCall α → Option (Block α)
  | set _ value _ => value
  | add _ value => value
  | replace _ value _ => value
  | _ => none

/-- Whether the call only reads the table. -/
def reads : TableCall α → Bool
  | get .. => true
  | exist .. => true
  | memoryUsage .. => true
  | occupiedBucketCounter => true
  | _ => false

/-- The code of a failed lock. -/
def lockCode : TableCall α → ℤ
  | delete .. => -2
  | _ => -1

end TableCall

namespace Hashtable

variable (t : Hashtable α) (key : List UInt8)

/-- Slot `j` of the bucket of `key` passes the test of the searches. -/
def Found (j : Fin BUCKET_CAPACITY) : Prop := (t.slotAt key j).matches (hash key) key = true

/-- No slot of the bucket of `key` passes the test of the searches. -/
def Missing : Prop := ∀ j, ¬t.Found key j

/-- Every slot of the bucket of `key` is in use. -/
def Full : Prop := ∀ j, (t.slotAt key j).inUse = true

variable {t key}

theorem Found.inUse {j : Fin BUCKET_CAPACITY} (h : t.Found key j) :
    (t.slotAt key j).inUse = true := by
  simp only [Found, Slot.matches, Bool.and_eq_true] at h
  exact h.1.1

theorem Found.hash_eq {j : Fin BUCKET_CAPACITY} (h : t.Found key j) :
    (t.slotAt key j).hash = hash key := by
  simp only [Found, Slot.matches, Bool.and_eq_true, beq_iff_eq] at h
  exact h.1.2

end Hashtable

/-- Why a call leaves the table as it is, and the code that it returns. -/
inductive Refusal (env : Env (Event α)) (t : Hashtable α) : TableCall α → ℤ → Prop where
  | lock {call : TableCall α} (log : List (Event α)) (i : ℕ) (h : env.lock log i = false) :
    Refusal env t call call.lockCode
  | setKeyTooLong {key : List UInt8} {value : Option (Block α)} {d : Bool}
    (h : KEY_MAX_LEN ≤ ustrlen key) : Refusal env t (.set key value d) (-3)
  | setFull {key : List UInt8} {value : Option (Block α)} {d : Bool}
    (hmiss : t.Missing key) (hfull : t.Full key) : Refusal env t (.set key value d) (-2)
  | addFound {key : List UInt8} {value : Option (Block α)} {j : Fin BUCKET_CAPACITY}
    (h : t.Found key j) : Refusal env t (.add key value) (-3)
  | addFull {key : List UInt8} {value : Option (Block α)}
    (hmiss : t.Missing key) (hfull : t.Full key) : Refusal env t (.add key value) (-2)
  | replaceMissing {key : List UInt8} {value : Option (Block α)} {d : Bool}
    (h : t.Missing key) : Refusal env t (.replace key value d) (-2)
  | deleteMissing {key : List UInt8} {d : Bool} (h : t.Missing key) :
    Refusal env t (.delete key d) (-1)
  | resizeZero : Refusal env t (.resize 0) (-1)
  | resizeSmall {N : UInt64} (h : roundCapacity N < t.elemCount) :
    Refusal env t (.resize N) (-1)
  | resizeAlloc {N : UInt64} (h : 2 ^ 64 ≤ (roundCapacity N).toNat * SIZEOF_BUCKET ∨
      ∃ log, env.alloc log ((roundCapacity N).toNat * SIZEOF_BUCKET) = false) :
    Refusal env t (.resize N) (-1)
  | resizeFull {N : UInt64} (h : 0 < (roundCapacity N).toNat → ∃ i, BUCKET_CAPACITY <
      (t.entries.filter fun slot => rehashHome (roundCapacity N) slot = i).card) :
    Refusal env t (.resize N) (-1)

/-- What a call can do: the code it returns, the table it leaves and the blocks it drops. -/
inductive Outcome (env : Env (Event α)) (t : Hashtable α) :
    TableCall α → ℤ → Hashtable α → List (Block α) → Prop where
  | refused {call : TableCall α} {code : ℤ} (h : Refusal env t call code) :
    Outcome env t call code t []
  | read {call : TableCall α} (h : call.reads = true) : Outcome env t call 0 t []
  | setFound {key : List UInt8} {value : Option (Block α)} {d : Bool} {j : Fin BUCKET_CAPACITY}
    (hlen : ustrlen key < KEY_MAX_LEN) (hfound : t.Found key j) :
    Outcome env t (.set key value d) 0 (t.overwrite key j value) (t.slotAt key j).value.toList
  | setInserted {key : List UInt8} {value : Option (Block α)} {d : Bool}
    {j : Fin BUCKET_CAPACITY} (hlen : ustrlen key < KEY_MAX_LEN) (hmiss : t.Missing key)
    (hfree : (t.slotAt key j).inUse = false) :
    Outcome env t (.set key value d) 0 (t.insertAt key j value) []
  | addInserted {key : List UInt8} {value : Option (Block α)} {j : Fin BUCKET_CAPACITY}
    (hmiss : t.Missing key) (hfree : (t.slotAt key j).inUse = false) :
    Outcome env t (.add key value) 0 (t.insertAt key j value) []
  | replaced {key : List UInt8} {value : Option (Block α)} {d : Bool} {j : Fin BUCKET_CAPACITY}
    (hfound : t.Found key j) :
    Outcome env t (.replace key value d) 0 (t.overwrite key j value)
      (t.slotAt key j).value.toList
  | deleted {key : List UInt8} {d : Bool} {j : Fin BUCKET_CAPACITY} (hfound : t.Found key j) :
    Outcome env t (.delete key d) 0 (t.removeAt key j) (t.slotAt key j).value.toList
  | cleared {d : Bool} {buckets : ℕ → Bucket α} {ds : List (Block α)}
    (hbuckets : ∀ i < t.bucketsCount.toNat, ∀ j, (buckets i j).inUse = false)
    (hdropped : (ds : Multiset (Block α)) = t.values) :
    Outcome env t (.clear d) 0 { t with buckets := buckets, elemCount := 0 } ds
  | sameSize {N : UInt64} (hN : N ≠ 0) (h : roundCapacity N = t.bucketsCount) :
    Outcome env t (.resize N) 0 t []
  | moved {N : UInt64} {buckets : ℕ → Bucket α} (hN : N ≠ 0)
    (hne : roundCapacity N ≠ t.bucketsCount) (hcount : t.elemCount ≤ roundCapacity N)
    (hbytes : (roundCapacity N).toNat * SIZEOF_BUCKET < 2 ^ 64)
    (hmoved : 0 < (roundCapacity N).toNat →
      Placed Slot.inUse (rehashHome (roundCapacity N)) buckets (roundCapacity N).toNat ∧
        contents Slot.inUse buckets (roundCapacity N).toNat = t.entries) :
    Outcome env t (.resize N) 0
      { t with buckets := buckets, bucketsCount := roundCapacity N } []

/-- The code of a refusal is not zero. -/
theorem Refusal.code_ne_zero {env : Env (Event α)} {t : Hashtable α} {call : TableCall α}
    {code : ℤ} (h : Refusal env t call code) : code ≠ 0 := by
  cases h with
  | lock log i h => cases call <;> simp [TableCall.lockCode]
  | _ => decide

/-- A call that returns a nonzero code leaves the table as it was and drops nothing. -/
theorem Outcome.eq_of_code_ne_zero {env : Env (Event α)} {t t' : Hashtable α}
    {call : TableCall α} {code : ℤ} {ds : List (Block α)} (h : Outcome env t call code t' ds)
    (hcode : code ≠ 0) : t' = t ∧ ds = [] := by
  cases h with
  | refused _ => exact ⟨rfl, rfl⟩
  | _ => exact absurd rfl hcode

/-- A computation returns a code and a table that are an outcome of `call` on `t`, and its
events are silent apart from the destruction of the dropped blocks. -/
def Performs (env : Env (Event α)) (t : Hashtable α) (call : TableCall α)
    (op : Traced (Event α) (ℤ × Hashtable α)) : Prop :=
  ∀ log, op.Ensures log fun r new => ∃ ds, Outcome env t call r.1 r.2 ds ∧
    Effects new (handed call.destroys ds) [] 0

/-! ### The steps of the operations -/

section Steps

variable (env : Env (Event α)) (t : Hashtable α) (key : List UInt8) (log : List (Event α))

theorem wrlock_ensures (i : ℕ) : (wrlock env i).Ensures log fun ok new =>
    ok = env.lock log i ∧ Effects new [] [] (if ok then hold i else 0) :=
  ⟨rfl, effects_wrlock i _⟩

theorem unlock_ensures (i : ℕ) : (unlock i).Ensures log fun _ new =>
    Effects new ([] : List (Block α)) [] (-hold i) :=
  effects_unlock i

theorem findSlot_ensures :
    (findSlot t (t.bucketIndex (hash key)) (hash key) key slotIndices).Ensures log fun r new =>
      Effects new [] [] 0 ∧
      match r with
      | some j => t.Found key j
      | none => t.Missing key := by
  refine ⟨findSlot_effects .., ?_⟩
  rw [findSlot_value]
  split
  · next j hj => exact (List.find?_eq_some_iff_append.mp hj).1
  · next hnone => exact fun j => List.find?_eq_none.mp hnone j (mem_slotIndices j)

theorem findValue_ensures :
    (findValue t (t.bucketIndex (hash key)) (hash key) key).Ensures log fun r new =>
      Effects new [] [] 0 ∧
        ((∃ j, t.Found key j ∧ r = (t.slotAt key j).value) ∨ t.Missing key ∧ r = none) := by
  refine (findSlot_ensures t key log).bind ?_
  rintro (_ | j) new₁ ⟨h₁, hr⟩
  · exact ⟨h₁, .inr ⟨hr, rfl⟩⟩
  · refine (readSlot_ensures t _ j _).bind ?_
    rintro slot new₂ ⟨rfl, h₂⟩
    exact ⟨by simpa using h₂.append h₁, .inl ⟨j, hr, rfl⟩⟩

theorem findSlotOrEmpty_ensures :
    (findSlotOrEmpty t (t.bucketIndex (hash key)) (hash key) key none slotIndices).Ensures log
      fun r new => Effects new [] [] 0 ∧
      match r with
      | (some j, _) => t.Found key j
      | (none, some j) => t.Missing key ∧ (t.slotAt key j).inUse = false
      | (none, none) => t.Missing key ∧ t.Full key := by
  refine ⟨findSlotOrEmpty_effects .., ?_⟩
  have hfound := findSlotOrEmpty_value t (t.bucketIndex (hash key)) (hash key) key none
    slotIndices log
  have missing {e : Option (Fin BUCKET_CAPACITY)}
      (hr : ((findSlotOrEmpty t (t.bucketIndex (hash key)) (hash key) key none
        slotIndices).run log).1 = (none, e)) :
      t.Missing key ∧ e = slotIndices.find? fun j => !(t.slotAt key j).inUse := by
    rw [hr] at hfound
    have hmiss : t.Missing key := fun j =>
      List.find?_eq_none.mp hfound.symm j (mem_slotIndices j)
    have hempty := findSlotOrEmpty_empty t (t.bucketIndex (hash key)) (hash key) key none
      slotIndices log fun j _ => Bool.eq_false_iff.mpr (hmiss j)
    rw [hr, Option.none_or] at hempty
    exact ⟨hmiss, hempty⟩
  split
  · next j e hr =>
    rw [hr] at hfound
    exact (List.find?_eq_some_iff_append.mp hfound.symm).1
  · next j hr =>
    obtain ⟨hmiss, hempty⟩ := missing hr
    exact ⟨hmiss, by simpa using (List.find?_eq_some_iff_append.mp hempty.symm).1⟩
  · next hr =>
    obtain ⟨hmiss, hempty⟩ := missing hr
    exact ⟨hmiss, fun j => by
      simpa using List.find?_eq_none.mp hempty.symm j (mem_slotIndices j)⟩

theorem insertEntry_ensures (j : Fin BUCKET_CAPACITY) (value : Option (Block α)) :
    (insertEntry t (t.bucketIndex (hash key)) j (hash key) key value).Ensures log fun t' new =>
      t' = t.insertAt key j value ∧ Effects new [] [] 0 := by
  refine (readSlot_ensures t _ j log).bind ?_
  rintro slot new₁ ⟨rfl, h₁⟩
  refine (writeSlot_ensures t _ j _ _).bind ?_
  rintro t' new₂ ⟨rfl, h₂⟩
  exact ⟨rfl, by simpa using h₂.append h₁⟩

/-- The replacement of a value that `table_set` and `table_replace` share. -/
theorem overwrite_ensures (j : Fin BUCKET_CAPACITY) (value : Option (Block α)) (d : Bool) :
    Traced.Ensures (do
      let slot ← readSlot t (t.bucketIndex (hash key)) j
      callDestroyer d slot.value
      let table ← writeSlot t (t.bucketIndex (hash key)) j { slot with value := value }
      unlock (t.bucketIndex (hash key))
      pure ((0, table) : ℤ × Hashtable α)) log fun r new =>
      r = (0, t.overwrite key j value) ∧
        Effects new (handed d (t.slotAt key j).value.toList) []
          (-hold (t.bucketIndex (hash key))) := by
  refine (readSlot_ensures t _ j log).bind ?_
  rintro slot new₁ ⟨rfl, h₁⟩
  refine (callDestroyer_ensures d _ _).bind ?_
  intro _ new₂ h₂
  refine (writeSlot_ensures t _ j _ _).bind ?_
  rintro t' new₃ ⟨rfl, h₃⟩
  refine (unlock_ensures _ _).bind ?_
  intro _ new₄ h₄
  exact ⟨rfl, by
    simpa [slotAt, keyBucket] using ((h₄.append h₃).append h₂).append h₁⟩

end Steps

/-! ### Operations on a key -/

section Operations

variable (env : Env (Event α)) (t : Hashtable α) (key : List UInt8)

theorem tableSet_spec (value : Option (Block α)) (d : Bool) :
    Performs env t (.set key value d) (tableSet env t key value d) := by
  intro log
  refine Traced.ensures_ite (fun hlen => ?_) fun hlen => ?_
  · exact ⟨[], .refused (.setKeyTooLong hlen), by simpa using Effects.nil⟩
  have hlen : ustrlen key < KEY_MAX_LEN := not_le.mp hlen
  refine (wrlock_ensures env log _).bind ?_
  rintro ok new₁ ⟨hok, h₁⟩
  refine Traced.ensures_ite (fun htrue => ?_) fun hfalse => ?_
  · simp only [htrue, if_true] at h₁
    refine (findSlotOrEmpty_ensures t key _).bind ?_
    rintro ⟨_ | j, e⟩ new₂ ⟨h₂, hr⟩
    · cases e with
      | some j =>
        refine (insertEntry_ensures t key _ j value).bind ?_
        rintro t' new₃ ⟨rfl, h₃⟩
        refine (unlock_ensures _ _).bind ?_
        intro _ new₄ h₄
        exact ⟨[], .setInserted hlen hr.1 hr.2,
          by simpa using ((h₄.append h₃).append h₂).append h₁⟩
      | none =>
        refine (unlock_ensures _ _).bind ?_
        intro _ new₃ h₃
        exact ⟨[], .refused (.setFull hr.1 hr.2), by simpa using (h₃.append h₂).append h₁⟩
    · refine (overwrite_ensures t key _ j value d).mono ?_
      rintro r new₃ ⟨rfl, h₃⟩
      exact ⟨_, .setFound hlen hr, by simpa using (h₃.append h₂).append h₁⟩
  · simp only [hfalse] at h₁
    exact ⟨[], .refused (.lock log _ (hok ▸ Bool.eq_false_iff.mpr hfalse)), by simpa using h₁⟩

theorem tableAdd_spec (value : Option (Block α)) :
    Performs env t (.add key value) (tableAdd env t key value) := by
  intro log
  refine (wrlock_ensures env log _).bind ?_
  rintro ok new₁ ⟨hok, h₁⟩
  refine Traced.ensures_ite (fun htrue => ?_) fun hfalse => ?_
  · simp only [htrue, if_true] at h₁
    refine (findSlotOrEmpty_ensures t key _).bind ?_
    rintro ⟨_ | j, e⟩ new₂ ⟨h₂, hr⟩
    · cases e with
      | some j =>
        refine (insertEntry_ensures t key _ j value).bind ?_
        rintro t' new₃ ⟨rfl, h₃⟩
        refine (unlock_ensures _ _).bind ?_
        intro _ new₄ h₄
        exact ⟨[], .addInserted hr.1 hr.2, by simpa using ((h₄.append h₃).append h₂).append h₁⟩
      | none =>
        refine (unlock_ensures _ _).bind ?_
        intro _ new₃ h₃
        exact ⟨[], .refused (.addFull hr.1 hr.2), by simpa using (h₃.append h₂).append h₁⟩
    · refine (unlock_ensures _ _).bind ?_
      intro _ new₃ h₃
      exact ⟨[], .refused (.addFound hr), by simpa using (h₃.append h₂).append h₁⟩
  · simp only [hfalse] at h₁
    exact ⟨[], .refused (.lock log _ (hok ▸ Bool.eq_false_iff.mpr hfalse)), by simpa using h₁⟩

theorem tableReplace_spec (value : Option (Block α)) (d : Bool) :
    Performs env t (.replace key value d) (tableReplace env t key value d) := by
  intro log
  refine (wrlock_ensures env log _).bind ?_
  rintro ok new₁ ⟨hok, h₁⟩
  refine Traced.ensures_ite (fun htrue => ?_) fun hfalse => ?_
  · simp only [htrue, if_true] at h₁
    refine (findSlot_ensures t key _).bind ?_
    rintro (_ | j) new₂ ⟨h₂, hr⟩
    · refine (unlock_ensures _ _).bind ?_
      intro _ new₃ h₃
      exact ⟨[], .refused (.replaceMissing hr), by simpa using (h₃.append h₂).append h₁⟩
    · refine (overwrite_ensures t key _ j value d).mono ?_
      rintro r new₃ ⟨rfl, h₃⟩
      exact ⟨_, .replaced hr, by simpa using (h₃.append h₂).append h₁⟩
  · simp only [hfalse] at h₁
    exact ⟨[], .refused (.lock log _ (hok ▸ Bool.eq_false_iff.mpr hfalse)), by simpa using h₁⟩

theorem tableDelete_spec (d : Bool) :
    Performs env t (.delete key d) (tableDelete env t key d) := by
  intro log
  refine (wrlock_ensures env log _).bind ?_
  rintro ok new₁ ⟨hok, h₁⟩
  refine Traced.ensures_ite (fun htrue => ?_) fun hfalse => ?_
  · simp only [htrue, if_true] at h₁
    refine (findSlot_ensures t key _).bind ?_
    rintro (_ | j) new₂ ⟨h₂, hr⟩
    · refine (unlock_ensures _ _).bind ?_
      intro _ new₃ h₃
      exact ⟨[], .refused (.deleteMissing hr), by simpa using (h₃.append h₂).append h₁⟩
    · refine (readSlot_ensures t _ j _).bind ?_
      rintro slot new₃ ⟨rfl, h₃⟩
      refine (callDestroyer_ensures d _ _).bind ?_
      intro _ new₄ h₄
      refine (writeSlot_ensures t _ j _ _).bind ?_
      rintro t' new₅ ⟨rfl, h₅⟩
      refine (unlock_ensures _ _).bind ?_
      intro _ new₆ h₆
      refine ⟨_, .deleted hr, ?_⟩
      simpa [slotAt, keyBucket] using
        ((((h₆.append h₅).append h₄).append h₃).append h₂).append h₁
  · simp only [hfalse] at h₁
    exact ⟨[], .refused (.lock log _ (hok ▸ Bool.eq_false_iff.mpr hfalse)), by simpa using h₁⟩

end Operations

/-! ### Operations on the whole table -/

section WholeTable

variable (env : Env (Event α)) (t : Hashtable α) (log : List (Event α))

theorem unlockAll_ensures (l : List ℕ) : (unlockAll l).Ensures log fun _ new =>
    Effects new ([] : List (Block α)) [] (-holds l) :=
  unlockAll_effects l log

/-- A failed acquisition of all locks is the failure of one of them. -/
private theorem lockAll_refused (acquired l : List ℕ)
    (h : ((lockAll (wrlock env) acquired l).run log).1 = false) :
    ∃ log i, env.lock log i = false := by
  by_contra hall
  simp only [not_exists, Bool.not_eq_false] at hall
  have hgranted : (lockAll (wrlock env) acquired l).run log = (true, _) :=
    lockAll_granted .wrlock acquired l log fun k hk => hall _ _
  rw [hgranted] at h
  exact Bool.false_ne_true h.symm

theorem lockAll_ensures (l : List ℕ) : (lockAll (wrlock env) [] l).Ensures log fun ok new =>
    Effects new [] [] (if ok then holds l else 0) ∧
      (ok = false → ∃ log i, env.lock log i = false) := by
  refine ⟨?_, lockAll_refused env log [] l⟩
  have h := lockAll_effects (acquires_wrlock env) [] l log
  rwa [holds_nil, neg_zero] at h

theorem calloc_ensures (n size : ℕ) : (calloc env n size).Ensures log fun ok new =>
    Effects new [] [] 0 ∧
      (ok = true → n * size < 2 ^ 64) ∧
      (ok = false → 2 ^ 64 ≤ n * size ∨ env.alloc log (n * size) = false) := by
  refine Traced.ensures_ite (fun h => ?_) fun h => ?_
  · exact ⟨effects_malloc _ _, by simp, fun _ => .inl h⟩
  · exact ⟨effects_malloc _ _, fun _ => not_le.mp h, fun hfail => .inr hfail⟩

/-- The rehash of the whole table into empty buckets. -/
theorem rehash_ensures (N : UInt64) :
    (rehash t N (fun _ _ => Slot.zero) (allSlots t.bucketsCount.toNat)).Ensures log fun r new =>
      Effects new [] [] 0 ∧
      match r with
      | some buckets => 0 < N.toNat → Placed Slot.inUse (rehashHome N) buckets N.toNat ∧
          contents Slot.inUse buckets N.toNat = t.entries
      | none => 0 < N.toNat → ∃ i, BUCKET_CAPACITY <
          (t.entries.filter fun slot => rehashHome N slot = i).card := by
  refine ⟨rehash_effects .., ?_⟩
  have hplaced : Placed Slot.inUse (rehashHome N)
      (fun _ (_ : Fin BUCKET_CAPACITY) => (Slot.zero : Slot α)) N.toNat := by
    intro i _ c hc
    obtain ⟨j, rfl, hj⟩ := mem_held.mp hc
    exact absurd hj Bool.false_ne_true
  have hzero : contents Slot.inUse (fun _ (_ : Fin BUCKET_CAPACITY) => (Slot.zero : Slot α))
      N.toNat = 0 := contents_eq_zero fun _ _ _ => rfl
  have hspec (hpos : 0 < N.toNat) :=
    rehash_spec t (rehashHome_lt hpos) _ (allSlots t.bucketsCount.toNat) hplaced log
  simp only [Traced.Ensures, hzero, gathered_allSlots, zero_add] at hspec
  split
  · next hr =>
    rw [hr] at hspec
    exact hspec
  · next hr =>
    rw [hr] at hspec
    exact hspec

theorem tableClear_spec (d : Bool) : Performs env t (.clear d) (tableClear env t d) := by
  intro log
  refine (lockAll_ensures env log _).bind ?_
  rintro ok new₁ ⟨h₁, hok⟩
  refine Traced.ensures_ite (fun htrue => ?_) fun hfalse => ?_
  · simp only [htrue, if_true] at h₁
    refine (clearSlots_spec d t _ (fun p hp => mem_allSlots.mp hp) _).bind ?_
    rintro t' new₂ ⟨hclear, ds, h₂, hvalues⟩
    refine (unlockAll_ensures _ _).bind ?_
    intro _ new₃ h₃
    have hunused : ∀ i < t.bucketsCount.toNat, ∀ j, (t'.buckets i j).inUse = false :=
      fun i hi j => hclear.unused (i, j) (mem_allSlots.mpr hi)
    have hempty : t'.entries = 0 :=
      contents_eq_zero (by rw [hclear.bucketsCount]; exact hunused)
    rw [values, hempty, valuesOf_zero, zero_add] at hvalues
    refine ⟨ds, ?_, by simpa using (h₃.append h₂).append h₁⟩
    have hresult : { t' with elemCount := 0 } =
        { t with buckets := t'.buckets, elemCount := 0 } := by
      rw [← hclear.bucketsCount, ← hclear.lockCount]
    exact hresult ▸ .cleared hunused hvalues
  · obtain ⟨log', i, hlock⟩ := hok (Bool.eq_false_iff.mpr hfalse)
    simp only [hfalse] at h₁
    exact ⟨[], .refused (.lock log' i hlock), by simpa using h₁⟩

theorem tableResize_spec (N : UInt64) :
    Performs env t (.resize N) (tableResize env t N) := by
  intro log
  refine Traced.ensures_ite (fun hzero => ?_) fun hN => ?_
  · exact hzero ▸ ⟨[], .refused .resizeZero, by simpa using Effects.nil⟩
  refine Traced.ensures_ite (fun hsame => ?_) fun hne => ?_
  · exact ⟨[], .sameSize hN hsame, by simpa using Effects.nil⟩
  refine (lockAll_ensures env log _).bind ?_
  rintro ok new₁ ⟨h₁, hok⟩
  refine Traced.ensures_ite (fun htrue => ?_) fun hfalse => ?_
  swap
  · obtain ⟨log', i, hlock⟩ := hok (Bool.eq_false_iff.mpr hfalse)
    simp only [hfalse] at h₁
    exact ⟨[], .refused (.lock log' i hlock), by simpa using h₁⟩
  simp only [htrue, if_true] at h₁
  refine Traced.ensures_ite (fun hsmall => ?_) fun hcount => ?_
  · refine (unlockAll_ensures _ _).bind ?_
    intro _ new₂ h₂
    exact ⟨[], .refused (.resizeSmall hsmall), by simpa using h₂.append h₁⟩
  refine (calloc_ensures env _ _ _).bind ?_
  rintro granted new₂ ⟨h₂, hbytes, hrefused⟩
  refine Traced.ensures_ite (fun hgranted => ?_) fun hfailed => ?_
  swap
  · refine (unlockAll_ensures _ _).bind ?_
    intro _ new₃ h₃
    exact ⟨[], .refused (.resizeAlloc ((hrefused (Bool.eq_false_iff.mpr hfailed)).imp_right
      fun h => ⟨_, h⟩)), by simpa using (h₃.append h₂).append h₁⟩
  refine (rehash_ensures t _ _).bind ?_
  rintro (_ | buckets) new₃ ⟨h₃, hr⟩
  · refine (unlockAll_ensures _ _).bind ?_
    intro _ new₄ h₄
    exact ⟨[], .refused (.resizeFull hr), by simpa using ((h₄.append h₃).append h₂).append h₁⟩
  · refine (unlockAll_ensures _ _).bind ?_
    intro _ new₄ h₄
    exact ⟨[], .moved hN hne (UInt64.not_lt.mp hcount) (hbytes hgranted) hr,
      by simpa using ((h₄.append h₃).append h₂).append h₁⟩

/-! ### Operations that only read -/

variable (key : List UInt8)

/-- A computation gives back every lock that it takes and destroys nothing. -/
def Observes {β : Type} (op : Traced (Event α) β) : Prop :=
  ∀ log, op.Ensures log fun _ new => ∃ cs, Effects new [] cs 0

/-- A computation gives back every lock that it takes, and creates and destroys nothing. -/
def Silent {β : Type} (op : Traced (Event α) β) : Prop :=
  ∀ log, op.Ensures log fun _ new => Effects new [] [] 0

theorem Silent.observes {β : Type} {op : Traced (Event α) β} (h : Silent op) : Observes op :=
  fun log => (h log).mono fun _ _ heff => ⟨[], heff⟩

theorem rdlock_ensures (i : ℕ) : (rdlock env i).Ensures log fun ok new =>
    Effects new [] [] (if ok then hold i else 0) :=
  effects_rdlock i _

/-- The answer to the acquisition of a read lock, and its event. -/
theorem rdlock_events (i : ℕ) : (rdlock env i).Ensures log fun ok new =>
    ok = env.lock log i ∧ new = [.rdlock i ok] :=
  ⟨rfl, rfl⟩

/-- The answer to a request for memory, and its event. -/
theorem malloc_events (size : ℕ) : (malloc env size).Ensures log fun ok new =>
    ok = env.alloc log size ∧ new = [.malloc size ok] :=
  ⟨rfl, rfl⟩

theorem memdup_ensures (src : Block α) (len : ℕ) : (memdup env src len).Ensures log fun r new =>
    Effects new [] r.toList 0 ∧
      (∀ c, r = some c → log.length ≤ c.ident ∧ c.ident < (new ++ log).length) ∧
      r.isSome = env.alloc log len := by
  refine (malloc_events env log len).bind ?_
  rintro ok new ⟨hok, hnew⟩
  have heff : Effects new ([] : List (Block α)) [] 0 := hnew ▸ effects_malloc len ok
  refine Traced.ensures_ite (fun htrue => ?_) fun hfalse => ?_
  · refine ⟨(effects_create _).append heff, ?_, htrue.symm.trans hok⟩
    rintro c ⟨⟩
    change log.length ≤ (new ++ log).length ∧
      (new ++ log).length < (_ :: new ++ log).length
    simp only [List.cons_append, List.length_append, List.length_cons]
    omega
  · exact ⟨heff, nofun, (Bool.eq_false_iff.mpr hfalse).symm.trans hok⟩

/-- The transcript at which `table_get` asks for the memory of the copy: after the lock and the
search. -/
def copyLog : List (Event α) :=
  ((findValue t (t.bucketIndex (hash key)) (hash key) key).run
    (.rdlock (t.bucketIndex (hash key)) true :: log)).2 ++
    .rdlock (t.bucketIndex (hash key)) true :: log

/-- When `table_get` returns a copy: the lock is granted, the search finds a value, and the memory
of the copy is granted. -/
def CopyGranted (valueSizer : α → ℕ) : Prop :=
  env.lock log (t.bucketIndex (hash key)) = true ∧
    ∃ b, ((findValue t (t.bucketIndex (hash key)) (hash key) key).run
        (.rdlock (t.bucketIndex (hash key)) true :: log)).1 = some b ∧
      valueSizer b.val ≠ 0 ∧ env.alloc (copyLog t log key) (valueSizer b.val) = true

/-- `table_get` creates the copy that it returns. -/
theorem tableGet_ensures (valueSizer : α → ℕ) :
    (tableGet env t key (some valueSizer)).Ensures log fun r new =>
      Effects new [] r.toList 0 ∧
        (∀ c, r = some c → log.length ≤ c.ident ∧ c.ident < (new ++ log).length) ∧
        (r.isSome ↔ CopyGranted env t log key valueSizer) := by
  refine (rdlock_events env log _).bind ?_
  rintro ok new₁ ⟨hok, rfl⟩
  have h₁ := effects_rdlock (α := α) (t.bucketIndex (hash key)) ok
  refine Traced.ensures_ite (fun htrue => ?_) fun hfalse => ?_
  swap
  · rw [Bool.eq_false_iff.mpr hfalse] at h₁ ⊢
    exact ⟨h₁, nofun, iff_of_false Bool.false_ne_true fun h =>
      hfalse (hok.trans h.1)⟩
  subst htrue
  have hsearch : (findValue t (t.bucketIndex (hash key)) (hash key) key).Ensures
      ([.rdlock (t.bucketIndex (hash key)) true] ++ log) fun r new =>
        Effects new [] [] 0 ∧ r = ((findValue t (t.bucketIndex (hash key)) (hash key) key).run
          (.rdlock (t.bucketIndex (hash key)) true :: log)).1 ∧
        new ++ ([.rdlock (t.bucketIndex (hash key)) true] ++ log) = copyLog t log key :=
    ⟨(findValue_ensures t key _).1, rfl, rfl⟩
  refine hsearch.bind ?_
  rintro (_ | value) new₂ ⟨h₂, hvalue, hlog⟩
  · refine (unlock_ensures _ _).bind ?_
    intro _ new₃ h₃
    refine ⟨by simpa using (h₃.append h₂).append h₁, nofun, ?_⟩
    refine iff_of_false Bool.false_ne_true ?_
    rintro ⟨-, b, hb, -⟩
    exact absurd (hvalue.trans hb) (Option.some_ne_none b).symm
  refine Traced.ensures_ite (fun hzero => ?_) fun hsize => ?_
  · refine (unlock_ensures _ _).bind ?_
    intro _ new₃ h₃
    refine ⟨by simpa using (h₃.append h₂).append h₁, nofun, ?_⟩
    refine iff_of_false Bool.false_ne_true ?_
    rintro ⟨-, b, hb, hne, -⟩
    obtain rfl := Option.some_inj.mp (hvalue.trans hb)
    exact hne hzero
  · rw [hlog]
    refine (memdup_ensures env (copyLog t log key) value _).bind ?_
    rintro copy new₃ ⟨h₃, hfresh, hsome⟩
    refine (unlock_ensures _ _).bind ?_
    intro _ new₄ h₄
    refine ⟨by simpa using ((h₄.append h₃).append h₂).append h₁, fun c hc => ?_, ?_⟩
    · have hfresh := hfresh c hc
      rw [← hlog] at hfresh
      simp only [List.length_append, List.length_singleton] at hfresh ⊢
      omega
    rw [Traced.run_pure, hsome]
    constructor
    · exact fun halloc => ⟨hok.symm, value, hvalue.symm, hsize, halloc⟩
    · rintro ⟨-, b, hb, -, halloc⟩
      obtain rfl := Option.some_inj.mp (hvalue.trans hb)
      exact halloc

theorem tableGet_observes (valueSizer : Option (α → ℕ)) :
    Observes (tableGet env t key valueSizer) := by
  intro log
  cases valueSizer with
  | none => exact ⟨[], Effects.nil⟩
  | some valueSizer =>
    exact (tableGet_ensures env t log key valueSizer).mono fun r _ h => ⟨r.toList, h.1⟩

theorem tableExist_silent : Silent (tableExist env t key) := by
  intro log
  refine (rdlock_ensures env log _).bind ?_
  intro ok new₁ h₁
  refine Traced.ensures_ite (fun htrue => ?_) fun hfalse => ?_
  · simp only [htrue, if_true] at h₁
    refine (findSlot_ensures t key _).bind ?_
    rintro found new₂ ⟨h₂, -⟩
    refine (unlock_ensures _ _).bind ?_
    intro _ new₃ h₃
    simpa [Traced.ensures_pure] using (h₃.append h₂).append h₁
  · simp only [hfalse] at h₁
    simpa [Traced.ensures_pure] using h₁

theorem sumValueSizes_ensures (valueSizer : α → ℕ) (totalSize : UInt64)
    (l : List (ℕ × Fin BUCKET_CAPACITY)) :
    (sumValueSizes t valueSizer totalSize l).Ensures log fun _ new => Effects new [] [] 0 := by
  induction l generalizing totalSize log with
  | nil => exact Effects.nil
  | cons p l ih =>
    refine (readSlot_ensures t p.1 p.2 log).bind ?_
    rintro slot new₁ ⟨rfl, h₁⟩
    split
    · exact (ih _ _).mono fun _ new₂ h₂ => by simpa using h₂.append h₁
    · exact (ih _ _).mono fun _ new₂ h₂ => by simpa using h₂.append h₁

theorem tableMemoryUsage_silent (valueSizer : Option (α → ℕ)) :
    Silent (tableMemoryUsage env t valueSizer) := by
  intro log
  cases valueSizer with
  | none => exact Effects.nil
  | some valueSizer =>
    have hlock : (lockAll (rdlock env) [] (List.range t.bucketsCount.toNat)).Ensures log
        fun ok new => Effects new [] [] (if ok then holds (List.range t.bucketsCount.toNat)
          else -holds []) :=
      lockAll_effects (acquires_rdlock env) [] _ log
    refine hlock.bind ?_
    intro ok new₁ h₁
    refine Traced.ensures_ite (fun htrue => ?_) fun hfalse => ?_
    · simp only [htrue, if_true] at h₁
      refine (sumValueSizes_ensures t _ valueSizer _ _).bind ?_
      intro total new₂ h₂
      refine (unlockAll_ensures _ _).bind ?_
      intro _ new₃ h₃
      simpa [Traced.ensures_pure] using (h₃.append h₂).append h₁
    · simp only [hfalse] at h₁
      simpa [Traced.ensures_pure] using h₁

theorem bucketOccupied_ensures (i : ℕ) (l : List (Fin BUCKET_CAPACITY)) :
    (bucketOccupied t i l).Ensures log fun _ new => Effects new [] [] 0 := by
  induction l generalizing log with
  | nil => exact Effects.nil
  | cons j l ih =>
    refine (readSlot_ensures t i j log).bind ?_
    rintro slot new₁ ⟨rfl, h₁⟩
    refine Traced.ensures_ite (fun _ => h₁) fun _ => ?_
    exact (ih _).mono fun _ new₂ h₂ => by simpa using h₂.append h₁

theorem countOccupied_ensures (occupied : ℕ) (l : List ℕ) :
    (countOccupied env t occupied l).Ensures log fun _ new => Effects new [] [] 0 := by
  induction l generalizing occupied log with
  | nil => exact Effects.nil
  | cons i l ih =>
    refine (rdlock_ensures env log i).bind ?_
    intro ok new₁ h₁
    refine Traced.ensures_ite (fun htrue => ?_) fun hfalse => ?_
    · simp only [htrue, if_true] at h₁
      refine (bucketOccupied_ensures t _ i slotIndices).bind ?_
      intro found new₂ h₂
      refine (unlock_ensures _ _).bind ?_
      intro _ new₃ h₃
      exact (ih _ _).mono fun _ new₄ h₄ => by
        simpa using ((h₄.append h₃).append h₂).append h₁
    · simp only [hfalse] at h₁
      exact (ih _ _).mono fun _ new₂ h₂ => by simpa using h₂.append h₁

theorem tableOccupiedBucketCounter_silent : Silent (tableOccupiedBucketCounter env t) := by
  intro log
  refine Traced.ensures_ite (fun _ => Effects.nil) fun _ => ?_
  exact (countOccupied_ensures env t log 0 _).bind fun _ new h => h

end WholeTable

/-! ### All calls -/

variable {env : Env (Event α)} {t : Hashtable α}

private theorem Performs.run {call : TableCall α} {op : Traced (Event α) (ℤ × Hashtable α)}
    (h : Performs env t call op) (log : List (Event α)) :
    Traced.Ensures (do let (_, table) ← op; pure table) log fun t' new =>
      ∃ code ds cs, Outcome env t call code t' ds ∧
        Effects new (handed call.destroys ds) cs 0 := by
  refine (h log).bind ?_
  rintro ⟨code, t'⟩ new ⟨ds, hout, heff⟩
  exact ⟨code, ds, [], hout, heff⟩

private theorem Observes.run {β : Type} {call : TableCall α} {op : Traced (Event α) β}
    (h : Observes op) (hread : call.reads = true) (log : List (Event α)) :
    Traced.Ensures (do let _ ← op; pure t) log fun t' new =>
      ∃ code ds cs, Outcome env t call code t' ds ∧
        Effects new (handed call.destroys ds) cs 0 := by
  refine (h log).bind ?_
  rintro _ new ⟨cs, heff⟩
  exact ⟨0, [], cs, .read hread, by simpa using heff⟩

/-- **Every call has an outcome.** It destroys the blocks it drops when a destroyer is given, and
gives back every lock that it takes. -/
theorem TableCall.run_spec (env : Env (Event α)) (t : Hashtable α) (call : TableCall α)
    (log : List (Event α)) :
    (call.run env t).Ensures log fun t' new => ∃ code ds cs, Outcome env t call code t' ds ∧
      Effects new (handed call.destroys ds) cs 0 := by
  cases call with
  | set key value d => exact (tableSet_spec env t key value d).run log
  | add key value => exact (tableAdd_spec env t key value).run log
  | replace key value d => exact (tableReplace_spec env t key value d).run log
  | delete key d => exact (tableDelete_spec env t key d).run log
  | clear d => exact (tableClear_spec env t d).run log
  | resize N => exact (tableResize_spec env t N).run log
  | get key sizer => exact (tableGet_observes env t key sizer).run rfl log
  | exist key => exact (tableExist_silent env t key).observes.run rfl log
  | memoryUsage sizer => exact (tableMemoryUsage_silent env t sizer).observes.run rfl log
  | occupiedBucketCounter => exact (tableOccupiedBucketCounter_silent env t).observes.run rfl log

end SimpleCDatabase
