import SimpleCDatabase.Foundations.Double
import SimpleCDatabase.Foundations.Traced
import SimpleCDatabase.HashingFunctionality
import SimpleCDatabase.StringFunctionality

/-!
# The hash table

The data and the operations of `hashtable.c`. A bucket has eight slots; the four parallel arrays
of `hashtable_bucket_t` are read as one array of slots. A table is a value that an operation
takes and returns, so the guards against a `NULL` table have no counterpart; a stored
`void*` is a heap block with an identity, or `none` for `NULL`.

What an operation asks of the C library (memory, bucket locks) is answered by an environment,
and what it does besides changing the table (locking and unlocking, touching the slots of a
bucket, creating and destroying values) is recorded as events.

A lock is named by its index; an index at or beyond `lockCount` lies outside the array of locks. The
code then locks and unlocks the memory behind the array, and may overwrite a slot, a hash or the
size of a value. In the model such a lock changes nothing but the transcript, where it can be seen:
what is said about a table is said about the program only as long as no lock is outside the array.

## Main definitions

* `Event`, `Env`: the events of a run and the answers of the C library.
* `Slot`, `Hashtable`: the data.
* `tableCreate`, `tableDestroy`, `tableClear`, `tableResize`.
* `tableSet`, `tableGet`, `tableDelete`, `tableExist`, `tableAdd`, `tableReplace`.
* `tableMemoryUsage`, `tableCapacity`, `tableLoadFactor`, `tableOccupiedBucketCounter`,
  `tableTotalElem`.

## References

* `src/hashtable.c`, `src/hashtable.h`.
-/

namespace SimpleCDatabase

/-! ### Events and environments -/

/-- A block of the heap: its identity and its contents. -/
structure Block (α : Type) where
  ident : ℕ
  val : α
  deriving DecidableEq, Repr

/-- What a run of table operations and commands does besides changing the table. -/
inductive Event (α : Type) where
  /-- A request for memory, and whether it was granted. -/
  | malloc (size : ℕ) (ok : Bool)
  /-- A value block came into being. -/
  | create (b : Block α)
  /-- A value block was passed to the value destroyer. -/
  | destroy (b : Block α)
  | wrlock (i : ℕ) (ok : Bool)
  | rdlock (i : ℕ) (ok : Bool)
  | unlock (i : ℕ)
  /-- A slot of bucket `i` of the table's current bucket array was read or written. -/
  | access (i : ℕ)
  | lockInit (i : ℕ) (ok : Bool)
  | lockDestroy (i : ℕ) (ok : Bool)
  deriving DecidableEq, Repr

/-- The answers of the C library: whether a request for so many bytes is granted, whether lock
`i` is acquired, whether it is initialised. Each may depend on everything that happened before. -/
structure Env (E : Type) where
  alloc : List E → ℕ → Bool
  lock : List E → ℕ → Bool
  lockInit : List E → ℕ → Bool

/-- The environment in which nothing fails. -/
def Env.granting {E : Type} : Env E := ⟨fun _ _ => true, fun _ _ => true, fun _ _ => true⟩

/-- No request for memory and no lock acquisition fails. -/
structure Env.Succeeds {E : Type} (env : Env E) : Prop where
  alloc : ∀ log size, env.alloc log size = true
  lock : ∀ log i, env.lock log i = true

theorem Env.granting_succeeds {E : Type} : (granting : Env E).Succeeds :=
  ⟨fun _ _ => rfl, fun _ _ => rfl⟩

variable {α : Type}

/-- The blocks passed to the value destroyer, the latest first. -/
def destroyed (log : List (Event α)) : List (Block α) :=
  log.filterMap fun | .destroy b => some b | _ => none

/-- The value blocks that came into being, the latest first. -/
def created (log : List (Event α)) : List (Block α) :=
  log.filterMap fun | .create b => some b | _ => none

/-- What one event adds to the number of holds on lock `i`. -/
def lockDelta (i : ℕ) : Event α → ℤ
  | .wrlock j true => if j = i then 1 else 0
  | .rdlock j true => if j = i then 1 else 0
  | .unlock j => if j = i then -1 else 0
  | _ => 0

/-- Acquisitions of lock `i` less its releases. -/
def lockBalance (log : List (Event α)) (i : ℕ) : ℤ := (log.map (lockDelta i)).sum

/-- `malloc`, with the answer of the environment. -/
def malloc (env : Env (Event α)) (size : ℕ) : Traced (Event α) Bool :=
  Traced.answer (fun log => env.alloc log size) (.malloc size)

/-- `calloc`: a request whose size in bytes overflows `size_t` is refused. -/
def calloc (env : Env (Event α)) (n size : ℕ) : Traced (Event α) Bool :=
  if 2 ^ 64 ≤ n * size then do
    Traced.emit (.malloc (n * size) false)
    pure false
  else malloc env (n * size)

/-- A new block with the contents `v`. Its identity is the number of events before it. -/
def newBlock (v : α) : Traced (Event α) (Block α) :=
  Traced.answer (fun log => ⟨log.length, v⟩) .create

/-- `memdup` of a whole block of `len` bytes.

Source: `string_functionality.c`, `memdup`. -/
def memdup (env : Env (Event α)) (src : Block α) (len : ℕ) :
    Traced (Event α) (Option (Block α)) := do
  if ← malloc env len then
    let dest ← newBlock src.val
    pure (some dest)
  else pure none

/-- `pthread_rwlock_wrlock`; the answer is whether it returns zero. On a lock outside the array,
which the code takes in the memory behind it, it is an event without effect, as are the next two. -/
def wrlock (env : Env (Event α)) (i : ℕ) : Traced (Event α) Bool :=
  Traced.answer (fun log => env.lock log i) (.wrlock i)

/-- `pthread_rwlock_rdlock`; the answer is whether it returns zero. -/
def rdlock (env : Env (Event α)) (i : ℕ) : Traced (Event α) Bool :=
  Traced.answer (fun log => env.lock log i) (.rdlock i)

/-- `pthread_rwlock_unlock`. -/
def unlock (i : ℕ) : Traced (Event α) Unit := Traced.emit (.unlock i)

/-- `pthread_rwlock_init`; the answer is whether it returns zero. -/
def rwlockInit (env : Env (Event α)) (i : ℕ) : Traced (Event α) Bool :=
  Traced.answer (fun log => env.lockInit log i) (.lockInit i)

/-- `pthread_rwlock_destroy`: it returns zero, unless the lock is held (`EBUSY`). -/
def rwlockDestroy (i : ℕ) : Traced (Event α) Bool :=
  Traced.answer (fun log => decide (lockBalance log i = 0)) (.lockDestroy i)

/-- A call of the value destroyer, when one is given. The destroyer of the database,
`destroy_value_wrapper`, frees the value and returns at once on `NULL`. -/
def callDestroyer (valueDestroyer : Bool) : Option (Block α) → Traced (Event α) Unit
  | some b => if valueDestroyer then Traced.emit (.destroy b) else pure ()
  | none => pure ()

/-! ### Data -/

/-- Slots of a bucket. -/
def BUCKET_CAPACITY : ℕ := 8

/-- The array of a stored key. -/
abbrev KeyArray : Type := { bytes : List UInt8 // bytes.length = KEY_MAX_LEN }

/-- The key array after `ustrncpy(keys[i], key, KEY_MAX_LEN)`. -/
def KeyArray.copy (dest : KeyArray) (src : List UInt8) : KeyArray :=
  ⟨ustrncpy dest.1 src KEY_MAX_LEN, (length_ustrncpy ..).trans dest.2⟩

/-- Entry `j` of the four arrays of a bucket. -/
structure Slot (α : Type) where
  inUse : Bool
  hash : UInt64
  key : KeyArray
  value : Option (Block α)

/-- A slot as `calloc` leaves it. -/
def Slot.zero : Slot α := ⟨false, 0, ⟨List.replicate KEY_MAX_LEN 0, List.length_replicate⟩, none⟩

/-- A bucket, read at a slot index. -/
abbrev Bucket (α : Type) : Type := Fin BUCKET_CAPACITY → Slot α

/-- A table. The bucket array is read at any index, its buckets are those below `bucketsCount`. -/
structure Hashtable (α : Type) where
  buckets : ℕ → Bucket α
  bucketsCount : UInt64
  elemCount : UInt64
  lockCount : UInt64

/-- `sizeof(hashtable_t)`, on x86_64 as the other sizes. -/
def SIZEOF_HASHTABLE : ℕ := 40

/-- `sizeof(hashtable_bucket_t)`, a multiple of its alignment of 64. -/
def SIZEOF_BUCKET : ℕ := 2176

/-- `sizeof(pthread_rwlock_t)`. -/
def SIZEOF_RWLOCK : ℕ := 56

namespace Hashtable

/-- The bucket index of a hash under `ENABLE_ONLY_POWER_2_SIZE`. -/
def bucketIndex (table : Hashtable α) (hashFull : UInt64) : ℕ :=
  (hashFull &&& (table.bucketsCount - 1)).toNat

/-- The table with slot `j` of bucket `i` replaced. -/
def setSlot (table : Hashtable α) (i : ℕ) (j : Fin BUCKET_CAPACITY) (slot : Slot α) :
    Hashtable α :=
  { table with
    buckets := Function.update table.buckets i (Function.update (table.buckets i) j slot) }

end Hashtable

/-- The slot indices of a bucket, in the order of the loops. -/
def slotIndices : List (Fin BUCKET_CAPACITY) := List.finRange BUCKET_CAPACITY

/-- The slots of the first `n` buckets, in the order of the nested loops over buckets and
slots. -/
def allSlots (n : ℕ) : List (ℕ × Fin BUCKET_CAPACITY) :=
  (List.range n).flatMap fun i => slotIndices.map fun j => (i, j)

/-- Reading slot `j` of bucket `i`. -/
def readSlot (table : Hashtable α) (i : ℕ) (j : Fin BUCKET_CAPACITY) :
    Traced (Event α) (Slot α) := do
  Traced.emit (.access i)
  pure (table.buckets i j)

/-- Writing slot `j` of bucket `i`. -/
def writeSlot (table : Hashtable α) (i : ℕ) (j : Fin BUCKET_CAPACITY) (slot : Slot α) :
    Traced (Event α) (Hashtable α) := do
  Traced.emit (.access i)
  pure (table.setSlot i j slot)

/-! ### Locks of the whole table -/

/-- Release of a list of locks, in order. -/
def unlockAll : List ℕ → Traced (Event α) Unit
  | [] => pure ()
  | i :: rest => do
    unlock i
    unlockAll rest

/-- Acquisition of a list of locks, in order. When one fails, those acquired are released. -/
def lockAll (acquire : ℕ → Traced (Event α) Bool) (acquired : List ℕ) :
    List ℕ → Traced (Event α) Bool
  | [] => pure true
  | i :: rest => do
    if ← acquire i then lockAll acquire (acquired ++ [i]) rest
    else
      unlockAll acquired
      pure false

/-! ### Lifecycle -/

/-- Destruction of a list of locks in order; the answer is whether every one returned zero. -/
def destroyLocks : List ℕ → Traced (Event α) Bool
  | [] => pure true
  | i :: rest => do
    if ← rwlockDestroy i then destroyLocks rest else pure false

/-- Initialisation of a list of locks in order. When one fails, those initialised are
destroyed. -/
def initLocks (env : Env (Event α)) (initialised : List ℕ) : List ℕ → Traced (Event α) Bool
  | [] => pure true
  | i :: rest => do
    if ← rwlockInit env i then initLocks env (initialised ++ [i]) rest
    else
      let _ ← destroyLocks initialised
      pure false

/-- Source: `hashtable.c`, `table_create`. The size of the array of locks is computed in
`size_t`. -/
def tableCreate (env : Env (Event α)) (initialCapacity : UInt64) :
    Traced (Event α) (Option (Hashtable α)) :=
  if initialCapacity = 0 then pure none
  else do
    if ← malloc env SIZEOF_HASHTABLE then
      let capacity := roundCapacity initialCapacity
      if ← calloc env capacity.toNat SIZEOF_BUCKET then
        if ← malloc env (capacity * UInt64.ofNat SIZEOF_RWLOCK).toNat then
          if ← initLocks env [] (List.range capacity.toNat) then
            pure (some
              { buckets := fun _ _ => Slot.zero
                bucketsCount := capacity
                elemCount := 0
                lockCount := capacity })
          else pure none
        else pure none
      else pure none
    else pure none

/-- The loop of `table_destroy` over the values. -/
def destroyValues (table : Hashtable α) : List (ℕ × Fin BUCKET_CAPACITY) → Traced (Event α) Unit
  | [] => pure ()
  | (i, j) :: rest => do
    let slot ← readSlot table i j
    if slot.inUse then
      callDestroyer true slot.value
      destroyValues table rest
    else destroyValues table rest

/-- Source: `hashtable.c`, `table_destroy`. No table is left when it returns zero. -/
def tableDestroy (table : Hashtable α) (valueDestroyer : Bool) :
    Traced (Event α) (ℤ × Option (Hashtable α)) := do
  if valueDestroyer then destroyValues table (allSlots table.bucketsCount.toNat)
  if ← destroyLocks (List.range table.lockCount.toNat) then pure (0, none)
  else pure (-1, some table)

/-- The loop of `table_clear` over the slots. -/
def clearSlots (valueDestroyer : Bool) (table : Hashtable α) :
    List (ℕ × Fin BUCKET_CAPACITY) → Traced (Event α) (Hashtable α)
  | [] => pure table
  | (i, j) :: rest => do
    let slot ← readSlot table i j
    if slot.inUse then
      callDestroyer valueDestroyer slot.value
      let table ← writeSlot table i j { slot with inUse := false, hash := 0, value := none }
      clearSlots valueDestroyer table rest
    else clearSlots valueDestroyer table rest

/-- Source: `hashtable.c`, `table_clear`. -/
def tableClear (env : Env (Event α)) (table : Hashtable α) (valueDestroyer : Bool) :
    Traced (Event α) (ℤ × Hashtable α) := do
  let locks := List.range table.lockCount.toNat
  if ← lockAll (wrlock env) [] locks then
    let table ← clearSlots valueDestroyer table (allSlots table.bucketsCount.toNat)
    unlockAll locks
    pure (0, { table with elemCount := 0 })
  else pure (-1, table)

/-- The first free slot of a bucket receives an entry; there is none in a full bucket. -/
def placeEntry (bucket : Bucket α) (slot : Slot α) :
    List (Fin BUCKET_CAPACITY) → Option (Bucket α)
  | [] => none
  | k :: rest =>
    if (bucket k).inUse = false then
      some (Function.update bucket k
        { inUse := true, hash := slot.hash, key := slot.key, value := slot.value })
    else placeEntry bucket slot rest

/-- The rehash loop of `table_resize`: the new buckets, or `none` when a destination bucket is
full. -/
def rehash (table : Hashtable α) (newCapacity : UInt64) (newBuckets : ℕ → Bucket α) :
    List (ℕ × Fin BUCKET_CAPACITY) → Traced (Event α) (Option (ℕ → Bucket α))
  | [] => pure (some newBuckets)
  | (i, j) :: rest => do
    let slot ← readSlot table i j
    if slot.inUse then
      let newBucketIndex := (slot.hash % newCapacity).toNat
      match placeEntry (newBuckets newBucketIndex) slot slotIndices with
      | some bucket =>
        rehash table newCapacity (Function.update newBuckets newBucketIndex bucket) rest
      | none => pure none
    else rehash table newCapacity newBuckets rest

/-- Source: `hashtable.c`, `table_resize`. -/
def tableResize (env : Env (Event α)) (table : Hashtable α) (newCapacity : UInt64) :
    Traced (Event α) (ℤ × Hashtable α) :=
  if newCapacity = 0 then pure (-1, table)
  else
    let newCapacity := roundCapacity newCapacity
    if newCapacity = table.bucketsCount then pure (0, table)
    else do
      let locks := List.range table.lockCount.toNat
      if ← lockAll (wrlock env) [] locks then
        if newCapacity < table.elemCount then
          unlockAll locks
          pure (-1, table)
        else if ← calloc env newCapacity.toNat SIZEOF_BUCKET then
          match ← rehash table newCapacity (fun _ _ => Slot.zero)
            (allSlots table.bucketsCount.toNat) with
          | some newBuckets =>
            unlockAll locks
            pure (0, { table with buckets := newBuckets, bucketsCount := newCapacity })
          | none =>
            unlockAll locks
            pure (-1, table)
        else
          unlockAll locks
          pure (-1, table)
      else pure (-1, table)

/-! ### Core operations -/

/-- The test that the loops over a bucket make on a slot. -/
def Slot.matches (slot : Slot α) (hashFull : UInt64) (key : List UInt8) : Bool :=
  slot.inUse && slot.hash == hashFull && ustrncmp slot.key.1 key KEY_MAX_LEN == 0

/-- The search loop of `table_get`, `table_delete`, `table_exist` and `table_replace`: the first
slot that matches. -/
def findSlot (table : Hashtable α) (bucketIndex : ℕ) (hashFull : UInt64) (key : List UInt8) :
    List (Fin BUCKET_CAPACITY) → Traced (Event α) (Option (Fin BUCKET_CAPACITY))
  | [] => pure none
  | i :: rest => do
    let slot ← readSlot table bucketIndex i
    if slot.matches hashFull key then pure (some i)
    else findSlot table bucketIndex hashFull key rest

/-- The search loop of `table_set` and `table_add`: the first slot that matches, and the first
empty slot seen before. -/
def findSlotOrEmpty (table : Hashtable α) (bucketIndex : ℕ) (hashFull : UInt64)
    (key : List UInt8) (firstEmptySlot : Option (Fin BUCKET_CAPACITY)) :
    List (Fin BUCKET_CAPACITY) →
      Traced (Event α) (Option (Fin BUCKET_CAPACITY) × Option (Fin BUCKET_CAPACITY))
  | [] => pure (none, firstEmptySlot)
  | i :: rest => do
    let slot ← readSlot table bucketIndex i
    if slot.matches hashFull key then pure (some i, firstEmptySlot)
    else
      let firstEmptySlot :=
        if slot.inUse = false ∧ firstEmptySlot = none then some i else firstEmptySlot
      findSlotOrEmpty table bucketIndex hashFull key firstEmptySlot rest

/-- The insertion into an empty slot that ends `table_set` and `table_add`, with the increment
of the element counter. -/
def insertEntry (table : Hashtable α) (bucketIndex : ℕ) (i : Fin BUCKET_CAPACITY)
    (hashFull : UInt64) (key : List UInt8) (value : Option (Block α)) :
    Traced (Event α) (Hashtable α) := do
  let slot ← readSlot table bucketIndex i
  let table ← writeSlot table bucketIndex i
    { inUse := true, hash := hashFull, key := slot.key.copy key, value := value }
  pure { table with elemCount := table.elemCount + 1 }

/-- Source: `hashtable.c`, `table_set`. -/
def tableSet (env : Env (Event α)) (table : Hashtable α) (key : List UInt8)
    (value : Option (Block α)) (valueDestroyer : Bool) :
    Traced (Event α) (ℤ × Hashtable α) :=
  if ustrlen key ≥ KEY_MAX_LEN then pure (-3, table)
  else do
    let hashFull := hash key
    let bucketIndex := table.bucketIndex hashFull
    if ← wrlock env bucketIndex then
      match ← findSlotOrEmpty table bucketIndex hashFull key none slotIndices with
      | (some i, _) =>
        let slot ← readSlot table bucketIndex i
        callDestroyer valueDestroyer slot.value
        let table ← writeSlot table bucketIndex i { slot with value := value }
        unlock bucketIndex
        pure (0, table)
      | (none, some i) =>
        let table ← insertEntry table bucketIndex i hashFull key value
        unlock bucketIndex
        pure (0, table)
      | (none, none) =>
        unlock bucketIndex
        pure (-2, table)
    else pure (-1, table)

/-- The loop of `table_get`: the value of the first slot that matches. -/
def findValue (table : Hashtable α) (bucketIndex : ℕ) (hashFull : UInt64) (key : List UInt8) :
    Traced (Event α) (Option (Block α)) := do
  match ← findSlot table bucketIndex hashFull key slotIndices with
  | some i =>
    let slot ← readSlot table bucketIndex i
    pure slot.value
  | none => pure none

/-- Source: `hashtable.c`, `table_get`. -/
def tableGet (env : Env (Event α)) (table : Hashtable α) (key : List UInt8)
    (valueSizer : Option (α → ℕ)) : Traced (Event α) (Option (Block α)) :=
  match valueSizer with
  | none => pure none
  | some valueSizer => do
    let hashFull := hash key
    let bucketIndex := table.bucketIndex hashFull
    if ← rdlock env bucketIndex then
      match ← findValue table bucketIndex hashFull key with
      | none =>
        unlock bucketIndex
        pure none
      | some internalValue =>
        let totalSize := valueSizer internalValue.val
        if totalSize = 0 then
          unlock bucketIndex
          pure none
        else
          let valueCopy ← memdup env internalValue totalSize
          unlock bucketIndex
          pure valueCopy
    else pure none

/-- Source: `hashtable.c`, `table_delete`. -/
def tableDelete (env : Env (Event α)) (table : Hashtable α) (key : List UInt8)
    (valueDestroyer : Bool) : Traced (Event α) (ℤ × Hashtable α) := do
  let hashFull := hash key
  let bucketIndex := table.bucketIndex hashFull
  if ← wrlock env bucketIndex then
    match ← findSlot table bucketIndex hashFull key slotIndices with
    | some i =>
      let slot ← readSlot table bucketIndex i
      callDestroyer valueDestroyer slot.value
      let table ← writeSlot table bucketIndex i
        { slot with inUse := false, hash := 0, value := none }
      unlock bucketIndex
      pure (0, { table with elemCount := table.elemCount - 1 })
    | none =>
      unlock bucketIndex
      pure (-1, table)
  else pure (-2, table)

/-- Source: `hashtable.c`, `table_exist`. -/
def tableExist (env : Env (Event α)) (table : Hashtable α) (key : List UInt8) :
    Traced (Event α) Bool := do
  let hashFull := hash key
  let bucketIndex := table.bucketIndex hashFull
  if ← rdlock env bucketIndex then
    let found ← findSlot table bucketIndex hashFull key slotIndices
    unlock bucketIndex
    pure found.isSome
  else pure false

/-- Source: `hashtable.c`, `table_add`. Unlike `table_set` it does not bound the length of the
key. -/
def tableAdd (env : Env (Event α)) (table : Hashtable α) (key : List UInt8)
    (value : Option (Block α)) : Traced (Event α) (ℤ × Hashtable α) := do
  let hashFull := hash key
  let bucketIndex := table.bucketIndex hashFull
  if ← wrlock env bucketIndex then
    match ← findSlotOrEmpty table bucketIndex hashFull key none slotIndices with
    | (some _, _) =>
      unlock bucketIndex
      pure (-3, table)
    | (none, some i) =>
      let table ← insertEntry table bucketIndex i hashFull key value
      unlock bucketIndex
      pure (0, table)
    | (none, none) =>
      unlock bucketIndex
      pure (-2, table)
  else pure (-1, table)

/-- Source: `hashtable.c`, `table_replace`. -/
def tableReplace (env : Env (Event α)) (table : Hashtable α) (key : List UInt8)
    (newValue : Option (Block α)) (valueDestroyer : Bool) :
    Traced (Event α) (ℤ × Hashtable α) := do
  let hashFull := hash key
  let bucketIndex := table.bucketIndex hashFull
  if ← wrlock env bucketIndex then
    match ← findSlot table bucketIndex hashFull key slotIndices with
    | some i =>
      let slot ← readSlot table bucketIndex i
      callDestroyer valueDestroyer slot.value
      let table ← writeSlot table bucketIndex i { slot with value := newValue }
      unlock bucketIndex
      pure (0, table)
    | none =>
      unlock bucketIndex
      pure (-2, table)
  else pure (-1, table)

/-! ### Monitoring -/

/-- The loop of `table_memory_usage` over the values. -/
def sumValueSizes (table : Hashtable α) (valueSizer : α → ℕ) (totalSize : UInt64) :
    List (ℕ × Fin BUCKET_CAPACITY) → Traced (Event α) UInt64
  | [] => pure totalSize
  | (i, j) :: rest => do
    let slot ← readSlot table i j
    match slot.inUse, slot.value with
    | true, some v =>
      sumValueSizes table valueSizer (totalSize + UInt64.ofNat (valueSizer v.val)) rest
    | _, _ => sumValueSizes table valueSizer totalSize rest

/-- Source: `hashtable.c`, `table_memory_usage`. -/
def tableMemoryUsage (env : Env (Event α)) (table : Hashtable α)
    (valueSizer : Option (α → ℕ)) : Traced (Event α) UInt64 :=
  let totalSize := UInt64.ofNat SIZEOF_HASHTABLE +
    table.bucketsCount * UInt64.ofNat SIZEOF_BUCKET +
    table.lockCount * UInt64.ofNat SIZEOF_RWLOCK
  match valueSizer with
  | none => pure totalSize
  | some valueSizer => do
    let locks := List.range table.bucketsCount.toNat
    if ← lockAll (rdlock env) [] locks then
      let totalSize ←
        sumValueSizes table valueSizer totalSize (allSlots table.bucketsCount.toNat)
      unlockAll locks
      pure totalSize
    else pure (-1)

/-- Source: `hashtable.c`, `table_capacity`. -/
def tableCapacity (table : Hashtable α) : UInt64 :=
  table.bucketsCount * UInt64.ofNat BUCKET_CAPACITY

/-- The division of two `size_t` numbers as `double`. -/
def doubleDiv (a b : ℕ) : ℚ := Double.round (Double.round a / Double.round b)

/-- Source: `hashtable.c`, `table_load_factor`. -/
def tableLoadFactor (table : Hashtable α) : ℚ :=
  let capacity := table.bucketsCount * UInt64.ofNat BUCKET_CAPACITY
  if capacity = 0 then 0 else doubleDiv table.elemCount.toNat capacity.toNat

/-- The inner loop of `table_occupied_bucket_counter`: whether some slot of the bucket is in
use. -/
def bucketOccupied (table : Hashtable α) (i : ℕ) :
    List (Fin BUCKET_CAPACITY) → Traced (Event α) Bool
  | [] => pure false
  | j :: rest => do
    let slot ← readSlot table i j
    if slot.inUse then pure true else bucketOccupied table i rest

/-- The outer loop of `table_occupied_bucket_counter`; a bucket whose lock fails is skipped. -/
def countOccupied (env : Env (Event α)) (table : Hashtable α) (occupiedBuckets : ℕ) :
    List ℕ → Traced (Event α) ℕ
  | [] => pure occupiedBuckets
  | i :: rest => do
    if ← rdlock env i then
      let occupied ← bucketOccupied table i slotIndices
      unlock i
      countOccupied env table (if occupied then occupiedBuckets + 1 else occupiedBuckets) rest
    else countOccupied env table occupiedBuckets rest

/-- Source: `hashtable.c`, `table_occupied_bucket_counter`. -/
def tableOccupiedBucketCounter (env : Env (Event α)) (table : Hashtable α) :
    Traced (Event α) ℚ :=
  if table.bucketsCount = 0 then pure 0
  else do
    let occupiedBuckets ← countOccupied env table 0 (List.range table.bucketsCount.toNat)
    pure (doubleDiv occupiedBuckets table.bucketsCount.toNat)

/-- Source: `hashtable.c`, `table_total_elem`. -/
def tableTotalElem (table : Hashtable α) : UInt64 := table.elemCount

end SimpleCDatabase
