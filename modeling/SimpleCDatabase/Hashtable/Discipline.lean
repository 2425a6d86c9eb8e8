import Mathlib.Data.Finset.Basic
import SimpleCDatabase.Foundations.Monitor
import SimpleCDatabase.Hashtable.Lifecycle

/-!
# The lock discipline of the operations

Every operation releases only locks that it holds, takes no lock twice, touches the slots of a
bucket under its lock, and holds no lock when it returns. A monitor carries the set of the locks
held and the set of those taken so far; the operations are followed through it along their
structure, with every acquisition and every request for memory free to fail.

## Main definitions

* `heldLocks`, `acquisitions`: the locks held after a stretch of events, and those taken in it.
* `LocksBalanced`: the discipline, as a property of the events of a call.
* `LockState`, `LockState.step`: the monitor.

## Main results

* `locksBalanced_of_monitor`: what the monitor does not refuse is disciplined.
* `TableCall.locks_balanced`: every call of an operation is.
-/

namespace SimpleCDatabase

open Traced

variable {α β : Type}

/-! ### The discipline -/

/-- The locks held after a stretch of events, the newest first, that begins with none. -/
def heldLocks : List (Event α) → Finset ℕ
  | [] => ∅
  | .wrlock i true :: earlier => insert i (heldLocks earlier)
  | .rdlock i true :: earlier => insert i (heldLocks earlier)
  | .unlock i :: earlier => (heldLocks earlier).erase i
  | _ :: earlier => heldLocks earlier

/-- The locks acquired in a stretch of events, the latest first. -/
def acquisitions (log : List (Event α)) : List ℕ :=
  log.filterMap fun
    | .wrlock i true => some i
    | .rdlock i true => some i
    | _ => none

/-- The lock discipline of the events of a call. -/
structure LocksBalanced (new : List (Event α)) : Prop where
  /-- Each release is of a lock that the call holds. -/
  unlock_held : ∀ later earlier i, new = later ++ .unlock i :: earlier → i ∈ heldLocks earlier
  /-- No lock is acquired twice. -/
  acquired_once : (acquisitions new).Nodup
  /-- The slots of a bucket are read and written under its lock. -/
  access_held : ∀ later earlier i, new = later ++ .access i :: earlier → i ∈ heldLocks earlier
  /-- No lock is held at the return. -/
  released : heldLocks new = ∅

/-! ### The monitor -/

/-- The locks that a call holds, and those that it has acquired so far. -/
@[ext] structure LockState where
  held : Finset ℕ
  acquired : Finset ℕ

namespace LockState

/-- The state in which a call begins. -/
def start : LockState := ⟨∅, ∅⟩

def acquire (s : LockState) (i : ℕ) : LockState := ⟨insert i s.held, insert i s.acquired⟩

def release (s : LockState) (i : ℕ) : LockState := ⟨s.held.erase i, s.acquired⟩

/-- One event; it is refused when it breaks the discipline. -/
def step (s : LockState) : Event α → Option LockState
  | .wrlock i true => if i ∈ s.acquired then none else some (s.acquire i)
  | .rdlock i true => if i ∈ s.acquired then none else some (s.acquire i)
  | .unlock i => if i ∈ s.held then some (s.release i) else none
  | .access i => if i ∈ s.held then some s else none
  | _ => some s

@[simp] theorem held_acquire (s : LockState) (i : ℕ) : (s.acquire i).held = insert i s.held := rfl

@[simp] theorem acquired_acquire (s : LockState) (i : ℕ) :
    (s.acquire i).acquired = insert i s.acquired := rfl

@[simp] theorem held_release (s : LockState) (i : ℕ) : (s.release i).held = s.held.erase i := rfl

@[simp] theorem acquired_release (s : LockState) (i : ℕ) :
    (s.release i).acquired = s.acquired := rfl

end LockState

/-- The state of the monitor are the locks held and acquired. -/
theorem monitor_locks {new : List (Event α)} {s : LockState}
    (h : monitor LockState.step .start new = some s) :
    s.held = heldLocks new ∧ s.acquired = (acquisitions new).toFinset ∧
      (acquisitions new).Nodup := by
  induction new generalizing s with
  | nil =>
    obtain rfl := Option.some_inj.mp h
    exact ⟨rfl, rfl, List.nodup_nil⟩
  | cons e earlier ih =>
    obtain ⟨s₁, hs₁, hstep⟩ := Option.bind_eq_some_iff.mp h
    obtain ⟨hheld, hacq, hnodup⟩ := ih hs₁
    -- An event that is not an acquisition adds none.
    have hother (hnone : acquisitions (e :: earlier) = acquisitions earlier)
        (hs : s.acquired = s₁.acquired) : s.acquired = (acquisitions (e :: earlier)).toFinset ∧
          (acquisitions (e :: earlier)).Nodup := by
      rw [hnone, hs]
      exact ⟨hacq, hnodup⟩
    have hacquire {i : ℕ} (hnew : acquisitions (e :: earlier) = i :: acquisitions earlier)
        (hfresh : i ∉ s₁.acquired) (hs : s.acquired = insert i s₁.acquired) :
        s.acquired = (acquisitions (e :: earlier)).toFinset ∧
          (acquisitions (e :: earlier)).Nodup := by
      rw [hnew, hs, hacq, List.toFinset_cons, List.nodup_cons]
      rw [hacq, List.mem_toFinset] at hfresh
      exact ⟨rfl, hfresh, hnodup⟩
    cases e with
    | wrlock i ok =>
      cases ok with
      | false =>
        obtain rfl := Option.some_inj.mp hstep
        exact ⟨hheld, hother rfl rfl⟩
      | true =>
        obtain ⟨hfresh, rfl⟩ : i ∉ s₁.acquired ∧ s = s₁.acquire i := by
          simpa [LockState.step, eq_comm] using hstep
        exact ⟨congrArg (insert i) hheld, hacquire rfl hfresh rfl⟩
    | rdlock i ok =>
      cases ok with
      | false =>
        obtain rfl := Option.some_inj.mp hstep
        exact ⟨hheld, hother rfl rfl⟩
      | true =>
        obtain ⟨hfresh, rfl⟩ : i ∉ s₁.acquired ∧ s = s₁.acquire i := by
          simpa [LockState.step, eq_comm] using hstep
        exact ⟨congrArg (insert i) hheld, hacquire rfl hfresh rfl⟩
    | unlock i =>
      obtain ⟨-, rfl⟩ : i ∈ s₁.held ∧ s = s₁.release i := by
        simpa [LockState.step, eq_comm] using hstep
      exact ⟨congrArg (fun l => l.erase i) hheld, hother rfl rfl⟩
    | access i =>
      obtain ⟨-, rfl⟩ : i ∈ s₁.held ∧ s = s₁ := by
        simpa [LockState.step, eq_comm] using hstep
      exact ⟨hheld, hother rfl rfl⟩
    | malloc | create | destroy | lockInit | lockDestroy =>
      obtain rfl := Option.some_inj.mp hstep
      exact ⟨hheld, hother rfl rfl⟩

/-- **What the monitor does not refuse is disciplined.** -/
theorem locksBalanced_of_monitor {new : List (Event α)} {s : LockState}
    (h : monitor LockState.step .start new = some s) (hheld : s.held = ∅) :
    LocksBalanced new where
  unlock_held later earlier i hnew := by
    obtain ⟨s₁, s₂, hs₁, hstep, -⟩ := exists_of_monitor (hnew ▸ h)
    rw [← (monitor_locks hs₁).1]
    by_contra hnot
    rw [LockState.step, if_neg hnot] at hstep
    exact Option.some_ne_none _ hstep.symm
  acquired_once := (monitor_locks h).2.2
  access_held later earlier i hnew := by
    obtain ⟨s₁, s₂, hs₁, hstep, -⟩ := exists_of_monitor (hnew ▸ h)
    rw [← (monitor_locks hs₁).1]
    by_contra hnot
    rw [LockState.step, if_neg hnot] at hstep
    exact Option.some_ne_none _ hstep.symm
  released := (monitor_locks h).1 ▸ hheld

/-! ### Computations that take no lock -/

/-- The monitor refuses no event of the computation, and ends in the state in which it began. -/
def Quiet (s : LockState) (x : Traced (Event α) β) : Prop :=
  Admits LockState.step s x fun _ s' => s' = s

section Quiet

variable {γ : Type} {s : LockState} {x : Traced (Event α) β} {f : β → Traced (Event α) γ}
  {Q : γ → LockState → Prop} {i : ℕ}

/-- A computation that takes no lock, and what follows it. -/
theorem Quiet.bind_admits (hx : Quiet s x) (hf : ∀ a, Admits LockState.step s (f a) Q) :
    Admits LockState.step s (x >>= f) Q :=
  Admits.bind hx fun a _ hs => hs ▸ hf a

theorem Quiet.bind (hx : Quiet s x) (hf : ∀ a, Quiet s (f a)) : Quiet s (x >>= f) :=
  hx.bind_admits hf

theorem quiet_pure (b : β) : Quiet s (pure b : Traced (Event α) β) := admits_pure rfl

theorem quiet_malloc (env : Env (Event α)) (size : ℕ) : Quiet s (malloc env size) :=
  admits_answer fun _ => ⟨s, rfl, rfl⟩

theorem quiet_calloc (env : Env (Event α)) (n size : ℕ) : Quiet s (calloc env n size) :=
  admits_ite (fun _ => Quiet.bind (admits_emit rfl rfl) fun _ => quiet_pure false)
    fun _ => quiet_malloc env _

theorem quiet_memdup (env : Env (Event α)) (src : Block α) (len : ℕ) :
    Quiet s (memdup env src len) := by
  refine (quiet_malloc env len).bind fun ok => admits_ite (fun _ => ?_) fun _ => quiet_pure none
  exact Quiet.bind (admits_answer fun _ => ⟨s, rfl, rfl⟩) fun dest => quiet_pure (some dest)

theorem quiet_callDestroyer (valueDestroyer : Bool) (value : Option (Block α)) :
    Quiet s (callDestroyer valueDestroyer value) := by
  cases value with
  | none => exact quiet_pure ()
  | some b => exact admits_ite (fun _ => admits_emit rfl rfl) fun _ => quiet_pure ()

variable (table : Hashtable α)

theorem quiet_access (hi : i ∈ s.held) : Quiet s (emit (.access i) : Traced (Event α) Unit) :=
  admits_emit (if_pos hi) rfl

theorem quiet_readSlot (hi : i ∈ s.held) (j : Fin BUCKET_CAPACITY) :
    Quiet s (readSlot table i j) :=
  (quiet_access hi).bind fun _ => quiet_pure _

theorem quiet_writeSlot (hi : i ∈ s.held) (j : Fin BUCKET_CAPACITY) (slot : Slot α) :
    Quiet s (writeSlot table i j slot) :=
  (quiet_access hi).bind fun _ => quiet_pure _

theorem quiet_findSlot (hi : i ∈ s.held) (hashFull : UInt64) (key : List UInt8)
    (l : List (Fin BUCKET_CAPACITY)) : Quiet s (findSlot table i hashFull key l) := by
  induction l with
  | nil => exact quiet_pure none
  | cons j l ih =>
    exact (quiet_readSlot table hi j).bind fun _ =>
      admits_ite (fun _ => quiet_pure (some j)) fun _ => ih

theorem quiet_findSlotOrEmpty (hi : i ∈ s.held) (hashFull : UInt64) (key : List UInt8)
    (firstEmpty : Option (Fin BUCKET_CAPACITY)) (l : List (Fin BUCKET_CAPACITY)) :
    Quiet s (findSlotOrEmpty table i hashFull key firstEmpty l) := by
  induction l generalizing firstEmpty with
  | nil => exact quiet_pure (none, firstEmpty)
  | cons j l ih =>
    exact (quiet_readSlot table hi j).bind fun _ =>
      admits_ite (fun _ => quiet_pure (some j, firstEmpty)) fun _ => ih _

theorem quiet_findValue (hi : i ∈ s.held) (hashFull : UInt64) (key : List UInt8) :
    Quiet s (findValue table i hashFull key) := by
  refine (quiet_findSlot table hi hashFull key slotIndices).bind fun found => ?_
  cases found with
  | none => exact quiet_pure none
  | some j => exact (quiet_readSlot table hi j).bind fun slot => quiet_pure slot.value

theorem quiet_insertEntry (hi : i ∈ s.held) (j : Fin BUCKET_CAPACITY) (hashFull : UInt64)
    (key : List UInt8) (value : Option (Block α)) :
    Quiet s (insertEntry table i j hashFull key value) :=
  (quiet_readSlot table hi j).bind fun _ =>
    (quiet_writeSlot table hi j _).bind fun _ => quiet_pure _

theorem quiet_clearSlots (valueDestroyer : Bool) {l : List (ℕ × Fin BUCKET_CAPACITY)}
    (hl : ∀ p ∈ l, p.1 ∈ s.held) : Quiet s (clearSlots valueDestroyer table l) := by
  induction l generalizing table with
  | nil => exact quiet_pure table
  | cons p l ih =>
    obtain ⟨i, j⟩ := p
    have hi : i ∈ s.held := hl (i, j) List.mem_cons_self
    have hrest := fun table => ih table fun p hp => hl p (List.mem_cons_of_mem _ hp)
    refine (quiet_readSlot table hi j).bind fun slot => admits_ite (fun _ => ?_) fun _ => hrest _
    exact (quiet_callDestroyer valueDestroyer slot.value).bind fun _ =>
      (quiet_writeSlot table hi j _).bind hrest

theorem quiet_rehash (newCapacity : UInt64) (newBuckets : ℕ → Bucket α)
    {l : List (ℕ × Fin BUCKET_CAPACITY)} (hl : ∀ p ∈ l, p.1 ∈ s.held) :
    Quiet s (rehash table newCapacity newBuckets l) := by
  induction l generalizing newBuckets with
  | nil => exact quiet_pure (some newBuckets)
  | cons p l ih =>
    obtain ⟨i, j⟩ := p
    have hi : i ∈ s.held := hl (i, j) List.mem_cons_self
    have hrest := fun b => ih b fun p hp => hl p (List.mem_cons_of_mem _ hp)
    refine (quiet_readSlot table hi j).bind fun slot => admits_ite (fun _ => ?_) fun _ => hrest _
    dsimp only
    split
    · exact hrest _
    · exact quiet_pure none

theorem quiet_sumValueSizes (valueSizer : α → ℕ) (totalSize : UInt64)
    {l : List (ℕ × Fin BUCKET_CAPACITY)} (hl : ∀ p ∈ l, p.1 ∈ s.held) :
    Quiet s (sumValueSizes table valueSizer totalSize l) := by
  induction l generalizing totalSize with
  | nil => exact quiet_pure totalSize
  | cons p l ih =>
    obtain ⟨i, j⟩ := p
    have hi : i ∈ s.held := hl (i, j) List.mem_cons_self
    have hrest := fun b => ih b fun p hp => hl p (List.mem_cons_of_mem _ hp)
    refine (quiet_readSlot table hi j).bind fun slot => ?_
    split
    · exact hrest _
    · exact hrest _

theorem quiet_bucketOccupied (hi : i ∈ s.held) (l : List (Fin BUCKET_CAPACITY)) :
    Quiet s (bucketOccupied table i l) := by
  induction l with
  | nil => exact quiet_pure false
  | cons j l ih =>
    exact (quiet_readSlot table hi j).bind fun _ =>
      admits_ite (fun _ => quiet_pure true) fun _ => ih

end Quiet

/-! ### Acquisitions and releases -/

namespace LockState

/-- The state of a call that has acquired the locks of a list and released none. -/
def holding (l : List ℕ) : LockState := ⟨l.toFinset, l.toFinset⟩

theorem acquire_holding (l : List ℕ) (i : ℕ) : (holding l).acquire i = holding (l ++ [i]) := by
  ext <;> simp [holding]

end LockState

/-- The computation leaves the monitor with no lock held. -/
abbrev Returns (s : LockState) (x : Traced (Event α) β) : Prop :=
  Admits LockState.step s x fun _ s' => s'.held = ∅

/-- An acquisition of a lock that the call has not had yet; it may fail. -/
def Takes (acquire : ℕ → Traced (Event α) Bool) : Prop :=
  ∀ s i, i ∉ s.acquired → Admits LockState.step s (acquire i) fun ok s' =>
    s' = if ok then s.acquire i else s

theorem takes_wrlock (env : Env (Event α)) : Takes (wrlock env) := by
  refine fun s i hi => admits_answer fun ok => ⟨_, ?_, rfl⟩
  cases ok
  · rfl
  · exact if_neg hi

theorem takes_rdlock (env : Env (Event α)) : Takes (rdlock env) := by
  refine fun s i hi => admits_answer fun ok => ⟨_, ?_, rfl⟩
  cases ok
  · rfl
  · exact if_neg hi

section Locks

variable {s : LockState} {i : ℕ} {acquire : ℕ → Traced (Event α) Bool}

theorem admits_unlock (hi : i ∈ s.held) :
    Admits LockState.step s (unlock i : Traced (Event α) Unit) fun _ s' => s' = s.release i :=
  admits_emit (if_pos hi) rfl

theorem admits_unlockAll {l : List ℕ} (hnodup : l.Nodup) (hl : ∀ i ∈ l, i ∈ s.held) :
    Admits LockState.step s (unlockAll l : Traced (Event α) Unit) fun _ s' =>
      s'.held = s.held \ l.toFinset := by
  induction l generalizing s with
  | nil => exact admits_pure (by rw [List.toFinset_nil, Finset.sdiff_empty])
  | cons i l ih =>
    rw [List.nodup_cons] at hnodup
    refine (admits_unlock (hl i List.mem_cons_self)).bind fun _ s' hs' => ?_
    have hrest : ∀ k ∈ l, k ∈ s'.held := by
      rintro k hk
      rw [hs', LockState.held_release, Finset.mem_erase]
      exact ⟨fun h => hnodup.1 (h ▸ hk), hl k (List.mem_cons_of_mem i hk)⟩
    refine (ih hnodup.2 hrest).mono fun _ s'' hs'' => ?_
    rw [hs'', hs', LockState.held_release, List.toFinset_cons, Finset.sdiff_insert,
      Finset.erase_sdiff_comm]

/-- The acquisition of a list of locks, when those of another are held: all of them are then
held, or none. -/
theorem admits_lockAll (hacq : Takes acquire) (acquired : List ℕ) {l : List ℕ}
    (hnodup : (acquired ++ l).Nodup) :
    Admits LockState.step (.holding acquired) (lockAll acquire acquired l) fun ok s' =>
      if ok then s' = .holding (acquired ++ l) else s'.held = ∅ := by
  induction l generalizing acquired with
  | nil => exact admits_pure (by rw [List.append_nil]; rfl)
  | cons i l ih =>
    have hfresh : i ∉ (LockState.holding acquired).acquired := fun h =>
      (List.nodup_append.mp hnodup).2.2 i (List.mem_toFinset.mp h) i List.mem_cons_self rfl
    refine (hacq _ i hfresh).bind fun ok s' hs' => ?_
    cases ok with
    | true =>
      rw [hs', if_pos rfl, LockState.acquire_holding]
      have hnext := ih (acquired ++ [i]) (by simpa using hnodup)
      simpa using hnext
    | false =>
      have hheld : ∀ k ∈ acquired, k ∈ (LockState.holding acquired).held :=
        fun k hk => List.mem_toFinset.mpr hk
      rw [hs', if_neg Bool.false_ne_true]
      refine (admits_unlockAll (List.nodup_append.mp hnodup).1 hheld).bind fun _ s'' hs'' =>
        admits_pure ?_
      exact hs''.trans (Finset.sdiff_self _)

/-- An operation under one lock, which its body releases. -/
theorem returns_locked (hacq : Takes acquire) {body : Traced (Event α) β} {r : β}
    (hbody : Admits LockState.step (LockState.start.acquire i) body fun _ s' =>
      s' = (LockState.start.acquire i).release i) :
    Returns .start (do if ← acquire i then body else pure r) := by
  refine (hacq .start i (Finset.notMem_empty i)).bind fun ok s' hs' => ?_
  cases ok with
  | true =>
    rw [hs']
    refine hbody.mono fun _ s'' hs'' => ?_
    rw [hs'']
    exact Finset.erase_insert (Finset.notMem_empty i)
  | false =>
    rw [hs']
    exact admits_pure rfl

/-- An operation under the first `n` locks, which its body releases. -/
theorem returns_lockedAll (hacq : Takes acquire) {n : ℕ} {body : Traced (Event α) β} {r : β}
    (hbody : Returns (.holding (List.range n)) body) :
    Returns .start (do if ← lockAll acquire [] (List.range n) then body else pure r) := by
  have hall := admits_lockAll hacq [] (List.nodup_range (n := n))
  refine hall.bind fun ok s' hs' => ?_
  cases ok with
  | true => exact hs' ▸ hbody
  | false => exact admits_pure hs'

/-- The release of all locks that ends an operation. -/
theorem returns_unlockAll (n : ℕ) (b : β) :
    Returns (.holding (List.range n))
      (do unlockAll (List.range n); pure b : Traced (Event α) β) := by
  refine (admits_unlockAll List.nodup_range fun k hk => List.mem_toFinset.mpr hk).bind
    fun _ s' hs' => admits_pure ?_
  exact hs'.trans (Finset.sdiff_self _)

end Locks

/-! ### The operations -/

section Operations

variable (env : Env (Event α)) (table : Hashtable α)

/-- The release of the lock that ends an operation on one bucket. -/
private theorem admits_unlock_pure {s : LockState} {i : ℕ} (hi : i ∈ s.held) (b : β) :
    Admits LockState.step s (do unlock i; pure b : Traced (Event α) β) fun _ s' =>
      s' = s.release i :=
  (admits_unlock hi).bind fun _ _ hs' => admits_pure hs'

private theorem mem_held_acquire (i : ℕ) : i ∈ (LockState.start.acquire i).held :=
  Finset.mem_insert_self i ∅

/-- The rewriting of a slot that has been found, and the release of its lock. -/
private theorem admits_rewritten {s : LockState} {i : ℕ} (hi : i ∈ s.held)
    (j : Fin BUCKET_CAPACITY) (valueDestroyer : Bool) (rewritten : Slot α → Slot α)
    (result : Hashtable α → β) :
    Admits LockState.step s (do
      let slot ← readSlot table i j
      callDestroyer valueDestroyer slot.value
      let table ← writeSlot table i j (rewritten slot)
      unlock i
      pure (result table)) fun _ s' => s' = s.release i :=
  (quiet_readSlot table hi j).bind_admits fun slot =>
    (quiet_callDestroyer valueDestroyer slot.value).bind_admits fun _ =>
      (quiet_writeSlot table hi j _).bind_admits fun _ => admits_unlock_pure hi _

theorem tableSet_returns (key : List UInt8) (value : Option (Block α)) (valueDestroyer : Bool) :
    Returns .start (tableSet env table key value valueDestroyer) := by
  refine admits_ite (fun _ => admits_pure rfl) fun _ => returns_locked (takes_wrlock env) ?_
  have hi := mem_held_acquire (table.bucketIndex (hash key))
  refine (quiet_findSlotOrEmpty table hi _ key none slotIndices).bind_admits fun found => ?_
  obtain ⟨_ | j, firstEmpty⟩ := found
  · cases firstEmpty with
    | none => exact admits_unlock_pure hi _
    | some j =>
      exact (quiet_insertEntry table hi j _ key value).bind_admits fun _ =>
        admits_unlock_pure hi _
  · exact admits_rewritten table hi j valueDestroyer _ _

theorem tableAdd_returns (key : List UInt8) (value : Option (Block α)) :
    Returns .start (tableAdd env table key value) := by
  refine returns_locked (takes_wrlock env) ?_
  have hi := mem_held_acquire (table.bucketIndex (hash key))
  refine (quiet_findSlotOrEmpty table hi _ key none slotIndices).bind_admits fun found => ?_
  obtain ⟨_ | j, firstEmpty⟩ := found
  · cases firstEmpty with
    | none => exact admits_unlock_pure hi _
    | some j =>
      exact (quiet_insertEntry table hi j _ key value).bind_admits fun _ =>
        admits_unlock_pure hi _
  · exact admits_unlock_pure hi _

theorem tableReplace_returns (key : List UInt8) (newValue : Option (Block α))
    (valueDestroyer : Bool) :
    Returns .start (tableReplace env table key newValue valueDestroyer) := by
  refine returns_locked (takes_wrlock env) ?_
  have hi := mem_held_acquire (table.bucketIndex (hash key))
  refine (quiet_findSlot table hi _ key slotIndices).bind_admits fun found => ?_
  cases found with
  | none => exact admits_unlock_pure hi _
  | some j => exact admits_rewritten table hi j valueDestroyer _ _

theorem tableDelete_returns (key : List UInt8) (valueDestroyer : Bool) :
    Returns .start (tableDelete env table key valueDestroyer) := by
  refine returns_locked (takes_wrlock env) ?_
  have hi := mem_held_acquire (table.bucketIndex (hash key))
  refine (quiet_findSlot table hi _ key slotIndices).bind_admits fun found => ?_
  cases found with
  | none => exact admits_unlock_pure hi _
  | some j => exact admits_rewritten table hi j valueDestroyer _ _

theorem tableExist_returns (key : List UInt8) : Returns .start (tableExist env table key) := by
  refine returns_locked (takes_rdlock env) ?_
  have hi := mem_held_acquire (table.bucketIndex (hash key))
  exact (quiet_findSlot table hi _ key slotIndices).bind_admits fun found =>
    admits_unlock_pure hi _

theorem tableGet_returns (key : List UInt8) (valueSizer : Option (α → ℕ)) :
    Returns .start (tableGet env table key valueSizer) := by
  cases valueSizer with
  | none => exact admits_pure rfl
  | some valueSizer =>
    refine returns_locked (takes_rdlock env) ?_
    have hi := mem_held_acquire (table.bucketIndex (hash key))
    refine (quiet_findValue table hi _ key).bind_admits fun found => ?_
    cases found with
    | none => exact admits_unlock_pure hi _
    | some internalValue =>
      refine admits_ite (fun _ => admits_unlock_pure hi _) fun _ => ?_
      exact (quiet_memdup env internalValue _).bind_admits fun _ => admits_unlock_pure hi _

/-- The buckets of the table have their locks among those that are held. -/
private theorem mem_held_holding {n m : ℕ} (h : n ≤ m) (p : ℕ × Fin BUCKET_CAPACITY)
    (hp : p ∈ allSlots n) : p.1 ∈ (LockState.holding (List.range m)).held :=
  List.mem_toFinset.mpr (List.mem_range.mpr ((mem_allSlots.mp hp).trans_le h))

variable {table}

theorem tableClear_returns (hlocks : table.bucketsCount ≤ table.lockCount)
    (valueDestroyer : Bool) : Returns .start (tableClear env table valueDestroyer) := by
  refine returns_lockedAll (takes_wrlock env) ?_
  have hslots := mem_held_holding (UInt64.le_iff_toNat_le.mp hlocks)
  exact (quiet_clearSlots table valueDestroyer hslots).bind_admits fun _ =>
    returns_unlockAll _ _

theorem tableResize_returns (hlocks : table.bucketsCount ≤ table.lockCount)
    (newCapacity : UInt64) : Returns .start (tableResize env table newCapacity) := by
  refine admits_ite (fun _ => admits_pure rfl) fun _ => ?_
  refine admits_ite (fun _ => admits_pure rfl) fun _ => ?_
  refine returns_lockedAll (takes_wrlock env) ?_
  have hslots := mem_held_holding (UInt64.le_iff_toNat_le.mp hlocks)
  refine admits_ite (fun _ => returns_unlockAll _ _) fun _ => ?_
  refine (quiet_calloc env _ _).bind_admits fun ok => ?_
  refine admits_ite (fun _ => ?_) fun _ => returns_unlockAll _ _
  refine (quiet_rehash table _ _ hslots).bind_admits fun rehashed => ?_
  cases rehashed with
  | none => exact returns_unlockAll _ _
  | some newBuckets => exact returns_unlockAll _ _

variable (table)

theorem tableMemoryUsage_returns (valueSizer : Option (α → ℕ)) :
    Returns .start (tableMemoryUsage env table valueSizer) := by
  cases valueSizer with
  | none => exact admits_pure rfl
  | some valueSizer =>
    refine returns_lockedAll (takes_rdlock env) ?_
    have hslots := mem_held_holding (le_refl table.bucketsCount.toNat)
    exact (quiet_sumValueSizes table valueSizer _ hslots).bind_admits fun _ =>
      returns_unlockAll _ _

/-- Each bucket is read under a lock of its own, which no later bucket takes again. -/
theorem countOccupied_returns {l : List ℕ} (hnodup : l.Nodup) (occupiedBuckets : ℕ)
    {s : LockState} (hheld : s.held = ∅) (hfresh : ∀ i ∈ l, i ∉ s.acquired) :
    Returns s (countOccupied env table occupiedBuckets l) := by
  induction l generalizing s occupiedBuckets with
  | nil => exact admits_pure hheld
  | cons i l ih =>
    rw [List.nodup_cons] at hnodup
    have hrest (k : ℕ) (hk : k ∈ l) : k ∉ s.acquired := hfresh k (List.mem_cons_of_mem i hk)
    refine (takes_rdlock env s i (hfresh i List.mem_cons_self)).bind fun ok s' hs' => ?_
    cases ok with
    | true =>
      have hi : i ∈ s'.held := hs' ▸ Finset.mem_insert_self i _
      refine (quiet_bucketOccupied table hi slotIndices).bind_admits fun occupied => ?_
      refine (admits_unlock hi).bind fun _ s'' hs'' => ih hnodup.2 _ ?_ fun k hk => ?_
      · rw [hs'', hs']
        exact (congrArg (fun h => (insert i h).erase i) hheld).trans
          (Finset.erase_insert (Finset.notMem_empty i))
      · rw [hs'', hs']
        rw [LockState.acquired_release, if_pos rfl, LockState.acquired_acquire, Finset.mem_insert]
        exact not_or.mpr ⟨fun h => hnodup.1 (h ▸ hk), hrest k hk⟩
    | false => exact hs' ▸ ih hnodup.2 _ hheld hrest

theorem tableOccupiedBucketCounter_returns :
    Returns .start (tableOccupiedBucketCounter env table) := by
  refine admits_ite (fun _ => admits_pure rfl) fun _ => ?_
  exact (countOccupied_returns env table List.nodup_range 0 rfl
    fun i _ => Finset.notMem_empty i).bind fun _ _ hs => admits_pure hs

end Operations

/-- A call leaves the monitor with no lock held. -/
theorem TableCall.run_returns (call : TableCall α) (env : Env (Event α)) {t : Hashtable α}
    (hlocks : t.bucketsCount ≤ t.lockCount) : Returns .start (call.run env t) := by
  have hpure {γ : Type} {x : Traced (Event α) γ} {f : γ → Hashtable α} (hx : Returns .start x) :
      Returns .start (x >>= fun r => pure (f r)) :=
    hx.bind fun _ _ hs => admits_pure hs
  cases call with
  | set key value d => exact hpure (tableSet_returns env t key value d)
  | add key value => exact hpure (tableAdd_returns env t key value)
  | replace key value d => exact hpure (tableReplace_returns env t key value d)
  | delete key d => exact hpure (tableDelete_returns env t key d)
  | clear d => exact hpure (tableClear_returns env hlocks d)
  | resize newCapacity => exact hpure (tableResize_returns env hlocks newCapacity)
  | get key valueSizer => exact hpure (tableGet_returns env t key valueSizer)
  | exist key => exact hpure (tableExist_returns env t key)
  | memoryUsage valueSizer => exact hpure (tableMemoryUsage_returns env t valueSizer)
  | occupiedBucketCounter => exact hpure (tableOccupiedBucketCounter_returns env t)

/-- **Locks are balanced on every path**, of every call and under every pattern of failures. -/
theorem TableCall.locks_balanced (call : TableCall α) (env : Env (Event α)) {t : Hashtable α}
    (hlocks : t.bucketsCount ≤ t.lockCount) (log : List (Event α)) :
    (call.run env t).Ensures log fun _ new => LocksBalanced new := by
  obtain ⟨s, hs, hheld⟩ := call.run_returns env hlocks log
  exact locksBalanced_of_monitor hs hheld

/-- A table with an entry in each of its two buckets is to be cleared. The second lock is refused,
and the first is released. -/
theorem TableCall.clear_balanced :
    ∃ t : Hashtable ℕ, ((runTable Env.granting 2 [.set [65] (some ⟨0, 7⟩) true,
        .set [66] (some ⟨1, 8⟩) true]).run []).1 = some t ∧ t.elemCount = 2 ∧
      let cleared := ((TableCall.clear true).run ⟨fun _ _ => true, fun _ i => i == 0,
        fun _ _ => true⟩ t).run []
      cleared.2 = [.unlock 0, .wrlock 1 false, .wrlock 0 true] ∧ LocksBalanced cleared.2 := by
  refine ⟨_, rfl, by decide +kernel, rfl, ?_⟩
  refine TableCall.locks_balanced (.clear true) _ (UInt64.le_iff_toNat_le.mpr ?_) []
  decide +kernel

end SimpleCDatabase
