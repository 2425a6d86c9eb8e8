import Mathlib.Tactic.Abel
import Mathlib.Algebra.BigOperators.Group.List.Basic
import SimpleCDatabase.Hashtable.Basic

/-!
# Events of the loops over locks and slots

What the loops that several operations share return and record: the acquisition and the release
of all locks, and the searches in a bucket. A stretch of events is described by the value blocks
it destroys and creates and by the change it makes to the holds on each lock.

## Main definitions

* `Effects`: the destroyed blocks, the created blocks and the change of the lock balance of a
  stretch of events.
* `acquiredLog`: the transcript after locks were acquired.

## Main results

* `unlockAll_effects`, `lockAll_effects`: the loops over all locks.
* `lockAll_range_granted`, `lockAll_range_denied`: when all locks are acquired.
* `findSlot_effects`, `findSlotOrEmpty_effects`: the searches touch slots only.
* `findSlot_value`, `findSlotOrEmpty_value`: the searches are `List.find?`.
-/

namespace SimpleCDatabase

variable {α : Type}

/-- The destroyed blocks, the created blocks and the change of the lock balance of a stretch of
events. -/
structure Effects (new : List (Event α)) (ds cs : List (Block α)) (locks : ℕ → ℤ) : Prop where
  destroyed : destroyed new = ds
  created : created new = cs
  balance : lockBalance new = locks

/-! ### The projections of a list of events -/

@[simp] theorem destroyed_append (l l' : List (Event α)) :
    destroyed (l ++ l') = destroyed l ++ destroyed l' :=
  List.filterMap_append

@[simp] theorem created_append (l l' : List (Event α)) :
    created (l ++ l') = created l ++ created l' :=
  List.filterMap_append

@[simp] theorem lockBalance_append (l l' : List (Event α)) :
    lockBalance (l ++ l') = lockBalance l + lockBalance l' := by
  funext i
  simp only [lockBalance, List.map_append, List.sum_append, Pi.add_apply]

@[simp] theorem lockBalance_nil : lockBalance ([] : List (Event α)) = 0 := rfl

theorem Effects.nil : Effects ([] : List (Event α)) [] [] 0 := ⟨rfl, rfl, rfl⟩

theorem Effects.append {l l' : List (Event α)} {ds ds' cs cs' : List (Block α)}
    {locks locks' : ℕ → ℤ} (h : Effects l ds cs locks) (h' : Effects l' ds' cs' locks') :
    Effects (l ++ l') (ds ++ ds') (cs ++ cs') (locks + locks') :=
  ⟨by rw [destroyed_append, h.destroyed, h'.destroyed],
    by rw [created_append, h.created, h'.created],
    by rw [lockBalance_append, h.balance, h'.balance]⟩

/-- A hold on lock `i`. -/
def hold (i : ℕ) : ℕ → ℤ := Pi.single i 1

private theorem lockBalance_single (e : Event α) : lockBalance [e] = fun i => lockDelta i e := by
  funext i
  simp [lockBalance]

theorem effects_access (i : ℕ) : Effects ([.access i] : List (Event α)) [] [] 0 :=
  ⟨rfl, rfl, by rw [lockBalance_single]; rfl⟩

theorem effects_malloc (size : ℕ) (ok : Bool) :
    Effects ([.malloc size ok] : List (Event α)) [] [] 0 :=
  ⟨rfl, rfl, by rw [lockBalance_single]; rfl⟩

theorem effects_create (b : Block α) : Effects [.create b] [] [b] 0 :=
  ⟨rfl, rfl, by rw [lockBalance_single]; rfl⟩

theorem effects_destroy (b : Block α) : Effects [.destroy b] [b] [] 0 :=
  ⟨rfl, rfl, by rw [lockBalance_single]; rfl⟩

theorem effects_unlock (i : ℕ) : Effects ([.unlock i] : List (Event α)) [] [] (-hold i) := by
  refine ⟨rfl, rfl, ?_⟩
  rw [lockBalance_single]
  funext k
  by_cases hk : i = k
  · subst hk
    simp [lockDelta, hold]
  · simp [lockDelta, hold, hk, Ne.symm hk]

private theorem lockDelta_acquired (i : ℕ) :
    (fun k => if i = k then 1 else 0) = hold i := by
  funext k
  by_cases hk : i = k
  · subst hk
    simp [hold]
  · simp [hold, hk, Ne.symm hk]

theorem effects_wrlock (i : ℕ) (ok : Bool) :
    Effects ([.wrlock i ok] : List (Event α)) [] [] (if ok then hold i else 0) := by
  refine ⟨rfl, rfl, ?_⟩
  rw [lockBalance_single]
  cases ok
  · rfl
  · exact lockDelta_acquired i

theorem effects_rdlock (i : ℕ) (ok : Bool) :
    Effects ([.rdlock i ok] : List (Event α)) [] [] (if ok then hold i else 0) := by
  refine ⟨rfl, rfl, ?_⟩
  rw [lockBalance_single]
  cases ok
  · rfl
  · exact lockDelta_acquired i

/-! ### All locks -/

/-- The holds on a list of locks. -/
def holds (l : List ℕ) : ℕ → ℤ := (l.map hold).sum

@[simp] theorem holds_nil : holds [] = 0 := rfl

@[simp] theorem holds_cons (i : ℕ) (l : List ℕ) : holds (i :: l) = hold i + holds l := rfl

@[simp] theorem holds_append (l l' : List ℕ) : holds (l ++ l') = holds l + holds l' := by
  simp only [holds, List.map_append, List.sum_append]

theorem unlockAll_effects (l : List ℕ) (log : List (Event α)) :
    Effects ((unlockAll l : Traced (Event α) Unit).run log).2 [] [] (-holds l) := by
  induction l generalizing log with
  | nil => simpa [unlockAll] using Effects.nil
  | cons i l ih =>
    have h := (ih ([.unlock i] ++ log)).append (effects_unlock i)
    rw [holds_cons, neg_add_rev]
    exact h

/-- An acquisition that records a hold exactly when it succeeds. -/
def Acquires (acquire : ℕ → Traced (Event α) Bool) : Prop :=
  ∀ i log, Effects ((acquire i).run log).2 [] []
    (if ((acquire i).run log).1 then hold i else 0)

theorem acquires_wrlock (env : Env (Event α)) : Acquires (wrlock env) :=
  fun i log => effects_wrlock i (env.lock log i)

theorem acquires_rdlock (env : Env (Event α)) : Acquires (rdlock env) :=
  fun i log => effects_rdlock i (env.lock log i)

/-- The acquisition of a list of locks holds all of them, or gives back those it was handed. -/
theorem lockAll_effects {acquire : ℕ → Traced (Event α) Bool} (hacq : Acquires acquire)
    (acquired l : List ℕ) (log : List (Event α)) :
    Effects ((lockAll acquire acquired l).run log).2 [] []
      (if ((lockAll acquire acquired l).run log).1 then holds l else -holds acquired) := by
  induction l generalizing acquired log with
  | nil => simpa [lockAll] using Effects.nil
  | cons i l ih =>
    have hi := hacq i log
    simp only [lockAll, Traced.run_bind, Traced.run_ite]
    cases hok : ((acquire i).run log).1 with
    | false =>
      rw [hok] at hi
      simpa using (unlockAll_effects acquired _).append hi
    | true =>
      rw [hok] at hi
      have hrest := ih (acquired ++ [i]) (((acquire i).run log).2 ++ log)
      simp only [if_true]
      cases hall : ((lockAll acquire (acquired ++ [i]) l).run
          (((acquire i).run log).2 ++ log)).1 with
      | true =>
        rw [hall] at hrest
        simpa [hall, add_comm] using hrest.append hi
      | false =>
        rw [hall] at hrest
        simpa [hall] using hrest.append hi

/-- The transcript after the locks `l` were acquired, with an event for each. -/
def acquiredLog (event : ℕ → Bool → Event α) (l : List ℕ) (log : List (Event α)) :
    List (Event α) :=
  (l.map fun i => event i true).reverse ++ log

theorem acquiredLog_cons (event : ℕ → Bool → Event α) (i : ℕ) (l : List ℕ)
    (log : List (Event α)) :
    acquiredLog event (i :: l) log = acquiredLog event l (event i true :: log) := by
  simp only [acquiredLog, List.map_cons, List.reverse_cons, List.append_assoc,
    List.singleton_append]

/-- The acquisition of a lock, read or write. -/
def acquireLock (env : Env (Event α)) (event : ℕ → Bool → Event α) (i : ℕ) :
    Traced (Event α) Bool :=
  Traced.answer (fun log => env.lock log i) (event i)

section Acquisitions

variable {env : Env (Event α)} (event : ℕ → Bool → Event α)

/-- When every acquisition is granted, all locks are acquired in order. -/
theorem lockAll_granted (acquired l : List ℕ) (log : List (Event α))
    (h : ∀ k (hk : k < l.length), env.lock (acquiredLog event (l.take k) log) l[k] = true) :
    (lockAll (acquireLock env event) acquired l).run log =
      (true, (l.map fun i => event i true).reverse) := by
  induction l generalizing acquired log with
  | nil => rfl
  | cons i l ih =>
    have hi : env.lock log i = true := h 0 (Nat.zero_lt_succ _)
    have hl := ih (acquired ++ [i]) (event i true :: log) fun k hk => by
      have hk' := h (k + 1) (Nat.succ_lt_succ hk)
      rwa [List.take_succ_cons, acquiredLog_cons] at hk'
    have hone : (acquireLock env event i).run log = (true, [event i true]) := by
      simp only [acquireLock, Traced.run_answer, hi]
    simp only [lockAll, Traced.run_bind, hone, if_true, List.singleton_append, hl, List.map_cons,
      List.reverse_cons]

/-- When one acquisition is refused, the acquisition of all locks fails. -/
theorem lockAll_denied (acquired l : List ℕ) (log : List (Event α)) {k : ℕ} (hk : k < l.length)
    (h : env.lock (acquiredLog event (l.take k) log) l[k] = false) :
    ((lockAll (acquireLock env event) acquired l).run log).1 = false := by
  induction l generalizing acquired log k with
  | nil => exact absurd hk (Nat.not_lt_zero k)
  | cons i l ih =>
    have hone : (acquireLock env event i).run log =
      (env.lock log i, [event i (env.lock log i)]) := rfl
    simp only [lockAll, Traced.run_bind, hone]
    cases hi : env.lock log i with
    | false => rfl
    | true =>
      simp only [if_true, List.singleton_append]
      cases k with
      | zero =>
        have hfalse : env.lock log i = false := h
        rw [hi] at hfalse
        exact absurd hfalse.symm Bool.false_ne_true
      | succ k =>
        rw [List.take_succ_cons, acquiredLog_cons] at h
        exact ih (acquired ++ [i]) _ (Nat.lt_of_succ_lt_succ hk) h

/-- The locks below `n` are acquired when each of them is granted after those before it. -/
theorem lockAll_range_granted {n : ℕ} {log : List (Event α)}
    (h : ∀ i < n, env.lock (acquiredLog event (List.range i) log) i = true) :
    (lockAll (acquireLock env event) [] (List.range n)).run log =
      (true, ((List.range n).map fun i => event i true).reverse) := by
  refine lockAll_granted event [] _ log fun k hk => ?_
  rw [List.length_range] at hk
  rw [List.take_range, Nat.min_eq_left hk.le, List.getElem_range]
  exact h k hk

/-- The locks below `n` are not acquired when one of them is refused after those before it. -/
theorem lockAll_range_denied {n i : ℕ} {log : List (Event α)} (hi : i < n)
    (h : env.lock (acquiredLog event (List.range i) log) i = false) :
    ((lockAll (acquireLock env event) [] (List.range n)).run log).1 = false := by
  have hlen : i < (List.range n).length := by rwa [List.length_range]
  refine lockAll_denied event [] _ log hlen ?_
  rwa [List.take_range, Nat.min_eq_left hi.le, List.getElem_range]

end Acquisitions

/-! ### Searches in a bucket -/

variable (table : Hashtable α) (i : ℕ) (hashFull : UInt64) (key : List UInt8)

theorem findSlot_effects (l : List (Fin BUCKET_CAPACITY)) (log : List (Event α)) :
    Effects ((findSlot table i hashFull key l).run log).2 [] [] 0 := by
  induction l generalizing log with
  | nil => exact Effects.nil
  | cons j l ih =>
    simp only [findSlot, readSlot, Traced.run_bind, Traced.run_ite]
    split
    · simpa using effects_access (α := α) i
    · simpa using (ih _).append (effects_access (α := α) i)

theorem findSlot_value (l : List (Fin BUCKET_CAPACITY)) (log : List (Event α)) :
    ((findSlot table i hashFull key l).run log).1 =
      l.find? fun j => (table.buckets i j).matches hashFull key := by
  induction l generalizing log with
  | nil => rfl
  | cons j l ih =>
    simp only [findSlot, readSlot, Traced.run_bind, Traced.run_ite, Traced.run_emit,
      Traced.run_pure]
    cases hj : (table.buckets i j).matches hashFull key with
    | true => simp [hj]
    | false => simpa [hj] using ih _

theorem findSlotOrEmpty_effects (firstEmpty : Option (Fin BUCKET_CAPACITY))
    (l : List (Fin BUCKET_CAPACITY)) (log : List (Event α)) :
    Effects ((findSlotOrEmpty table i hashFull key firstEmpty l).run log).2 [] [] 0 := by
  induction l generalizing firstEmpty log with
  | nil => exact Effects.nil
  | cons j l ih =>
    simp only [findSlotOrEmpty, readSlot, Traced.run_bind, Traced.run_ite]
    split
    · simpa using effects_access (α := α) i
    · simpa using (ih _ _).append (effects_access (α := α) i)

theorem findSlotOrEmpty_value (firstEmpty : Option (Fin BUCKET_CAPACITY))
    (l : List (Fin BUCKET_CAPACITY)) (log : List (Event α)) :
    ((findSlotOrEmpty table i hashFull key firstEmpty l).run log).1.1 =
      l.find? fun j => (table.buckets i j).matches hashFull key := by
  induction l generalizing firstEmpty log with
  | nil => rfl
  | cons j l ih =>
    simp only [findSlotOrEmpty, readSlot, Traced.run_bind, Traced.run_ite, Traced.run_emit,
      Traced.run_pure]
    cases hj : (table.buckets i j).matches hashFull key with
    | true => simp [hj]
    | false => simpa [hj] using ih _ _

/-- When no slot matches, the empty slot found is the first one not in use. -/
theorem findSlotOrEmpty_empty (firstEmpty : Option (Fin BUCKET_CAPACITY))
    (l : List (Fin BUCKET_CAPACITY)) (log : List (Event α))
    (hmiss : ∀ j ∈ l, (table.buckets i j).matches hashFull key = false) :
    ((findSlotOrEmpty table i hashFull key firstEmpty l).run log).1.2 =
      firstEmpty.or (l.find? fun j => !(table.buckets i j).inUse) := by
  induction l generalizing firstEmpty log with
  | nil => simp [findSlotOrEmpty]
  | cons j l ih =>
    have hj := hmiss j List.mem_cons_self
    have hl := fun f log => ih f log fun k hk => hmiss k (List.mem_cons_of_mem j hk)
    simp only [findSlotOrEmpty, readSlot, Traced.run_bind, Traced.run_emit, Traced.run_pure, hj,
      Bool.false_eq_true, if_false, hl]
    cases firstEmpty <;> cases hu : (table.buckets i j).inUse <;> simp [hu]

end SimpleCDatabase
