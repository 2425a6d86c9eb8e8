import SimpleCDatabase.Hashtable.Discipline
import SimpleCDatabase.Hashtable.LockBounds

/-!
# The life of the locks

The locks of a table come into being with it and go with it. Each one is initialised before it is
used for the first time, and no lock is initialised that lives already. A lock is destroyed when
nobody holds it, and is not used any more. A creation that fails destroys the locks that it has
initialised, and after the destruction of the table none is left, whatever fails in between.

The calls are followed by a second monitor, which knows the locks that live. It follows the monitor
of the discipline as long as a call uses locks of the table only.

## Main definitions

* `tableLife`: the creation of a table, calls on it, and its destruction.
* `liveLocks`: the locks initialised and not destroyed.
* `LocksLawful`: the law of their use.

## Main results

* `TableCall.run_life`: a call leaves the locks as they are, when there is one for each bucket.
* `initLocks_life`, `destroyLocks_life`: the loops of creation and destruction.
* `tableLife_locks`: the law holds over the life of a table.
-/

namespace SimpleCDatabase

open Traced Hashtable

variable {α β : Type}

/-- The creation of a table, calls on it, and its destruction, with the code that it returns. -/
def tableLife (env : Env (Event α)) (initialCapacity : UInt64) (calls : List (TableCall α))
    (valueDestroyer : Bool) : Traced (Event α) (Option ℤ) := do
  match ← runTable env initialCapacity calls with
  | some table =>
    let (code, _) ← tableDestroy table valueDestroyer
    pure (some code)
  | none => pure none

/-! ### The law -/

/-- The locks that have been initialised and not been destroyed after a stretch of events, the
newest first. -/
def liveLocks : List (Event α) → Finset ℕ
  | [] => ∅
  | .lockInit i true :: earlier => insert i (liveLocks earlier)
  | .lockDestroy i true :: earlier => (liveLocks earlier).erase i
  | _ :: earlier => liveLocks earlier

/-- The law of the use of locks. -/
structure LocksLawful (log : List (Event α)) : Prop where
  /-- No lock is initialised that lives. -/
  init_fresh : ∀ later earlier i ok, log = later ++ .lockInit i ok :: earlier →
    i ∉ liveLocks earlier
  /-- Each lock that is used lives. -/
  used_live : ∀ later earlier e i, log = later ++ e :: earlier → e.usedLock = some i →
    i ∈ liveLocks earlier
  /-- No lock is taken that is held. -/
  taken_free : ∀ later earlier i, log = later ++ .wrlock i true :: earlier ∨
    log = later ++ .rdlock i true :: earlier → i ∉ heldLocks earlier
  /-- Each lock that is released is held. -/
  released_held : ∀ later earlier i, log = later ++ .unlock i :: earlier → i ∈ heldLocks earlier
  /-- Each lock that is destroyed lives, and nobody holds it. -/
  destroyed_free : ∀ later earlier i ok, log = later ++ .lockDestroy i ok :: earlier →
    i ∈ liveLocks earlier ∧ i ∉ heldLocks earlier

/-! ### The monitor -/

/-- The locks that live, and those that are held. -/
structure LockLife where
  live : Finset ℕ
  held : Finset ℕ

namespace LockLife

/-- Before a table is created. -/
def start : LockLife := ⟨∅, ∅⟩

/-- One event; it is refused when it breaks the law. -/
def step (s : LockLife) : Event α → Option LockLife
  | .lockInit i ok =>
    if i ∈ s.live then none else some (if ok then { s with live := insert i s.live } else s)
  | .wrlock i ok =>
    if i ∈ s.live ∧ (ok = true → i ∉ s.held) then
      some (if ok then { s with held := insert i s.held } else s)
    else none
  | .rdlock i ok =>
    if i ∈ s.live ∧ (ok = true → i ∉ s.held) then
      some (if ok then { s with held := insert i s.held } else s)
    else none
  | .unlock i =>
    if i ∈ s.live ∧ i ∈ s.held then some { s with held := s.held.erase i } else none
  | .lockDestroy i ok =>
    if i ∈ s.live ∧ i ∉ s.held then
      some (if ok then { s with live := s.live.erase i } else s)
    else none
  | _ => some s

end LockLife

/-- What an event that is not refused does to the balance of a lock. -/
private theorem lockDelta_of_step {s s' : LockLife} {e : Event α} (h : s.step e = some s')
    (i : ℕ) :
    lockDelta i e + (if i ∈ s.held then 1 else 0) = if i ∈ s'.held then 1 else 0 := by
  have htaken {k : ℕ} (hk : k ∉ s.held) : ((if k = i then 1 else 0) : ℤ) +
      (if i ∈ s.held then 1 else 0) = if i ∈ insert k s.held then 1 else 0 := by
    by_cases hki : k = i
    · subst hki
      simp [hk]
    · simp [hki, Ne.symm hki]
  cases e with
  | wrlock k ok | rdlock k ok =>
    rw [LockLife.step, Option.ite_none_right_eq_some] at h
    obtain ⟨⟨-, hfree⟩, hs⟩ := h
    obtain rfl := Option.some_inj.mp hs
    cases ok with
    | false => exact zero_add _
    | true => exact htaken (hfree rfl)
  | unlock k =>
    rw [LockLife.step, Option.ite_none_right_eq_some] at h
    obtain ⟨⟨-, hheld⟩, hs⟩ := h
    obtain rfl := Option.some_inj.mp hs
    by_cases hki : k = i
    · subst hki
      simp [lockDelta, hheld]
    · simp [lockDelta, hki, Ne.symm hki]
  | lockInit k ok =>
    rw [LockLife.step, Option.ite_none_left_eq_some] at h
    obtain rfl := Option.some_inj.mp h.2
    cases ok <;> exact zero_add _
  | lockDestroy k ok =>
    rw [LockLife.step, Option.ite_none_right_eq_some] at h
    obtain rfl := Option.some_inj.mp h.2
    cases ok <;> exact zero_add _
  | malloc | create | destroy | access =>
    obtain rfl := Option.some_inj.mp h
    exact zero_add _

/-- **The state of the monitor** are the locks that live and those that are held, and a lock is held
once. -/
theorem monitor_life {log : List (Event α)} {s : LockLife}
    (h : monitor LockLife.step .start log = some s) :
    s.live = liveLocks log ∧ s.held = heldLocks log ∧
      ∀ i, lockBalance log i = if i ∈ s.held then 1 else 0 := by
  induction log generalizing s with
  | nil =>
    obtain rfl := Option.some_inj.mp h
    exact ⟨rfl, rfl, fun i => (if_neg (Finset.notMem_empty i)).symm⟩
  | cons e earlier ih =>
    obtain ⟨s₁, hs₁, hstep⟩ := Option.bind_eq_some_iff.mp h
    obtain ⟨hlive, hheld, hbalance⟩ := ih hs₁
    have hnext (i : ℕ) : lockBalance (e :: earlier) i = if i ∈ s.held then 1 else 0 := by
      rw [← lockDelta_of_step hstep, ← hbalance]
      rfl
    refine ⟨?_, ?_, hnext⟩
    all_goals
      cases e with
      | lockInit i ok | wrlock i ok | rdlock i ok | lockDestroy i ok =>
        rw [LockLife.step] at hstep
        split at hstep
        all_goals first
          | cases hstep; done
          | obtain rfl := Option.some_inj.mp hstep
            cases ok <;> simp [liveLocks, heldLocks, hlive, hheld]
      | unlock i =>
        rw [LockLife.step, Option.ite_none_right_eq_some] at hstep
        obtain rfl := Option.some_inj.mp hstep.2
        simp [liveLocks, heldLocks, hlive, hheld]
      | malloc | create | destroy | access =>
        obtain rfl := Option.some_inj.mp hstep
        simp [liveLocks, heldLocks, hlive, hheld]

/-- **What the monitor does not refuse is lawful.** -/
theorem locksLawful_of_monitor {log : List (Event α)} {s : LockLife}
    (h : monitor LockLife.step .start log = some s) : LocksLawful log := by
  have hat {later earlier : List (Event α)} {e : Event α} (hlog : log = later ++ e :: earlier) :
      ∃ s₁ s₂ : LockLife, s₁.live = liveLocks earlier ∧ s₁.held = heldLocks earlier ∧
        s₁.step e = some s₂ := by
    obtain ⟨s₁, s₂, hs₁, hstep, -⟩ := exists_of_monitor (hlog ▸ h)
    obtain ⟨hlive, hheld, -⟩ := monitor_life hs₁
    exact ⟨s₁, s₂, hlive, hheld, hstep⟩
  constructor
  · intro later earlier i ok hlog
    obtain ⟨s₁, s₂, hlive, -, hstep⟩ := hat hlog
    rw [LockLife.step, Option.ite_none_left_eq_some] at hstep
    exact hlive ▸ hstep.1
  · intro later earlier e i hlog hused
    obtain ⟨s₁, s₂, hlive, -, hstep⟩ := hat hlog
    cases e with
    | wrlock k ok | rdlock k ok | unlock k =>
      obtain rfl := Option.some_inj.mp hused
      rw [LockLife.step, Option.ite_none_right_eq_some] at hstep
      exact hlive ▸ hstep.1.1
    | _ => cases hused
  · rintro later earlier i (hlog | hlog)
    all_goals
      obtain ⟨s₁, s₂, -, hheld, hstep⟩ := hat hlog
      rw [LockLife.step, Option.ite_none_right_eq_some] at hstep
      exact hheld ▸ hstep.1.2 rfl
  · intro later earlier i hlog
    obtain ⟨s₁, s₂, -, hheld, hstep⟩ := hat hlog
    rw [LockLife.step, Option.ite_none_right_eq_some] at hstep
    exact hheld ▸ hstep.1.2
  · intro later earlier i ok hlog
    obtain ⟨s₁, s₂, hlive, hheld, hstep⟩ := hat hlog
    rw [LockLife.step, Option.ite_none_right_eq_some] at hstep
    exact hlive ▸ hheld ▸ hstep.1

/-! ### One call -/

/-- What is about no lock leaves the monitor where it is. -/
theorem monitor_lockless {new : List (Event α)} (h : ∀ e ∈ new, e.Lockless)
    (log : List (Event α)) :
    monitor LockLife.step .start (new ++ log) = monitor LockLife.step .start log := by
  induction new with
  | nil => rfl
  | cons e new ih =>
    rw [List.cons_append, monitor, ih fun e he => h e (List.mem_cons_of_mem _ he)]
    have he := h e List.mem_cons_self
    cases e with
    | malloc | create | destroy | access => exact Option.bind_fun_some _
    | _ => exact he.elim

/-- The monitor of the life of `n` locks, beside the monitor of the discipline of a call. -/
private def Follows (n : ℕ) (s : LockState) (life : LockLife) : Prop :=
  life = ⟨Finset.range n, s.held⟩ ∧ s.held ⊆ s.acquired

/-- An event of the discipline that uses the first `n` locks, when these live. -/
private theorem step_follows {n : ℕ} (s : LockState) (life : LockLife) (e : Event α)
    (s' : LockState) (he : e.Within n) (hfollows : Follows n s life) (h : s.step e = some s') :
    ∃ life', life.step e = some life' ∧ Follows n s' life' := by
  obtain ⟨rfl, hsub⟩ := hfollows
  cases e with
  | wrlock i ok | rdlock i ok =>
    have hlive : i ∈ Finset.range n := Finset.mem_range.mpr he
    cases ok with
    | false =>
      obtain rfl := Option.some_inj.mp h
      exact ⟨_, if_pos ⟨hlive, fun h => absurd h Bool.false_ne_true⟩, rfl, hsub⟩
    | true =>
      rw [LockState.step, Option.ite_none_left_eq_some] at h
      obtain ⟨hfresh, hs⟩ := h
      obtain rfl := Option.some_inj.mp hs
      exact ⟨_, if_pos ⟨hlive, fun _ hheld => hfresh (hsub hheld)⟩, rfl,
        Finset.insert_subset_insert i hsub⟩
  | unlock i =>
    rw [LockState.step, Option.ite_none_right_eq_some] at h
    obtain ⟨hheld, hs⟩ := h
    obtain rfl := Option.some_inj.mp hs
    exact ⟨_, if_pos ⟨Finset.mem_range.mpr he, hheld⟩, rfl, (Finset.erase_subset _ _).trans hsub⟩
  | access i =>
    rw [LockState.step, Option.ite_none_right_eq_some] at h
    obtain rfl := Option.some_inj.mp h.2
    exact ⟨_, rfl, rfl, hsub⟩
  | lockInit | lockDestroy => exact he.elim
  | malloc | create | destroy =>
    obtain rfl := Option.some_inj.mp h
    exact ⟨_, rfl, rfl, hsub⟩

/-- The transcript so far is lawful, the first `n` locks live, and none is held. -/
def LocksAtRest (n : ℕ) (log : List (Event α)) : Prop :=
  monitor LockLife.step .start log = some ⟨Finset.range n, ∅⟩

/-- **A call leaves the locks as they are**, when there is one for each bucket. -/
theorem TableCall.run_life (call : TableCall α) (env : Env (Event α)) {t : Hashtable α}
    (ht : t.WellFormed) (hlocks : t.bucketsCount ≤ t.lockCount) {log : List (Event α)}
    (h : LocksAtRest t.lockCount.toNat log) :
    (call.run env t).Ensures log fun _ new => LocksAtRest t.lockCount.toNat (new ++ log) := by
  obtain ⟨s, hs, hheld⟩ := call.run_returns env hlocks log
  have hstart : Follows t.lockCount.toNat .start ⟨Finset.range t.lockCount.toNat, ∅⟩ :=
    ⟨rfl, Finset.empty_subset _⟩
  obtain ⟨life, hlife, rfl, -⟩ :=
    monitor_follows step_follows (call.run_within env ht hlocks log) hstart hs
  rw [hheld] at hlife
  rw [Traced.Ensures, LocksAtRest, monitor_append, h]
  exact hlife

/-! ### Creation and destruction -/

/-- The transcript so far is lawful, the locks of a list live, and none is held. -/
private def RestsOn (l : List ℕ) (log : List (Event α)) : Prop :=
  monitor LockLife.step .start log = some ⟨l.toFinset, ∅⟩

private theorem restsOn_range {n : ℕ} {log : List (Event α)} :
    RestsOn (List.range n) log ↔ LocksAtRest n log := by
  have hrange : (List.range n).toFinset = Finset.range n := by
    ext i
    simp
  rw [RestsOn, hrange, LocksAtRest]

/-- The destruction of locks that live and that nobody holds destroys all of them. -/
private theorem destroyLocks_life {l rest : List ℕ} (hnodup : (l ++ rest).Nodup)
    {log : List (Event α)} (h : RestsOn (l ++ rest) log) :
    (destroyLocks l).Ensures log fun ok new => ok = true ∧ RestsOn rest (new ++ log) := by
  induction l generalizing log with
  | nil => exact ⟨rfl, h⟩
  | cons i l ih =>
    have hfree : lockBalance log i = 0 :=
      ((monitor_life h).2.2 i).trans (if_neg (Finset.notMem_empty i))
    rw [List.cons_append, List.nodup_cons] at hnodup
    have hone : (rwlockDestroy i).Ensures log fun ok new => ok = true ∧
        RestsOn (l ++ rest) (new ++ log) := by
      refine ⟨decide_eq_true hfree, ?_⟩
      have hmem : i ∈ (i :: l ++ rest).toFinset ∧ i ∉ (∅ : Finset ℕ) :=
        ⟨by simp, Finset.notMem_empty i⟩
      have hleft : (i :: l ++ rest).toFinset.erase i = (l ++ rest).toFinset := by
        rw [List.cons_append, List.toFinset_cons,
          Finset.erase_insert fun hi => hnodup.1 (List.mem_toFinset.mp hi)]
      rw [RestsOn] at h
      simp only [rwlockDestroy, run_answer, List.singleton_append, RestsOn, monitor, h,
        Option.bind_some, LockLife.step, if_pos hmem, hfree, decide_true, if_true, hleft]
    refine hone.bind ?_
    rintro _ new ⟨rfl, hrest⟩
    obtain ⟨hok, h'⟩ := ih hnodup.2 hrest
    exact ⟨hok, by rwa [List.append_assoc]⟩

/-- The initialisation of locks: all of them live then, or none. -/
private theorem initLocks_life (env : Env (Event α)) {initialised l : List ℕ}
    (hnodup : (initialised ++ l).Nodup) {log : List (Event α)} (h : RestsOn initialised log) :
    (initLocks env initialised l).Ensures log fun ok new =>
      RestsOn (if ok then initialised ++ l else []) (new ++ log) := by
  induction l generalizing initialised log with
  | nil => exact (List.append_nil initialised).symm ▸ h
  | cons i l ih =>
    have hfresh : i ∉ initialised.toFinset := fun hi =>
      (List.nodup_append.mp hnodup).2.2 i (List.mem_toFinset.mp hi) i List.mem_cons_self rfl
    have hinit (ok : Bool) : RestsOn (if ok then initialised ++ [i] else initialised)
        (.lockInit i ok :: log) := by
      have hlive : (initialised ++ [i]).toFinset = insert i initialised.toFinset := by
        ext k
        simp
      rw [RestsOn] at h
      rw [RestsOn, monitor, h, Option.bind_some, LockLife.step, if_neg hfresh]
      cases ok with
      | false => rfl
      | true => exact congrArg (fun live => some (⟨live, ∅⟩ : LockLife)) hlive.symm
    have hone : (rwlockInit env i).Ensures log fun ok new =>
        RestsOn (if ok then initialised ++ [i] else initialised) (new ++ log) := hinit _
    refine hone.bind fun ok new hnew => ?_
    cases ok with
    | true =>
      have hmore : (initialised ++ [i] ++ l).Nodup := by simpa using hnodup
      refine (ih hmore hnew).mono fun ok new' h' => ?_
      rw [List.append_assoc initialised, List.singleton_append] at h'
      rwa [List.append_assoc]
    | false =>
      have hall : RestsOn (initialised ++ []) (new ++ log) := by
        rwa [List.append_nil]
      refine (destroyLocks_life (by simpa using (List.nodup_append.mp hnodup).1) hall).bind ?_
      rintro _ new' ⟨-, h'⟩
      have hnone : RestsOn [] (new' ++ new ++ log) := by
        rwa [List.append_assoc]
      exact hnone

/-- What is about no lock leaves the locks as they are. -/
private theorem atRest_lockless {x : Traced (Event α) β} (hx : Only Event.Lockless x) {n : ℕ}
    {log : List (Event α)} (h : LocksAtRest n log) :
    x.Ensures log fun _ new => LocksAtRest n (new ++ log) :=
  (monitor_lockless (hx log) log).trans h

/-- The locks that live after `table_create`: those of the table, if there is one. -/
theorem tableCreate_life (env : Env (Event α)) (initialCapacity : UInt64) {log : List (Event α)}
    (h : LocksAtRest 0 log) : (tableCreate env initialCapacity).Ensures log fun r new =>
      LocksAtRest (r.elim 0 fun t => t.lockCount.toNat) (new ++ log) := by
  refine Traced.ensures_ite (fun _ => h) fun _ => ?_
  refine (atRest_lockless (malloc_lockless env _) h).bind fun _ new₁ h₁ => ?_
  refine Traced.ensures_ite (fun _ => ?_) fun _ => h₁
  refine (atRest_lockless (calloc_lockless env _ _) h₁).bind fun _ new₂ h₂ => ?_
  have h₂₁ : LocksAtRest 0 (new₂ ++ new₁ ++ log) := by rwa [List.append_assoc]
  refine Traced.ensures_ite (fun _ => ?_) fun _ => h₂₁
  refine (atRest_lockless (malloc_lockless env _) h₂).bind fun _ new₃ h₃ => ?_
  have h₃₁ : LocksAtRest 0 (new₃ ++ new₂ ++ new₁ ++ log) := by
    rwa [List.append_assoc, List.append_assoc]
  refine Traced.ensures_ite (fun _ => ?_) fun _ => h₃₁
  have hnone : RestsOn [] (new₃ ++ (new₂ ++ (new₁ ++ log))) := restsOn_range.mpr h₃
  refine (initLocks_life env (by simpa using List.nodup_range) hnone).bind fun ok new₄ h₄ => ?_
  simp only [← List.append_assoc] at h₄
  cases ok with
  | true =>
    have hall : LocksAtRest (roundCapacity initialCapacity).toNat
        (new₄ ++ new₃ ++ new₂ ++ new₁ ++ log) := restsOn_range.mp h₄
    exact hall
  | false =>
    have hnone : LocksAtRest 0 (new₄ ++ new₃ ++ new₂ ++ new₁ ++ log) := restsOn_range.mp h₄
    exact hnone

/-- `table_destroy` of a table whose locks nobody holds returns zero, and leaves no lock. -/
theorem tableDestroy_life (t : Hashtable α) (valueDestroyer : Bool) {log : List (Event α)}
    (h : LocksAtRest t.lockCount.toNat log) :
    (tableDestroy t valueDestroyer).Ensures log fun r new =>
      r.1 = 0 ∧ LocksAtRest 0 (new ++ log) := by
  have hlocks {log : List (Event α)} (h : LocksAtRest t.lockCount.toNat log) :
      (do
        if ← destroyLocks (List.range t.lockCount.toNat) then pure (0, none)
        else pure (-1, some t) : Traced (Event α) (ℤ × Option (Hashtable α))).Ensures log
        fun r new => r.1 = 0 ∧ LocksAtRest 0 (new ++ log) := by
    have hall : RestsOn (List.range t.lockCount.toNat ++ []) log := by
      rw [List.append_nil]
      exact restsOn_range.mpr h
    refine (destroyLocks_life (by simpa using List.nodup_range) hall).bind ?_
    rintro _ new ⟨rfl, hnone⟩
    have hnone : LocksAtRest 0 (new ++ log) := restsOn_range.mp hnone
    exact ⟨rfl, hnone⟩
  rw [tableDestroy]
  cases valueDestroyer with
  | false => exact hlocks h
  | true =>
    refine (atRest_lockless (destroyValues_lockless t _) h).bind fun _ new hnew => ?_
    exact (hlocks hnew).mono fun r new' ⟨hcode, hnone⟩ => ⟨hcode, by rwa [List.append_assoc]⟩

/-! ### The life of a table -/

/-- The locks that live after calls on a created table are those of the table. -/
theorem runTable_life (env : Env (Event α)) (n₀ : UInt64) (hn₀ : n₀.toNat ≤ 2 ^ 63)
    (calls : List (TableCall α)) (hcalls : RunGuarded env
      (fun t log call => call.Bounded ∧ call.WithinLocks env t log) n₀ calls []) :
    (runTable env n₀ calls).Ensures [] fun r new =>
      LocksAtRest (r.elim 0 fun t => t.lockCount.toNat) (new ++ []) := by
  have hcreate : (tableCreate env n₀).Ensures [] fun r new =>
      r = ((tableCreate env n₀).run []).1 ∧ new = ((tableCreate env n₀).run []).2 ∧
        (∀ t, r = some t → n₀ ≠ 0 ∧ t = fresh (roundCapacity n₀) ∧
          (roundCapacity n₀).toNat * SIZEOF_BUCKET < 2 ^ 64) ∧
        LocksAtRest (r.elim 0 fun t => t.lockCount.toNat) (new ++ []) :=
    ⟨rfl, rfl, (tableCreate_spec env n₀ []).2, tableCreate_life env n₀ rfl⟩
  refine hcreate.bind ?_
  rintro (_ | t₀) new ⟨hvalue, hnew, hcreated, hrest⟩
  · exact hrest
  obtain ⟨hpos, rfl, hbytes⟩ := hcreated t₀ rfl
  have hrun := Traced.runAll_guarded (fun table call => TableCall.run env table call)
    (fun t log call => call.Bounded ∧ call.WithinLocks env t log)
    (fun t log => (t.WellFormed ∧ t.bucketsCount ≤ t.lockCount) ∧
      LocksAtRest t.lockCount.toNat log)
    (fun t log call hcall ht => by
      obtain ⟨code, ds, cs, hout, -⟩ := call.run_spec env t log
      refine ⟨⟨hout.wellFormed hcall.1 ht.1.1, call.run_withinLocks hcall.2 ht.1.2⟩, ?_⟩
      rw [hout.counts.1]
      exact call.run_life env ht.1.1 ht.1.2 ht.2)
    calls (fresh (roundCapacity n₀)) (new ++ []) (hnew ▸ hcalls _ hvalue.symm)
    ⟨⟨wellFormed_fresh (roundCapacity_spec hpos hn₀).1 hbytes, UInt64.le_refl _⟩, hrest⟩
  have hlast := hrun.2
  rw [← List.append_assoc] at hlast
  exact hlast

/-- **The life of the locks.** A table is created, calls are made on it, of which no resize goes
beyond the locks, and it is destroyed. Whatever requests for memory, acquisitions and
initialisations fail, every lock is used while it lives only, and at the end none lives: a creation
that fails destroys what it has initialised, and the destruction of a table returns zero. -/
theorem tableLife_locks (env : Env (Event α)) (n₀ : UInt64) (hn₀ : n₀.toNat ≤ 2 ^ 63)
    (calls : List (TableCall α)) (valueDestroyer : Bool) (hcalls : RunGuarded env
      (fun t log call => call.Bounded ∧ call.WithinLocks env t log) n₀ calls []) :
    let r := (tableLife env n₀ calls valueDestroyer).run []
    LocksLawful r.2 ∧ liveLocks r.2 = ∅ ∧ heldLocks r.2 = ∅ ∧
      ∀ code, r.1 = some code → code = 0 := by
  have hlife : (tableLife env n₀ calls valueDestroyer).Ensures [] fun r new =>
      LocksAtRest 0 (new ++ []) ∧ ∀ code, r = some code → code = 0 := by
    refine (runTable_life env n₀ hn₀ calls hcalls).bind ?_
    rintro (_ | t) new hrest
    · exact ⟨hrest, fun code h => nomatch h⟩
    refine (tableDestroy_life t valueDestroyer hrest).bind ?_
    rintro ⟨code, left⟩ new' ⟨rfl, hnone⟩
    refine ⟨?_, fun code h => (Option.some_inj.mp h).symm⟩
    show LocksAtRest 0 (new' ++ new ++ [])
    rwa [List.append_assoc]
  obtain ⟨hrest, hcode⟩ := hlife
  rw [List.append_nil] at hrest
  obtain ⟨hlive, hheld, -⟩ := monitor_life hrest
  exact ⟨locksLawful_of_monitor hrest, hlive.symm.trans rfl, hheld.symm, hcode⟩

/-- A table that is filled, shrunk and cleared, and whose second lock is refused once. -/
theorem tableLife_locks_shrunk :
    let env : Env (Event Unit) := { Env.granting with lock := fun log i => log.length ≠ 30 ∨ i ≠ 1 }
    let calls : List (TableCall Unit) :=
      [.set [65] none true, .resize 2, .clear true, .get [65] none]
    LocksLawful ((tableLife env 4 calls true).run []).2 ∧
      liveLocks ((tableLife env 4 calls true).run []).2 = ∅ := by
  intro env calls
  have hcalls : RunGuarded env (fun t log call => call.Bounded ∧ call.WithinLocks env t log) 4
      calls [] := by
    rintro table ⟨⟩
    have htwo : (2 : UInt64).toNat ≤ 2 ^ 63 := by decide
    exact ⟨⟨trivial, trivial⟩, ⟨htwo, .inl (by decide)⟩, ⟨trivial, trivial⟩, ⟨trivial, trivial⟩,
      trivial⟩
  obtain ⟨hlawful, hlive, -⟩ := tableLife_locks env 4 (by decide) calls true hcalls
  exact ⟨hlawful, hlive⟩

end SimpleCDatabase
