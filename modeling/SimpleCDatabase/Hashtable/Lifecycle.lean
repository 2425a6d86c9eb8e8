import SimpleCDatabase.Hashtable.Calls

/-!
# Creation and destruction of a table

What `table_create` and `table_destroy` return and record, and the runs of calls on a table that
was created.

## Main definitions

* `Hashtable.fresh`: the empty table of a capacity.
* `runTable`: the creation of a table and a run of calls on it.
* `RunGuarded`: such a run, with a condition on each of its calls.

## Main results

* `tableCreate_spec`: a created table is fresh, and its buckets fit in memory.
* `tableDestroy_spec`: when no lock is held, the table is gone, and the blocks destroyed are the
  values it held.
* `runTable_guarded`, `runTable_invariant`: the induction over the runs of calls.
-/

namespace SimpleCDatabase

open Buckets Hashtable

variable {α : Type}

/-- The empty table with `capacity` buckets and locks. -/
def Hashtable.fresh (capacity : UInt64) : Hashtable α where
  buckets _ _ := Slot.zero
  bucketsCount := capacity
  elemCount := 0
  lockCount := capacity

@[simp] theorem Hashtable.entries_fresh (capacity : UInt64) :
    (fresh capacity : Hashtable α).entries = 0 :=
  contents_eq_zero fun _ _ _ => rfl

/-! ### Locks -/

theorem effects_lockInit (i : ℕ) (ok : Bool) :
    Effects ([.lockInit i ok] : List (Event α)) [] [] 0 :=
  ⟨rfl, rfl, funext fun _ => rfl⟩

theorem effects_lockDestroy (i : ℕ) (ok : Bool) :
    Effects ([.lockDestroy i ok] : List (Event α)) [] [] 0 :=
  ⟨rfl, rfl, funext fun _ => rfl⟩

/-- The destruction of locks is silent, and succeeds when none of them is held. -/
theorem destroyLocks_ensures (l : List ℕ) (log : List (Event α)) :
    (destroyLocks l).Ensures log fun ok new => Effects new [] [] 0 ∧
      ((∀ i ∈ l, lockBalance log i = 0) → ok = true) := by
  induction l generalizing log with
  | nil => exact ⟨Effects.nil, fun _ => rfl⟩
  | cons i l ih =>
    have hone : (rwlockDestroy i).Ensures log fun ok new => Effects new [] [] 0 ∧
        ok = decide (lockBalance log i = 0) :=
      ⟨effects_lockDestroy i _, rfl⟩
    refine hone.bind ?_
    rintro ok new₁ ⟨h₁, hok⟩
    refine Traced.ensures_ite (fun _ => ?_) fun hfalse => ?_
    · refine (ih _).mono ?_
      rintro ok' new₂ ⟨h₂, hok'⟩
      refine ⟨by simpa using h₂.append h₁, fun hfree => hok' fun k hk => ?_⟩
      rw [lockBalance_append, h₁.balance, zero_add]
      exact hfree k (List.mem_cons_of_mem i hk)
    · refine ⟨h₁, fun hfree => absurd ?_ hfalse⟩
      rw [hok, decide_eq_true (hfree i List.mem_cons_self)]

theorem initLocks_ensures (env : Env (Event α)) (initialised l : List ℕ) (log : List (Event α)) :
    (initLocks env initialised l).Ensures log fun _ new => Effects new [] [] 0 := by
  induction l generalizing initialised log with
  | nil => exact Effects.nil
  | cons i l ih =>
    have hone : (rwlockInit env i).Ensures log fun _ new =>
        Effects new ([] : List (Block α)) [] 0 :=
      effects_lockInit i _
    refine hone.bind ?_
    intro ok new₁ h₁
    refine Traced.ensures_ite (fun _ => ?_) fun _ => ?_
    · exact (ih _ _).mono fun _ new₂ h₂ => by simpa using h₂.append h₁
    · refine (destroyLocks_ensures initialised _).bind ?_
      rintro _ new₂ ⟨h₂, -⟩
      exact (by simpa using h₂.append h₁ : Effects (new₂ ++ new₁) [] [] 0)

/-! ### Creation -/

theorem malloc_ensures (env : Env (Event α)) (size : ℕ) (log : List (Event α)) :
    (malloc env size).Ensures log fun _ new => Effects new [] [] 0 :=
  effects_malloc size _

/-- A created table is fresh, and its buckets fit in memory. -/
theorem tableCreate_spec (env : Env (Event α)) (initialCapacity : UInt64)
    (log : List (Event α)) :
    (tableCreate env initialCapacity).Ensures log fun r new => Effects new [] [] 0 ∧
      ∀ t, r = some t → initialCapacity ≠ 0 ∧ t = fresh (roundCapacity initialCapacity) ∧
        (roundCapacity initialCapacity).toNat * SIZEOF_BUCKET < 2 ^ 64 := by
  refine Traced.ensures_ite (fun _ => ⟨Effects.nil, by simp⟩) fun hpos => ?_
  refine (malloc_ensures env _ log).bind ?_
  intro ok₁ new₁ h₁
  refine Traced.ensures_ite (fun _ => ?_) fun _ => ⟨h₁, by simp⟩
  refine (calloc_ensures env _ _ _).bind ?_
  rintro ok₂ new₂ ⟨h₂, hbytes, -⟩
  have h₂₁ : Effects (new₂ ++ new₁) [] [] 0 := by simpa using h₂.append h₁
  refine Traced.ensures_ite (fun hok₂ => ?_) fun _ => ⟨h₂₁, by simp⟩
  refine (malloc_ensures env _ _).bind ?_
  intro ok₃ new₃ h₃
  have h₃₁ : Effects (new₃ ++ new₂ ++ new₁) [] [] 0 := by simpa using h₃.append h₂₁
  refine Traced.ensures_ite (fun _ => ?_) fun _ => ⟨h₃₁, by simp⟩
  refine (initLocks_ensures env _ _ _).bind ?_
  intro ok₄ new₄ h₄
  have h₄₁ : Effects (new₄ ++ new₃ ++ new₂ ++ new₁) [] [] 0 := by simpa using h₄.append h₃₁
  refine Traced.ensures_ite (fun _ => ?_) fun _ => ⟨h₄₁, by simp⟩
  refine ⟨h₄₁, ?_⟩
  rintro t ⟨⟩
  exact ⟨hpos, rfl, hbytes hok₂⟩

/-! ### Destruction -/

theorem destroyValues_ensures (t : Hashtable α) (l : List (ℕ × Fin BUCKET_CAPACITY))
    (log : List (Event α)) :
    (destroyValues t l).Ensures log fun _ new => ∃ ds : List (Block α),
      Effects new ds [] 0 ∧ (ds : Multiset (Block α)) = valuesOf (gathered t l) := by
  induction l generalizing log with
  | nil => exact ⟨[], Effects.nil, rfl⟩
  | cons p l ih =>
    refine (readSlot_ensures t p.1 p.2 log).bind ?_
    rintro slot new₁ ⟨rfl, h₁⟩
    refine Traced.ensures_ite (fun hused => ?_) fun hused => ?_
    · refine (callDestroyer_ensures true _ _).bind ?_
      intro _ new₂ h₂
      refine (ih _).mono ?_
      rintro _ new₃ ⟨ds, h₃, hds⟩
      refine ⟨ds ++ (t.buckets p.1 p.2).value.toList,
        by simpa [handed] using (h₃.append h₂).append h₁, ?_⟩
      rw [← Multiset.coe_add, hds, gathered_cons, occupant_of_used hused, valuesOf_add,
        valuesOf_singleton, add_comm]
    · refine (ih _).mono ?_
      rintro _ new₂ ⟨ds, h₂, hds⟩
      refine ⟨ds, by simpa using h₂.append h₁, ?_⟩
      rw [hds, gathered_cons, occupant_of_unused (Bool.eq_false_iff.mpr hused), zero_add]

/-- **Destruction.** When no lock is held, the table is gone, and the blocks destroyed are the
values that it held. -/
theorem tableDestroy_spec (t : Hashtable α) (log : List (Event α))
    (hfree : lockBalance log = 0) :
    (tableDestroy t true).Ensures log fun r new => r = (0, none) ∧
      ∃ ds : List (Block α), Effects new ds [] 0 ∧ (ds : Multiset (Block α)) = t.values := by
  have hvalues := destroyValues_ensures t (allSlots t.bucketsCount.toNat) log
  rw [gathered_allSlots] at hvalues
  refine hvalues.bind ?_
  rintro _ new₁ ⟨ds, h₁, hds⟩
  refine (destroyLocks_ensures _ _).bind ?_
  rintro ok new₂ ⟨h₂, hok⟩
  have hdestroyed : ok = true := hok fun i _ => by
    rw [lockBalance_append, h₁.balance, hfree, add_zero, Pi.zero_apply]
  subst hdestroyed
  exact ⟨rfl, ds, by simpa using h₂.append h₁, hds⟩

/-! ### Runs of calls -/

/-- The creation of a table and a run of calls on it. -/
def runTable (env : Env (Event α)) (initialCapacity : UInt64) (calls : List (TableCall α)) :
    Traced (Event α) (Option (Hashtable α)) := do
  match ← tableCreate env initialCapacity with
  | some table =>
    let table ← Traced.runAll (fun table call => call.run env table) table calls
    pure (some table)
  | none => pure none

/-- A run that leaves a table: one is created, and the calls are made on it. -/
theorem runTable_run {env : Env (Event α)} {initialCapacity : UInt64}
    {calls : List (TableCall α)} {log : List (Event α)} {t : Hashtable α}
    (hrun : ((runTable env initialCapacity calls).run log).1 = some t) :
    ∃ t₀, ((tableCreate env initialCapacity).run log).1 = some t₀ ∧
      ((Traced.runAll (fun table call => call.run env table) t₀ calls).run
        (((tableCreate env initialCapacity).run log).2 ++ log)).1 = t ∧
      ((runTable env initialCapacity calls).run log).2 =
        ((Traced.runAll (fun table call => call.run env table) t₀ calls).run
          (((tableCreate env initialCapacity).run log).2 ++ log)).2 ++
            ((tableCreate env initialCapacity).run log).2 := by
  rw [runTable, Traced.run_bind] at hrun ⊢
  cases hcreated : ((tableCreate env initialCapacity).run log).1 with
  | none =>
    rw [hcreated] at hrun
    exact absurd hrun.symm (Option.some_ne_none t)
  | some t₀ =>
    rw [hcreated] at hrun
    refine ⟨t₀, rfl, Option.some_inj.mp hrun, ?_⟩
    simp only [Traced.run_bind, Traced.run_pure, List.nil_append]

/-- Every call of a run on a created table is made where `ok` holds. -/
def RunGuarded (env : Env (Event α)) (ok : Hashtable α → List (Event α) → TableCall α → Prop)
    (initialCapacity : UInt64) (calls : List (TableCall α)) (log : List (Event α)) : Prop :=
  ∀ table, ((tableCreate env initialCapacity).run log).1 = some table →
    Traced.Guarded (fun table call => call.run env table) ok table
      (((tableCreate env initialCapacity).run log).2 ++ log) calls

/-- **Invariants of tables.** What holds of the created table, and is preserved by the calls made
where `ok` holds, holds of the table that a guarded run leaves. -/
theorem runTable_guarded {env : Env (Event α)}
    {ok : Hashtable α → List (Event α) → TableCall α → Prop} {initialCapacity : UInt64}
    {calls : List (TableCall α)} (Inv : Hashtable α → Prop)
    (hfresh : initialCapacity ≠ 0 →
      (roundCapacity initialCapacity).toNat * SIZEOF_BUCKET < 2 ^ 64 →
      Inv (fresh (roundCapacity initialCapacity)))
    (hstep : ∀ t log call, ok t log call → Inv t → Inv ((call.run env t).run log).1)
    {log : List (Event α)} (hguard : RunGuarded env ok initialCapacity calls log)
    {t : Hashtable α} (hrun : ((runTable env initialCapacity calls).run log).1 = some t) :
    Inv t := by
  obtain ⟨t₀, hcreated, rfl, -⟩ := runTable_run hrun
  obtain ⟨hpos, ht₀, hbytes⟩ := (tableCreate_spec env initialCapacity log).2 t₀ hcreated
  exact Traced.runAll_guarded _ ok (fun t _ => Inv t) (fun t log call => hstep t log call)
    calls _ _ (hguard t₀ hcreated) (ht₀ ▸ hfresh hpos hbytes)

/-- What holds of the created table, and is preserved by every outcome of the calls of the run,
holds of the table that the run leaves. -/
theorem runTable_invariant {env : Env (Event α)} {initialCapacity : UInt64}
    {calls : List (TableCall α)} (Inv : Hashtable α → Prop)
    (hfresh : initialCapacity ≠ 0 →
      (roundCapacity initialCapacity).toNat * SIZEOF_BUCKET < 2 ^ 64 →
      Inv (fresh (roundCapacity initialCapacity)))
    (hstep : ∀ call ∈ calls, ∀ t t' code ds, Outcome env t call code t' ds → Inv t → Inv t')
    {log : List (Event α)} {t : Hashtable α}
    (hrun : ((runTable env initialCapacity calls).run log).1 = some t) : Inv t := by
  have hguard : RunGuarded env (fun _ _ call => call ∈ calls) initialCapacity calls log :=
    fun _ _ => Traced.guarded_of_forall _ (fun _ hi _ _ => hi) _ _
  refine runTable_guarded Inv hfresh (fun t log call hcall ht => ?_) hguard hrun
  obtain ⟨code, ds, cs, hout, -⟩ := call.run_spec env t log
  exact hstep call hcall _ _ _ _ hout ht

end SimpleCDatabase
